import Qmk.Lib.LittleEndian
import Qmk.Painter.Stream

/-!
# The graphics file reader

A graphics file is a row of blocks, each behind a header with its type and length.
The table of frame offsets says where the blocks of a frame begin.
-/

namespace Qmk.Painter

open Qmk.Lib

/-! ## Blocks -/

/-- `qgf_block_header_v1_t`, of 5 bytes. -/
structure BlockHeader where
  typeId : BitVec 8
  negTypeId : BitVec 8
  length : BitVec 24

def BlockHeader.ofBytes (bytes : List (BitVec 8)) : BlockHeader where
  typeId := .ofNat 8 (leField 0 1 bytes)
  negTypeId := .ofNat 8 (leField 1 1 bytes)
  length := .ofNat 24 (leField 2 3 bytes)

/-- `qgf_graphics_descriptor_v1_t`, of 23 bytes. -/
structure GraphicsDescriptor where
  header : BlockHeader
  magic : BitVec 24
  qgfVersion : BitVec 8
  totalFileSize : BitVec 32
  negTotalFileSize : BitVec 32
  imageWidth : BitVec 16
  imageHeight : BitVec 16
  frameCount : BitVec 16

def GraphicsDescriptor.ofBytes (bytes : List (BitVec 8)) : GraphicsDescriptor where
  header := .ofBytes bytes
  magic := .ofNat 24 (leField 5 3 bytes)
  qgfVersion := .ofNat 8 (leField 8 1 bytes)
  totalFileSize := .ofNat 32 (leField 9 4 bytes)
  negTotalFileSize := .ofNat 32 (leField 13 4 bytes)
  imageWidth := .ofNat 16 (leField 17 2 bytes)
  imageHeight := .ofNat 16 (leField 19 2 bytes)
  frameCount := .ofNat 16 (leField 21 2 bytes)

/-- `qgf_frame_v1_t`, of 11 bytes, less the transparency index, which nothing reads. -/
structure FrameDescriptor where
  header : BlockHeader
  format : BitVec 8
  flags : BitVec 8
  compressionScheme : BitVec 8
  delay : BitVec 16

def FrameDescriptor.ofBytes (bytes : List (BitVec 8)) : FrameDescriptor where
  header := .ofBytes bytes
  format := .ofNat 8 (leField 5 1 bytes)
  flags := .ofNat 8 (leField 6 1 bytes)
  compressionScheme := .ofNat 8 (leField 7 1 bytes)
  delay := .ofNat 16 (leField 9 2 bytes)

/-- `qgf_delta_v1_t`, of 13 bytes. -/
structure DeltaDescriptor where
  header : BlockHeader
  left : BitVec 16
  top : BitVec 16
  right : BitVec 16
  bottom : BitVec 16

def DeltaDescriptor.ofBytes (bytes : List (BitVec 8)) : DeltaDescriptor where
  header := .ofBytes bytes
  left := .ofNat 16 (leField 5 2 bytes)
  top := .ofNat 16 (leField 7 2 bytes)
  right := .ofNat 16 (leField 9 2 bytes)
  bottom := .ofNat 16 (leField 11 2 bytes)

def qgfMagic : BitVec 24 := 0x464751

/-- A negative length stands for any. -/
def qgfValidateBlockHeader (desc : BlockHeader) (expectedTypeid : BitVec 8)
    (expectedLength : Int) : Bool :=
  if desc.typeId ≠ expectedTypeid ∨ desc.negTypeId ≠ ~~~ expectedTypeid then
    false
  else if 0 ≤ expectedLength ∧ (desc.length.toNat : Int) ≠ expectedLength then
    false
  else
    true

/-! ## Formats -/

structure Format where
  bpp : Nat
  hasPalette : Bool
  isPanelNative : Bool
  deriving DecidableEq

/-- The formats in the order of `qp_image_format_t`. -/
def formats : List Format :=
  [⟨1, false, false⟩, ⟨2, false, false⟩, ⟨4, false, false⟩, ⟨8, false, false⟩,
    ⟨1, true, false⟩, ⟨2, true, false⟩, ⟨4, true, false⟩, ⟨8, true, false⟩,
    ⟨16, false, true⟩, ⟨24, false, true⟩]

/-- `RGB888_24BPP` is the last of them. -/
def qgfParseFormat (format : BitVec 8) : Option Format :=
  if 9 < format.toNat then none else formats[format.toNat]?

/-- `qgf_frame_info_t`, which the callers start off with zeros. -/
structure FrameInfo where
  compressionScheme : BitVec 8 := 0
  bpp : Nat := 0
  hasPalette : Bool := false
  isPanelNative : Bool := false
  isDelta : Bool := false
  left : BitVec 16 := 0
  top : BitVec 16 := 0
  right : BitVec 16 := 0
  bottom : BitVec 16 := 0
  delay : BitVec 16 := 0

/-- The fields of an unknown format are left as they were. -/
def qgfParseFrameDescriptor (desc : FrameDescriptor) (info : FrameInfo) : FrameInfo :=
  let info :=
    match qgfParseFormat desc.format with
    | none => info
    | some format =>
        { info with
          bpp := format.bpp
          hasPalette := format.hasPalette
          isPanelNative := format.isPanelNative }
  { info with
    isDelta := desc.flags &&& 0x02 == 0x02
    compressionScheme := desc.compressionScheme
    delay := desc.delay }

/-! ## The descriptors of a stream -/

section Read

variable (stream : MemoryStream)

def qgfReadGraphicsDescriptor : Option GraphicsDescriptor × MemoryStream :=
  let read := (stream.setpos 0).2.read 23
  match read.1 with
  | none => (none, read.2)
  | some bytes =>
      let desc := GraphicsDescriptor.ofBytes bytes
      if qgfValidateBlockHeader desc.header 0x00 18 = false then
        (none, read.2)
      else if desc.magic ≠ qgfMagic ∨ desc.qgfVersion ≠ 0x01 then
        (none, read.2)
      else if desc.negTotalFileSize ≠ ~~~ desc.totalFileSize then
        (none, read.2)
      else
        (some desc, read.2)

def qgfReadFrameOffset (frameNumber : Nat) : Option (BitVec 32) × MemoryStream :=
  let graphics := qgfReadGraphicsDescriptor stream
  match graphics.1 with
  | none => (none, graphics.2)
  | some desc =>
      let read := graphics.2.read 5
      match read.1 with
      | none => (none, read.2)
      | some bytes =>
          if qgfValidateBlockHeader (.ofBytes bytes) 0x01 (desc.frameCount.toNat * 4 : Nat) =
              false then
            (none, read.2)
          else if desc.frameCount.toNat ≤ frameNumber then
            (none, read.2)
          else
            -- the result of the seek is dropped
            let entry := (read.2.seek (.ofNat 32 (frameNumber * 4)) .seekCur).2.read 4
            (entry.1.map fun bytes => .ofNat 32 (leValue bytes), entry.2)

/-- Without an offset the stream is back at its start. -/
def qgfSeekToFrameDescriptor (frameNumber : Nat) : MemoryStream :=
  let offset := qgfReadFrameOffset stream frameNumber
  (offset.2.setpos (offset.1.getD 0)).2

/-! ## Validation -/

def qgfValidateFrameDescriptor (frameNumber : Nat) (info : FrameInfo) :
    Option FrameInfo × MemoryStream :=
  let read := (qgfSeekToFrameDescriptor stream frameNumber).read 11
  match read.1 with
  | none => (none, read.2)
  | some bytes =>
      if qgfValidateBlockHeader (FrameDescriptor.ofBytes bytes).header 0x02 6 = false then
        (none, read.2)
      else
        (some (qgfParseFrameDescriptor (.ofBytes bytes) info), read.2)

def qgfValidatePaletteDescriptor (bpp : Nat) : Bool × MemoryStream :=
  let read := stream.read 5
  match read.1 with
  | none => (false, read.2)
  | some bytes =>
      let expectedLength := 2 ^ bpp * 3
      if qgfValidateBlockHeader (.ofBytes bytes) 0x03 (expectedLength : Nat) = false then
        (false, read.2)
      else
        (true, (read.2.seek (.ofNat 32 expectedLength) .seekCur).2)

def qgfValidateDeltaDescriptor : Bool × MemoryStream :=
  let read := stream.read 13
  match read.1 with
  | none => (false, read.2)
  | some bytes =>
      (qgfValidateBlockHeader (DeltaDescriptor.ofBytes bytes).header 0x04 8, read.2)

def qgfValidateFrameDataDescriptor : Bool × MemoryStream :=
  let read := stream.read 5
  match read.1 with
  | none => (false, read.2)
  | some bytes => (qgfValidateBlockHeader (.ofBytes bytes) 0x05 (-1), read.2)

/-- The body of the loop of `qgf_validate_stream`. -/
def qgfValidateFrame (frameNumber : Nat) : Bool × MemoryStream :=
  let descriptor := qgfValidateFrameDescriptor stream frameNumber {}
  match descriptor.1 with
  | none => (false, descriptor.2)
  | some info =>
      let palette :=
        if info.hasPalette = true then qgfValidatePaletteDescriptor descriptor.2 info.bpp
        else (true, descriptor.2)
      if palette.1 = false then
        palette
      else
        let delta :=
          if info.isDelta = true then qgfValidateDeltaDescriptor palette.2
          else (true, palette.2)
        if delta.1 = false then delta else qgfValidateFrameDataDescriptor delta.2

def qgfValidateFrames : Nat → Nat → MemoryStream → Bool × MemoryStream
  | 0, _, stream => (true, stream)
  | remaining + 1, i, stream =>
      let frame := qgfValidateFrame stream i
      if frame.1 = false then frame else qgfValidateFrames remaining (i + 1) frame.2

def qgfValidateStream : Bool × MemoryStream :=
  let graphics := qgfReadGraphicsDescriptor stream
  match graphics.1 with
  | none => (false, graphics.2)
  | some desc => qgfValidateFrames desc.frameCount.toNat 0 graphics.2

def qgfGetTotalSize : Nat × MemoryStream :=
  let oldpos := stream.position
  let graphics := qgfReadGraphicsDescriptor stream
  match graphics.1 with
  | none => (0, graphics.2)
  | some desc => (desc.totalFileSize.toNat, (graphics.2.setpos (.ofNat 32 oldpos)).2)

end Read

/-! ## What the reads give -/

variable {stream : MemoryStream} {frameNumber : Nat}

theorem qgfReadGraphicsDescriptor_buffer :
    (qgfReadGraphicsDescriptor stream).2.buffer = stream.buffer := by
  have hread : ((stream.setpos 0).2.read 23).2.buffer = stream.buffer :=
    (MemoryStream.read_buffer 23).trans (stream.setpos_buffer 0)
  unfold qgfReadGraphicsDescriptor
  extract_lets read
  cases read.1 with
  | none => exact hread
  | some bytes =>
      dsimp only
      split
      · exact hread
      · split
        · exact hread
        · split
          · exact hread
          · exact hread

/-- The descriptor is read from the start, wherever the stream stood. -/
theorem qgfReadGraphicsDescriptor_rewind :
    qgfReadGraphicsDescriptor stream = qgfReadGraphicsDescriptor { buffer := stream.buffer } := by
  unfold qgfReadGraphicsDescriptor
  rw [MemoryStream.setpos_zero, MemoryStream.setpos_zero]

theorem qgfReadGraphicsDescriptor_some {desc : GraphicsDescriptor}
    (h : (qgfReadGraphicsDescriptor stream).1 = some desc) :
    23 ≤ stream.buffer.length ∧ desc = .ofBytes (stream.buffer.take 23) ∧
      qgfValidateBlockHeader desc.header 0x00 18 = true ∧
      (qgfReadGraphicsDescriptor stream).2 = { buffer := stream.buffer, position := 23 } := by
  unfold qgfReadGraphicsDescriptor at h ⊢
  rw [MemoryStream.setpos_zero] at h ⊢
  dsimp only at h ⊢
  cases hread : (MemoryStream.read 23 { buffer := stream.buffer }).1 with
  | none =>
      rw [hread] at h
      cases h
  | some bytes =>
      obtain ⟨hlength, hbytes, hafter⟩ := MemoryStream.read_some (by decide) hread
      rw [hread] at h
      dsimp only at h hlength hbytes hafter ⊢
      rw [Nat.zero_add] at hlength hafter
      rw [List.drop_zero] at hbytes
      split at h
      · cases h
      · rename_i hheader
        rw [if_neg hheader]
        split at h
        · cases h
        · rename_i hmagic
          rw [if_neg hmagic]
          split at h
          · cases h
          · rename_i hsize
            rw [if_neg hsize]
            subst hbytes
            cases h
            exact ⟨hlength, rfl, Bool.eq_true_of_not_eq_false hheader, hafter⟩

/-- Where the entry of a frame is read. -/
def entryPosition (buffer : List (BitVec 8)) (frameNumber : Nat) : Nat :=
  if 28 + frameNumber * 4 ≤ buffer.length then 28 + frameNumber * 4 else 28

theorem qgfReadFrameOffset_buffer :
    (qgfReadFrameOffset stream frameNumber).2.buffer = stream.buffer := by
  have hgraphics : (qgfReadGraphicsDescriptor stream).2.buffer = stream.buffer :=
    qgfReadGraphicsDescriptor_buffer
  unfold qgfReadFrameOffset
  extract_lets graphics
  cases graphics.1 with
  | none => exact hgraphics
  | some desc =>
      dsimp only
      have hread : (graphics.2.read 5).2.buffer = stream.buffer :=
        (MemoryStream.read_buffer 5).trans hgraphics
      cases (graphics.2.read 5).1 with
      | none => exact hread
      | some bytes =>
          dsimp only
          split
          · exact hread
          · split
            · exact hread
            · exact (MemoryStream.read_buffer 4).trans
                ((MemoryStream.seek_buffer _ _ _).trans hread)

theorem qgfReadFrameOffset_rewind :
    qgfReadFrameOffset stream frameNumber =
      qgfReadFrameOffset { buffer := stream.buffer } frameNumber := by
  unfold qgfReadFrameOffset
  rw [qgfReadGraphicsDescriptor_rewind]

theorem qgfReadFrameOffset_some {offset : BitVec 32}
    (h : (qgfReadFrameOffset stream frameNumber).1 = some offset) :
    entryPosition stream.buffer frameNumber + 4 ≤ stream.buffer.length ∧
      offset = .ofNat 32 (leField (entryPosition stream.buffer frameNumber) 4 stream.buffer) ∧
      (qgfReadFrameOffset stream frameNumber).2 =
        { buffer := stream.buffer
          position := entryPosition stream.buffer frameNumber + 4 } := by
  unfold qgfReadFrameOffset at h ⊢
  dsimp only at h ⊢
  cases hgraphics : (qgfReadGraphicsDescriptor stream).1 with
  | none =>
      rw [hgraphics] at h
      cases h
  | some desc =>
      obtain ⟨-, -, -, hstart⟩ := qgfReadGraphicsDescriptor_some hgraphics
      rw [hgraphics, hstart] at h
      rw [hstart]
      dsimp only at h ⊢
      cases hread : (MemoryStream.read 5 { buffer := stream.buffer, position := 23 }).1 with
      | none =>
          rw [hread] at h
          cases h
      | some bytes =>
          obtain ⟨hinside, -, hafter⟩ := MemoryStream.read_some (by decide) hread
          rw [hread] at h
          dsimp only at h hinside ⊢
          rw [hafter] at h ⊢
          split at h
          · cases h
          · rename_i hheader
            rw [if_neg hheader]
            split at h
            · cases h
            · rename_i hcount
              rw [if_neg hcount]
              have hsmall : (BitVec.ofNat 32 (frameNumber * 4)).toNat = frameNumber * 4 := by
                rw [BitVec.toNat_ofNat, Nat.mod_eq_of_lt (by omega)]
              have hseek : (MemoryStream.seek { buffer := stream.buffer, position := 23 + 5 }
                  (.ofNat 32 (frameNumber * 4)) .seekCur).2 =
                  { buffer := stream.buffer
                    position := entryPosition stream.buffer frameNumber } := by
                rw [MemoryStream.seekCur_eq _ (by omega), hsmall, entryPosition]
                dsimp only
                split <;> rfl
              rw [hseek] at h ⊢
              obtain ⟨entry, hentry, rfl⟩ := Option.map_eq_some_iff.mp h
              obtain ⟨hentryInside, hbytes, hentryAfter⟩ :=
                MemoryStream.read_some (by decide) hentry
              subst hbytes
              exact ⟨hentryInside, rfl, hentryAfter⟩

/-- Where the blocks of a frame are read. -/
def framePosition (stream : MemoryStream) (frameNumber : Nat) : Nat :=
  let entry := entryPosition stream.buffer frameNumber
  let offset : BitVec 32 := .ofNat 32 (leField entry 4 stream.buffer)
  if stream.Reaches offset then offset.toNat else entry + 4

theorem qgfSeekToFrameDescriptor_rewind :
    qgfSeekToFrameDescriptor stream frameNumber =
      qgfSeekToFrameDescriptor { buffer := stream.buffer } frameNumber := by
  unfold qgfSeekToFrameDescriptor
  rw [qgfReadFrameOffset_rewind]

theorem qgfSeekToFrameDescriptor_some {offset : BitVec 32}
    (h : (qgfReadFrameOffset stream frameNumber).1 = some offset) :
    qgfSeekToFrameDescriptor stream frameNumber =
      { buffer := stream.buffer, position := framePosition stream frameNumber } := by
  obtain ⟨-, hoffset, hafter⟩ := qgfReadFrameOffset_some h
  unfold qgfSeekToFrameDescriptor
  extract_lets read
  have hread : read.1 = some offset := h
  have hrest : read.2 =
      { buffer := stream.buffer
        position := entryPosition stream.buffer frameNumber + 4 } := hafter
  rw [hread, hrest, Option.getD_some, MemoryStream.setpos_eq, framePosition, ← hoffset]
  have hreaches : MemoryStream.Reaches
      { buffer := stream.buffer
        position := entryPosition stream.buffer frameNumber + 4 } offset ↔
      stream.Reaches offset := Iff.rfl
  by_cases hinside : stream.Reaches offset
  · rw [if_pos (hreaches.mpr hinside), if_pos hinside]
  · rw [if_neg (mt hreaches.mp hinside), if_neg hinside]

theorem qgfSeekToFrameDescriptor_none
    (h : (qgfReadFrameOffset stream frameNumber).1 = none) :
    qgfSeekToFrameDescriptor stream frameNumber = { buffer := stream.buffer } := by
  unfold qgfSeekToFrameDescriptor
  dsimp only
  rw [h, Option.getD_none, MemoryStream.setpos_zero, qgfReadFrameOffset_buffer]

/-! ## What validation has seen -/

theorem BlockHeader.ofBytes_take {count : Nat} (h : 5 ≤ count) (bytes : List (BitVec 8)) :
    BlockHeader.ofBytes (bytes.take count) = BlockHeader.ofBytes bytes := by
  unfold BlockHeader.ofBytes
  rw [leField_take (by omega), leField_take (by omega), leField_take (by omega)]

theorem GraphicsDescriptor.ofBytes_take (bytes : List (BitVec 8)) :
    GraphicsDescriptor.ofBytes (bytes.take 23) = GraphicsDescriptor.ofBytes bytes := by
  unfold GraphicsDescriptor.ofBytes
  simp only [BlockHeader.ofBytes_take, leField_take, Nat.reduceLeDiff, Nat.reduceAdd]

theorem FrameDescriptor.ofBytes_take (bytes : List (BitVec 8)) :
    FrameDescriptor.ofBytes (bytes.take 11) = FrameDescriptor.ofBytes bytes := by
  unfold FrameDescriptor.ofBytes
  simp only [BlockHeader.ofBytes_take, leField_take, Nat.reduceLeDiff, Nat.reduceAdd]

theorem qgfValidateBlockHeader_typeId {desc : BlockHeader} {typeId : BitVec 8} {length : Int}
    (h : qgfValidateBlockHeader desc typeId length = true) : desc.typeId = typeId := by
  unfold qgfValidateBlockHeader at h
  split at h
  · exact absurd h Bool.false_ne_true
  · rename_i hids
    exact Decidable.not_not.mp fun hne => hids (.inl hne)

theorem qgfValidatePaletteDescriptor_buffer (bpp : Nat) :
    (qgfValidatePaletteDescriptor stream bpp).2.buffer = stream.buffer := by
  have hread : (stream.read 5).2.buffer = stream.buffer := MemoryStream.read_buffer 5
  unfold qgfValidatePaletteDescriptor
  dsimp only
  cases (stream.read 5).1 with
  | none => exact hread
  | some bytes =>
      dsimp only
      split
      · exact hread
      · exact (MemoryStream.seek_buffer _ _ _).trans hread

theorem qgfValidateDeltaDescriptor_buffer :
    (qgfValidateDeltaDescriptor stream).2.buffer = stream.buffer := by
  have hread : (stream.read 13).2.buffer = stream.buffer := MemoryStream.read_buffer 13
  unfold qgfValidateDeltaDescriptor
  dsimp only
  cases (stream.read 13).1 with
  | none => exact hread
  | some bytes => exact hread

theorem qgfValidateFrameDataDescriptor_buffer :
    (qgfValidateFrameDataDescriptor stream).2.buffer = stream.buffer := by
  have hread : (stream.read 5).2.buffer = stream.buffer := MemoryStream.read_buffer 5
  unfold qgfValidateFrameDataDescriptor
  dsimp only
  cases (stream.read 5).1 with
  | none => exact hread
  | some bytes => exact hread

theorem qgfValidateFrameDescriptor_buffer (info : FrameInfo) :
    (qgfValidateFrameDescriptor stream frameNumber info).2.buffer = stream.buffer := by
  have hseek : (qgfSeekToFrameDescriptor stream frameNumber).buffer = stream.buffer :=
    (MemoryStream.setpos_buffer _ _).trans qgfReadFrameOffset_buffer
  have hread : ((qgfSeekToFrameDescriptor stream frameNumber).read 11).2.buffer =
      stream.buffer := (MemoryStream.read_buffer 11).trans hseek
  unfold qgfValidateFrameDescriptor
  dsimp only
  cases ((qgfSeekToFrameDescriptor stream frameNumber).read 11).1 with
  | none => exact hread
  | some bytes =>
      dsimp only
      split
      · exact hread
      · exact hread

theorem qgfValidateFrame_buffer :
    (qgfValidateFrame stream frameNumber).2.buffer = stream.buffer := by
  have hdescriptor := @qgfValidateFrameDescriptor_buffer stream frameNumber {}
  unfold qgfValidateFrame
  dsimp only
  cases (qgfValidateFrameDescriptor stream frameNumber {}).1 with
  | none => exact hdescriptor
  | some info =>
      dsimp only
      generalize hpalette : (if info.hasPalette = true then
        qgfValidatePaletteDescriptor (qgfValidateFrameDescriptor stream frameNumber {}).2 info.bpp
        else (true, (qgfValidateFrameDescriptor stream frameNumber {}).2)) = palette
      have hpaletteBuffer : palette.2.buffer = stream.buffer := by
        rw [← hpalette]
        split
        · exact (qgfValidatePaletteDescriptor_buffer _).trans hdescriptor
        · exact hdescriptor
      split
      · exact hpaletteBuffer
      · generalize hdelta : (if info.isDelta = true then
          qgfValidateDeltaDescriptor palette.2 else (true, palette.2)) = delta
        have hdeltaBuffer : delta.2.buffer = stream.buffer := by
          rw [← hdelta]
          split
          · exact qgfValidateDeltaDescriptor_buffer.trans hpaletteBuffer
          · exact hpaletteBuffer
        split
        · exact hdeltaBuffer
        · exact qgfValidateFrameDataDescriptor_buffer.trans hdeltaBuffer

theorem qgfValidateFrame_rewind :
    qgfValidateFrame stream frameNumber =
      qgfValidateFrame { buffer := stream.buffer } frameNumber := by
  unfold qgfValidateFrame qgfValidateFrameDescriptor
  rw [qgfSeekToFrameDescriptor_rewind]

theorem qgfValidateFrames_iff (remaining i : Nat) (stream : MemoryStream) :
    (qgfValidateFrames remaining i stream).1 = true ↔
      ∀ frameNumber, i ≤ frameNumber → frameNumber < i + remaining →
        (qgfValidateFrame { buffer := stream.buffer } frameNumber).1 = true := by
  induction remaining generalizing i stream with
  | zero => exact iff_of_true rfl fun _ _ _ => by omega
  | succ remaining ih =>
      unfold qgfValidateFrames
      dsimp only
      have hfirst : (qgfValidateFrame stream i).1 =
          (qgfValidateFrame { buffer := stream.buffer } i).1 := by
        rw [qgfValidateFrame_rewind]
      split
      · rename_i hfalse
        refine iff_of_false (fun h => Bool.false_ne_true (hfalse.symm.trans h)) fun hall => ?_
        have htrue := hall i (Nat.le_refl i) (by omega)
        exact Bool.false_ne_true (hfalse.symm.trans (hfirst.trans htrue))
      · rename_i htrue
        rw [ih, qgfValidateFrame_buffer]
        refine ⟨fun h frameNumber hle hlt => ?_, fun h frameNumber hle hlt =>
          h frameNumber (by omega) (by omega)⟩
        by_cases heq : frameNumber = i
        · rw [heq, ← hfirst]
          exact Bool.eq_true_of_not_eq_false htrue
        · exact h frameNumber (by omega) (by omega)

theorem qgfValidateStream_iff :
    (qgfValidateStream stream).1 = true ↔
      ∃ desc, (qgfReadGraphicsDescriptor stream).1 = some desc ∧
        ∀ frameNumber < desc.frameCount.toNat,
          (qgfValidateFrame { buffer := stream.buffer } frameNumber).1 = true := by
  unfold qgfValidateStream
  dsimp only
  cases (qgfReadGraphicsDescriptor stream).1 with
  | none => exact ⟨fun h => absurd h Bool.false_ne_true, fun ⟨_, h, _⟩ => nomatch h⟩
  | some desc =>
      dsimp only
      rw [qgfValidateFrames_iff, qgfReadGraphicsDescriptor_buffer]
      constructor
      · intro h
        exact ⟨desc, rfl, fun frameNumber hlt => h frameNumber (Nat.zero_le _) (by omega)⟩
      · rintro ⟨_, ⟨⟩, h⟩ frameNumber - hlt
        exact h frameNumber (by omega)

theorem qgfValidateFrameDescriptor_some {desc : GraphicsDescriptor} {start info : FrameInfo}
    (hgraphics : (qgfReadGraphicsDescriptor stream).1 = some desc)
    (h : (qgfValidateFrameDescriptor stream frameNumber start).1 = some info) :
    (∃ offset, (qgfReadFrameOffset stream frameNumber).1 = some offset) ∧
      framePosition stream frameNumber + 11 ≤ stream.buffer.length ∧
      info = qgfParseFrameDescriptor
        (.ofBytes (stream.buffer.drop (framePosition stream frameNumber))) start ∧
      (qgfValidateFrameDescriptor stream frameNumber start).2 =
        { buffer := stream.buffer
          position := framePosition stream frameNumber + 11 } := by
  obtain ⟨hlength, hdesc, hheader, -⟩ := qgfReadGraphicsDescriptor_some hgraphics
  unfold qgfValidateFrameDescriptor at h ⊢
  cases hoffset : (qgfReadFrameOffset stream frameNumber).1 with
  | none =>
      -- the start of the stream holds no frame descriptor
      rw [qgfSeekToFrameDescriptor_none hoffset] at h
      have hinside : 0 + 11 ≤ stream.buffer.length := by omega
      dsimp only at h
      rw [MemoryStream.read_inside hinside] at h
      dsimp only at h
      rw [List.drop_zero, FrameDescriptor.ofBytes_take] at h
      rw [hdesc, GraphicsDescriptor.ofBytes_take] at hheader
      have hgraphicsId : (BlockHeader.ofBytes stream.buffer).typeId = 0x00 :=
        qgfValidateBlockHeader_typeId hheader
      split at h
      · cases h
      · rename_i hframe
        have hframeId : (BlockHeader.ofBytes stream.buffer).typeId = 0x02 :=
          qgfValidateBlockHeader_typeId (Bool.eq_true_of_not_eq_false hframe)
        rw [hgraphicsId] at hframeId
        cases hframeId
  | some offset =>
      rw [qgfSeekToFrameDescriptor_some hoffset] at h ⊢
      dsimp only at h ⊢
      cases hread : (MemoryStream.read 11
          { buffer := stream.buffer, position := framePosition stream frameNumber }).1 with
      | none =>
          rw [hread] at h
          cases h
      | some bytes =>
          obtain ⟨hinside, hbytes, hafter⟩ := MemoryStream.read_some (by decide) hread
          rw [hread, hafter] at h
          rw [hafter]
          dsimp only at h hbytes ⊢
          rw [hbytes, FrameDescriptor.ofBytes_take] at h ⊢
          split at h
          · cases h
          · rename_i hheader
            rw [if_neg hheader]
            cases h
            exact ⟨⟨offset, rfl⟩, hinside, rfl, rfl⟩

theorem qgfValidatePaletteDescriptor_inside {bpp : Nat}
    (h : (qgfValidatePaletteDescriptor stream bpp).1 = true) :
    stream.position + 5 ≤ stream.buffer.length := by
  unfold qgfValidatePaletteDescriptor at h
  dsimp only at h
  cases hread : (stream.read 5).1 with
  | none =>
      rw [hread] at h
      exact absurd h Bool.false_ne_true
  | some bytes => exact (MemoryStream.read_some (by decide) hread).1

/-- The blocks that validation has seen: the frame descriptor, and the header of a palette. -/
structure FrameSeen (stream : MemoryStream) (frameNumber : Nat) : Prop where
  offset : ∃ offset, (qgfReadFrameOffset stream frameNumber).1 = some offset
  descriptor : framePosition stream frameNumber + 11 ≤ stream.buffer.length
  palette : (qgfParseFrameDescriptor
      (.ofBytes (stream.buffer.drop (framePosition stream frameNumber))) {}).hasPalette = true →
    framePosition stream frameNumber + 16 ≤ stream.buffer.length

theorem qgfValidateFrame_seen {desc : GraphicsDescriptor}
    (hgraphics : (qgfReadGraphicsDescriptor stream).1 = some desc)
    (h : (qgfValidateFrame stream frameNumber).1 = true) : FrameSeen stream frameNumber := by
  unfold qgfValidateFrame at h
  dsimp only at h
  cases hframe : (qgfValidateFrameDescriptor stream frameNumber {}).1 with
  | none =>
      rw [hframe] at h
      exact absurd h Bool.false_ne_true
  | some info =>
      obtain ⟨hoffset, hinside, hinfo, hafter⟩ :=
        qgfValidateFrameDescriptor_some hgraphics hframe
      refine ⟨hoffset, hinside, fun hpalette => ?_⟩
      rw [hframe, hafter] at h
      dsimp only at h
      rw [← hinfo] at hpalette
      rw [if_pos hpalette] at h
      have hseen : (qgfValidatePaletteDescriptor
          { buffer := stream.buffer
            position := framePosition stream frameNumber + 11 } info.bpp).1 = true := by
        split at h
        · rename_i hfalse
          exact absurd (hfalse.symm.trans h) Bool.false_ne_true
        · rename_i htrue
          exact Bool.eq_true_of_not_eq_false htrue
      exact qgfValidatePaletteDescriptor_inside hseen

end Qmk.Painter
