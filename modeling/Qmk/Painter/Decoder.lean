import Qmk.Painter.Compress
import Qmk.Painter.Pack

/-!
# The pixel decoder

The decoder pulls bytes through a callback, which reads them from a stream as they
are or unpacks the runs, and pushes the pixels of each byte.
-/

namespace Qmk.Painter

/-! ## Streams and byte callbacks -/

/-- `qp_memory_stream_t`. -/
structure MemoryStream where
  buffer : List (BitVec 8)
  position : Nat := 0
  isEof : Bool := false

def streamEof : BitVec 16 := BitVec.ofInt 16 (-1)

def MemoryStream.get (stream : MemoryStream) : BitVec 16 × MemoryStream :=
  match stream.buffer[stream.position]? with
  | none => (streamEof, { stream with isEof := true })
  | some byte => (byte.setWidth 16, { stream with position := stream.position + 1 })

inductive RleMode
  | markerByte
  | repeatingRun
  | nonRepeatingRun
  deriving DecidableEq

/-- `qp_internal_byte_input_state_t`, less its device. -/
structure ByteInputState where
  srcStream : MemoryStream
  curr : BitVec 16 := 0
  mode : RleMode := .markerByte
  remain : BitVec 8 := 0

abbrev ByteInputCallback := ByteInputState → BitVec 16 × ByteInputState

def ByteInputState.pull (s : ByteInputState) : ByteInputState :=
  { s with curr := s.srcStream.get.1, srcStream := s.srcStream.get.2 }

def byteUncompressedDecoder : ByteInputCallback := fun s => (s.pull.curr, s.pull)

/-- The marker byte and the first byte of its run. -/
def ByteInputState.marker (s : ByteInputState) : ByteInputState :=
  if s.mode = .markerByte then
    let c : BitVec 8 := s.srcStream.get.1.setWidth 8
    let s := { s with srcStream := s.srcStream.get.2 }
    if 128 ≤ c.toNat then
      { s with mode := .nonRepeatingRun, remain := c - 127 }.pull
    else
      { s with mode := .repeatingRun, remain := c }.pull
  else s

/-- The byte is spent, and the next one of its run queued up. -/
def ByteInputState.advance (s : ByteInputState) : ByteInputState :=
  let s := { s with remain := s.remain - 1 }
  if 0 < s.remain.toNat then
    if s.mode = .nonRepeatingRun then s.pull else s
  else
    { s with mode := .markerByte }

def byteRleDecoder : ByteInputCallback := fun s =>
  let c : BitVec 8 := s.marker.curr.setWidth 8
  (c.setWidth 16, s.marker.advance)

inductive Compression
  | uncompressed
  | rle

def Compression.encode : Compression → List Nat → List Nat
  | .uncompressed, bytes => bytes
  | .rle, bytes => compressBytesQmkRle bytes

/-- `qp_internal_prepare_input_state`. -/
def Compression.decoder : Compression → ByteInputCallback
  | .uncompressed => byteUncompressedDecoder
  | .rle => byteRleDecoder

def prepareInputState (bytes : List Nat) : ByteInputState :=
  { srcStream := { buffer := bytes.map (BitVec.ofNat 8) } }

/-! ## `qp_internal_decode_palette` -/

section Decode

variable {σ τ : Type _}

/-- The pixels of one byte. -/
def pushPixels (bitsPerPixel : Nat) (output : BitVec 8 → τ → Bool × τ) :
    Nat → BitVec 16 → τ → Bool × τ
  | 0, _, t => (true, t)
  | count + 1, byteval, t =>
      let pixelBitmask : BitVec 8 := (1#8 <<< bitsPerPixel) - 1
      let sent := output ((byteval &&& pixelBitmask.setWidth 16).setWidth 8) t
      if sent.1 then
        pushPixels bitsPerPixel output count (byteval.sshiftRight bitsPerPixel) sent.2
      else
        (false, sent.2)

def decodeLoop (bitsPerPixel : Nat) (input : σ → BitVec 16 × σ)
    (output : BitVec 8 → τ → Bool × τ) : Nat → Nat → σ → τ → Option (Bool × σ × τ)
  | _, 0, s, t => some (true, s, t)
  | 0, _ + 1, _, _ => none
  | fuel + 1, remaining + 1, s, t =>
      let read := input s
      if read.1.msb then
        some (false, read.2, t)
      else
        let loopPixels := min (remaining + 1) (8 / bitsPerPixel)
        let sent := pushPixels bitsPerPixel output loopPixels read.1 t
        if sent.1 then
          decodeLoop bitsPerPixel input output fuel (remaining + 1 - loopPixels) read.2
            sent.2
        else
          some (false, read.2, sent.2)

/-- A round takes at least one pixel, or none for ever, which is `none`. -/
def decodePalette (pixelCount bitsPerPixel : Nat) (input : σ → BitVec 16 × σ)
    (output : BitVec 8 → τ → Bool × τ) (s : σ) (t : τ) : Option (Bool × σ × τ) :=
  decodeLoop bitsPerPixel input output pixelCount pixelCount s t

/-- An output that accepts every pixel and records it. -/
def record (index : BitVec 8) (pixels : List (BitVec 8)) : Bool × List (BitVec 8) :=
  (true, pixels ++ [index])

end Decode

/-! ## What the callbacks supply -/

/-- The callback returns these bytes, and ends in a sound state. -/
def Supplies {σ : Type _} (input : σ → BitVec 16 × σ) (Sound : σ → Prop) :
    List Nat → σ → Prop
  | [], s => Sound s
  | byte :: bytes, s =>
      (input s).1 = BitVec.ofNat 16 byte ∧ Supplies input Sound bytes (input s).2

/-- The stream has these bytes ahead of it, and has not been read past its end. -/
def MemoryStream.Ahead (stream : MemoryStream) (bytes : List Nat) : Prop :=
  stream.buffer.drop stream.position = bytes.map (BitVec.ofNat 8) ∧ stream.isEof = false

/-- The input has not been read past its end. -/
def ByteInputState.Within (s : ByteInputState) : Prop :=
  s.srcStream.isEof = false

theorem setWidth_ofNat {byte : Nat} (hbyte : byte < 2 ^ 8) :
    (BitVec.ofNat 8 byte).setWidth 16 = BitVec.ofNat 16 byte := by
  apply BitVec.eq_of_toNat_eq
  simp
  omega

theorem MemoryStream.get_ahead {stream : MemoryStream} {byte : Nat} {bytes : List Nat}
    (hbyte : byte < 2 ^ 8) (h : stream.Ahead (byte :: bytes)) :
    stream.get.1 = BitVec.ofNat 16 byte ∧ stream.get.2.Ahead bytes := by
  obtain ⟨hdrop, heof⟩ := h
  have hget : stream.buffer[stream.position]? = some (BitVec.ofNat 8 byte) := by
    rw [← List.head?_drop, hdrop]
    rfl
  have htail : stream.buffer.drop (stream.position + 1) = bytes.map (BitVec.ofNat 8) := by
    rw [← List.tail_drop, hdrop]
    rfl
  rw [MemoryStream.get, hget]
  exact ⟨setWidth_ofNat hbyte, htail, heof⟩

theorem supplies_uncompressed {bytes rest : List Nat} (hbytes : ∀ byte ∈ bytes, byte < 2 ^ 8)
    {s : ByteInputState} (h : s.srcStream.Ahead (bytes ++ rest)) :
    Supplies byteUncompressedDecoder ByteInputState.Within bytes s := by
  induction bytes generalizing s with
  | nil => exact h.2
  | cons byte bytes ih =>
      obtain ⟨hvalue, hahead⟩ := MemoryStream.get_ahead (hbytes byte (by simp)) h
      exact ⟨hvalue, ih (fun b hb => hbytes b (List.mem_cons_of_mem _ hb)) hahead⟩

/-! ### Unpacking runs -/

/-- In the middle of a run, these values are yet to be returned. -/
inductive ByteInputState.InRun (tail : List Nat) (s : ByteInputState) : List Nat → Prop
  | repeating {count value : Nat} {runs : List Run} (mode : s.mode = .repeatingRun)
      (remain : s.remain.toNat = count + 1) (curr : s.curr = BitVec.ofNat 16 value)
      (ahead : s.srcStream.Ahead (runBytes runs ++ tail)) :
      InRun tail s (List.replicate (count + 1) value ++ expandRuns runs)
  | literal {value : Nat} {values : List Nat} {runs : List Run}
      (mode : s.mode = .nonRepeatingRun) (remain : s.remain.toNat = values.length + 1)
      (curr : s.curr = BitVec.ofNat 16 value)
      (ahead : s.srcStream.Ahead (values ++ runBytes runs ++ tail)) :
      InRun tail s (value :: values ++ expandRuns runs)

/-- These values are yet to be returned. -/
inductive ByteInputState.Owes (tail : List Nat) (s : ByteInputState) : List Nat → Prop
  | marker {runs : List Run} (mode : s.mode = .markerByte)
      (ahead : s.srcStream.Ahead (runBytes runs ++ tail)) : Owes tail s (expandRuns runs)
  | inRun {values : List Nat} (h : s.InRun tail values) : Owes tail s values

namespace ByteInputState

variable {tail : List Nat} {s : ByteInputState}

theorem marker_literal {count value : Nat} {bytes : List Nat} (hmode : s.mode = .markerByte)
    (hcount : count < 128) (hvalue : value < 2 ^ 8)
    (hahead : s.srcStream.Ahead ((127 + (count + 1)) :: value :: bytes)) :
    s.marker.mode = .nonRepeatingRun ∧ s.marker.remain.toNat = count + 1 ∧
      s.marker.curr = BitVec.ofNat 16 value ∧ s.marker.srcStream.Ahead bytes := by
  obtain ⟨hmarker, hahead⟩ := MemoryStream.get_ahead (by omega) hahead
  obtain ⟨hcurr, hahead⟩ := MemoryStream.get_ahead hvalue hahead
  have hc : ((BitVec.ofNat 16 (127 + (count + 1))).setWidth 8).toNat = 128 + count := by
    simp
    omega
  have hremain : ((BitVec.ofNat 16 (127 + (count + 1))).setWidth 8 - 127#8).toNat =
      count + 1 := by
    rw [BitVec.toNat_sub, hc]
    simp
    omega
  rw [marker, if_pos hmode, hmarker]
  simp only [hc, Nat.le_add_right, if_true]
  exact ⟨rfl, hremain, hcurr, hahead⟩

theorem marker_repeating {count value : Nat} {bytes : List Nat}
    (hmode : s.mode = .markerByte) (hcount : count < 128) (hvalue : value < 2 ^ 8)
    (hahead : s.srcStream.Ahead (count :: value :: bytes)) :
    s.marker.mode = .repeatingRun ∧ s.marker.remain.toNat = count ∧
      s.marker.curr = BitVec.ofNat 16 value ∧ s.marker.srcStream.Ahead bytes := by
  obtain ⟨hmarker, hahead⟩ := MemoryStream.get_ahead (by omega) hahead
  obtain ⟨hcurr, hahead⟩ := MemoryStream.get_ahead hvalue hahead
  have hc : ((BitVec.ofNat 16 count).setWidth 8).toNat = count := by
    simp
    omega
  rw [marker, if_pos hmode, hmarker]
  simp only [hc, Nat.not_le.mpr hcount, if_false]
  exact ⟨rfl, hc, hcurr, hahead⟩

theorem Owes.marker_inRun {byte : Nat} {values : List Nat}
    (hbytes : ∀ b ∈ byte :: values, b < 2 ^ 8) (h : s.Owes tail (byte :: values)) :
    s.marker.InRun tail (byte :: values) := by
  generalize hall : byte :: values = all at h hbytes
  cases h with
  | inRun h =>
      have hmode : s.mode ≠ .markerByte := by
        cases h with
        | repeating mode => simp [mode]
        | literal mode => simp [mode]
      rw [ByteInputState.marker, if_neg hmode]
      exact h
  | @marker runs mode ahead =>
      rcases runs with _ | ⟨r, runs⟩
      · simp at hall
      cases r with
      | repeated count value pos fits =>
          obtain ⟨count, rfl⟩ := Nat.exists_eq_succ_of_ne_zero (Nat.ne_of_gt pos)
          have hvalue : value < 2 ^ 8 := hbytes value (by simp [Run.expand])
          obtain ⟨hmode, hremain, hcurr, hahead⟩ :=
            marker_repeating mode (by omega) hvalue ahead
          exact .repeating hmode hremain hcurr hahead
      | literal values nonempty fits =>
          rcases values with _ | ⟨value, values⟩
          · contradiction
          have hvalue : value < 2 ^ 8 := hbytes value (by simp [Run.expand])
          have hlength : values.length < 128 := fits
          obtain ⟨hmode, hremain, hcurr, hahead⟩ := marker_literal mode hlength hvalue ahead
          exact .literal hmode hremain hcurr hahead

theorem InRun.advance {byte : Nat} {values : List Nat}
    (hbytes : ∀ b ∈ byte :: values, b < 2 ^ 8) (h : s.InRun tail (byte :: values)) :
    s.curr = BitVec.ofNat 16 byte ∧ s.advance.Owes tail values := by
  generalize hall : byte :: values = all at h hbytes
  cases h with
  | @repeating count value runs mode remain curr ahead =>
      rw [List.replicate_succ, List.cons_append, List.cons.injEq] at hall
      obtain ⟨rfl, rfl⟩ := hall
      refine ⟨curr, ?_⟩
      have hremain : (s.remain - 1).toNat = count := by
        rw [BitVec.toNat_sub, remain]
        simp
        omega
      rw [ByteInputState.advance]
      simp only [hremain]
      rcases count with _ | count
      · exact .marker rfl ahead
      · rw [if_pos (Nat.succ_pos count), if_neg (by simp [mode])]
        exact .inRun (.repeating mode hremain curr ahead)
  | @literal value rest runs mode remain curr ahead =>
      rw [List.cons_append, List.cons.injEq] at hall
      obtain ⟨rfl, rfl⟩ := hall
      refine ⟨curr, ?_⟩
      have hremain : (s.remain - 1).toNat = rest.length := by
        rw [BitVec.toNat_sub, remain]
        simp
        omega
      rw [ByteInputState.advance]
      simp only [hremain]
      rcases rest with _ | ⟨next, rest⟩
      · exact .marker rfl (by simpa using ahead)
      · have hnext : next < 2 ^ 8 := hbytes next (by simp)
        obtain ⟨hcurr, hahead⟩ := MemoryStream.get_ahead hnext ahead
        rw [if_pos (by simp), if_pos mode]
        exact .inRun (.literal mode hremain hcurr hahead)

theorem Owes.within {values : List Nat} (h : s.Owes tail values) : s.Within := by
  cases h with
  | marker mode ahead => exact ahead.2
  | inRun h =>
      cases h with
      | repeating mode remain curr ahead => exact ahead.2
      | literal mode remain curr ahead => exact ahead.2

theorem Owes.supplies {values : List Nat} (hvalues : ∀ value ∈ values, value < 2 ^ 8)
    (h : s.Owes tail values) : Supplies byteRleDecoder Within values s := by
  induction values generalizing s with
  | nil => exact h.within
  | cons value values ih =>
      obtain ⟨hcurr, howes⟩ := (h.marker_inRun hvalues).advance hvalues
      refine ⟨?_, ih (fun v hv => hvalues v (List.mem_cons_of_mem _ hv)) howes⟩
      have hvalue := hvalues value (by simp)
      simp only [byteRleDecoder, hcurr]
      apply BitVec.eq_of_toNat_eq
      simp
      omega

end ByteInputState

/-- Both callbacks supply the bytes whose encoding is ahead of them, whatever comes after it. -/
theorem Compression.supplies_ahead (compression : Compression) {bytes rest : List Nat}
    (hbytes : ∀ byte ∈ bytes, byte < 2 ^ 8) {s : ByteInputState} (hmode : s.mode = .markerByte)
    (hahead : s.srcStream.Ahead (compression.encode bytes ++ rest)) :
    Supplies compression.decoder ByteInputState.Within bytes s := by
  cases compression with
  | uncompressed => exact supplies_uncompressed hbytes hahead
  | rle =>
      obtain ⟨runs, tail, hencode, rfl, -⟩ := compressBytesQmkRle_runs bytes
      rw [Compression.encode, hencode, List.append_assoc] at hahead
      exact ByteInputState.Owes.supplies hbytes (.marker hmode hahead)

/-- Both callbacks supply the bytes that were encoded, none of them past its end. -/
theorem Compression.supplies (compression : Compression) {bytes : List Nat}
    (hbytes : ∀ byte ∈ bytes, byte < 2 ^ 8) :
    Supplies compression.decoder ByteInputState.Within bytes
      (prepareInputState (compression.encode bytes)) := by
  have hahead : (prepareInputState (compression.encode bytes)).srcStream.Ahead
      (compression.encode bytes ++ []) := by
    rw [List.append_nil]
    exact ⟨rfl, rfl⟩
  exact compression.supplies_ahead hbytes rfl hahead

theorem Compression.encode_lt (compression : Compression) {bytes : List Nat}
    (hbytes : ∀ byte ∈ bytes, byte < 2 ^ 8) :
    ∀ byte ∈ compression.encode bytes, byte < 2 ^ 8 := by
  cases compression with
  | uncompressed => exact hbytes
  | rle =>
      obtain ⟨runs, tail, hencode, rfl, htail⟩ := compressBytesQmkRle_runs bytes
      intro byte hbyte
      rw [Compression.encode, hencode, List.mem_append] at hbyte
      rcases hbyte with hmem | hmem
      · exact runBytes_lt hbytes byte hmem
      · exact htail byte hmem

end Qmk.Painter
