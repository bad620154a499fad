import Qmk.Painter.Draw

/-!
# Drawing a validated file

Validation and drawing read the same blocks, each on its own.  What a drawing does is
told from its events: where it reads the frame, what palette it loads, what it divides
by and how many bits a pixel has in the decoder.
-/

namespace Qmk.Painter

open Qmk.Lib

/-! ## Events of a call -/

def finalState {τ ν α : Type} : EStateM.Result Stop (DrawState τ ν) α → DrawState τ ν
  | .ok _ s => s
  | .error _ s => s

section Logs

variable {τ ν α β : Type} {P : Event → Prop} {s s' : DrawState τ ν}

/-- The call adds events, all of which satisfy `P`. -/
def Logs (P : Event → Prop) (m : Draw τ ν α) (s : DrawState τ ν) : Prop :=
  ∃ tail, (finalState (m s)).events = s.events ++ tail ∧ ∀ event ∈ tail, P event

theorem bind_ok {m : Draw τ ν α} {a : α} (f : α → Draw τ ν β) (h : m s = .ok a s') :
    (m >>= f) s = f a s' := by
  change EStateM.bind m f s = f a s'
  rw [EStateM.bind, h]

theorem bind_error {m : Draw τ ν α} {stop : Stop} (f : α → Draw τ ν β)
    (h : m s = .error stop s') : (m >>= f) s = .error stop s' := by
  change EStateM.bind m f s = .error stop s'
  rw [EStateM.bind, h]

theorem modify_ok (f : DrawState τ ν → DrawState τ ν) :
    (modify f : Draw τ ν PUnit) s = .ok ⟨⟩ (f s) := rfl

theorem Logs.of_eq {m : Draw τ ν α} (h : (finalState (m s)).events = s.events) : Logs P m s :=
  ⟨[], h.trans (List.append_nil _).symm, fun _ hmem => nomatch hmem⟩

theorem Logs.pure (a : α) : Logs P (pure a : Draw τ ν α) s := .of_eq rfl

theorem Logs.throw (stop : Stop) : Logs P (throw stop : Draw τ ν α) s := .of_eq rfl

theorem Logs.bind {m : Draw τ ν α} {f : α → Draw τ ν β} (hm : Logs P m s)
    (hf : ∀ a s', m s = .ok a s' → Logs P (f a) s') : Logs P (m >>= f) s := by
  obtain ⟨first, hfirst, hfirstP⟩ := hm
  cases hresult : m s with
  | error stop s' =>
      rw [hresult] at hfirst
      refine ⟨first, ?_, hfirstP⟩
      rw [bind_error f hresult]
      exact hfirst
  | ok a s' =>
      rw [hresult] at hfirst
      obtain ⟨second, hsecond, hsecondP⟩ := hf a s' hresult
      refine ⟨first ++ second, ?_, fun event hmem => ?_⟩
      · rw [bind_ok f hresult, hsecond, ← List.append_assoc]
        exact congrArg (· ++ second) hfirst
      · exact (List.mem_append.mp hmem).elim (hfirstP event) (hsecondP event)

theorem Logs.ite {c : Prop} [Decidable c] {m m' : Draw τ ν α} (hm : c → Logs P m s)
    (hm' : ¬ c → Logs P m' s) : Logs P (if c then m else m') s := by
  split
  · rename_i hc
    exact hm hc
  · rename_i hc
    exact hm' hc

theorem Logs.mem {m : Draw τ ν α} (h : Logs P m s) {event : Event} (hmem : event ∈ s.events) :
    event ∈ (finalState (m s)).events := by
  obtain ⟨tail, htail, -⟩ := h
  rw [htail]
  exact List.mem_append_left tail hmem

theorem logs_log {event : Event} (h : P event) : Logs P (log event : Draw τ ν Unit) s :=
  ⟨[event], rfl, fun _ hmem => List.mem_singleton.mp hmem ▸ h⟩

theorem logs_modify {f : DrawState τ ν → DrawState τ ν} (h : (f s).events = s.events) :
    Logs P (modify f : Draw τ ν PUnit) s := .of_eq h

theorem logs_set (h : s'.events = s.events) : Logs P (set s' : Draw τ ν PUnit) s := .of_eq h

theorem logs_streamRead (size : Nat) : Logs P (streamRead size : Draw τ ν _) s := by
  refine .of_eq ?_
  unfold streamRead
  dsimp only
  cases (s.stream.read size).1 with
  | none => rfl
  | some bytes => rfl

theorem logs_callDevice (call : τ → Bool × τ) : Logs P (callDevice call : Draw τ ν Bool) s :=
  .of_eq rfl

theorem logs_divide {divisor : Int} (h : P (.division divisor)) :
    Logs P (divide divisor : Draw τ ν Unit) s :=
  .bind (logs_log h) fun _ _ _ => .ite (fun _ => .throw _) fun _ => .pure ()

theorem logs_stopComms (driver : Driver τ ν) : Logs P (stopComms driver) s :=
  .bind (logs_modify rfl) fun _ _ _ => .throw _

theorem logs_convertPalette (driver : Driver τ ν) (paletteEntries : Nat) :
    Logs P (convertPalette driver paletteEntries) s :=
  .bind (.of_eq rfl) fun _ _ hget => by
    cases hget
    exact .bind (logs_set rfl) fun _ _ _ =>
      .ite (fun _ => logs_stopComms driver) fun _ => .pure ()

theorem logs_finishDecoder (driver : Driver τ ν) (ok : Bool) (input : ByteInputState)
    (device : τ) (writePos pixels : Nat) :
    Logs P (finishDecoder driver ok input device writePos pixels) s :=
  .bind (logs_modify rfl) fun _ _ _ =>
    .ite (fun _ => .bind (.throw _) fun _ _ h => by cases h) fun _ =>
      .ite (fun _ => .bind (logs_callDevice _) fun _ _ _ =>
        .ite (fun _ => .throw _) fun _ => .pure ()) fun _ => .pure ()

end Logs

/-! ## Safe events -/

def SupportedBpp (bpp : Nat) : Prop :=
  bpp = 1 ∨ bpp = 2 ∨ bpp = 4 ∨ bpp = 8 ∨ bpp = 16 ∨ bpp = 24

/-- The frame is read at the stored offset, a palette has an entry for each pixel value,
nothing is divided by zero, and the decoders know the size of a pixel. -/
def Event.Safe (stored : Option Nat) : Event → Prop
  | .frameDescriptor position => stored = some position
  | .palette bpp entries => entries.length = 2 ^ bpp
  | .division divisor => divisor ≠ 0
  | .decoder bpp => SupportedBpp bpp

/-- The entry of a frame in the table of frame offsets. -/
def storedOffset (buffer : List (BitVec 8)) (frameNumber : Nat) : Option Nat :=
  if 32 + frameNumber * 4 ≤ buffer.length then
    some (leField (28 + frameNumber * 4) 4 buffer)
  else
    none

section Safe

variable {τ ν : Type} {build : Build} {driver : Driver τ ν} {P : Event → Prop}
  {s : DrawState τ ν}

theorem SupportedBpp.pos {bpp : Nat} (h : SupportedBpp bpp) : 0 < bpp := by
  unfold SupportedBpp at h
  omega

theorem SupportedBpp.steps {bpp : Nat} (h : SupportedBpp bpp) :
    ((2 ^ bpp % 2 ^ 16 : Nat) : Int) - 1 ≠ 0 := by
  rcases h with rfl | rfl | rfl | rfl | rfl | rfl
  all_goals decide

theorem logs_qpInternalAppender {bpp : Nat} (hdecoder : P (.decoder bpp))
    (hdivision : P (.division bpp)) (pixelCount : Nat) (input : ByteInputCallback) :
    Logs P (qpInternalAppender build driver bpp pixelCount input) s := by
  refine .ite (fun _ => ?_) fun _ => .ite (fun _ => .throw _) fun _ => ?_
  · refine .bind (logs_log hdecoder) fun _ _ _ => .bind (logs_divide hdivision) fun _ _ _ =>
      .bind (.of_eq rfl) fun s' _ _ => ?_
    cases decodePalette pixelCount bpp input
        (qpInternalPixelAppender build driver s'.palette.lookupTable)
        { srcStream := s'.stream } (s'.device, 0) with
    | none => exact .throw _
    | some result => exact logs_finishDecoder driver _ _ _ _ _
  · exact .bind (logs_log hdecoder) fun _ _ _ => .bind (.of_eq rfl) fun _ _ _ =>
      logs_finishDecoder driver _ _ _ _ _

theorem logs_thenStopComms {decode : Draw τ ν Unit} (h : Logs P decode s) :
    Logs P (thenStopComms driver decode) s := by
  obtain ⟨tail, htail, htailP⟩ := h
  refine ⟨tail, ?_, htailP⟩
  unfold thenStopComms
  cases hdecode : decode s with
  | ok a s' =>
      rw [hdecode] at htail
      exact htail
  | error stop s' =>
      rw [hdecode] at htail
      cases stop with
      | failed => exact htail
      | divided => exact htail
      | endless => exact htail

theorem logs_drawFrame {info : FrameInfo} (hdecoder : P (.decoder info.bpp))
    (hdivision : P (.division info.bpp)) (x y width height : BitVec 16) :
    Logs P (drawFrame build driver x y width height info) s := by
  refine .bind (logs_callDevice _) fun _ _ _ => ?_
  refine .ite (fun _ => .bind (.throw _) fun _ _ h => by cases h) fun _ => ?_
  refine .bind (logs_callDevice _) fun _ _ _ => ?_
  refine .ite (fun _ => .bind (logs_stopComms driver) fun _ _ h => by cases h) fun _ => ?_
  cases qpInternalPrepareInputState info.compressionScheme with
  | none => exact logs_stopComms driver
  | some compression => exact logs_thenStopComms (logs_qpInternalAppender hdecoder hdivision _ _)

theorem logs_readDelta (info : FrameInfo) :
    Logs P (readDelta info : Draw τ ν _) s :=
  .ite (fun _ => .bind (logs_streamRead 13) fun _ _ _ => .pure _) fun _ => .pure _

theorem logs_qpInternalInterpolatePalette {fg bg : Hsv} {steps : Int}
    (hdivision : P (.division (steps - 1))) :
    Logs P (qpInternalInterpolatePalette fg bg steps : Draw τ ν Bool) s := by
  refine .bind (.of_eq rfl) fun _ _ _ => .ite (fun _ => .pure _) fun _ => ?_
  exact .ite (fun _ => .bind (logs_divide hdivision) fun _ _ _ =>
    .bind (logs_modify rfl) fun _ _ _ => .pure _) fun _ =>
      .bind (logs_modify rfl) fun _ _ _ => .pure _

theorem readEntries_length (count : Nat) {stream : MemoryStream}
    (h : stream.position ≤ stream.buffer.length) :
    (readEntries count stream).1.length = count ↔
      stream.position + count * 3 ≤ stream.buffer.length := by
  induction count generalizing stream with
  | zero => exact iff_of_true rfl (by omega)
  | succ count ih =>
      unfold readEntries
      dsimp only
      by_cases hinside : stream.position + 3 ≤ stream.buffer.length
      · have hrest := @ih { stream with position := stream.position + 3 } hinside
        rw [MemoryStream.read_inside hinside]
        dsimp only at hrest ⊢
        rw [List.length_cons, Nat.add_right_cancel_iff, hrest]
        omega
      · rw [MemoryStream.read_outside (by decide) (by omega)]
        exact iff_of_false (fun h => nomatch h) (by omega)

theorem streamRead_inside {size : Nat} (h : s.stream.position + size ≤ s.stream.buffer.length) :
    streamRead size s = .ok ((s.stream.buffer.drop s.stream.position).take size)
      { s with stream := { s.stream with position := s.stream.position + size } } := by
  unfold streamRead
  rw [MemoryStream.read_inside h]

/-- The entries of a palette whose header is read first. -/
def paletteEntries (bpp : Nat) (stream : MemoryStream) : List Hsv :=
  (readEntries (2 ^ bpp % 2 ^ 16) { stream with position := stream.position + 5 }).1

theorem qpInternalLoadQgfPalette_events (bpp : Nat)
    (h : s.stream.position + 5 ≤ s.stream.buffer.length) :
    (finalState (qpInternalLoadQgfPalette bpp s)).events =
      s.events ++ [.palette bpp (paletteEntries bpp s.stream)] := by
  unfold qpInternalLoadQgfPalette
  rw [bind_ok _ (streamRead_inside h)]
  change (finalState ((if (readEntries (2 ^ bpp % 2 ^ 16)
    { s.stream with position := s.stream.position + 5 }).2.1 = false then throw .failed
    else pure () : Draw τ ν Unit) _)).events = _
  split
  · rfl
  · rfl

theorem logs_readPalette {fg bg : Hsv} {info : FrameInfo}
    (hinside : info.hasPalette = true →
      s.stream.position + 5 ≤ s.stream.buffer.length)
    (hpalette : info.hasPalette = true → build.bppCapable info.bpp = true →
      P (.palette info.bpp (paletteEntries info.bpp s.stream)))
    (hdivision : info.hasPalette = false → P (.division ((2 ^ info.bpp % 2 ^ 16 : Nat) - 1))) :
    Logs P (readPalette build driver fg bg info) s := by
  refine .bind (logs_modify rfl) fun _ s' hmodify => ?_
  cases hmodify
  refine .ite (fun _ => .bind (logs_stopComms driver) fun _ _ h => by cases h) fun hcapable => ?_
  refine .ite (fun htrue => ?_) fun hfalse => .ite (fun _ => ?_) fun _ => .pure _
  · have hload := qpInternalLoadQgfPalette_events
      (s := { s with palette := s.palette.invalidate }) info.bpp (hinside htrue)
    refine .bind ⟨_, hload, fun event hmem => ?_⟩ fun _ _ _ => logs_convertPalette driver _
    rw [List.mem_singleton.mp hmem]
    exact hpalette htrue (Bool.eq_true_of_not_eq_false hcapable)
  · have hdivision := hdivision (Bool.eq_false_of_not_eq_true hfalse)
    exact .bind (logs_qpInternalInterpolatePalette hdivision) fun _ _ _ =>
      .ite (fun _ => logs_convertPalette driver _) fun _ => .pure _

end Safe

/-! ## A frame that validation has seen -/

/-- The format byte of a frame that begins at `position`. -/
def formatAt (buffer : List (BitVec 8)) (position : Nat) : BitVec 8 :=
  .ofNat 8 (leField (position + 5) 1 buffer)

/--
The entry of the frame lies in the stream, its offset does not lie behind the end, the
format is known, and so many palette entries follow as it asks for, where the build can
display them.
-/
structure WellPlaced (build : Build) (stream : MemoryStream) (frameNumber : Nat) : Prop where
  entry : 32 + frameNumber * 4 ≤ stream.buffer.length
  offset : stream.Reaches (.ofNat 32 (leField (28 + frameNumber * 4) 4 stream.buffer))
  format : (formatAt stream.buffer (framePosition stream frameNumber)).toNat ≤ 9
  palette : ∀ format,
    qgfParseFormat (formatAt stream.buffer (framePosition stream frameNumber)) = some format →
    format.hasPalette = true → build.bppCapable format.bpp = true →
    framePosition stream frameNumber + 16 + 2 ^ format.bpp * 3 ≤ stream.buffer.length

theorem qgfParseFormat_some {byte : BitVec 8} {format : Format}
    (h : qgfParseFormat byte = some format) : byte.toNat ≤ 9 ∧ SupportedBpp format.bpp ∧
      (format.hasPalette = true → format.bpp ≤ 8) := by
  unfold qgfParseFormat at h
  split at h
  · cases h
  · rename_i hle
    have hmem := List.mem_of_getElem? h
    have hall : ∀ format ∈ formats, SupportedBpp format.bpp ∧
        (format.hasPalette = true → format.bpp ≤ 8) := by
      unfold SupportedBpp
      decide
    exact ⟨by omega, hall format hmem⟩

theorem qgfParseFormat_none {byte : BitVec 8} (h : qgfParseFormat byte = none) :
    9 < byte.toNat := by
  refine Decidable.byContradiction fun hle => ?_
  have hlt : byte.toNat < formats.length := Nat.lt_succ_of_le (Nat.le_of_not_lt hle)
  unfold qgfParseFormat at h
  rw [if_neg hle, List.getElem?_eq_getElem hlt] at h
  cases h

/-- The frame as its descriptor has it. -/
def seenInfo (stream : MemoryStream) (frameNumber : Nat) : FrameInfo :=
  qgfParseFrameDescriptor (.ofBytes (stream.buffer.drop (framePosition stream frameNumber))) {}

theorem seenInfo_some {stream : MemoryStream} {frameNumber : Nat} {format : Format}
    (h : qgfParseFormat (formatAt stream.buffer (framePosition stream frameNumber)) =
      some format) :
    (seenInfo stream frameNumber).bpp = format.bpp ∧
      (seenInfo stream frameNumber).hasPalette = format.hasPalette := by
  have hformat : (FrameDescriptor.ofBytes
      (stream.buffer.drop (framePosition stream frameNumber))).format =
      formatAt stream.buffer (framePosition stream frameNumber) := by
    rw [formatAt, ← leField_drop]
    rfl
  unfold seenInfo qgfParseFrameDescriptor
  rw [hformat, h]
  exact ⟨rfl, rfl⟩

theorem seenInfo_none {stream : MemoryStream} {frameNumber : Nat}
    (h : qgfParseFormat (formatAt stream.buffer (framePosition stream frameNumber)) = none) :
    (seenInfo stream frameNumber).bpp = 0 ∧
      (seenInfo stream frameNumber).hasPalette = false := by
  have hformat : (FrameDescriptor.ofBytes
      (stream.buffer.drop (framePosition stream frameNumber))).format =
      formatAt stream.buffer (framePosition stream frameNumber) := by
    rw [formatAt, ← leField_drop]
    rfl
  unfold seenInfo qgfParseFrameDescriptor
  rw [hformat, h]
  exact ⟨rfl, rfl⟩

section Prepare

variable {τ ν : Type} {build : Build} {driver : Driver τ ν} {P : Event → Prop}
  {stream : MemoryStream} {frameNumber : Nat} {s : DrawState τ ν} {fg bg : Hsv}

/-- The state behind the frame descriptor. -/
def DrawState.behind (s : DrawState τ ν) (stream : MemoryStream) (frameNumber : Nat) :
    DrawState τ ν :=
  { s with
    stream :=
      { buffer := stream.buffer
        position := framePosition stream frameNumber + 11 }
    events := s.events ++ [.frameDescriptor (framePosition stream frameNumber)] }

theorem prepare_eq (hstream : s.stream = stream) (hseen : FrameSeen stream frameNumber) :
    qpDrawimagePrepareFrameForStreamRead build driver frameNumber fg bg {} s =
      (do
        readPalette build driver fg bg (seenInfo stream frameNumber)
        let info ← readDelta (seenInfo stream frameNumber)
        let _ ← streamRead 5
        return info : Draw τ ν FrameInfo) (s.behind stream frameNumber) := by
  obtain ⟨offset, hoffset⟩ := hseen.offset
  have hseek : qgfSeekToFrameDescriptor s.stream frameNumber =
      { buffer := stream.buffer, position := framePosition stream frameNumber } := by
    rw [hstream]
    exact qgfSeekToFrameDescriptor_some hoffset
  have hread : readFrameDescriptor {} { s with
        stream := { buffer := stream.buffer, position := framePosition stream frameNumber } } =
      .ok (seenInfo stream frameNumber) (s.behind stream frameNumber) := by
    unfold readFrameDescriptor
    refine (bind_ok _ rfl).trans
      ((bind_ok _ (streamRead_inside hseen.descriptor)).trans ?_)
    change EStateM.Result.ok (qgfParseFrameDescriptor (.ofBytes ((stream.buffer.drop
      (framePosition stream frameNumber)).take 11)) {}) _ = _
    rw [FrameDescriptor.ofBytes_take]
    rfl
  unfold qpDrawimagePrepareFrameForStreamRead
  rw [← hseek] at hread
  exact (bind_ok _ rfl).trans (bind_ok _ hread)

theorem readDelta_bpp {info info' : FrameInfo} {s' : DrawState τ ν}
    (h : readDelta info s = .ok info' s') : info'.bpp = info.bpp := by
  unfold readDelta at h
  split at h
  · cases hread : streamRead 13 s with
    | error stop s'' =>
        rw [bind_error _ hread] at h
        cases h
    | ok bytes s'' =>
        rw [bind_ok _ hread] at h
        cases h
        rfl
  · cases h
    rfl

theorem bind_eq_ok {α β : Type} {m : Draw τ ν α} {f : α → Draw τ ν β} {b : β}
    {s' : DrawState τ ν} (h : (m >>= f) s = .ok b s') :
    ∃ a s'', m s = .ok a s'' ∧ f a s'' = .ok b s' := by
  cases hm : m s with
  | error stop s'' =>
      rw [bind_error f hm] at h
      cases h
  | ok a s'' => exact ⟨a, s'', rfl, (bind_ok f hm).symm.trans h⟩

theorem prepare_bpp (hstream : s.stream = stream) (hseen : FrameSeen stream frameNumber)
    {info : FrameInfo} {s' : DrawState τ ν}
    (h : qpDrawimagePrepareFrameForStreamRead build driver frameNumber fg bg {} s =
      .ok info s') : info.bpp = (seenInfo stream frameNumber).bpp := by
  rw [prepare_eq hstream hseen] at h
  obtain ⟨_, _, -, h⟩ := bind_eq_ok h
  obtain ⟨_, _, hdelta, h⟩ := bind_eq_ok h
  obtain ⟨_, _, -, h⟩ := bind_eq_ok h
  cases h
  exact readDelta_bpp hdelta

theorem logs_qpDrawimageRecolorImpl (hstream : s.stream = stream)
    (hseen : FrameSeen stream frameNumber)
    (hposition : P (.frameDescriptor (framePosition stream frameNumber)))
    (hpalette : (seenInfo stream frameNumber).hasPalette = true →
      build.bppCapable (seenInfo stream frameNumber).bpp = true →
      P (.palette (seenInfo stream frameNumber).bpp
        (paletteEntries (seenInfo stream frameNumber).bpp
          { buffer := stream.buffer, position := framePosition stream frameNumber + 11 })))
    (hsteps : (seenInfo stream frameNumber).hasPalette = false →
      P (.division ((2 ^ (seenInfo stream frameNumber).bpp % 2 ^ 16 : Nat) - 1)))
    (hdecoder : P (.decoder (seenInfo stream frameNumber).bpp))
    (hdivision : P (.division (seenInfo stream frameNumber).bpp))
    (x y width height : BitVec 16) :
    Logs P (qpDrawimageRecolorImpl build driver x y width height frameNumber {} fg bg) s := by
  refine .bind ?_ fun info _ hprepare => ?_
  · have hrest : Logs P (do
        readPalette build driver fg bg (seenInfo stream frameNumber)
        let info ← readDelta (seenInfo stream frameNumber)
        let _ ← streamRead 5
        return info : Draw τ ν FrameInfo) (s.behind stream frameNumber) :=
      .bind (logs_readPalette hseen.palette hpalette hsteps) fun _ _ _ =>
        .bind (logs_readDelta _) fun _ _ _ => .bind (logs_streamRead 5) fun _ _ _ => .pure _
    obtain ⟨tail, htail, htailP⟩ := hrest
    refine ⟨.frameDescriptor (framePosition stream frameNumber) :: tail, ?_, fun event hmem => ?_⟩
    · rw [prepare_eq hstream hseen, htail]
      exact List.append_assoc _ _ _
    · exact (List.mem_cons.mp hmem).elim (fun h => h ▸ hposition) (htailP event)
  · have hbpp := prepare_bpp hstream hseen hprepare
    exact logs_drawFrame (hbpp ▸ hdecoder) (hbpp ▸ hdivision) x y width height

/-! ### Events that a drawing has for certain -/

theorem mem_bind {α β : Type} {m : Draw τ ν α} {f : α → Draw τ ν β} {event : Event}
    (hmem : event ∈ (finalState (m s)).events)
    (hf : ∀ a s', Logs (fun _ => True) (f a) s') :
    event ∈ (finalState ((m >>= f) s)).events := by
  cases hm : m s with
  | error stop s' =>
      rw [hm] at hmem
      rw [bind_error f hm]
      exact hmem
  | ok a s' =>
      rw [hm] at hmem
      rw [bind_ok f hm]
      exact (hf a s').mem hmem

theorem mem_draw (hstream : s.stream = stream) (hseen : FrameSeen stream frameNumber)
    {event : Event}
    (hmem : event ∈ (finalState (readPalette build driver fg bg (seenInfo stream frameNumber)
      (s.behind stream frameNumber))).events)
    (x y width height : BitVec 16) :
    event ∈ (finalState
      (qpDrawimageRecolorImpl build driver x y width height frameNumber {} fg bg s)).events := by
  refine mem_bind ?_ fun _ _ => logs_drawFrame trivial trivial x y width height
  rw [prepare_eq hstream hseen]
  exact mem_bind hmem fun _ _ => .bind (logs_readDelta _) fun _ _ _ =>
    .bind (logs_streamRead 5) fun _ _ _ => .pure _

theorem mem_frameDescriptor (hseen : FrameSeen stream frameNumber) :
    .frameDescriptor (framePosition stream frameNumber) ∈
      (finalState (readPalette build driver fg bg (seenInfo stream frameNumber)
        (s.behind stream frameNumber))).events := by
  have hlogs : Logs (fun _ => True) (readPalette build driver fg bg
      (seenInfo stream frameNumber)) (s.behind stream frameNumber) :=
    logs_readPalette hseen.palette (fun _ _ => trivial) fun _ => trivial
  exact hlogs.mem (List.mem_append_right _ List.mem_cons_self)

theorem mem_palette {info : FrameInfo} (hpalette : info.hasPalette = true)
    (hcapable : build.bppCapable info.bpp = true)
    (hinside : s.stream.position + 5 ≤ s.stream.buffer.length) :
    .palette info.bpp (paletteEntries info.bpp s.stream) ∈
      (finalState (readPalette build driver fg bg info s)).events := by
  have hload := qpInternalLoadQgfPalette_events
    (s := { s with palette := s.palette.invalidate }) info.bpp hinside
  unfold readPalette
  rw [bind_ok _ (modify_ok _), hcapable, hpalette]
  refine mem_bind ?_ fun _ _ => logs_convertPalette driver _
  rw [hload]
  exact List.mem_append_right _ List.mem_cons_self

theorem mem_division {info : FrameInfo} (hbpp : info.bpp = 0)
    (hpalette : info.hasPalette = false) :
    .division 0 ∈ (finalState (readPalette build driver fg bg info s)).events := by
  have hcapable : build.bppCapable 0 = true := by
    unfold Build.bppCapable
    split
    · rfl
    · exact if_neg fun h => Nat.not_lt_zero 4 h.2
  unfold readPalette
  rw [bind_ok _ (modify_ok _), hbpp, hpalette, hcapable]
  exact List.mem_append_right s.events List.mem_cons_self

end Prepare

/-! ## The drawing of a validated file -/

def frameCount (stream : MemoryStream) : Nat :=
  match (qgfReadGraphicsDescriptor stream).1 with
  | none => 0
  | some desc => desc.frameCount.toNat

/-- A drawing of `stream` that has done nothing yet. -/
def DrawState.start {τ ν : Type} (stream : MemoryStream) (palette : Palette ν) (device : τ) :
    DrawState τ ν :=
  { stream, palette, device, events := [] }

theorem qgfValidateStream_seen {stream : MemoryStream} {frameNumber : Nat}
    (hvalid : (qgfValidateStream stream).1 = true) (hframe : frameNumber < frameCount stream) :
    FrameSeen stream frameNumber ∧ frameNumber < 2 ^ 16 := by
  obtain ⟨desc, hgraphics, hframes⟩ := qgfValidateStream_iff.mp hvalid
  unfold frameCount at hframe
  rw [hgraphics] at hframe
  have hvalidated := hframes frameNumber hframe
  rw [← qgfValidateFrame_rewind] at hvalidated
  exact ⟨qgfValidateFrame_seen hgraphics hvalidated, Nat.lt_trans hframe desc.frameCount.isLt⟩

theorem storedOffset_eq_framePosition {stream : MemoryStream} {frameNumber : Nat}
    (hentry : 32 + frameNumber * 4 ≤ stream.buffer.length)
    (hreaches : stream.Reaches
      (.ofNat 32 (leField (28 + frameNumber * 4) 4 stream.buffer))) :
    storedOffset stream.buffer frameNumber = some (framePosition stream frameNumber) := by
  have hlt : leField (28 + frameNumber * 4) 4 stream.buffer < 2 ^ 32 := leField_lt _ 4 _
  have hposition : entryPosition stream.buffer frameNumber = 28 + frameNumber * 4 :=
    if_pos (by omega)
  unfold storedOffset framePosition
  dsimp only
  rw [if_pos hentry, hposition, if_pos hreaches, BitVec.toNat_ofNat, Nat.mod_eq_of_lt hlt]

/-- A frame that is read elsewhere has no entry, or one that the seek refuses. -/
theorem reaches_of_storedOffset {stream : MemoryStream} {frameNumber : Nat}
    (hsmall : frameNumber < 2 ^ 16)
    (h : storedOffset stream.buffer frameNumber = some (framePosition stream frameNumber)) :
    32 + frameNumber * 4 ≤ stream.buffer.length ∧
      stream.Reaches (.ofNat 32 (leField (28 + frameNumber * 4) 4 stream.buffer)) := by
  unfold storedOffset at h
  split at h
  · rename_i hentry
    refine ⟨hentry, Decidable.byContradiction fun hrefused => ?_⟩
    have hposition : entryPosition stream.buffer frameNumber = 28 + frameNumber * 4 :=
      if_pos (by omega)
    have hframe : framePosition stream frameNumber = 32 + frameNumber * 4 := by
      unfold framePosition
      dsimp only
      rw [hposition, if_neg hrefused]
      omega
    rw [hframe] at h
    refine hrefused ?_
    rw [Option.some.inj h]
    unfold MemoryStream.Reaches
    rw [BitVec.toNat_ofNat, Nat.mod_eq_of_lt (by omega)]
    exact ⟨by omega, hentry⟩
  · cases h

variable {τ ν : Type} {build : Build} {stream : MemoryStream} {frameNumber : Nat}

theorem WellPlaced.palette_safe (h : WellPlaced build stream frameNumber)
    (hcapable : build.bppCapable (seenInfo stream frameNumber).bpp = true)
    (hpalette : (seenInfo stream frameNumber).hasPalette = true) :
    (paletteEntries (seenInfo stream frameNumber).bpp
      { buffer := stream.buffer
        position := framePosition stream frameNumber + 11 }).length =
      2 ^ (seenInfo stream frameNumber).bpp := by
  cases hformat : qgfParseFormat (formatAt stream.buffer (framePosition stream frameNumber)) with
  | none => exact absurd h.format (Nat.not_le_of_lt (qgfParseFormat_none hformat))
  | some format =>
      obtain ⟨hbpp, hhas⟩ := seenInfo_some hformat
      rw [hbpp] at hcapable ⊢
      rw [hhas] at hpalette
      have hinside := h.palette format hformat hpalette hcapable
      have hsmall := (qgfParseFormat_some hformat).2.2 hpalette
      have hpow : 2 ^ format.bpp % 2 ^ 16 = 2 ^ format.bpp :=
        Nat.mod_eq_of_lt (Nat.pow_lt_pow_right (by decide) (by omega))
      unfold paletteEntries
      rw [hpow, readEntries_length _ (show framePosition stream frameNumber + 11 + 5 ≤
        stream.buffer.length by omega)]
      dsimp only
      omega

/--
The events of drawing a frame of a validated file are safe just when its blocks are
where the file says and complete.
-/
theorem draws_validated (build : Build) (driver : Driver τ ν) {stream : MemoryStream}
    {frameNumber : Nat} (hvalid : (qgfValidateStream stream).1 = true)
    (hframe : frameNumber < frameCount stream) (palette : Palette ν) (device : τ)
    (x y width height : BitVec 16) (fg bg : Hsv) :
    (∀ event ∈ (finalState (qpDrawimageRecolorImpl build driver x y width height frameNumber {}
        fg bg (.start stream palette device))).events,
        event.Safe (storedOffset stream.buffer frameNumber)) ↔
      WellPlaced build stream frameNumber := by
  obtain ⟨hseen, hsmall⟩ := qgfValidateStream_seen hvalid hframe
  have hstart : (DrawState.start stream palette device).stream = stream := rfl
  constructor
  · intro hsafe
    have hposition : storedOffset stream.buffer frameNumber =
        some (framePosition stream frameNumber) :=
      hsafe _ (mem_draw hstart hseen (mem_frameDescriptor hseen) x y width height)
    obtain ⟨hentry, hreaches⟩ := reaches_of_storedOffset hsmall hposition
    cases hformat : qgfParseFormat
        (formatAt stream.buffer (framePosition stream frameNumber)) with
    | none =>
        obtain ⟨hbpp, hpalette⟩ := seenInfo_none hformat
        have hzero : Event.Safe (storedOffset stream.buffer frameNumber) (.division 0) :=
          hsafe _ (mem_draw hstart hseen (mem_division hbpp hpalette) x y width height)
        exact absurd rfl hzero
    | some format =>
        refine ⟨hentry, hreaches, (qgfParseFormat_some hformat).1, ?_⟩
        rintro _ heq hhas hcapable
        obtain rfl := Option.some.inj (hformat.symm.trans heq)
        obtain ⟨hbpp, hpalette⟩ := seenInfo_some hformat
        rw [hhas] at hpalette
        rw [← hbpp] at hcapable
        have hlength : (paletteEntries (seenInfo stream frameNumber).bpp
            { buffer := stream.buffer
              position := framePosition stream frameNumber + 11 }).length =
            2 ^ (seenInfo stream frameNumber).bpp :=
          hsafe _ (mem_draw hstart hseen
            (mem_palette hpalette hcapable (hseen.palette hpalette)) x y width height)
        have hsmall := (qgfParseFormat_some hformat).2.2 hhas
        have hpow : 2 ^ format.bpp % 2 ^ 16 = 2 ^ format.bpp :=
          Nat.mod_eq_of_lt (Nat.pow_lt_pow_right (by decide) (by omega))
        have hinside := hseen.palette hpalette
        unfold paletteEntries at hlength
        rw [hbpp, hpow, readEntries_length _ (show framePosition stream frameNumber + 11 + 5 ≤
          stream.buffer.length by omega)] at hlength
        exact hlength
  · intro h
    cases hformat : qgfParseFormat
        (formatAt stream.buffer (framePosition stream frameNumber)) with
    | none => exact absurd h.format (Nat.not_le_of_lt (qgfParseFormat_none hformat))
    | some format =>
        obtain ⟨-, hsupported, hfits⟩ := qgfParseFormat_some hformat
        obtain ⟨hbpp, hhas⟩ := seenInfo_some hformat
        rw [← hbpp] at hsupported
        have hlogs : Logs (Event.Safe (storedOffset stream.buffer frameNumber))
            (qpDrawimageRecolorImpl build driver x y width height frameNumber {} fg bg)
            (.start stream palette device) := by
          refine logs_qpDrawimageRecolorImpl hstart hseen
            (storedOffset_eq_framePosition h.entry h.offset)
            (fun hpalette hcapable => h.palette_safe hcapable hpalette)
            (fun _ => hsupported.steps) hsupported
            (Int.natCast_ne_zero.mpr (Nat.ne_of_gt hsupported.pos)) x y width height
        obtain ⟨tail, htail, htailSafe⟩ := hlogs
        rw [htail]
        exact htailSafe

/-- A file of one pixel. -/
def onePixelFile (format : BitVec 8) : MemoryStream where
  buffer :=
    [0x00, 0xFF, 0x12, 0x00, 0x00, 0x51, 0x47, 0x46, 0x01, 0x31, 0x00, 0x00, 0x00,
      0xCE, 0xFF, 0xFF, 0xFF, 0x01, 0x00, 0x01, 0x00, 0x01, 0x00,
      0x01, 0xFE, 0x04, 0x00, 0x00, 0x20, 0x00, 0x00, 0x00,
      0x02, 0xFD, 0x06, 0x00, 0x00, format, 0x00, 0x00, 0xFF, 0xE8, 0x03,
      0x05, 0xFA, 0x01, 0x00, 0x00, 0x01]

/-- A driver that accepts whatever it is told. -/
def acceptingDriver : Driver Unit Unit where
  nativeBitsPerPixel := 16
  commsStart _ := (true, ())
  commsStop _ := ()
  paletteConvert _ lookupTable _ := (true, lookupTable, ())
  viewport _ _ _ _ _ := (true, ())
  appendPixels _ _ _ _ := (true, ())
  appendPixdata _ _ _ := (true, ())
  pixdata _ _ := (true, ())

def plainBuild : Build where
  supports256Palette := false
  supportsNativeColors := false
  pixdataBufferSize := 1024

def black : Hsv := ⟨0, 0, 0⟩

def blankPalette : Palette Unit where
  generatedPalette := false
  generatedSteps := -1
  interpolatedFg := black
  interpolatedBg := black
  lookupTable _ := .native ()

theorem onePixelFile_draws :
    (qgfValidateStream (onePixelFile 0x00)).1 = true ∧ ∀ event ∈ (finalState (qpDrawimageRecolorImpl plainBuild acceptingDriver 0 0 1 1 0 {}
        black black (.start (onePixelFile 0x00) blankPalette ()))).events,
      event.Safe (storedOffset (onePixelFile 0x00).buffer 0) := by
  refine ⟨by decide +kernel, (draws_validated plainBuild acceptingDriver (by decide +kernel)
    (by decide +kernel) blankPalette () 0 0 1 1 black black).mpr ⟨by decide +kernel,
      by decide +kernel, by decide +kernel, fun format hformat hpalette _ => ?_⟩⟩
  have hgrayscale : qgfParseFormat (formatAt (onePixelFile 0x00).buffer
      (framePosition (onePixelFile 0x00) 0)) = some ⟨1, false, false⟩ := by decide +kernel
  obtain rfl := Option.some.inj (hgrayscale.symm.trans hformat)
  cases hpalette

/-- Validation lets a format pass that has no size of a pixel. -/
theorem unknownFormat_divides :
    (qgfValidateStream (onePixelFile 0x0A)).1 = true ∧ 0 < frameCount (onePixelFile 0x0A) ∧
      ¬ ∀ event ∈ (finalState (qpDrawimageRecolorImpl plainBuild acceptingDriver 0 0 1 1 0 {}
          black black (.start (onePixelFile 0x0A) blankPalette ()))).events,
        event.Safe (storedOffset (onePixelFile 0x0A).buffer 0) := by
  have hvalid : (qgfValidateStream (onePixelFile 0x0A)).1 = true := by decide +kernel
  have hframe : 0 < frameCount (onePixelFile 0x0A) := by decide +kernel
  obtain ⟨hseen, -⟩ := qgfValidateStream_seen hvalid hframe
  have hnone : qgfParseFormat (formatAt (onePixelFile 0x0A).buffer
      (framePosition (onePixelFile 0x0A) 0)) = none := by decide +kernel
  obtain ⟨hbpp, hpalette⟩ := seenInfo_none hnone
  have hstart : (DrawState.start (onePixelFile 0x0A) blankPalette ()).stream =
      onePixelFile 0x0A := rfl
  have hmem : .division 0 ∈ (finalState (qpDrawimageRecolorImpl plainBuild acceptingDriver
      0 0 1 1 0 {} black black (.start (onePixelFile 0x0A) blankPalette ()))).events :=
    mem_draw hstart hseen (mem_division hbpp hpalette) 0 0 1 1
  refine ⟨hvalid, hframe, fun hsafe => ?_⟩
  have hzero : Event.Safe (storedOffset (onePixelFile 0x0A).buffer 0) (.division 0) :=
    hsafe _ hmem
  exact absurd rfl hzero

end Qmk.Painter
