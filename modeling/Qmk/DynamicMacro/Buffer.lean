import Mathlib.Data.Int.Basic
import Mathlib.Logic.Function.Basic
import Qmk.Lib.Run

/-!
# Dynamic macros

Two macros share a buffer: the first one is written from its beginning on, the
second one from its end on.  Pointers into the buffer are indices, one before the
buffer and one behind it among them.
-/

namespace Qmk.DynamicMacro

inductive Slot
  | one
  | two
  deriving DecidableEq

def Slot.other : Slot → Slot
  | .one => .two
  | .two => .one

def Slot.direction : Slot → Int
  | .one => 1
  | .two => -1

inductive Keycode
  | recordStart (slot : Slot)
  | recordStop
  | play (slot : Slot)
  | key (keycode : BitVec 16)
  deriving DecidableEq

/-- `keyrecord_t`; `data` is what recording does not look at. -/
structure KeyRecord (ρ : Type _) where
  pressed : Bool
  data : ρ

/-- The compile-time options and the hook `dynamic_macro_valid_key_kb`. -/
structure Config (ρ : Type _) where
  dynamicMacroSize : Nat
  noNesting : Bool
  validKey : Keycode → KeyRecord ρ → Bool

/-- The static variables; `macroId` is the slot that is being recorded. -/
structure State (ρ : Type _) where
  macroBuffer : Int → KeyRecord ρ
  macroEnd : Int
  rMacroEnd : Int
  macroPointer : Int
  macroId : Option Slot

section Functions

variable {ρ : Type _} (cfg : Config ρ)

/-- `macro_buffer` and `r_macro_buffer`. -/
def Slot.start : Slot → Int
  | .one => 0
  | .two => cfg.dynamicMacroSize - 1

def State.endOf (s : State ρ) : Slot → Int
  | .one => s.macroEnd
  | .two => s.rMacroEnd

def State.setEnd (s : State ρ) (macroEnd : Int) : Slot → State ρ
  | .one => { s with macroEnd := macroEnd }
  | .two => { s with rMacroEnd := macroEnd }

def State.init (macroBuffer : Int → KeyRecord ρ) : State ρ where
  macroBuffer := macroBuffer
  macroEnd := 0
  rMacroEnd := cfg.dynamicMacroSize - 1
  macroPointer := 0
  macroId := none

/-- The loop of `dynamic_macro_play`: the records that it hands to `process_record`. -/
def playLoop (buffer : Int → KeyRecord ρ) (macroEnd direction : Int) :
    Nat → Int → Option (List (KeyRecord ρ))
  | 0, macroBuffer => if macroBuffer = macroEnd then some [] else none
  | fuel + 1, macroBuffer =>
      if macroBuffer = macroEnd then
        some []
      else
        (playLoop buffer macroEnd direction fuel (macroBuffer + direction)).map
          (buffer macroBuffer :: ·)

/-- `none` is a loop that leaves the buffer without having met the end of the macro. -/
def dynamicMacroPlay (s : State ρ) (slot : Slot) : Option (List (KeyRecord ρ)) :=
  playLoop s.macroBuffer (s.endOf slot) slot.direction cfg.dynamicMacroSize
    (slot.start cfg)

def dynamicMacroRecordStart (s : State ρ) (slot : Slot) : State ρ :=
  { s with macroPointer := slot.start cfg, macroId := some slot }

def dynamicMacroRecordKey (s : State ρ) (slot : Slot) (record : KeyRecord ρ) : State ρ :=
  if ¬ record.pressed ∧ s.macroPointer = slot.start cfg then
    s
  else if s.macroPointer - slot.direction ≠ s.endOf slot.other then
    { s with
      macroBuffer := Function.update s.macroBuffer s.macroPointer record
      macroPointer := s.macroPointer + slot.direction }
  else s

/-- The loop of `dynamic_macro_record_end`, which stops at the start of the macro. -/
def trimPresses (buffer : Int → KeyRecord ρ) (start direction : Int) : Nat → Int → Int
  | 0, macroPointer => macroPointer
  | fuel + 1, macroPointer =>
      if macroPointer ≠ start ∧ (buffer (macroPointer - direction)).pressed then
        trimPresses buffer start direction fuel (macroPointer - direction)
      else macroPointer

def dynamicMacroRecordEnd (s : State ρ) (slot : Slot) : State ρ :=
  let start := slot.start cfg
  s.setEnd (trimPresses s.macroBuffer start slot.direction
    (s.macroPointer - start).natAbs s.macroPointer) slot

def dynamicMacroStopRecording (s : State ρ) : State ρ :=
  match s.macroId with
  | some slot => { dynamicMacroRecordEnd cfg s slot with macroId := none }
  | none => s

/-- What a key event came to: whether it is processed further, and what was played. -/
structure Outcome (ρ : Type _) where
  state : State ρ
  proceed : Bool
  played : Option (List (KeyRecord ρ)) := some []

def Keycode.isRecordKey : Keycode → Bool
  | .recordStart _ => true
  | .recordStop => true
  | _ => false

def Keycode.isPlayKey : Keycode → Bool
  | .play _ => true
  | _ => false

/-- A key event while no macro is being recorded. -/
def processIdle (s : State ρ) (keycode : Keycode) (record : KeyRecord ρ) : Outcome ρ :=
  if record.pressed then
    { state := s, proceed := true }
  else
    match keycode with
    | .recordStart slot => { state := dynamicMacroRecordStart cfg s slot, proceed := false }
    | .play slot => { state := s, proceed := false, played := dynamicMacroPlay cfg s slot }
    | _ => { state := s, proceed := true }

/-- A key event while a macro is being recorded. -/
def processRecording (s : State ρ) (slot : Slot) (keycode : Keycode)
    (record : KeyRecord ρ) : Outcome ρ :=
  if keycode.isRecordKey then
    -- a stop key stops when pressed, a start key when released
    if record.pressed ^^ (keycode ≠ .recordStop) then
      { state := dynamicMacroStopRecording cfg s, proceed := false }
    else
      { state := s, proceed := false }
  else if cfg.noNesting ∧ keycode.isPlayKey then
    { state := s, proceed := false }
  else if cfg.validKey keycode record then
    { state := dynamicMacroRecordKey cfg s slot record, proceed := true }
  else
    { state := s, proceed := true }

/-- A record that is being played comes in again through `process_record`. -/
def processDynamicMacro (s : State ρ) (keycode : Keycode) (record : KeyRecord ρ) :
    Outcome ρ :=
  match s.macroId with
  | none => processIdle cfg s keycode record
  | some slot => processRecording cfg s slot keycode record

abbrev KeyEvent (ρ : Type _) := Keycode × KeyRecord ρ

def State.step (s : State ρ) (event : KeyEvent ρ) : State ρ :=
  (processDynamicMacro cfg s event.1 event.2).state

end Functions

section Idle

variable {ρ : Type _} {cfg : Config ρ}

/-- While nothing is recorded, only the release of a start key changes the state: the
records of a macro that come in again while it is played leave it alone. -/
theorem step_idle {s : State ρ} (hidle : s.macroId = none) {event : KeyEvent ρ}
    (hstart : ∀ slot, event.1 = .recordStart slot → event.2.pressed = true) :
    s.step cfg event = s := by
  obtain ⟨keycode, record⟩ := event
  simp only [State.step, processDynamicMacro, hidle, processIdle]
  cases hpressed : record.pressed with
  | true => rfl
  | false =>
      cases keycode with
      | recordStart slot => simp [hpressed] at hstart
      | recordStop => rfl
      | play slot => rfl
      | key keycode => rfl

end Idle

end Qmk.DynamicMacro
