import Mathlib.Data.UInt
import Mathlib.Logic.Function.Basic
import Mathlib.Tactic.SplitIfs
import Qmk.Lib.Run
import Qmk.Tapping.Engine

/-!
# The Repeat Key and the Alternate Repeat Key

`repeat_key.c` and `process_repeat_key.c` without the modifiers that are registered around a repeat.
The rest of the pipeline behind `process_record` has no access to their variables.
-/

namespace Qmk.RepeatKey

open Qmk.Lib
open Qmk.Tapping (KeyPos KeyEvent Tap)

/-- `keyrecord_t`. -/
structure KeyRecord where
  event : KeyEvent
  tap : Tap
  keycode : UInt16
  deriving DecidableEq

def KeyRecord.zero : KeyRecord := ⟨⟨⟨0, 0⟩, 0, .tick, false⟩, ⟨false, 0⟩, 0⟩

/-- The options and the weak functions. -/
structure Config where
  triLayer : Bool
  layerLock : Bool
  swapHands : Bool
  extrakey : Bool
  mousekey : Bool
  /-- `remember_last_key_user`, with what it leaves in `remembered_mods`. -/
  rememberLastKeyUser : UInt16 → KeyRecord → UInt8 → Bool × UInt8
  getAltRepeatKeyKeycodeUser : UInt16 → UInt8 → UInt16

structure State where
  lastRecord : KeyRecord
  lastMods : UInt8
  lastRepeatCount : Int
  processingRepeatCount : Int
  registeredRecordRepeatKey : KeyRecord
  registeredRepeatCountRepeatKey : Int
  /-- The statics of `alt_repeat_key_invoke`. -/
  registeredRecord : KeyRecord
  registeredRepeatCount : Int
  /-- The switches of the keys, and what each key was looked up as when it went down. -/
  down : KeyPos → Bool
  keycodes : KeyPos → UInt16
  /-- The generated records. -/
  sent : List KeyRecord
  /-- The record that was generated when the key went down; for the statements only. -/
  pressRecord : KeyPos → Option KeyRecord
  /-- A record was generated in the course of a generated record. -/
  reentered : Bool

def State.boot : State where
  lastRecord := .zero
  lastMods := 0
  lastRepeatCount := 0
  processingRepeatCount := 0
  registeredRecordRepeatKey := .zero
  registeredRepeatCountRepeatKey := 0
  registeredRecord := .zero
  registeredRepeatCount := 0
  down := fun _ => false
  keycodes := fun _ => 0
  sent := []
  pressRecord := fun _ => none
  reentered := false

def qkRepeatKey : UInt16 := 0x7C79
def qkAltRepeatKey : UInt16 := 0x7C7A

def isSwapHandsKeycode (keycode : UInt16) : Bool := 0x56F0 ≤ keycode ∧ keycode ≤ 0x56F6

/-! ## `repeat_key.c` -/

def setLastRecord (keycode : UInt16) (record : KeyRecord) (s : State) : State :=
  { s with lastRecord := { record with keycode := keycode }, lastRepeatCount := 0 }

def updateLastRepeatCount (dir : Int) (s : State) : State :=
  if dir * s.lastRepeatCount < 0 then { s with lastRepeatCount := dir }
  else if dir * s.lastRepeatCount < 127 then
    { s with lastRepeatCount := s.lastRepeatCount + dir }
  else s

def findAltKeycode : List (UInt16 × UInt16) → UInt16 → UInt16
  | [], _ => 0
  | (first, second) :: table, target =>
      if target = first then second
      else if target = second then first
      else findAltKeycode table target

/-- The pairs with a modifier other than Shift: `KC_F` and `KC_B`, and so on. -/
def hotkeyPairs : List (UInt16 × UInt16) :=
  [(0x09, 0x05), (0x07, 0x18), (0x11, 0x13), (0x04, 0x08), (0x12, 0x0C)]

/-- The pairs with no modifier or only Shift: `KC_J` and `KC_K`, and so on. -/
def plainPairs : List (UInt16 × UInt16) :=
  [(0x0D, 0x0E), (0x0B, 0x0F), (0x1A, 0x05), (0x08, 0x05)]

variable (cfg : Config)

/-- The pairs with any modifiers. -/
def commonPairs : List (UInt16 × UInt16) :=
  [(0x50, 0x4F), (0x52, 0x51), (0x4A, 0x4D), (0x4B, 0x4E), (0x2A, 0x4C), (0x2F, 0x30)] ++
    (if cfg.extrakey then
      [(0xB6, 0xB7), (0xAB, 0xAC), (0xBB, 0xBC), (0xA9, 0xAA), (0xBD, 0xBE)] else []) ++
    (if cfg.mousekey then
      [(0xCF, 0xD0), (0xCD, 0xCE), (0xDB, 0xDC), (0xD9, 0xDA)] else [])

/-- The basic key code of the last key, or nothing for a key that swaps hands, and its modifiers in
five bits. -/
def unpackKeycode (keycode : UInt16) (mods : UInt16) : Option (UInt16 × UInt16) :=
  if 0x0100 ≤ keycode ∧ keycode ≤ 0x1FFF then
    some (keycode &&& 0xFF, mods ||| ((keycode >>> 8) &&& 0x1F))
  else if 0x2000 ≤ keycode ∧ keycode ≤ 0x4FFF then some (keycode &&& 0xFF, mods)
  else if cfg.swapHands ∧ 0x5600 ≤ keycode ∧ keycode ≤ 0x56FF then
    if isSwapHandsKeycode keycode then none else some (keycode &&& 0xFF, mods)
  else some (keycode, mods)

def altOfBasic (keycode mods : UInt16) : UInt16 :=
  if keycode ≤ 0xFF then
    let alt := if mods &&& 0x0D ≠ 0 then findAltKeycode hotkeyPairs keycode
      else findAltKeycode plainPairs keycode
    let alt := if alt = 0 then findAltKeycode (commonPairs cfg) keycode else alt
    if alt ≠ 0 then (mods <<< 8) ||| alt else 0
  else 0

def getAltRepeatKeyKeycode (s : State) : UInt16 :=
  let keycode := s.lastRecord.keycode
  let alt := cfg.getAltRepeatKeyKeycodeUser keycode s.lastMods
  if alt ≠ 1 then alt
  else
    let mods := s.lastMods.toUInt16
    let right : UInt16 := if mods &&& 0xF0 ≠ 0 then 0x10 else 0
    let mods := right ||| (((mods >>> 4) ||| mods) &&& 0xF)
    match unpackKeycode cfg keycode mods with
    | some (keycode, mods) => altOfBasic cfg keycode mods
    | none => 0

section Invoke

variable (processRecord : KeyRecord → State → State)

/-- `process_record` on a record while `processing_repeat_count` is that count. -/
def generate (count : Int) (record : KeyRecord) (s : State) : State :=
  { processRecord record { s with
      processingRepeatCount := count
      sent := s.sent ++ [record] } with processingRepeatCount := 0 }

def repeatKeyInvoke (event : KeyEvent) (s : State) : State :=
  if s.processingRepeatCount ≠ 0 ∨ s.lastRecord.keycode = 0 then s
  else
    let s :=
      if event.pressed then
        let s := updateLastRepeatCount 1 s
        { s with
          registeredRecordRepeatKey := s.lastRecord
          registeredRepeatCountRepeatKey := s.lastRepeatCount }
      else s
    if s.registeredRepeatCountRepeatKey ≠ 0 then
      let record := { s.registeredRecordRepeatKey with event := event }
      generate processRecord s.registeredRepeatCountRepeatKey record
        { s with registeredRecordRepeatKey := record }
    else s

def altRepeatKeyInvoke (event : KeyEvent) (s : State) : State :=
  if s.processingRepeatCount ≠ 0 then s
  else
    let s :=
      if event.pressed then
        { s with registeredRecord :=
            { KeyRecord.zero with keycode := getAltRepeatKeyKeycode cfg s } }
      else s
    if s.registeredRecord.keycode = 0 then s
    else
      let s :=
        if event.pressed then
          let s := updateLastRepeatCount (-1) s
          { s with registeredRepeatCount := s.lastRepeatCount }
        else s
      let record := { s.registeredRecord with event := event }
      generate processRecord s.registeredRepeatCount record { s with registeredRecord := record }

end Invoke

/-! ## `process_repeat_key.c` -/

/-- The keys that are never the last key, whatever the user function says. -/
def isIgnoredKeycode (keycode : UInt16) (tapCount : Nat) : Bool :=
  -- MO, TO, TG and TT
  (0x5220 ≤ keycode ∧ keycode ≤ 0x523F) ∨ (0x5200 ≤ keycode ∧ keycode ≤ 0x521F) ∨
    (0x5260 ≤ keycode ∧ keycode ≤ 0x527F) ∨ (0x52C0 ≤ keycode ∧ keycode ≤ 0x52DF) ∨
    -- modifiers, `KC_HYPR` and `KC_MEH`
    (0xE0 ≤ keycode ∧ keycode ≤ 0xE7) ∨ keycode = 0x0F00 ∨ keycode = 0x0700 ∨
    -- one-shot layers and one-shot modifiers
    (0x5280 ≤ keycode ∧ keycode ≤ 0x529F) ∨ (0x52A0 ≤ keycode ∧ keycode ≤ 0x52BF) ∨
    (cfg.triLayer ∧ (keycode = 0x7C77 ∨ keycode = 0x7C78)) ∨
    (cfg.layerLock ∧ keycode = 0x7C7B) ∨
    -- holds of mod-taps and layer-taps
    (0x2000 ≤ keycode ∧ keycode ≤ 0x4FFF ∧ tapCount = 0) ∨
    (cfg.swapHands ∧ 0x5600 ≤ keycode ∧ keycode ≤ 0x56FF ∧
      (isSwapHandsKeycode keycode ∨ tapCount = 0)) ∨
    keycode = qkRepeatKey ∨ keycode = qkAltRepeatKey

def rememberLastKey (keycode : UInt16) (record : KeyRecord) (mods : UInt8) : Bool × UInt8 :=
  if isIgnoredKeycode cfg keycode record.tap.count then (false, mods)
  else cfg.rememberLastKeyUser keycode record mods

/-- `mods` are the real, the weak and the one-shot modifiers at that time. -/
def processLastKey (keycode : UInt16) (record : KeyRecord) (mods : UInt8) (s : State) : State :=
  if s.processingRepeatCount ≠ 0 then s
  else if record.event.pressed then
    let (remember, mods) := rememberLastKey cfg keycode record mods
    if remember then { setLastRecord keycode record s with lastMods := mods } else s
  else s

def processRepeatKey (processRecord : KeyRecord → State → State) (keycode : UInt16)
    (record : KeyRecord) (s : State) : State :=
  if s.processingRepeatCount ≠ 0 then s
  else if keycode = qkRepeatKey then repeatKeyInvoke processRecord record.event s
  else if keycode = qkAltRepeatKey then altRepeatKeyInvoke cfg processRecord record.event s
  else s

def getRecordKeycode (record : KeyRecord) (s : State) : UInt16 :=
  if record.keycode ≠ 0 then record.keycode else s.keycodes record.event.key

/-- `process_record` as far as the repeat keys go, with the depth of generated records that is
left. -/
def processRecord : Nat → UInt8 → KeyRecord → State → State
  | 0, _, _, s => { s with reentered := true }
  | depth + 1, mods, record, s =>
      if !record.event.isEvent then s
      else
        let keycode := getRecordKeycode record s
        processRepeatKey cfg (processRecord depth mods) keycode record
          (processLastKey cfg keycode record mods s)

/-! ## Runs -/

/-- An event of a key, with its `keycode` if it goes down, the `tap` state of its record and the
modifiers at that time.  The switch closes if it is open, and opens if it is closed. -/
structure Input where
  key : KeyPos
  keycode : UInt16
  tap : Tap
  time : UInt16
  mods : UInt8

def keyEvent (s : State) (input : Input) : KeyEvent :=
  ⟨input.key, input.time, .key, !s.down input.key⟩

/-- The state in which the record of the event is processed. -/
def setSwitch (input : Input) (s : State) : State :=
  { s with
    down := Function.update s.down input.key (!s.down input.key)
    keycodes :=
      if s.down input.key then s.keycodes
      else Function.update s.keycodes input.key input.keycode }

/-- Two levels of `process_record`: for the key, and for a record that is generated. -/
def step (s : State) (input : Input) : State :=
  let s' := processRecord cfg 2 input.mods ⟨keyEvent s input, input.tap, 0⟩ (setSwitch input s)
  let generated := if s.down input.key then none else s'.sent[s.sent.length]?
  { s' with pressRecord := Function.update s'.pressRecord input.key generated }

/-- The event generates what it is to generate: at most one record when the key goes down, and when
it comes up one of the same key code and tap count for that record. -/
def Paired (s : State) (input : Input) : Prop :=
  (step cfg s input).reentered = false ∧
  ∃ records, (step cfg s input).sent = s.sent ++ records ∧
    (∀ record ∈ records, record.event = keyEvent s input) ∧
    if s.down input.key then
      records.map (fun record => (record.keycode, record.tap.count)) =
        (s.pressRecord input.key).toList.map fun record => (record.keycode, record.tap.count)
    else records = ((step cfg s input).pressRecord input.key).toList

/-- The key code of the alternate that the key registered, zero for none. -/
def heldAlternate (s : State) (key : KeyPos) : UInt16 :=
  ((s.pressRecord key).map (·.keycode)).getD 0

/-- The two records are the same key with the same taps. -/
def SameKey (record other : KeyRecord) : Prop :=
  record.keycode = other.keycode ∧ record.tap.count = other.tap.count

/-- A Repeat Key comes up with a last key if it sent a record when it went down.  Keys of one kind
that are down together registered the same key. -/
def Separate (s : State) (input : Input) : Prop :=
  if s.down input.key then
    s.keycodes input.key = qkRepeatKey →
      if (s.pressRecord input.key).isSome then s.lastRecord.keycode ≠ 0
      else s.lastRecord.keycode = 0 ∨ s.registeredRepeatCountRepeatKey = 0
  else
    (input.keycode = qkRepeatKey → s.lastRecord.keycode ≠ 0 →
      ∀ other, s.down other = true → s.keycodes other = qkRepeatKey →
        ∀ record, s.pressRecord other = some record → SameKey s.lastRecord record) ∧
    (input.keycode = qkAltRepeatKey →
      ∀ other, s.down other = true → s.keycodes other = qkAltRepeatKey →
        heldAlternate s other = getAltRepeatKeyKeycode cfg s)

variable {cfg}

/-! ## One call -/

section Calls

variable {s : State} {record : KeyRecord} {event : KeyEvent} {tap : Tap} {mods : UInt8}

theorem updateLastRepeatCount_eq {dir : Int} (hdir : dir = 1 ∨ dir = -1) (s : State) :
    ∃ count, count ≠ 0 ∧ updateLastRepeatCount dir s = { s with lastRepeatCount := count } := by
  unfold updateLastRepeatCount
  rcases hdir with rfl | rfl
  · split_ifs with hnegative hsmall
    · exact ⟨1, by decide, rfl⟩
    · exact ⟨s.lastRepeatCount + 1, by omega, rfl⟩
    · exact ⟨s.lastRepeatCount, by omega, rfl⟩
  · split_ifs with hnegative hsmall
    · exact ⟨-1, by decide, rfl⟩
    · exact ⟨s.lastRepeatCount + -1, by omega, rfl⟩
    · exact ⟨s.lastRepeatCount, by omega, rfl⟩

theorem processRecord_processing (depth : Nat) (h : s.processingRepeatCount ≠ 0) :
    processRecord cfg (depth + 1) mods record s = s := by
  have hlast : ∀ keycode, processLastKey cfg keycode record mods s = s := fun _ => if_pos h
  have hrepeat : ∀ keycode,
      processRepeatKey cfg (processRecord cfg depth mods) keycode record s = s :=
    fun _ => if_pos h
  simp only [processRecord, hlast, hrepeat, ite_self]

theorem generate_eq (hidle : s.processingRepeatCount = 0) {count : Int} (hcount : count ≠ 0)
    (depth : Nat) :
    generate (processRecord cfg (depth + 1) mods) count record s =
      { s with sent := s.sent ++ [record] } := by
  rw [generate, processRecord_processing depth hcount]
  simp only [← hidle]

theorem repeatKeyInvoke_empty {f : KeyRecord → State → State} (h : s.lastRecord.keycode = 0) :
    repeatKeyInvoke f event s = s :=
  if_pos (.inr h)

theorem repeatKeyInvoke_press (hidle : s.processingRepeatCount = 0)
    (hlast : s.lastRecord.keycode ≠ 0) (hpressed : event.pressed = true) (depth : Nat) :
    ∃ count, count ≠ 0 ∧ repeatKeyInvoke (processRecord cfg (depth + 1) mods) event s =
      { s with
        lastRepeatCount := count
        registeredRecordRepeatKey := { s.lastRecord with event := event }
        registeredRepeatCountRepeatKey := count
        sent := s.sent ++ [{ s.lastRecord with event := event }] } := by
  obtain ⟨count, hcount, hupdate⟩ := updateLastRepeatCount_eq (.inl rfl) s
  refine ⟨count, hcount, ?_⟩
  have hgo : ¬(s.processingRepeatCount ≠ 0 ∨ s.lastRecord.keycode = 0) :=
    not_or.mpr ⟨not_not_intro hidle, hlast⟩
  rw [repeatKeyInvoke, if_neg hgo, if_pos hpressed, hupdate]
  simp only [if_pos hcount]
  refine generate_eq ?_ hcount depth
  exact hidle

theorem repeatKeyInvoke_release (hidle : s.processingRepeatCount = 0)
    (hlast : s.lastRecord.keycode ≠ 0) (hpressed : event.pressed = false)
    (hcount : s.registeredRepeatCountRepeatKey ≠ 0) (depth : Nat) :
    repeatKeyInvoke (processRecord cfg (depth + 1) mods) event s =
      { s with
        registeredRecordRepeatKey := { s.registeredRecordRepeatKey with event := event }
        sent := s.sent ++ [{ s.registeredRecordRepeatKey with event := event }] } := by
  have hgo : ¬(s.processingRepeatCount ≠ 0 ∨ s.lastRecord.keycode = 0) :=
    not_or.mpr ⟨not_not_intro hidle, hlast⟩
  rw [repeatKeyInvoke, if_neg hgo, if_neg (Bool.eq_false_iff.mp hpressed)]
  simp only [if_pos hcount]
  refine generate_eq ?_ hcount depth
  exact hidle

theorem repeatKeyInvoke_unregistered {f : KeyRecord → State → State}
    (hpressed : event.pressed = false) (hcount : s.registeredRepeatCountRepeatKey = 0) :
    repeatKeyInvoke f event s = s := by
  rw [repeatKeyInvoke, if_neg (Bool.eq_false_iff.mp hpressed)]
  simp only [if_neg (not_not_intro hcount), ite_self]

theorem altRepeatKeyInvoke_none {f : KeyRecord → State → State}
    (hidle : s.processingRepeatCount = 0) (hpressed : event.pressed = true)
    (halt : getAltRepeatKeyKeycode cfg s = 0) :
    altRepeatKeyInvoke cfg f event s = { s with registeredRecord := .zero } := by
  rw [altRepeatKeyInvoke, if_neg (not_not_intro hidle), if_pos hpressed]
  simp only [halt, if_true]
  rfl

theorem altRepeatKeyInvoke_press (hidle : s.processingRepeatCount = 0)
    (hpressed : event.pressed = true) (halt : getAltRepeatKeyKeycode cfg s ≠ 0) (depth : Nat) :
    ∃ count, count ≠ 0 ∧ altRepeatKeyInvoke cfg (processRecord cfg (depth + 1) mods) event s =
      { s with
        lastRepeatCount := count
        registeredRecord := ⟨event, ⟨false, 0⟩, getAltRepeatKeyKeycode cfg s⟩
        registeredRepeatCount := count
        sent := s.sent ++ [⟨event, ⟨false, 0⟩, getAltRepeatKeyKeycode cfg s⟩] } := by
  obtain ⟨count, hcount, hupdate⟩ := updateLastRepeatCount_eq (.inr rfl)
    { s with registeredRecord := { KeyRecord.zero with keycode := getAltRepeatKeyKeycode cfg s } }
  refine ⟨count, hcount, ?_⟩
  rw [altRepeatKeyInvoke, if_neg (not_not_intro hidle), if_pos hpressed]
  simp only [if_neg halt, if_pos hpressed, hupdate]
  refine generate_eq ?_ hcount depth
  exact hidle

theorem altRepeatKeyInvoke_unregistered {f : KeyRecord → State → State}
    (hpressed : event.pressed = false) (halt : s.registeredRecord.keycode = 0) :
    altRepeatKeyInvoke cfg f event s = s := by
  rw [altRepeatKeyInvoke, if_neg (Bool.eq_false_iff.mp hpressed)]
  simp only [if_pos halt, ite_self]

theorem altRepeatKeyInvoke_release (hidle : s.processingRepeatCount = 0)
    (hpressed : event.pressed = false) (halt : s.registeredRecord.keycode ≠ 0)
    (hcount : s.registeredRepeatCount ≠ 0) (depth : Nat) :
    altRepeatKeyInvoke cfg (processRecord cfg (depth + 1) mods) event s =
      { s with
        registeredRecord := { s.registeredRecord with event := event }
        sent := s.sent ++ [{ s.registeredRecord with event := event }] } := by
  rw [altRepeatKeyInvoke, if_neg (not_not_intro hidle), if_neg (Bool.eq_false_iff.mp hpressed)]
  simp only [if_neg halt, if_neg (Bool.eq_false_iff.mp hpressed)]
  refine generate_eq ?_ hcount depth
  exact hidle

theorem processLastKey_ignored {keycode : UInt16}
    (h : isIgnoredKeycode cfg keycode record.tap.count = true) :
    processLastKey cfg keycode record mods s = s := by
  rw [processLastKey, rememberLastKey, if_pos h]
  simp

/-- A key that is neither a Repeat Key nor an Alternate Repeat Key changes at most the last key. -/
theorem processLastKey_eq (keycode : UInt16) :
    ∃ last lastMods count, processLastKey cfg keycode record mods s =
      { s with lastRecord := last, lastMods := lastMods, lastRepeatCount := count } := by
  rw [processLastKey]
  split_ifs
  · exact ⟨_, _, _, rfl⟩
  · simp only [setLastRecord]
    split_ifs
    · exact ⟨_, _, _, rfl⟩
    · exact ⟨_, _, _, rfl⟩
  · exact ⟨_, _, _, rfl⟩

theorem getRecordKeycode_key : getRecordKeycode ⟨event, tap, 0⟩ s = s.keycodes event.key :=
  if_neg (not_not_intro rfl)

theorem processRecord_key (hevent : event.isEvent = true) (depth : Nat) :
    processRecord cfg (depth + 1) mods ⟨event, tap, 0⟩ s =
      processRepeatKey cfg (processRecord cfg depth mods) (s.keycodes event.key) ⟨event, tap, 0⟩
        (processLastKey cfg (s.keycodes event.key) ⟨event, tap, 0⟩ mods s) := by
  simp only [processRecord, hevent, getRecordKeycode_key]
  rfl

theorem processRecord_repeatKey (hidle : s.processingRepeatCount = 0)
    (hevent : event.isEvent = true) (hkey : s.keycodes event.key = qkRepeatKey) :
    processRecord cfg 2 mods ⟨event, tap, 0⟩ s =
      repeatKeyInvoke (processRecord cfg 1 mods) event s := by
  have hignored : isIgnoredKeycode cfg qkRepeatKey tap.count = true := by
    simp [isIgnoredKeycode]
  rw [processRecord_key hevent, hkey, processLastKey_ignored hignored, processRepeatKey,
    if_neg (not_not_intro hidle)]
  rfl

theorem processRecord_altRepeatKey (hidle : s.processingRepeatCount = 0)
    (hevent : event.isEvent = true) (hkey : s.keycodes event.key = qkAltRepeatKey) :
    processRecord cfg 2 mods ⟨event, tap, 0⟩ s =
      altRepeatKeyInvoke cfg (processRecord cfg 1 mods) event s := by
  have hignored : isIgnoredKeycode cfg qkAltRepeatKey tap.count = true := by
    simp [isIgnoredKeycode]
  rw [processRecord_key hevent, hkey, processLastKey_ignored hignored, processRepeatKey,
    if_neg (not_not_intro hidle)]
  rfl

theorem processRecord_other (hevent : event.isEvent = true)
    (hrepeat : s.keycodes event.key ≠ qkRepeatKey)
    (halt : s.keycodes event.key ≠ qkAltRepeatKey) :
    ∃ last lastMods count, processRecord cfg 2 mods ⟨event, tap, 0⟩ s =
      { s with lastRecord := last, lastMods := lastMods, lastRepeatCount := count } := by
  obtain ⟨last, lastMods, count, hlast⟩ := @processLastKey_eq cfg s ⟨event, tap, 0⟩ mods
    (s.keycodes event.key)
  refine ⟨last, lastMods, count, ?_⟩
  rw [processRecord_key hevent, hlast, processRepeatKey, if_neg hrepeat, if_neg halt, ite_self]

end Calls

/-! ## The invariant -/

/-- The registered records of a state are what a key of this code generated when it went down. -/
def Tracks (s : State) (keycode : UInt16) : Option KeyRecord → Prop
  | some record =>
      (keycode = qkRepeatKey ∧ s.registeredRepeatCountRepeatKey ≠ 0 ∧
        SameKey s.registeredRecordRepeatKey record) ∨
      (keycode = qkAltRepeatKey ∧ record.keycode ≠ 0 ∧ SameKey s.registeredRecord record)
  | none => keycode = qkAltRepeatKey → s.registeredRecord.keycode = 0

theorem Tracks.congr {s t : State} {keycode : UInt16} {generated : Option KeyRecord}
    (hrecord : t.registeredRecordRepeatKey = s.registeredRecordRepeatKey)
    (hcount : t.registeredRepeatCountRepeatKey = s.registeredRepeatCountRepeatKey)
    (halt : t.registeredRecord = s.registeredRecord) (h : Tracks s keycode generated) :
    Tracks t keycode generated := by
  cases generated with
  | none => simpa only [Tracks, halt] using h
  | some record => simpa only [Tracks, hrecord, hcount, halt] using h

structure Inv (s : State) : Prop where
  idle : s.processingRepeatCount = 0
  single : s.reentered = false
  count : s.registeredRecord.keycode ≠ 0 → s.registeredRepeatCount ≠ 0
  tap : s.registeredRecord.tap.count = 0
  held : ∀ key, s.down key = true → Tracks s (s.keycodes key) (s.pressRecord key)

theorem boot_inv : Inv State.boot where
  idle := rfl
  single := rfl
  count := fun h => absurd rfl h
  tap := rfl
  held := fun _ h => Bool.noConfusion h

section Step

variable {s s' : State} {input : Input}

/-- What the record of the event may change. -/
structure Moves (s : State) (input : Input) (s' : State) : Prop where
  idle : s'.processingRepeatCount = 0
  single : s'.reentered = false
  count : s'.registeredRecord.keycode ≠ 0 → s'.registeredRepeatCount ≠ 0
  tap : s'.registeredRecord.tap.count = 0
  down : s'.down = (setSwitch input s).down
  keycodes : s'.keycodes = (setSwitch input s).keycodes
  pressRecord : s'.pressRecord = s.pressRecord
  others : ∀ key, s.down key = true → key ≠ input.key →
    Tracks s (s.keycodes key) (s.pressRecord key) → Tracks s' (s.keycodes key) (s.pressRecord key)
  pressed : s.down input.key = false → Tracks s' input.keycode s'.sent[s.sent.length]?

theorem Inv.next (h : Inv s)
    (hprocess : processRecord cfg 2 input.mods ⟨keyEvent s input, input.tap, 0⟩
      (setSwitch input s) = s') (hmoves : Moves s input s') : Inv (step cfg s input) := by
  have hstep : step cfg s input = { s' with
      pressRecord := Function.update s'.pressRecord input.key
        (if s.down input.key then none else s'.sent[s.sent.length]?) } := by
    rw [step, hprocess]
  rw [hstep]
  refine ⟨hmoves.idle, hmoves.single, hmoves.count, hmoves.tap, fun key hdown => ?_⟩
  simp only [hmoves.down, hmoves.keycodes, hmoves.pressRecord, setSwitch] at hdown ⊢
  by_cases hkey : key = input.key
  · subst hkey
    rw [Function.update_self] at hdown ⊢
    have hup : s.down input.key = false := by simpa using hdown
    refine Tracks.congr rfl rfl rfl ?_
    simp only [hup, Bool.false_eq_true, if_false, Function.update_self]
    exact hmoves.pressed hup
  · rw [Function.update_of_ne hkey] at hdown ⊢
    have hsame : (if s.down input.key = true then s.keycodes
        else Function.update s.keycodes input.key input.keycode) key = s.keycodes key := by
      split_ifs
      · rfl
      · exact Function.update_of_ne hkey _ _
    rw [hsame]
    exact hmoves.others key hdown hkey (h.held key hdown)

theorem paired_of
    (hprocess : processRecord cfg 2 input.mods ⟨keyEvent s input, input.tap, 0⟩
      (setSwitch input s) = s') (hsingle : s'.reentered = false) {records : List KeyRecord}
    (hsent : s'.sent = s.sent ++ records) (hlength : records.length ≤ 1)
    (hevents : ∀ record ∈ records, record.event = keyEvent s input)
    (hrelease : s.down input.key = true →
      records.map (fun record => (record.keycode, record.tap.count)) =
        (s.pressRecord input.key).toList.map fun record => (record.keycode, record.tap.count)) :
    Paired cfg s input := by
  have hstep : step cfg s input = { s' with
      pressRecord := Function.update s'.pressRecord input.key
        (if s.down input.key then none else s'.sent[s.sent.length]?) } := by
    rw [step, hprocess]
  rw [Paired, hstep]
  refine ⟨hsingle, records, hsent, hevents, ?_⟩
  split_ifs with hdown
  · exact hrelease hdown
  · simp only [Function.update_self, hsent]
    rw [List.getElem?_append_right Nat.le.refl, Nat.sub_self]
    cases records with
    | nil => rfl
    | cons record records =>
        cases records with
        | nil => rfl
        | cons other records => simp at hlength

/-- A press has no record of its own to be paired with. -/
theorem paired_press
    (hprocess : processRecord cfg 2 input.mods ⟨keyEvent s input, input.tap, 0⟩
      (setSwitch input s) = s') (hsingle : s'.reentered = false) {records : List KeyRecord}
    (hsent : s'.sent = s.sent ++ records) (hlength : records.length ≤ 1)
    (hevents : ∀ record ∈ records, record.event = keyEvent s input)
    (hup : s.down input.key = false) : Paired cfg s input := by
  refine paired_of hprocess hsingle hsent hlength hevents fun hdown => ?_
  rw [hup] at hdown
  exact Bool.noConfusion hdown

/-! ## One event -/

theorem keyEvent_isEvent : (keyEvent s input).isEvent = true := rfl

theorem setSwitch_keycode_press (hup : s.down input.key = false) :
    (setSwitch input s).keycodes (keyEvent s input).key = input.keycode := by
  simp [setSwitch, keyEvent, hup]

theorem setSwitch_keycode_release (hdown : s.down input.key = true) :
    (setSwitch input s).keycodes (keyEvent s input).key = s.keycodes input.key := by
  simp [setSwitch, keyEvent, hdown]

/-- An event that generates no record and leaves the registered records. -/
theorem Inv.moves_silent (h : Inv s) (hregistered : s'.registeredRecord = s.registeredRecord)
    (hcount : s'.registeredRepeatCount = s.registeredRepeatCount)
    (hrecord : s'.registeredRecordRepeatKey = s.registeredRecordRepeatKey)
    (hrepeat : s'.registeredRepeatCountRepeatKey = s.registeredRepeatCountRepeatKey)
    (hidle : s'.processingRepeatCount = s.processingRepeatCount)
    (hsingle : s'.reentered = s.reentered) (hdown : s'.down = (setSwitch input s).down)
    (hkeycodes : s'.keycodes = (setSwitch input s).keycodes)
    (hpress : s'.pressRecord = s.pressRecord) (hsent : s'.sent = s.sent)
    (hkey : input.keycode = qkAltRepeatKey → s.down input.key = true) : Moves s input s' where
  idle := hidle.trans h.idle
  single := hsingle.trans h.single
  count := by
    rw [hregistered, hcount]
    exact h.count
  tap := by
    rw [hregistered]
    exact h.tap
  down := hdown
  keycodes := hkeycodes
  pressRecord := hpress
  others := fun _ _ _ => Tracks.congr hrecord hrepeat hregistered
  pressed := fun hup => by
    rw [hsent, List.getElem?_eq_none Nat.le.refl]
    intro halt
    rw [hkey halt] at hup
    exact Bool.noConfusion hup

/-- A release that generates a record changes nothing else than the events of the registered
ones. -/
theorem Inv.moves_release (h : Inv s) (hdown : s.down input.key = true)
    (repeatEvent altEvent : KeyEvent) (sent : List KeyRecord) :
    Moves s input { setSwitch input s with
      registeredRecordRepeatKey := { s.registeredRecordRepeatKey with event := repeatEvent }
      registeredRecord := { s.registeredRecord with event := altEvent }
      sent := sent } := by
  refine ⟨h.idle, h.single, h.count, h.tap, rfl, rfl, rfl, fun key _ _ hkey => ?_, fun hup => ?_⟩
  · cases hother : s.pressRecord key with
    | none =>
        rw [hother] at hkey
        exact hkey
    | some other =>
        rw [hother] at hkey
        exact hkey
  · rw [hdown] at hup
    exact Bool.noConfusion hup

theorem Inv.step_other (h : Inv s) (hrepeat : (setSwitch input s).keycodes input.key ≠ qkRepeatKey)
    (halt : (setSwitch input s).keycodes input.key ≠ qkAltRepeatKey) :
    Inv (step cfg s input) ∧ Paired cfg s input := by
  obtain ⟨last, lastMods, count, hprocess⟩ :=
    @processRecord_other cfg (setSwitch input s) (keyEvent s input) input.tap input.mods
      keyEvent_isEvent hrepeat halt
  have hkey : input.keycode = qkAltRepeatKey → s.down input.key = true := by
    intro hcode
    by_contra hup
    exact halt ((setSwitch_keycode_press (Bool.eq_false_iff.mpr hup)).trans hcode)
  refine ⟨h.next hprocess (h.moves_silent rfl rfl rfl rfl rfl rfl rfl rfl rfl rfl hkey), ?_⟩
  refine paired_of hprocess h.single (List.append_nil _).symm (by simp) (by simp) fun hdown => ?_
  have hcode := setSwitch_keycode_release hdown
  have htracks := h.held input.key hdown
  cases hgenerated : s.pressRecord input.key with
  | none => rfl
  | some record =>
      rw [hgenerated] at htracks
      rcases htracks with ⟨hkey, -⟩ | ⟨hkey, -⟩
      · exact absurd (hcode.trans hkey) hrepeat
      · exact absurd (hcode.trans hkey) halt

theorem repeat_ne_alt : qkRepeatKey ≠ qkAltRepeatKey := by decide

theorem Inv.step_repeatKey_press (h : Inv s) (hsep : Separate cfg s input)
    (hup : s.down input.key = false) (hcode : input.keycode = qkRepeatKey) :
    Inv (step cfg s input) ∧ Paired cfg s input := by
  have hpressed : (keyEvent s input).pressed = true := by simp [keyEvent, hup]
  have hprocess := @processRecord_repeatKey cfg (setSwitch input s) (keyEvent s input) input.tap
    input.mods h.idle keyEvent_isEvent ((setSwitch_keycode_press hup).trans hcode)
  have hnot : input.keycode = qkAltRepeatKey → s.down input.key = true := fun halt =>
    absurd (hcode.symm.trans halt) repeat_ne_alt
  by_cases hlast : s.lastRecord.keycode = 0
  · have hempty : (setSwitch input s).lastRecord.keycode = 0 := hlast
    rw [repeatKeyInvoke_empty hempty] at hprocess
    refine ⟨h.next hprocess (h.moves_silent rfl rfl rfl rfl rfl rfl rfl rfl rfl rfl hnot), ?_⟩
    exact paired_press hprocess h.single (List.append_nil _).symm (by simp) (by simp) hup
  · obtain ⟨count, hcount, hinvoke⟩ := @repeatKeyInvoke_press cfg (setSwitch input s)
      (keyEvent s input) input.mods h.idle hlast hpressed 0
    rw [hinvoke] at hprocess
    rw [Separate, if_neg (Bool.eq_false_iff.mp hup)] at hsep
    refine ⟨h.next hprocess ?_, ?_⟩
    · refine ⟨h.idle, h.single, h.count, h.tap, rfl, rfl, rfl, fun key hdown _ htracks => ?_,
        fun _ => ?_⟩
      · cases hgenerated : s.pressRecord key with
        | none =>
            rw [hgenerated] at htracks
            exact htracks
        | some record =>
            rw [hgenerated] at htracks
            rcases htracks with ⟨hkey, -, -⟩ | hright
            · exact .inl ⟨hkey, hcount, hsep.1 hcode hlast key hdown hkey record hgenerated⟩
            · exact .inr hright
      · simp only [setSwitch, List.getElem?_concat_length]
        exact .inl ⟨hcode, hcount, rfl, rfl⟩
    · exact paired_press hprocess h.single rfl (by simp) (by simp) hup

theorem Inv.step_altRepeatKey_press (h : Inv s) (hsep : Separate cfg s input)
    (hup : s.down input.key = false) (hcode : input.keycode = qkAltRepeatKey) :
    Inv (step cfg s input) ∧ Paired cfg s input := by
  have hpressed : (keyEvent s input).pressed = true := by simp [keyEvent, hup]
  have hprocess := @processRecord_altRepeatKey cfg (setSwitch input s) (keyEvent s input)
    input.tap input.mods h.idle keyEvent_isEvent ((setSwitch_keycode_press hup).trans hcode)
  rw [Separate, if_neg (Bool.eq_false_iff.mp hup)] at hsep
  have hheld := hsep.2 hcode
  have hsame : getAltRepeatKeyKeycode cfg (setSwitch input s) = getAltRepeatKeyKeycode cfg s := rfl
  by_cases halt : getAltRepeatKeyKeycode cfg s = 0
  · have hnone : altRepeatKeyInvoke cfg (processRecord cfg 1 input.mods) (keyEvent s input)
        (setSwitch input s) = { setSwitch input s with registeredRecord := .zero } :=
      altRepeatKeyInvoke_none h.idle hpressed (hsame.trans halt)
    rw [hnone] at hprocess
    refine ⟨h.next hprocess ?_, ?_⟩
    · refine ⟨h.idle, h.single, fun hne => absurd rfl hne, rfl, rfl, rfl, rfl,
        fun key hdown _ htracks => ?_, fun _ => ?_⟩
      · cases hgenerated : s.pressRecord key with
        | none => exact fun _ => rfl
        | some record =>
            rw [hgenerated] at htracks
            rcases htracks with hleft | ⟨hkey, hne, -⟩
            · exact .inl hleft
            · have hzero := hheld key hdown hkey
              rw [heldAlternate, hgenerated, halt] at hzero
              exact absurd hzero hne
      · simp only [setSwitch, List.getElem?_eq_none Nat.le.refl]
        exact fun _ => rfl
    · exact paired_press hprocess h.single (List.append_nil _).symm (by simp) (by simp) hup
  · obtain ⟨count, hcount, hinvoke⟩ := @altRepeatKeyInvoke_press cfg (setSwitch input s)
      (keyEvent s input) input.mods h.idle hpressed halt 0
    rw [hinvoke] at hprocess
    refine ⟨h.next hprocess ?_, ?_⟩
    · refine ⟨h.idle, h.single, fun _ => hcount, rfl, rfl, rfl, rfl,
        fun key hdown _ htracks => ?_, fun _ => ?_⟩
      · cases hgenerated : s.pressRecord key with
        | none =>
            intro hkey
            have hzero := hheld key hdown hkey
            rw [heldAlternate, hgenerated] at hzero
            exact absurd hzero.symm halt
        | some record =>
            rw [hgenerated] at htracks
            rcases htracks with hleft | ⟨hkey, hne, hmatch⟩
            · exact .inl hleft
            · have heq := hheld key hdown hkey
              rw [heldAlternate, hgenerated] at heq
              exact .inr ⟨hkey, hne, heq.symm, h.tap.symm.trans hmatch.2⟩
      · simp only [setSwitch, List.getElem?_concat_length]
        exact .inr ⟨hcode, halt, rfl, rfl⟩
    · exact paired_press hprocess h.single rfl (by simp) (by simp) hup

theorem Inv.step_repeatKey_release (h : Inv s) (hsep : Separate cfg s input)
    (hdown : s.down input.key = true) (hcode : s.keycodes input.key = qkRepeatKey) :
    Inv (step cfg s input) ∧ Paired cfg s input := by
  have hreleased : (keyEvent s input).pressed = false := by simp [keyEvent, hdown]
  have hprocess := @processRecord_repeatKey cfg (setSwitch input s) (keyEvent s input) input.tap
    input.mods h.idle keyEvent_isEvent ((setSwitch_keycode_release hdown).trans hcode)
  have htracks := h.held input.key hdown
  rw [Separate, if_pos hdown] at hsep
  have hlast := hsep hcode
  cases hgenerated : s.pressRecord input.key with
  | none =>
      rw [hgenerated] at hlast
      have hsilent : repeatKeyInvoke (processRecord cfg 1 input.mods) (keyEvent s input)
          (setSwitch input s) = setSwitch input s := by
        rcases hlast with hempty | hcount
        · exact repeatKeyInvoke_empty hempty
        · exact repeatKeyInvoke_unregistered hreleased hcount
      rw [hsilent] at hprocess
      refine ⟨h.next hprocess
        (h.moves_silent rfl rfl rfl rfl rfl rfl rfl rfl rfl rfl fun _ => hdown), ?_⟩
      refine paired_of hprocess h.single (List.append_nil _).symm (by simp) (by simp) fun _ => ?_
      rw [hgenerated]
      rfl
  | some record =>
      rw [hgenerated] at hlast htracks
      have hright : ¬(s.keycodes input.key = qkAltRepeatKey) := fun halt =>
        repeat_ne_alt (hcode.symm.trans halt)
      obtain ⟨-, hcount, hmatch⟩ := htracks.resolve_right fun hother => hright hother.1
      have hinvoke := @repeatKeyInvoke_release cfg (setSwitch input s) (keyEvent s input)
        input.mods h.idle hlast hreleased hcount 0
      rw [hinvoke] at hprocess
      refine ⟨h.next hprocess
        (h.moves_release hdown (keyEvent s input) s.registeredRecord.event _), ?_⟩
      refine paired_of hprocess h.single rfl (by simp) (by simp) fun _ => ?_
      rw [hgenerated]
      exact congrArg (fun same => [same]) (Prod.ext hmatch.1 hmatch.2)

theorem Inv.step_altRepeatKey_release (h : Inv s) (hdown : s.down input.key = true)
    (hcode : s.keycodes input.key = qkAltRepeatKey) :
    Inv (step cfg s input) ∧ Paired cfg s input := by
  have hreleased : (keyEvent s input).pressed = false := by simp [keyEvent, hdown]
  have hprocess := @processRecord_altRepeatKey cfg (setSwitch input s) (keyEvent s input)
    input.tap input.mods h.idle keyEvent_isEvent ((setSwitch_keycode_release hdown).trans hcode)
  have htracks := h.held input.key hdown
  cases hgenerated : s.pressRecord input.key with
  | none =>
      rw [hgenerated] at htracks
      have hzero : (setSwitch input s).registeredRecord.keycode = 0 := htracks hcode
      rw [altRepeatKeyInvoke_unregistered hreleased hzero] at hprocess
      refine ⟨h.next hprocess
        (h.moves_silent rfl rfl rfl rfl rfl rfl rfl rfl rfl rfl fun _ => hdown), ?_⟩
      refine paired_of hprocess h.single (List.append_nil _).symm (by simp) (by simp) fun _ => ?_
      rw [hgenerated]
      rfl
  | some record =>
      rw [hgenerated] at htracks
      have hleft : ¬(s.keycodes input.key = qkRepeatKey) := fun hrepeat =>
        repeat_ne_alt (hrepeat.symm.trans hcode)
      obtain ⟨-, hne, hmatch⟩ := htracks.resolve_left fun hother => hleft hother.1
      have hregistered : s.registeredRecord.keycode ≠ 0 := fun hzero =>
        hne (hmatch.1.symm.trans hzero)
      have hinvoke := @altRepeatKeyInvoke_release cfg (setSwitch input s) (keyEvent s input)
        input.mods h.idle hreleased hregistered (h.count hregistered) 0
      rw [hinvoke] at hprocess
      refine ⟨h.next hprocess
        (h.moves_release hdown s.registeredRecordRepeatKey.event (keyEvent s input) _), ?_⟩
      refine paired_of hprocess h.single rfl (by simp) (by simp) fun _ => ?_
      rw [hgenerated]
      exact congrArg (fun same => [same]) (Prod.ext hmatch.1 hmatch.2)

theorem Inv.step (h : Inv s) (hsep : Separate cfg s input) :
    Inv (step cfg s input) ∧ Paired cfg s input := by
  by_cases hdown : s.down input.key = true
  · by_cases hrepeat : s.keycodes input.key = qkRepeatKey
    · exact h.step_repeatKey_release hsep hdown hrepeat
    by_cases halt : s.keycodes input.key = qkAltRepeatKey
    · exact h.step_altRepeatKey_release hdown halt
    have hcode := setSwitch_keycode_release hdown
    exact h.step_other (fun hkey => hrepeat (hcode.symm.trans hkey))
      fun hkey => halt (hcode.symm.trans hkey)
  · have hup := Bool.eq_false_iff.mpr hdown
    by_cases hrepeat : input.keycode = qkRepeatKey
    · exact h.step_repeatKey_press hsep hup hrepeat
    by_cases halt : input.keycode = qkAltRepeatKey
    · exact h.step_altRepeatKey_press hsep hup halt
    have hcode := setSwitch_keycode_press hup
    exact h.step_other (fun hkey => hrepeat (hcode.symm.trans hkey))
      fun hkey => halt (hcode.symm.trans hkey)

end Step

/-- The default weak functions. -/
def defaults : Config :=
  ⟨false, false, false, true, false, fun _ _ mods => (true, mods), fun _ _ => 1⟩

/-- An event of a key of the first row. -/
def event (col : UInt8) (keycode : UInt16) : Input := ⟨⟨col, 0⟩, keycode, ⟨false, 0⟩, 0, 0⟩

def pressA : List Input := [event 0 0x04, event 0 0x04]

/-- `KC_A`, and the Repeat Key rolled over `KC_B`. -/
def rolledRepeat : List Input :=
  pressA ++ [event 1 qkRepeatKey, event 2 0x05, event 1 qkRepeatKey, event 2 0x05]

theorem pressA_down :
    (run (step defaults) State.boot pressA).down =
      Function.update (Function.update (fun _ => false) ⟨0, 0⟩ true) ⟨0, 0⟩ false := rfl

theorem separate_of_press {cfg : Config} {s : State} {input : Input}
    (hup : s.down input.key = false) (hrepeat : input.keycode ≠ qkRepeatKey)
    (halt : input.keycode ≠ qkAltRepeatKey) : Separate cfg s input := by
  rw [Separate, if_neg (Bool.eq_false_iff.mp hup)]
  exact ⟨fun h => absurd h hrepeat, fun h => absurd h halt⟩

theorem separate_of_release {cfg : Config} {s : State} {input : Input}
    (hdown : s.down input.key = true) (hrepeat : s.keycodes input.key ≠ qkRepeatKey) :
    Separate cfg s input := by
  rw [Separate, if_pos hdown]
  exact fun h => absurd h hrepeat

/-- `KC_A`, a Repeat Key, `KC_B` and another Repeat Key, each of the last three held. -/
def twoRepeatKeys : List Input :=
  pressA ++ [event 1 qkRepeatKey, event 2 0x05, event 3 qkRepeatKey]

theorem twoRepeatKeys_down :
    (run (step defaults) State.boot twoRepeatKeys).down ⟨1, 0⟩ = true := by decide

theorem twoRepeatKeys_pressed :
    ((run (step defaults) State.boot twoRepeatKeys).pressRecord ⟨1, 0⟩).toList.map
      (fun record => (record.keycode, record.tap.count)) = [(0x04, 0)] := by decide

theorem twoRepeatKeys_released :
    (step defaults (run (step defaults) State.boot twoRepeatKeys) (event 1 qkRepeatKey)).sent =
      (run (step defaults) State.boot twoRepeatKeys).sent ++
        [⟨⟨⟨1, 0⟩, 0, .key, false⟩, ⟨false, 0⟩, 0x05⟩] := by decide

/-- A key without a key code empties the last key, and the release of the Repeat Key is lost. -/
def emptiedLastKey : List Input :=
  pressA ++ [event 1 qkRepeatKey, event 2 0, event 1 qkRepeatKey]

example : (run (step defaults) State.boot emptiedLastKey).sent.map (·.event.pressed) = [true] :=
  rfl

end Qmk.RepeatKey
