import Mathlib.Algebra.Group.Nat.Defs
import Mathlib.Logic.Function.Basic
import Qmk.Lib.Ring
import Qmk.Lib.Run

/-!
# Combos

The engine of `process_combo.c`, as it is built with the combo timer and without
`EXTRA_SHORT_COMBOS`.  The options for single combos are functions of the combo; the layer that
combo keys are looked up in is part of a call.
-/

namespace Qmk.Combo

open Qmk.Lib

/-! ## Records -/

/-- `keyevent_type_t`. -/
inductive EventType where
  | tick
  | key
  | encoderCw
  | encoderCcw
  | combo
  | dipSwitchOn
  | dipSwitchOff
  deriving DecidableEq

structure KeyEvent where
  row : UInt8
  col : UInt8
  time : UInt16
  type : EventType
  pressed : Bool
  deriving DecidableEq

/-- `keyrecord_t`, less the tapping state. -/
structure KeyRecord where
  event : KeyEvent
  keycode : UInt16
  deriving DecidableEq

def makeComboEvent (now : UInt16) (pressed : Bool) : KeyEvent := ⟨0, 0, now, .combo, pressed⟩

/-- `queued_record_t`; the combo is `none` while it is -1. -/
structure QueuedRecord where
  record : KeyRecord
  comboIndex : Option Nat
  keycode : UInt16
  deriving DecidableEq

/-- What the engine hands on: `action_tapping_process` and `process_combo_event`. -/
inductive Output where
  | record (record : KeyRecord)
  | comboEvent (index : Nat) (pressed : Bool)
  deriving DecidableEq

structure Config where
  comboCount : Nat
  /-- The keys of a combo up to `COMBO_END`. -/
  keys : Nat → List UInt16
  keycode : Nat → UInt16
  keyBufferLength : Nat
  comboBufferLength : Nat
  /-- The width of `combo->state`. -/
  stateBits : Nat
  strictTimer : Bool
  term : Nat → UInt16
  holdTerm : UInt16
  mustHold : Nat → Bool
  mustTap : Nat → Bool
  mustPressInOrder : Nat → Bool
  shouldTrigger : Nat → UInt16 → KeyRecord → Bool
  /-- `process_combo_key_release` of a combo, a key index and a keycode. -/
  keyRelease : Nat → Nat → UInt16 → Bool
  /-- `process_combo_key_repress`, if it is built. -/
  keyRepress : Option (Nat → Nat → UInt16 → Bool)
  comboCount_le : comboCount ≤ 65535
  comboBufferLength_pos : 0 < comboBufferLength

/-- The slots that the `uint8_t` cursors of `combo_buffer` reach. -/
def Config.ringLength (c : Config) : Nat := min c.comboBufferLength 256

/-- The part of `combo_t` that changes. -/
structure ComboState (bits : Nat) where
  active : Bool
  disabled : Bool
  state : BitVec bits

structure State (c : Config) where
  timer : UInt16
  enabled : Bool
  longestTerm : UInt16
  keyBuffer : List QueuedRecord
  comboBuffer : Ring Nat c.ringLength
  combos : Nat → ComboState c.stateBits
  outputs : List Output

def State.boot (c : Config) : State c where
  timer := 0
  enabled := true
  longestTerm := 0
  keyBuffer := []
  comboBuffer := ⟨0, 0, Vector.replicate _ 0⟩
  combos _ := ⟨false, false, 0⟩
  outputs := []

section Engine

variable {c : Config}

def State.setCombo (s : State c) (index : Nat) (combo : ComboState c.stateBits) : State c :=
  { s with combos := Function.update s.combos index combo }

def activateCombo (index : Nat) (s : State c) : State c :=
  s.setCombo index { s.combos index with active := true }

def deactivateCombo (index : Nat) (s : State c) : State c :=
  s.setCombo index { s.combos index with active := false }

def disableCombo (index : Nat) (s : State c) : State c :=
  s.setCombo index { s.combos index with disabled := true }

def keyStateDown {bits : Nat} (state : BitVec bits) (keyIndex : Nat) : BitVec bits :=
  state ||| BitVec.twoPow bits keyIndex

def keyStateUp {bits : Nat} (state : BitVec bits) (keyIndex : Nat) : BitVec bits :=
  state &&& ~~~BitVec.twoPow bits keyIndex

def allComboKeysAreDown {bits : Nat} (state : BitVec bits) (keyCount : Nat) : Bool :=
  2 ^ keyCount - 1 = state.toNat

def onlyOneKeyIsDown {bits : Nat} (state : BitVec bits) : Bool := state &&& (state - 1) = 0

def keyNotYetReleased {bits : Nat} (state : BitVec bits) (keyIndex : Nat) : Bool :=
  BitVec.twoPow bits keyIndex &&& state ≠ 0

def setKeyDown (index keyIndex : Nat) (s : State c) : State c :=
  s.setCombo index
    { s.combos index with state := keyStateDown (s.combos index).state keyIndex }

def setKeyUp (index keyIndex : Nat) (s : State c) : State c :=
  s.setCombo index { s.combos index with state := keyStateUp (s.combos index).state keyIndex }

/-- The loop over the keys and `COMBO_END`: the last index of the keycode, and the count. -/
def findKeyIndexAndCount (keycode : UInt16) : List UInt16 → Nat → Option Nat → Option Nat × Nat
  | [], keyCount, keyIndex => (if keycode = 0 then some keyCount else keyIndex, keyCount)
  | key :: keys, keyCount, keyIndex =>
      findKeyIndexAndCount keycode keys (keyCount + 1)
        (if keycode = key then some keyCount else keyIndex)

def State.output (s : State c) (output : Output) : State c :=
  { s with outputs := s.outputs ++ [output] }

/-! ## Firing and releasing -/

def releaseCombo (now : UInt16) (index : Nat) (s : State c) : State c :=
  deactivateCombo index
    (s.output
      (if c.keycode index ≠ 0 then .record ⟨makeComboEvent now false, c.keycode index⟩
      else .comboEvent index false))

def getWaitTime (c : Config) (index : Nat) (longestTerm : UInt16) : UInt16 :=
  if (c.mustHold index ∨ c.mustTap index) ∧ longestTerm < c.holdTerm then c.holdTerm
  else longestTerm

def resetComboState {bits : Nat} (combo : ComboState bits) : ComboState bits :=
  { combo with disabled := false, state := 0 }

def clearCombos (s : State c) : State c :=
  { s with
    longestTerm := 0
    combos := fun index =>
      if index < c.comboCount ∧ (s.combos index).active = false then
        resetComboState (s.combos index)
      else s.combos index }

/-- What a record of the buffer becomes, unless it is a tick. -/
def QueuedRecord.dump (qrecord : QueuedRecord) : Option Output :=
  if qrecord.record.event.type = .tick then none
  else
    match qrecord.comboIndex with
    | some index =>
        if qrecord.record.keycode = 0 then some (.comboEvent index true)
        else some (.record qrecord.record)
    | none => some (.record qrecord.record)

def dumpKeyBuffer (s : State c) : State c :=
  { s with keyBuffer := [], outputs := s.outputs ++ s.keyBuffer.filterMap QueuedRecord.dump }

/-- Mark a combo as processed from the buffer. -/
def dropComboFromBuffer (comboIndex : Nat) (s : State c) : State c :=
  match s.comboBuffer.positions.find? fun i => s.comboBuffer.slot i = comboIndex with
  | none => s
  | some i =>
      if i = s.comboBuffer.tail then
        { disableCombo comboIndex s with comboBuffer := s.comboBuffer.advance }
      else disableCombo comboIndex s

def QueuedRecord.toTick (qrecord : QueuedRecord) : QueuedRecord :=
  { qrecord with record.event.type := .tick }

/-- The record executes the combo when the buffer is dumped. -/
def QueuedRecord.toCombo (qrecord : QueuedRecord) (index : Nat) (keycode : UInt16) :
    QueuedRecord :=
  { qrecord with
    record.event.row := 0
    record.event.col := 0
    record.event.type := .combo
    record.keycode := keycode
    comboIndex := some index }

/-- The loop of `apply_combo` over the key buffer; the second part is the number of keys, if the
combo fires. -/
def applyKeys (c : Config) (index : Nat) :
    BitVec c.stateBits → List QueuedRecord → List QueuedRecord × Option Nat
  | _, [] => ([], none)
  | state, qrecord :: qrecords =>
      match findKeyIndexAndCount qrecord.keycode (c.keys index) 0 none with
      | (none, _) =>
          -- key not part of this combo
          let (rest, fired) := applyKeys c index state qrecords
          (qrecord :: rest, fired)
      | (some keyIndex, keyCount) =>
          if allComboKeysAreDown (keyStateDown state keyIndex) keyCount then
            (qrecord.toCombo index (c.keycode index) :: qrecords, some keyCount)
          else
            let (rest, fired) := applyKeys c index (keyStateDown state keyIndex) qrecords
            (qrecord.toTick :: rest, fired)

def fireCombo (now : UInt16) (index : Nat) (fired : Option Nat) (s : State c) : State c :=
  match fired with
  | none => s
  | some keyCount =>
      if keyCount = 1 then releaseCombo now index (activateCombo index s)
      else activateCombo index s

def applyCombo (now : UInt16) (index : Nat) (s : State c) : State c :=
  if (s.combos index).disabled then s
  else
    let (keyBuffer, fired) := applyKeys c index 0 s.keyBuffer
    dropComboFromBuffer index (fireCombo now index fired { s with keyBuffer := keyBuffer })

/-- The loop of `apply_combos` over slots of the combo buffer. -/
def applyEntries (now : UInt16) : List Nat → State c → State c
  | [], s => s
  | i :: positions, s =>
      if c.mustTap (s.comboBuffer.slot i) then
        applyEntries now positions (dropComboFromBuffer (s.comboBuffer.slot i) s)
      else applyEntries now positions (applyCombo now (s.comboBuffer.slot i) s)

def applyCombos (now : UInt16) (s : State c) : State c :=
  clearCombos (dumpKeyBuffer (applyEntries now s.comboBuffer.positions s))

/-! ## One combo -/

/-- The combo that should be dropped, if the two overlap. -/
def overlaps (c : Config) (combo1 combo2 : Nat) : Option Nat :=
  if (c.keys combo1).any fun key1 => (c.keys combo2).any fun key2 => key1 = key2 then
    if (c.keys combo2).length < (c.keys combo1).length then some combo2 else some combo1
  else none

/-- The loop that disables readied combos that overlap with this combo; it says whether this combo
is dropped itself. -/
def dropOverlaps (index : Nat) : List Nat → State c → Bool × State c
  | [], s => (false, s)
  | i :: positions, s =>
      match overlaps c (s.comboBuffer.slot i) index with
      | none => dropOverlaps index positions s
      | some drop =>
          if drop = index then (true, disableCombo drop s)
          else if i = s.comboBuffer.tail ∧ drop = s.comboBuffer.slot i then
            dropOverlaps index positions
              { disableCombo drop s with comboBuffer := s.comboBuffer.advance }
          else dropOverlaps index positions (disableCombo drop s)

/-- Save this combo to the buffer. -/
def enqueueCombo (index : Nat) (s : State c) : State c :=
  { s with
    comboBuffer := s.comboBuffer.push index
    longestTerm := getWaitTime c index s.longestTerm }

/-- The combo was fully pressed. -/
def bufferCombo (now : UInt16) (index : Nat) (s : State c) : State c :=
  if s.timer ≠ 0 ∧ c.term index < now - s.timer then disableCombo index s
  else
    match dropOverlaps index s.comboBuffer.positions s with
    | (true, s) => s
    | (false, s) => enqueueCombo index s

def addComboKey (index keyIndex : Nat) (s : State c) : State c :=
  if (s.combos index).active then s
  else
    { setKeyDown index keyIndex s with
      longestTerm := if s.longestTerm < c.term index then c.term index else s.longestTerm }

def pressComboKey (now : UInt16) (index keyIndex keyCount : Nat) (s : State c) : State c :=
  if allComboKeysAreDown ((addComboKey index keyIndex s).combos index).state keyCount then
    bufferCombo now index (addComboKey index keyIndex s)
  else addComboKey index keyIndex s

/-- The chord releases: whether the key is part of the combo, and the state before the key is marked
as up. -/
def releaseComboKey (now : UInt16) (index keyIndex keyCount : Nat) (keycode : UInt16)
    (keyIsPartOfCombo : Bool) (s : State c) : Bool × State c :=
  let combo := s.combos index
  if combo.active = false ∧ allComboKeysAreDown combo.state keyCount then
    if combo.disabled ∨ c.mustHold index then (false, dropComboFromBuffer index s)
    else if c.mustTap index then
      let s := applyCombos now (applyCombo now index s)
      if c.keyRelease index keyIndex keycode then (keyIsPartOfCombo, releaseCombo now index s)
      else (keyIsPartOfCombo, s)
    else (keyIsPartOfCombo, s)
  else if combo.active ∧ onlyOneKeyIsDown combo.state ∧ keyNotYetReleased combo.state keyIndex then
    (true, releaseCombo now index s)
  else if combo.active ∧ keyNotYetReleased combo.state keyIndex then
    if c.keyRelease index keyIndex keycode then (true, releaseCombo now index s) else (true, s)
  else (false, s)

/-- `combo_key_action_t`, as bits. -/
inductive ComboKeyAction where
  | notPressed
  | pressed
  | repressed
  deriving DecidableEq

def keysPressedInOrder (index keyIndex : Nat) (s : State c) : Bool :=
  c.mustPressInOrder index = false ∨ 2 ^ keyIndex = (s.combos index).state.toNat + 1

def keyIsPartOfCombo (index keyIndex : Nat) (keycode : UInt16) (record : KeyRecord)
    (s : State c) : Bool :=
  (s.combos index).disabled = false ∧ s.enabled ∧ keysPressedInOrder index keyIndex s ∧
    c.shouldTrigger index keycode record

/-- The branch of `process_single_combo` for the chord releases, in which a press ends up too. -/
def releaseSingleCombo (now : UInt16) (index keyIndex keyCount : Nat) (keycode : UInt16)
    (record : KeyRecord) (s : State c) : ComboKeyAction × State c :=
  match releaseComboKey now index keyIndex keyCount keycode
    (keyIsPartOfCombo index keyIndex keycode record s) s with
  | (true, s) => (.pressed, setKeyUp index keyIndex s)
  | (false, s) => (.notPressed, setKeyUp index keyIndex s)

def processSingleCombo (now : UInt16) (keycode : UInt16) (record : KeyRecord) (index : Nat)
    (s : State c) : ComboKeyAction × State c :=
  match findKeyIndexAndCount keycode (c.keys index) 0 none with
  | (none, _) => (.notPressed, s)
  | (some keyIndex, keyCount) =>
      if record.event.pressed ∧ keyIsPartOfCombo index keyIndex keycode record s then
        (.pressed, pressComboKey now index keyIndex keyCount s)
      else if record.event.pressed then
        match c.keyRepress with
        | some keyRepress =>
            if (s.combos index).active ∧ keyRepress index keyIndex keycode then
              (.repressed, setKeyDown index keyIndex s)
            else
              (if keyIsPartOfCombo index keyIndex keycode record s then .pressed else .notPressed, s)
        | none => releaseSingleCombo now index keyIndex keyCount keycode record s
      else releaseSingleCombo now index keyIndex keyCount keycode record s

/-! ## The entry points -/

def comboEnable (s : State c) : State c := { s with enabled := true }

def comboDisable (s : State c) : State c :=
  dumpKeyBuffer (clearCombos
    { s with timer := 0, enabled := false, comboBuffer := s.comboBuffer.clear })

def comboToggle (s : State c) : State c := if s.enabled then comboDisable s else comboEnable s

def qkComboOn : UInt16 := 0x7C50

def qkComboOff : UInt16 := 0x7C51

def qkComboToggle : UInt16 := 0x7C52

/-- The two bits of `is_combo_key`: some combo says pressed, some combo says repressed. -/
structure IsComboKey where
  pressed : Bool
  repressed : Bool
  deriving DecidableEq

def IsComboKey.or (isComboKey : IsComboKey) : ComboKeyAction → IsComboKey
  | .notPressed => isComboKey
  | .pressed => { isComboKey with pressed := true }
  | .repressed => { isComboKey with repressed := true }

/-- The loop over all combos. -/
def processCombos (now : UInt16) (keycode : UInt16) (record : KeyRecord) :
    List Nat → IsComboKey → State c → IsComboKey × State c
  | [], isComboKey, s => (isComboKey, s)
  | index :: indices, isComboKey, s =>
      let (action, s) := processSingleCombo now keycode record index s
      processCombos now keycode record indices (isComboKey.or action) s

/-- The key buffer has a `uint8_t` size. -/
def pushKey (qrecord : QueuedRecord) (s : State c) : State c :=
  if s.keyBuffer.length < c.keyBufferLength then
    { s with
      keyBuffer := if s.keyBuffer.length + 1 < 256 then s.keyBuffer ++ [qrecord] else [] }
  else s

/-- `timer = timer_read()`. -/
def startTimer (now : UInt16) (s : State c) : State c :=
  if c.strictTimer ∧ s.timer ≠ 0 then s else { s with timer := now }

/-- What follows the loop over all combos. -/
def finishCombos (now : UInt16) (keycode : UInt16) (record : KeyRecord) (isComboKey : IsComboKey)
    (s : State c) : State c :=
  if record.event.pressed ∧ (isComboKey.pressed ∨ isComboKey.repressed) then
    if isComboKey.repressed then startTimer now s
    else pushKey ⟨record, none, keycode⟩ (startTimer now s)
  else if s.comboBuffer.isEmpty = false then applyCombos now s
  else clearCombos { dumpKeyBuffer s with timer := 0 }

/-- `refKeycode` is the keycode of the key on the layer for combos.  The result is whether the event
is processed further. -/
def processCombo (now : UInt16) (keycode refKeycode : UInt16) (record : KeyRecord) (s : State c) :
    Bool × State c :=
  if keycode = qkComboOn ∧ record.event.pressed then (true, comboEnable s)
  else if keycode = qkComboOff ∧ record.event.pressed then (true, comboDisable s)
  else if keycode = qkComboToggle ∧ record.event.pressed then (true, comboToggle s)
  else
    let (isComboKey, s) :=
      processCombos now refKeycode record (List.range c.comboCount) ⟨false, false⟩ s
    (isComboKey.pressed = false ∧ isComboKey.repressed = false,
      finishCombos now refKeycode record isComboKey s)

/-- The timer runs, and the longest term has passed. -/
def Due (now : UInt16) (s : State c) : Prop := s.timer ≠ 0 ∧ s.longestTerm < now - s.timer

instance (now : UInt16) (s : State c) : Decidable (Due now s) :=
  inferInstanceAs (Decidable (_ ∧ _))

def comboTask (now : UInt16) (s : State c) : State c :=
  if s.enabled = false then s
  else if Due now s then
    if s.comboBuffer.isEmpty = false then
      { applyCombos now s with longestTerm := 0, timer := 0 }
    else { clearCombos (dumpKeyBuffer s) with timer := 0 }
  else s

/-- A call from outside, and the time of it. -/
inductive Input where
  | processCombo (now keycode refKeycode : UInt16) (record : KeyRecord)
  | comboTask (now : UInt16)
  | comboEnable
  | comboDisable

def perform (s : State c) : Input → State c
  | .processCombo now keycode refKeycode record =>
      (processCombo now keycode refKeycode record s).2
  | .comboTask now => comboTask now s
  | .comboEnable => comboEnable s
  | .comboDisable => comboDisable s

end Engine

end Qmk.Combo
