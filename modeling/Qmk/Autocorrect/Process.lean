import Qmk.Autocorrect.Dictionary

/-!
# Typing with autocorrect

`process_autocorrect` with its default handlers, without swap hands, and the text that the host
has. The two strings that it also makes for a handler of the user are left out.
-/

namespace Qmk.Autocorrect

structure State where
  enabled : Bool
  /-- The first `typo_buffer_size` keycodes. -/
  typoBuffer : List Nat

/-- A key event, with the modifiers of that moment. -/
structure KeyRecord where
  keycode : Nat
  pressed : Bool
  tapCount : Nat
  mods : BitVec 8

def modMaskShift : BitVec 8 := 0x22

/-- What `process_autocorrect_default_handler` returns, with its changes. -/
inductive Handled
  | excluded
  | cleared
  | accepted (keycode : Nat) (mods : BitVec 8)

/-- The shifts, caps lock and the keys of layers and one-shot modifiers. -/
def isExcluded (keycode : Nat) : Bool :=
  keycode = 0xE1 || keycode = 0xE5 || keycode = 0x39 ||
    (0x5200 ≤ keycode && keycode ≤ 0x52FF) || (0x5000 ≤ keycode && keycode ≤ 0x51FF)

/-- The modifiers other than shift are checked last. -/
def checkMods (keycode : Nat) (mods : BitVec 8) : Handled :=
  if mods &&& ~~~modMaskShift ≠ 0 then .cleared else .accepted keycode mods

def defaultHandler (r : KeyRecord) : Handled :=
  if isExcluded r.keycode then .excluded
  else if 0x0200 ≤ r.keycode ∧ r.keycode ≤ 0x02FF then
    .accepted (r.keycode % 256) (r.mods ||| 0x02)
  else if 0x1200 ≤ r.keycode ∧ r.keycode ≤ 0x12FF then
    .accepted (r.keycode % 256) (r.mods ||| 0x12)
  else if 0x4000 ≤ r.keycode ∧ r.keycode ≤ 0x4FFF ∨ 0x2000 ≤ r.keycode ∧ r.keycode ≤ 0x3FFF then
    if r.tapCount = 0 then .excluded else checkMods (r.keycode % 256) r.mods
  else if 0x5600 ≤ r.keycode ∧ r.keycode ≤ 0x56FF then .excluded
  else checkMods r.keycode r.mods

/-- What a keycode is for the typo buffer. -/
inductive KeyClass
  | key (key : Nat)
  | enter
  | backspace
  | other
  deriving DecidableEq

def classify (keycode : Nat) (mods : BitVec 8) : KeyClass :=
  if 0x04 ≤ keycode ∧ keycode ≤ 0x1D then .key keycode
  else if 0x1E ≤ keycode ∧ keycode ≤ 0x27 ∨ 0x2B ≤ keycode ∧ keycode ≤ 0x33 ∨
      0x35 ≤ keycode ∧ keycode ≤ 0x38 then .key kcSpc
  else if keycode = 0x28 then .enter
  else if keycode = 0x2A then .backspace
  else if keycode = 0x34 then .key (if mods &&& modMaskShift ≠ 0 then kcSpc else kcQuot)
  else .other

/-- The oldest key leaves a full buffer, and the new key is appended. -/
def append (maxLength : Nat) (typoBuffer : List Nat) (key : Nat) : List Nat :=
  (if maxLength ≤ typoBuffer.length then (typoBuffer.drop 1).take (maxLength - 1) else typoBuffer) ++
    [key]

structure Correction where
  backspaces : Nat
  changes : List Nat

/-- Whether the key is sent to the host, the correction before it, and the state behind it. -/
structure Outcome where
  pass : Bool
  correction : Option Correction
  state : State

/-- The rest of `process_autocorrect` for the key that is appended to the buffer. -/
def processKey (h : Header) (s : State) (typoBuffer : List Nat) (key : Nat) : Outcome :=
  let typoBuffer := append h.maxLength typoBuffer key
  if typoBuffer.length < h.minLength then ⟨true, none, { s with typoBuffer }⟩
  else
    match search h.data typoBuffer with
    | .typo state =>
        let correction := some ⟨backspacesAt h.data state, changesAt h.data state⟩
        if key = kcSpc then ⟨true, correction, { s with typoBuffer := [kcSpc] }⟩
        else ⟨false, correction, { s with typoBuffer := [] }⟩
    | _ => ⟨true, none, { s with typoBuffer }⟩

def processAutocorrect (h : Header) (s : State) (r : KeyRecord) : Outcome :=
  if 0x7C74 ≤ r.keycode ∧ r.keycode ≤ 0x7C76 ∧ r.pressed then
    if r.keycode = 0x7C74 then ⟨false, none, { s with enabled := true }⟩
    else if r.keycode = 0x7C75 then ⟨false, none, ⟨false, []⟩⟩
    else ⟨false, none, ⟨!s.enabled, []⟩⟩
  else if ¬s.enabled then ⟨true, none, { s with typoBuffer := [] }⟩
  else if ¬r.pressed then ⟨true, none, s⟩
  else
    match defaultHandler r with
    | .excluded => ⟨true, none, s⟩
    | .cleared => ⟨true, none, { s with typoBuffer := [] }⟩
    | .accepted keycode mods =>
        match classify keycode mods with
        | .key key => processKey h s s.typoBuffer key
        | .enter => processKey h s [] kcSpc
        | .backspace => ⟨true, none, { s with typoBuffer := s.typoBuffer.dropLast }⟩
        | .other => ⟨true, none, { s with typoBuffer := [] }⟩

/-! ## The text of the host -/

/-- A character of the text: of a key, or of a string that was sent. -/
inductive Cell
  | typed (keycode : Nat) (mods : BitVec 8)
  | sent (c : Nat)

/-- The key of a cell in the typo buffer. -/
def Cell.key : Cell → Option Nat
  | .typed keycode mods =>
      match classify keycode mods with
      | .key key => some key
      | .enter => some kcSpc
      | _ => none
  | .sent _ => none

def Correction.apply (text : List Cell) (correction : Correction) : List Cell :=
  text.take (text.length - correction.backspaces) ++ correction.changes.map .sent

/-- The texts that a key makes of a text. A key that goes down and that is no character, no
backspace and not excluded may change the text in any way. -/
inductive Shows (r : KeyRecord) (text : List Cell) : List Cell → Prop
  | released (h : r.pressed = false) : Shows r text text
  | excluded (h : defaultHandler r = .excluded) : Shows r text text
  | cleared (hdown : r.pressed = true) (h : defaultHandler r = .cleared) (text' : List Cell) :
      Shows r text text'
  | character {keycode : Nat} {mods : BitVec 8} {key : Nat} (hdown : r.pressed = true)
      (h : defaultHandler r = .accepted keycode mods)
      (hkey : (Cell.typed keycode mods).key = some key) : Shows r text (text ++ [.typed keycode mods])
  | backspace {keycode : Nat} {mods : BitVec 8} (hdown : r.pressed = true)
      (h : defaultHandler r = .accepted keycode mods) (hkey : classify keycode mods = .backspace) :
      Shows r text text.dropLast
  | other {keycode : Nat} {mods : BitVec 8} (hdown : r.pressed = true)
      (h : defaultHandler r = .accepted keycode mods) (hkey : classify keycode mods = .other)
      (text' : List Cell) : Shows r text text'

/-- A key event: the correction, and behind it the key if it is sent. -/
def Types (h : Header) (s : State) (text : List Cell) (r : KeyRecord) (text' : List Cell) : Prop :=
  let outcome := processAutocorrect h s r
  let corrected := (outcome.correction.map (Correction.apply text)).getD text
  if outcome.pass then Shows r corrected text' else text' = corrected

/-- The typo buffer with the key of an event, where the event has one. -/
def typed (h : Header) (s : State) (r : KeyRecord) : Option (List Nat) :=
  if s.enabled ∧ r.pressed ∧ ¬(0x7C74 ≤ r.keycode ∧ r.keycode ≤ 0x7C76) then
    match defaultHandler r with
    | .accepted keycode mods =>
        match classify keycode mods with
        | .key key => some (append h.maxLength s.typoBuffer key)
        | .enter => some (append h.maxLength [] kcSpc)
        | _ => none
    | _ => none
  else none

/-- The states and texts of all runs, from the initial buffer with a word break. -/
inductive Reachable (h : Header) : State → List Cell → Prop
  | init (enabled : Bool) (text : List Cell) : Reachable h ⟨enabled, [kcSpc]⟩ text
  | step {s : State} {text text' : List Cell} {r : KeyRecord} (hreach : Reachable h s text)
      (htypes : Types h s text r text') : Reachable h (processAutocorrect h s r).state text'

end Qmk.Autocorrect
