import Qmk.Lib.Run

/-!
# UCIS input

The input buffer of `ucis.c`, its matching against the symbol table and the key presses of
`process_ucis.c`.  A character is its code; the buffer has no terminator of its own.
-/

namespace Qmk.Ucis

structure Symbol where
  mnemonic : List Nat
  codePoints : List Nat
  /-- A mnemonic is a C string. -/
  mnemonic_ne : 0 ∉ mnemonic

structure Config where
  /-- The entries of `ucis_symbol_table` before its terminator. -/
  table : List Symbol
  /-- `UCIS_MAX_INPUT_LENGTH`, no more than `count` can hold. -/
  maxInputLength : Nat
  maxInputLength_le : maxInputLength ≤ 255
  /-- `UCIS_MAX_CODE_POINTS`. -/
  maxCodePoints : Nat

structure State where
  count : Nat
  active : Bool
  input : List Nat
  deriving DecidableEq

inductive Fault
  /-- An access to `input` outside its `UCIS_MAX_INPUT_LENGTH` characters. -/
  | outOfBounds
  /-- The index of a loop comes round to 0 and the loop does not end. -/
  | hang
  deriving DecidableEq

def kcA : Nat := 0x04
def kcZ : Nat := 0x1D
def kc1 : Nat := 0x1E
def kc9 : Nat := 0x26
def kc0 : Nat := 0x27
def kcEnter : Nat := 0x28
def kcEscape : Nat := 0x29
def kcBackspace : Nat := 0x2A
def kcSpace : Nat := 0x2C

inductive Output
  | registerUnicode (codePoint : Nat)
  | tapBackspace
  deriving DecidableEq

variable (cfg : Config)

def State.initial : State := ⟨0, false, List.replicate cfg.maxInputLength 0⟩

def ucisStart (s : State) : State × List Output :=
  ({ s with count := 0, active := true }, [.registerUnicode 0x2328])

def keycodeToChar (keycode : Nat) : Nat :=
  if kcA ≤ keycode ∧ keycode ≤ kcZ then 97 + (keycode - kcA)
  else if kc1 ≤ keycode ∧ keycode ≤ kc9 then 49 + (keycode - kc1)
  else if keycode = kc0 then 48
  else 0

/-- `input[count++] = c`, when there is a character. -/
def ucisAdd (keycode : Nat) (s : State) : Except Fault (State × Bool) :=
  let c := keycodeToChar keycode
  if c ≠ 0 then
    if s.count < s.input.length then
      .ok ({ s with input := s.input.set s.count c, count := (s.count + 1) % 256 }, true)
    else .error .outOfBounds
  else .ok (s, false)

def ucisRemoveLast (s : State) : State × Bool :=
  if s.count ≠ 0 then ({ s with count := s.count - 1 }, true) else (s, false)

/-- The loop of `match_mnemonic` at the index `i`, with `rest` what the buffer holds from there.
The mnemonic ends in a zero. -/
def matchLoop (count : Nat) (mnemonic : List Nat) : Nat → List Nat → Except Fault Bool
  | _, [] => .error .outOfBounds
  | i, c :: rest =>
      if c = 0 then .ok true
      else if i > count ∨ c ≠ mnemonic.getD i 0 then .ok false
      else matchLoop count mnemonic (i + 1) rest

def matchMnemonic (s : State) (mnemonic : List Nat) : Except Fault Bool :=
  matchLoop s.count mnemonic 0 s.input

/-- The loop of `ucis_finish` over the table, with an index of eight bits: 256 rounds bring it
back to where it was. -/
def findSymbol (s : State) : Nat → Nat → Except Fault (Option Nat)
  | 0, _ => .error .hang
  | rounds + 1, i =>
      match cfg.table[i]? with
      | none => .ok none
      | some symbol =>
          match matchMnemonic s symbol.mnemonic with
          | .error fault => .error fault
          | .ok true => .ok (some i)
          | .ok false => findSymbol s rounds ((i + 1) % 256)

def registerUcis (index : Nat) : List Output :=
  match cfg.table[index]? with
  | none => []
  | some symbol =>
      ((symbol.codePoints.take cfg.maxCodePoints).takeWhile (· ≠ 0)).map .registerUnicode

/-- What a step does for the host, and the symbol it registers. -/
structure Effect where
  continues : Bool := true
  outputs : List Output := []
  registered : Option Nat := none
  deriving DecidableEq

/-- `ucis_finish` as `process_ucis` calls it. -/
def ucisFinish (s : State) : Except Fault (State × Effect) :=
  match findSymbol cfg s 256 0 with
  | .error fault => .error fault
  | .ok none => .ok ({ s with active := false }, { continues := false })
  | .ok (some i) =>
      .ok ({ s with active := false },
        { continues := false
          outputs := List.replicate (s.count + 1) .tapBackspace ++ registerUcis cfg i
          registered := some i })

def ucisCancel (s : State) : State := { s with count := 0, active := false }

def special (keycode : Nat) : Bool :=
  keycode = kcSpace || keycode = kcEnter || keycode = kcEscape || keycode = kcBackspace

def processUcis (keycode : Nat) (pressed : Bool) (s : State) : Except Fault (State × Effect) :=
  if s.active && pressed then
    if s.count ≥ cfg.maxInputLength ∧ ¬ special keycode then .ok (s, { continues := false })
    else
      match ucisAdd keycode s with
      | .error fault => .error fault
      | .ok (s, true) => .ok (s, {})
      | .ok (s, false) =>
          if keycode = kcBackspace then
            let (s, removed) := ucisRemoveLast s
            .ok (s, { continues := removed })
          else if keycode = kcEscape then .ok (ucisCancel s, { continues := false })
          else if keycode = kcSpace ∨ keycode = kcEnter then ucisFinish cfg s
          else .ok (s, {})
  else .ok (s, {})

inductive Event
  | start
  | key (keycode : Nat) (pressed : Bool)
  deriving DecidableEq

def step (s : State) : Event → Except Fault (State × Effect)
  | .start => .ok ((ucisStart s).1, { outputs := (ucisStart s).2 })
  | .key keycode pressed => processUcis cfg keycode pressed s

/-- The state after the step; a fault leaves none, and the old one stands in for it. -/
def next (s : State) (event : Event) : State :=
  match step cfg s event with
  | .ok (s', _) => s'
  | .error _ => s

end Qmk.Ucis
