import Qmk.Autocorrect.Generate

/-!
# The search of the firmware

The loop of `process_autocorrect` that reads the typo buffer backwards and walks through the bytes
of the trie.
-/

namespace Qmk.Autocorrect

inductive Search
  | typo (state : Nat)
  | missed
  -- a read beyond the data
  | outside
  deriving DecidableEq

/-- The loop over the children of a branch. Without a result it reads beyond the data; with `none`
it meets the end of the children, and otherwise it stops at the child with the key. -/
def scan (data : List Nat) (key : Nat) : Nat → Nat → Nat → Option (Option Nat)
  | 0, _, _ => none
  | fuel + 1, code, state =>
      if code = key then some (some state)
      else if code = 0 then some none
      else
        match data[(state + 3) % 65536]? with
        | none => none
        | some code => scan data key fuel code ((state + 3) % 65536)

/-- The state after one key, where there is one. -/
def follow (data : List Nat) (key state code : Nat) : Option (Option Nat) :=
  if code &&& 64 ≠ 0 then
    match scan data key data.length (code &&& 63) state with
    | some (some state) =>
        match data[state + 1]?, data[state + 2]? with
        | some low, some high => some (some (low ||| high <<< 8))
        | _, _ => none
    | other => other
  else if code ≠ key then some none
  else
    match data[(state + 1) % 65536]? with
    | none => none
    | some 0 => some (some ((state + 2) % 65536))
    | some _ => some (some ((state + 1) % 65536))

/-- The rounds of the loop for the keys that are left. -/
def searchFrom (data : List Nat) : Nat → Nat → List Nat → Search
  | _, _, [] => .missed
  | state, code, key :: keys =>
      match follow data key state code with
      | none => .outside
      | some none => .missed
      | some (some state) =>
          match data[state]? with
          | none => .missed
          | some code => if code &&& 128 ≠ 0 then .typo state else searchFrom data state code keys

def search (data typoBuffer : List Nat) : Search :=
  match data[0]? with
  | none => .outside
  | some code => searchFrom data 0 code typoBuffer.reverse

end Qmk.Autocorrect
