import Qmk.Lib.Run
import Qmk.WearLeveling.Consolidate

/-!
# The calls of the interface

`wear_leveling_write` unlocks the store, appends words and locks the store
again.  An `Operation` is a call of the interface; a run is a list of them.
-/

namespace Qmk.WearLeveling

open Qmk.Lib

section Relock

variable (p : Platform)

/-- The end of `wear_leveling_write`: lock again what this call unlocked. -/
def relock (lockStatus : LockStatus) (result : Status × State) :
    Status × State :=
  if lockStatus = .success then
    match wearLevelingLock p result.2 with
    | (.failure, s) => (.failed, s)
    | (_, s) => (result.1, s)
  else result

variable {p}

theorem relock_cases (lockStatus : LockStatus) (result : Status × State) :
    ∃ unlocked trace,
      (relock p lockStatus result).2 =
        { result.2 with unlocked := unlocked, trace := trace } ∧
      ((relock p lockStatus result).1 = result.1 ∨
        (relock p lockStatus result).1 = .failed) := by
  simp only [relock]
  by_cases h : lockStatus = .success
  · obtain ⟨u, t, hlock⟩ := wearLevelingLock_frame p result.2
    rw [if_pos h]
    rcases hresult : wearLevelingLock p result.2 with ⟨status, after⟩
    rw [hresult] at hlock
    cases status with
    | failure => exact ⟨u, t, hlock, .inr rfl⟩
    | success => exact ⟨u, t, hlock, .inl rfl⟩
    | unchanged => exact ⟨u, t, hlock, .inl rfl⟩
  · rw [if_neg h]
    exact ⟨result.2.unlocked, result.2.trace, rfl, .inl rfl⟩

/-- Appends `words` and consolidates if that filled the log. -/
def appendThenConsolidate (p : Platform) (words : List (List UInt8))
    (s : State) : Status × State :=
  match appendAll p words s with
  | (.success, s) => wearLevelingConsolidateIfNeeded p s
  | result => result

/-- Appending stops short of the end of the log, so nothing is left to do. -/
theorem appendThenConsolidate_eq {words : List (List UInt8)} {s : State}
    (hwords : ∀ word ∈ words, word.length = p.width)
    (hcursor : s.writeAddress < p.backingSize) :
    appendThenConsolidate p words s = appendAll p words s := by
  have happends := appendAll_appends words hwords hcursor
  simp only [appendThenConsolidate]
  generalize appendAll p words s = result at happends
  cases happends with
  | done hroom =>
      simp only [wearLevelingConsolidateIfNeeded, Nat.not_le.mpr hroom, if_false]
  | failed before rest word hsplit hroom hfail => rfl
  | full before rest word hsplit hroom hfull =>
      have hne := wearLevelingConsolidateForce_ne_success (p := p)
        (s.appended p (before ++ [word]))
      rcases hforce : wearLevelingConsolidateForce p
        (s.appended p (before ++ [word])) with ⟨status, after⟩
      rw [hforce] at hne
      cases status with
      | success => exact absurd rfl hne
      | failed => rfl
      | consolidated => rfl

theorem wearLevelingWrite_eq {s : State} {address : Nat} {value : List UInt8}
    (hbound : address + value.length ≤ p.logicalSize)
    (hnew : value ≠ readBlock s.cache address value.length) :
    wearLevelingWrite p address value s =
      match wearLevelingUnlock p
        { s with cache := overlay s.cache address value } with
      | (.failure, s) => (.failed, (wearLevelingLock p s).2)
      | (lockStatus, s) =>
          relock p lockStatus
            (appendThenConsolidate p (wordsFor p address value) s) := by
  simp only [wearLevelingWrite, if_neg (Nat.not_lt.mpr hbound), if_neg hnew]
  rcases wearLevelingUnlock p
    { s with cache := overlay s.cache address value } with ⟨lockStatus, after⟩
  have hbody : (if (wearLevelingWriteRaw p value.length address value after).1 =
        .success then
      wearLevelingConsolidateIfNeeded p
        (wearLevelingWriteRaw p value.length address value after).2
      else wearLevelingWriteRaw p value.length address value after) =
        appendThenConsolidate p (wordsFor p address value) after := by
    have hraw : wearLevelingWriteRaw p value.length address value after =
        appendAll p (wordsFor p address value) after :=
      wearLevelingWriteRaw_eq _ _ _ _
    rw [hraw, appendThenConsolidate]
    rcases appendAll p (wordsFor p address value) after with ⟨status, final⟩
    cases status <;> rfl
  cases lockStatus with
  | failure => rfl
  | success =>
      simp only [relock, ← hbody]
      all_goals rfl
  | unchanged =>
      simp only [relock, ← hbody]
      all_goals rfl

theorem wearLevelingWrite_outside {s : State} {address : Nat}
    {value : List UInt8} (h : ¬ address + value.length ≤ p.logicalSize) :
    wearLevelingWrite p address value s = (.failed, s) := by
  rw [wearLevelingWrite, if_pos (Nat.lt_of_not_le h)]

theorem wearLevelingWrite_repeated {s : State} {address : Nat}
    {value : List UInt8} (hbound : address + value.length ≤ p.logicalSize)
    (h : value = readBlock s.cache address value.length) :
    wearLevelingWrite p address value s = (.success, s) := by
  rw [wearLevelingWrite, if_neg (Nat.not_lt.mpr hbound), if_pos h]

end Relock

/-! ## Runs -/

inductive Operation where
  | init
  | erase
  | write (address : Nat) (value : List UInt8)
  | read (address length : Nat)
  deriving DecidableEq, Repr

/-- The addresses of a write lie inside the logical area. -/
def Operation.InBounds (p : Platform) : Operation → Prop
  | .write address value => address + value.length ≤ p.logicalSize
  | _ => True

/-- A call of the interface; `wear_leveling_read` leaves the state as it is. -/
def perform (p : Platform) (s : State) : Operation → State
  | .init => (wearLevelingInit p s).2
  | .erase => (wearLevelingErase p s).2
  | .write address value => (wearLevelingWrite p address value s).2
  | .read _ _ => s

end Qmk.WearLeveling
