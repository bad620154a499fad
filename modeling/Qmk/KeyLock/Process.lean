import Mathlib.Data.Nat.Bitwise
import Mathlib.Logic.Function.Basic
import Mathlib.Tactic.Common
import Mathlib.Tactic.SplitIfs

/-!
# Key Lock

A press of `QK_LOCK` watches for the next key, the release of which is masked until the key is
pressed again.
-/

namespace Qmk.KeyLock

def qkOneShotMod : Nat := 0x52A0
def qkOneShotModMax : Nat := 0x52BF
def qkLock : Nat := 0x7C59

/-- `key_state`, of 256 bits, and the watch for the next key. -/
structure LockState where
  keyState : Fin 4 → BitVec 64
  watching : Bool

namespace LockState

def init : LockState where
  keyState := fun _ => 0
  watching := false

/-! ## The bits of `key_state` -/

def keyArray (code : Nat) : Fin 4 :=
  if code < 0x40 then 0 else if code < 0x80 then 1 else if code < 0xC0 then 2 else 3

def codeIndex (code : Nat) : Nat :=
  if code < 0x40 then code
  else if code < 0x80 then code - 0x40
  else if code < 0xC0 then code - 0x80
  else code - 0xC0

def bv64 (shift : Nat) : BitVec 64 := 1#64 <<< shift

/-- `KEY_STATE`. -/
def keyStateOf (s : LockState) (code : Nat) : Bool :=
  s.keyState (keyArray code) &&& bv64 (codeIndex code) = bv64 (codeIndex code)

def setKeyArrayState (s : LockState) (code : Nat) (val : BitVec 64) : LockState :=
  if code ≤ 0xFF then { s with keyState := Function.update s.keyState (keyArray code) val } else s

def setKeyState (s : LockState) (code : Nat) : LockState :=
  s.setKeyArrayState code (s.keyState (keyArray code) ||| bv64 (codeIndex code))

def unsetKeyState (s : LockState) (code : Nat) : LockState :=
  s.setKeyArrayState code (s.keyState (keyArray code) &&& ~~~bv64 (codeIndex code))

theorem codeIndex_lt {code : Nat} (h : code ≤ 0xFF) : codeIndex code < 64 := by
  unfold codeIndex
  split_ifs <;> omega

theorem code_eq {code code' : Nat} (h : keyArray code = keyArray code')
    (hindex : codeIndex code = codeIndex code') : code = code' := by
  unfold keyArray at h
  unfold codeIndex at hindex
  split_ifs at h hindex <;> omega

theorem getLsbD_bv64 {i j : Nat} (hi : i < 64) : (bv64 i).getLsbD j = decide (j = i) := by
  rw [bv64, BitVec.getLsbD_shiftLeft, BitVec.getLsbD_one]
  by_cases hj : j = i
  · simp [hj, hi]
  · simp only [hj, decide_false]
    by_cases hlt : j < i
    · simp [hlt]
    · simp; omega

theorem keyStateOf_eq (s : LockState) {code : Nat} (h : code ≤ 0xFF) :
    s.keyStateOf code = (s.keyState (keyArray code)).getLsbD (codeIndex code) := by
  have hindex := codeIndex_lt h
  rw [keyStateOf, Bool.eq_iff_iff, decide_eq_true_iff]
  constructor
  · intro heq
    have := congrArg (fun x => x.getLsbD (codeIndex code)) heq
    simpa [getLsbD_bv64 hindex] using this
  · intro hbit
    refine BitVec.eq_of_getLsbD_eq fun j hj => ?_
    rw [BitVec.getLsbD_and, getLsbD_bv64 hindex]
    by_cases hji : j = codeIndex code
    · simp [hji, hbit]
    · simp [hji]

theorem keyStateOf_setKeyArrayState (s : LockState) {code code' : Nat} (h : code ≤ 0xFF)
    (h' : code' ≤ 0xFF) (val : BitVec 64) :
    (s.setKeyArrayState code val).keyStateOf code' =
      if keyArray code' = keyArray code then val.getLsbD (codeIndex code')
      else s.keyStateOf code' := by
  rw [keyStateOf_eq _ h', setKeyArrayState, if_pos h, keyStateOf_eq _ h']
  dsimp only
  rw [Function.update_apply]
  split <;> rfl

theorem keyStateOf_setKeyState (s : LockState) {code code' : Nat} (h : code ≤ 0xFF)
    (h' : code' ≤ 0xFF) :
    (s.setKeyState code).keyStateOf code' = (decide (code' = code) || s.keyStateOf code') := by
  rw [setKeyState, keyStateOf_setKeyArrayState s h h', BitVec.getLsbD_or,
    getLsbD_bv64 (codeIndex_lt h), keyStateOf_eq s h']
  split
  · rename_i harray
    rw [← harray, Bool.or_comm]
    congr 1
    exact decide_eq_decide.mpr ⟨code_eq harray, congrArg codeIndex⟩
  · rename_i harray
    rw [decide_eq_false fun heq => harray (congrArg keyArray heq), Bool.false_or]

theorem keyStateOf_unsetKeyState (s : LockState) {code code' : Nat} (h : code ≤ 0xFF)
    (h' : code' ≤ 0xFF) :
    (s.unsetKeyState code).keyStateOf code' = (!decide (code' = code) && s.keyStateOf code') := by
  rw [unsetKeyState, keyStateOf_setKeyArrayState s h h', BitVec.getLsbD_and, BitVec.getLsbD_not,
    getLsbD_bv64 (codeIndex_lt h), keyStateOf_eq s h']
  split
  · rename_i harray
    rw [← harray, Bool.and_comm, decide_eq_true (codeIndex_lt h'), Bool.true_and]
    congr 2
    exact decide_eq_decide.mpr ⟨code_eq harray, congrArg codeIndex⟩
  · rename_i harray
    rw [decide_eq_false fun heq => harray (congrArg keyArray heq), Bool.not_false, Bool.true_and]

end LockState

/-! ## Events -/

/-- The base code of a one-shot modifier, as the source has it. -/
def translateKeycode (keycode : Nat) : Nat :=
  if keycode > qkOneShotMod ∧ keycode ≤ qkOneShotModMax then keycode ^^^ qkOneShotMod else keycode

structure Event where
  keycode : Nat
  pressed : Bool
  deriving DecidableEq

/-- Whether an event goes on, with which key code, and the state after it. -/
structure Outcome where
  passes : Bool
  keycode : Nat
  state : LockState

def processKeyLock (e : Event) (s : LockState) : Outcome :=
  let translated := translateKeycode e.keycode
  if e.pressed then
    if ¬(translated ≤ 0xFF ∨ translated = qkLock) then
      ⟨true, e.keycode, { s with watching := false }⟩
    else if translated = qkLock then
      ⟨false, e.keycode, { s with watching := !s.watching }⟩
    else if s.watching then
      ⟨true, translated, { s with watching := false }.setKeyState translated⟩
    else if s.keyStateOf translated then
      ⟨false, e.keycode, s.unsetKeyState translated⟩
    else ⟨true, e.keycode, s⟩
  else ⟨!(translated ≤ 0xFF && s.keyStateOf translated), e.keycode, s⟩

/-- The state after some events, the last of which comes first. -/
def stateAfter : List Event → LockState
  | [] => .init
  | e :: past => (processKeyLock e (stateAfter past)).state

/-! ## What the events say of a lock -/

/-- A press of `QK_LOCK` turns the watch on or off, and a press of another key ends it. -/
def watches : List Event → Bool
  | [] => false
  | e :: past =>
      if e.pressed then if e.keycode = qkLock then !watches past else false else watches past

/-- The last press of `k` was watched for. -/
def locked (k : Nat) : List Event → Bool
  | [] => false
  | e :: past => if e.pressed ∧ e.keycode = k then watches past else locked k past

/-- No two of the key codes stand for the same one. -/
def Unfolded (events : List Event) : Prop :=
  ∀ e ∈ events, ∀ e' ∈ events,
    translateKeycode e.keycode = translateKeycode e'.keycode → e.keycode = e'.keycode

theorem translateKeycode_le {k : Nat} (h : k > qkOneShotMod ∧ k ≤ qkOneShotModMax) :
    translateKeycode k ≤ 0x1F := by
  have hxor : ∀ x < 32, (qkOneShotMod + x) ^^^ qkOneShotMod ≤ 0x1F := by decide
  obtain ⟨hlow, hhigh⟩ := h
  have := hxor (k - qkOneShotMod) (by unfold qkOneShotMod qkOneShotModMax at *; omega)
  rw [Nat.add_sub_cancel' (Nat.le_of_lt hlow)] at this
  rwa [translateKeycode, if_pos ⟨hlow, hhigh⟩]

theorem translateKeycode_eq_qkLock {k : Nat} : translateKeycode k = qkLock ↔ k = qkLock := by
  by_cases h : k > qkOneShotMod ∧ k ≤ qkOneShotModMax
  · have hle := translateKeycode_le h
    unfold qkOneShotMod qkOneShotModMax qkLock at *
    constructor <;> intro heq <;> omega
  · rw [translateKeycode, if_neg h]

/-! ## Each branch of the source -/

section Branches

variable {s : LockState} {k : Nat}

theorem process_release :
    processKeyLock ⟨k, false⟩ s =
      ⟨!(translateKeycode k ≤ 0xFF && s.keyStateOf (translateKeycode k)), k, s⟩ := rfl

theorem process_lock :
    processKeyLock ⟨qkLock, true⟩ s = ⟨false, qkLock, { s with watching := !s.watching }⟩ := rfl

theorem process_other (h : ¬translateKeycode k ≤ 0xFF) (hlock : k ≠ qkLock) :
    processKeyLock ⟨k, true⟩ s = ⟨true, k, { s with watching := false }⟩ := by
  have htranslated : ¬(translateKeycode k ≤ 0xFF ∨ translateKeycode k = qkLock) := by
    rw [translateKeycode_eq_qkLock]
    exact fun hor => hor.elim h hlock
  exact if_pos htranslated

theorem process_standard (h : translateKeycode k ≤ 0xFF) :
    processKeyLock ⟨k, true⟩ s =
      if s.watching then
        ⟨true, translateKeycode k,
          { s with watching := false }.setKeyState (translateKeycode k)⟩
      else if s.keyStateOf (translateKeycode k) then
        ⟨false, k, s.unsetKeyState (translateKeycode k)⟩
      else ⟨true, k, s⟩ := by
  have hlock : translateKeycode k ≠ qkLock := fun heq => absurd (heq ▸ h) (by decide)
  rw [processKeyLock]
  dsimp only
  rw [if_pos rfl, if_neg (not_not_intro (.inl h)), if_neg hlock]

end Branches

@[simp] theorem setKeyState_watching (s : LockState) (code : Nat) :
    (s.setKeyState code).watching = s.watching := by
  unfold LockState.setKeyState LockState.setKeyArrayState
  split <;> rfl

@[simp] theorem unsetKeyState_watching (s : LockState) (code : Nat) :
    (s.unsetKeyState code).watching = s.watching := by
  unfold LockState.unsetKeyState LockState.setKeyArrayState
  split <;> rfl

/-! ## The state says what the events say -/

theorem watching_eq (past : List Event) : (stateAfter past).watching = watches past := by
  induction past with
  | nil => rfl
  | cons e past ih =>
      obtain ⟨k, pressed⟩ := e
      rw [stateAfter, watches]
      cases pressed with
      | false => exact ih
      | true =>
          by_cases hlock : k = qkLock
          · subst hlock
            rw [process_lock, if_pos rfl, if_pos rfl, ← ih]
          · rw [if_pos rfl, if_neg hlock]
            by_cases hstandard : translateKeycode k ≤ 0xFF
            · rw [process_standard hstandard]
              split
              · exact setKeyState_watching _ _
              · rename_i hwatching
                split
                · exact (unsetKeyState_watching _ _).trans (Bool.eq_false_of_not_eq_true hwatching)
                · exact Bool.eq_false_of_not_eq_true hwatching
            · rw [process_other hstandard hlock]

theorem locked_press (k : Nat) (past : List Event) :
    locked k (⟨k, true⟩ :: past) = watches past :=
  if_pos ⟨rfl, rfl⟩

theorem locked_other {k k' : Nat} (past : List Event) (h : k' ≠ k) (pressed : Bool) :
    locked k (⟨k', pressed⟩ :: past) = locked k past :=
  if_neg fun heq => h heq.2

theorem keyStateOf_eq_locked (past : List Event) {k : Nat} (hk : translateKeycode k ≤ 0xFF)
    (hfold : ∀ e ∈ past, translateKeycode e.keycode = translateKeycode k → e.keycode = k)
    (hpast : Unfolded past) :
    (stateAfter past).keyStateOf (translateKeycode k) = locked k past := by
  induction past generalizing k with
  | nil =>
      rw [stateAfter, LockState.keyStateOf_eq _ hk]
      exact BitVec.getLsbD_zero
  | cons e past ih =>
      obtain ⟨k', pressed⟩ := e
      obtain ⟨hfold', hfold⟩ := List.forall_mem_cons.mp hfold
      have hpast' : Unfolded past := fun e he e' he' =>
        hpast e (List.mem_cons_of_mem _ he) e' (List.mem_cons_of_mem _ he')
      have ih' := ih hk hfold hpast'
      rw [stateAfter]
      cases pressed with
      | false => exact ih'
      | true =>
          by_cases hlock : k' = qkLock
          · subst hlock
            have hne : qkLock ≠ k := by
              rintro rfl
              exact absurd hk (by decide)
            rw [process_lock, locked_other past hne]
            exact ih'
          by_cases hstandard : translateKeycode k' ≤ 0xFF
          · have hwatches := watching_eq past
            rw [process_standard hstandard]
            by_cases heq : k' = k
            · subst heq
              rw [locked_press, ← hwatches]
              split
              · rename_i hwatching
                rw [LockState.keyStateOf_setKeyState _ hk hk, decide_eq_true rfl, Bool.true_or,
                  hwatching]
              · rename_i hwatching
                rw [Bool.eq_false_of_not_eq_true hwatching]
                split
                · rw [LockState.keyStateOf_unsetKeyState _ hk hk, decide_eq_true rfl, Bool.not_true,
                    Bool.false_and]
                · rename_i hstate
                  exact Bool.eq_false_of_not_eq_true hstate
            · have hne : ¬translateKeycode k = translateKeycode k' := fun h => heq (hfold' h.symm)
              rw [locked_other past heq, ← ih']
              split
              · rw [LockState.keyStateOf_setKeyState _ hstandard hk, decide_eq_false hne,
                  Bool.false_or]
                rfl
              split
              · rw [LockState.keyStateOf_unsetKeyState _ hstandard hk, decide_eq_false hne,
                  Bool.not_false, Bool.true_and]
              · rfl
          · have hne : k' ≠ k := by
              rintro rfl
              exact hstandard hk
            rw [process_other hstandard hlock, locked_other past hne]
            exact ih'

/-! ## What is swallowed -/

theorem Unfolded.cons {e : Event} {past : List Event} (h : Unfolded (e :: past)) :
    Unfolded past ∧
      ∀ e' ∈ past, translateKeycode e'.keycode = translateKeycode e.keycode →
        e'.keycode = e.keycode := by
  constructor
  · intro e he e' he'
    exact h e (List.mem_cons_of_mem _ he) e' (List.mem_cons_of_mem _ he')
  · intro e' he'
    exact h e' (List.mem_cons_of_mem _ he') e List.mem_cons_self

/-- An event is swallowed just when its key is locked, and a press of it was not watched for. -/
theorem process_passes {e : Event} {past : List Event} (h : Unfolded (e :: past))
    (hlock : e.keycode ≠ qkLock) :
    (processKeyLock e (stateAfter past)).passes =
      !(translateKeycode e.keycode ≤ 0xFF && locked e.keycode past &&
        !(e.pressed && watches past)) := by
  obtain ⟨hpast, hfold⟩ := h.cons
  obtain ⟨k, pressed⟩ := e
  by_cases hk : translateKeycode k ≤ 0xFF
  · have hstate := keyStateOf_eq_locked past hk hfold hpast
    cases pressed with
    | false => rw [process_release, hstate]; simp [hk]
    | true =>
        rw [process_standard hk, watching_eq past, hstate]
        cases watches past <;> cases locked k past <;> simp [hk]
  · cases pressed with
    | false => rw [process_release]; simp [hk]
    | true => rw [process_other hk hlock]; simp [hk]

/-- The event goes on as it was, unless it is the press that sets a lock. -/
theorem process_keycode {e : Event} {past : List Event}
    (h : ¬(e.pressed = true ∧ watches past = true)) :
    (processKeyLock e (stateAfter past)).keycode = e.keycode := by
  rw [← watching_eq] at h
  unfold processKeyLock
  dsimp only
  by_cases hpressed : e.pressed = true
  · rw [if_pos hpressed, if_neg fun hwatching : (stateAfter past).watching = true =>
      h ⟨hpressed, hwatching⟩]
    split_ifs <;> rfl
  · rw [if_neg hpressed]

def NoPress (k : Nat) (events : List Event) : Prop :=
  ∀ e ∈ events, ¬(e.pressed = true ∧ e.keycode = k)

theorem locked_append {k : Nat} {later : List Event} (past : List Event) (h : NoPress k later) :
    locked k (later ++ past) = locked k past := by
  induction later with
  | nil => rfl
  | cons e later ih =>
      obtain ⟨he, hlater⟩ := List.forall_mem_cons.mp h
      exact (if_neg he).trans (ih hlater)

theorem locked_split {k : Nat} {past : List Event} (h : locked k past = true) :
    ∃ later earlier, past = later ++ ⟨k, true⟩ :: earlier ∧ watches earlier = true ∧
      NoPress k later := by
  induction past with
  | nil => cases h
  | cons e past ih =>
      rw [locked] at h
      split at h
      · rename_i he
        obtain ⟨_, _⟩ := e
        obtain ⟨rfl, rfl⟩ := he
        exact ⟨[], past, rfl, h, List.forall_mem_nil _⟩
      · rename_i he
        obtain ⟨later, earlier, rfl, hwatches, hlater⟩ := ih h
        exact ⟨e :: later, earlier, rfl, hwatches, List.forall_mem_cons.mpr ⟨he, hlater⟩⟩

theorem Unfolded.again {e e' : Event} {past : List Event} (h : Unfolded past) (hmem : e' ∈ past)
    (hcode : e.keycode = e'.keycode) : Unfolded (e :: past) := by
  intro a ha b hb
  rcases List.mem_cons.mp ha with rfl | ha'
  · rcases List.mem_cons.mp hb with rfl | hb'
    · exact fun _ => rfl
    · rw [hcode]
      exact h e' hmem b hb'
  · rcases List.mem_cons.mp hb with rfl | hb'
    · rw [hcode]
      exact h a ha' e' hmem
    · exact h a ha' b hb'

/-- An event is swallowed only under a lock that a press of its own key set while it was watched
for, and another key's event goes on unchanged.  After a masked release, the next press is masked
and its release goes on, or `QK_LOCK` watches for it, and its release is masked again. -/
theorem processKeyLock_masks (e : Event) (past : List Event) (h : Unfolded (e :: past))
    (hlock : e.keycode ≠ qkLock) :
    let out := processKeyLock e (stateAfter past)
    (out.passes = false → ¬(e.pressed = true ∧ watches past = true) ∧
      ∃ later earlier, past = later ++ ⟨e.keycode, true⟩ :: earlier ∧ watches earlier = true ∧
        NoPress e.keycode later) ∧
    (¬(e.pressed = true ∧ watches past = true) → out.keycode = e.keycode) ∧
    (e.pressed = false → out.passes = false → ∀ first, NoPress e.keycode first →
      Unfolded (first ++ e :: past) →
      let watched := watches (first ++ e :: past)
      let again := ⟨e.keycode, true⟩ :: first ++ e :: past
      (processKeyLock ⟨e.keycode, true⟩ (stateAfter (first ++ e :: past))).passes = watched ∧
      ∀ second, NoPress e.keycode second → Unfolded (second ++ again) →
        (processKeyLock ⟨e.keycode, false⟩ (stateAfter (second ++ again))).passes = !watched) := by
  have hpasses := process_passes h hlock
  refine ⟨fun hout => ?_, process_keycode, fun hpressed hout first hfirst hunfolded => ?_⟩
  · rw [hpasses, Bool.not_eq_false', Bool.and_eq_true, Bool.and_eq_true] at hout
    refine ⟨?_, locked_split hout.1.2⟩
    rw [← Bool.and_eq_true, Bool.not_eq_true, ← Bool.not_eq_true']
    exact hout.2
  · rw [hpasses, Bool.not_eq_false', Bool.and_eq_true, Bool.and_eq_true] at hout
    obtain ⟨⟨hstandard, hlocked⟩, -⟩ := hout
    have hmem : e ∈ first ++ e :: past := List.mem_append_right _ List.mem_cons_self
    have hstill : locked e.keycode (first ++ e :: past) = true := by
      rw [locked_append _ hfirst, locked, if_neg fun he => absurd he.1 (by simp [hpressed])]
      exact hlocked
    constructor
    · rw [process_passes (e := ⟨e.keycode, true⟩) (hunfolded.again hmem rfl) hlock]
      dsimp only
      rw [hstandard, hstill, Bool.true_and, Bool.true_and, Bool.not_not, Bool.true_and]
    · intro second hsecond hunfolded'
      rw [process_passes (e := ⟨e.keycode, false⟩)
        (hunfolded'.again (List.mem_append_right _ List.mem_cons_self) rfl) hlock]
      dsimp only
      rw [hstandard, locked_append _ hsecond, List.cons_append, locked_press, Bool.true_and,
        Bool.false_and, Bool.not_false, Bool.and_true]

def kcF : Nat := 0x09
def kcA : Nat := 0x04

/-- `QK_LOCK` is tapped, and a key held down after it. -/
def lockThenPress (k : Nat) : List Event :=
  [⟨k, true⟩, ⟨qkLock, false⟩, ⟨qkLock, true⟩]

theorem processKeyLock_masks_release :
    let out := processKeyLock ⟨kcF, false⟩ (stateAfter (lockThenPress kcF))
    (out.passes = false → ¬(false = true ∧ watches (lockThenPress kcF) = true) ∧
      ∃ later earlier, lockThenPress kcF = later ++ ⟨kcF, true⟩ :: earlier ∧
        watches earlier = true ∧ NoPress kcF later) ∧
    (¬(false = true ∧ watches (lockThenPress kcF) = true) → out.keycode = kcF) ∧
    (false = false → out.passes = false → ∀ first, NoPress kcF first →
      Unfolded (first ++ ⟨kcF, false⟩ :: lockThenPress kcF) →
      let watched := watches (first ++ ⟨kcF, false⟩ :: lockThenPress kcF)
      let again := ⟨kcF, true⟩ :: first ++ ⟨kcF, false⟩ :: lockThenPress kcF
      (processKeyLock ⟨kcF, true⟩
        (stateAfter (first ++ ⟨kcF, false⟩ :: lockThenPress kcF))).passes = watched ∧
      ∀ second, NoPress kcF second → Unfolded (second ++ again) →
        (processKeyLock ⟨kcF, false⟩ (stateAfter (second ++ again))).passes = !watched) :=
  processKeyLock_masks ⟨kcF, false⟩ (lockThenPress kcF) (by unfold Unfolded; decide) (by decide)

/-- A locked key that is pressed under a new watch is not masked, and one that was pressed before
the lock of a one-shot modifier is. -/
theorem relocked_passes :
    (processKeyLock ⟨kcF, false⟩ (stateAfter (lockThenPress kcF))).passes = false ∧
    (processKeyLock ⟨kcF, true⟩ (stateAfter
      ([⟨qkLock, false⟩, ⟨qkLock, true⟩, ⟨kcF, false⟩] ++ lockThenPress kcF))).passes = true ∧
    (processKeyLock ⟨kcA, false⟩ (stateAfter
      (lockThenPress (qkOneShotMod + 4) ++ [⟨kcA, true⟩]))).passes = false := by
  decide

end Qmk.KeyLock
