import Qmk.TapDance.Engine

/-!
# The life of a dance

What the calls of the callbacks say of each dance agrees with the table of states, and
only the dance that `active_td` names is not finished.
-/

namespace Qmk.TapDance

open Qmk.Lib

/-! ## What the trace says -/

structure Dance where
  finished : Bool
  pressed : Bool

/-- The dance that is in progress, according to the calls of its callbacks. -/
def dance : List Event → Nat → Option Dance
  | [], _ => none
  | .onEachTap i finishes :: past, idx =>
      if i = idx then
        some ⟨((dance past idx).map Dance.finished).getD false || finishes, true⟩
      else dance past idx
  | .onEachRelease i finishes :: past, idx =>
      if i = idx then (dance past idx).map fun d => ⟨d.finished || finishes, false⟩
      else dance past idx
  | .onDanceFinished i :: past, idx =>
      if i = idx then (dance past idx).map fun d => ⟨true, d.pressed⟩ else dance past idx
  | .onReset i :: past, idx => if i = idx then none else dance past idx

/-- A tap starts a dance or goes on with one that is neither finished nor held; a dance
that has been started is finished once, and reset when it is finished and its key up. -/
def Allowed (past : List Event) : Event → Prop
  | .onEachTap idx _ => ∀ d, dance past idx = some d → d.finished = false ∧ d.pressed = false
  | .onEachRelease idx _ => ∃ d, dance past idx = some d ∧ d.pressed = true
  | .onDanceFinished idx => ∃ d, dance past idx = some d ∧ d.finished = false
  | .onReset idx => ∃ d, dance past idx = some d ∧ d.finished = true ∧ d.pressed = false

/-! ## Keycodes -/

theorem td_index {keycode : Nat} (h : isQkTapDance keycode) :
    td (qkTapDanceGetIndex keycode) = keycode := by
  simp only [isQkTapDance, qkTapDance] at h
  simp only [td, qkTapDance, qkTapDanceGetIndex]
  omega

theorem index_lt (keycode : Nat) : qkTapDanceGetIndex keycode < 256 :=
  Nat.mod_lt _ (by decide)

theorem index_td {idx : Nat} (h : idx < 256) : qkTapDanceGetIndex (td idx) = idx := by
  simp only [td, qkTapDance, qkTapDanceGetIndex]
  omega

theorem td_inj {idx other : Nat} (h : idx < 256) (hother : other < 256)
    (heq : td idx = td other) : idx = other := by
  rw [← index_td h, heq, index_td hother]

theorem td_ne_zero (idx : Nat) : td idx ≠ 0 := by
  simp [td, qkTapDance]

theorem isQkTapDance_td (idx : Nat) : isQkTapDance (td idx) := by
  simp only [isQkTapDance, td]
  omega

/-! ## The table -/

variable {cfg : Config}

/-- The state `i` is in use for the dance. -/
def Slot (cfg : Config) (s : State) (idx i : Nat) : Prop :=
  i < cfg.maxSimultaneous ∧ (s.tapDanceStates i).inUse = true ∧
    (s.tapDanceStates i).index = idx

theorem findState_some {s : State} {idx i : Nat} (h : findState cfg s idx = some i) :
    Slot cfg s idx i := by
  have hfound := List.find?_some h
  have hmem := List.mem_of_find?_eq_some h
  simp only [decide_eq_true_eq] at hfound
  exact ⟨List.mem_range.mp hmem, hfound⟩

theorem findState_none {s : State} {idx : Nat} (h : findState cfg s idx = none) (i : Nat) :
    ¬Slot cfg s idx i := by
  rintro ⟨hlt, hslot⟩
  have hnot := List.find?_eq_none.mp h i (List.mem_range.mpr hlt)
  simp only [decide_eq_true_eq] at hnot
  exact hnot hslot

theorem freeState_some {s : State} {i : Nat} (h : freeState cfg s = some i) :
    i < cfg.maxSimultaneous ∧ (s.tapDanceStates i).inUse = false := by
  have hfound := List.find?_some h
  simp only [decide_eq_true_eq] at hfound
  exact ⟨List.mem_range.mp (List.mem_of_find?_eq_some h), hfound⟩

/-- The table is what the trace says. -/
structure Core (cfg : Config) (s : State) : Prop where
  distinct : ∀ idx i j, Slot cfg s idx i → Slot cfg s idx j → i = j
  bound : ∀ idx i, Slot cfg s idx i → idx < cfg.tapDanceCount ∧ idx < 256
  unused : ∀ i, (s.tapDanceStates i).inUse = false → s.tapDanceStates i = .zero
  dances : ∀ idx i, Slot cfg s idx i →
    dance s.trace idx = some ⟨(s.tapDanceStates i).finished, (s.tapDanceStates i).pressed⟩
  absent : ∀ idx, (∀ i, ¬Slot cfg s idx i) → dance s.trace idx = none
  allowed : Always Allowed s.trace

theorem Core.findState {s : State} (h : Core cfg s) {idx i : Nat} (hslot : Slot cfg s idx i) :
    findState cfg s idx = some i := by
  cases hfind : TapDance.findState cfg s idx with
  | none => exact absurd hslot (findState_none hfind i)
  | some j => rw [h.distinct idx j i (findState_some hfind) hslot]

theorem Core.getState {s : State} (h : Core cfg s) {idx i : Nat} (hslot : Slot cfg s idx i) :
    tapDanceGetState cfg s idx = some i := by
  rw [tapDanceGetState, if_neg (Nat.not_le_of_lt (h.bound idx i hslot).1)]
  exact h.findState hslot

/-- One state is given a new value, for a dance that no other state is used for. -/
structure Replaces (cfg : Config) (s s' : State) (idx i : Nat) (state : TapDanceState) :
    Prop where
  states : s'.tapDanceStates = Function.update s.tapDanceStates i state
  lt : i < cfg.maxSimultaneous
  own : (s.tapDanceStates i).inUse = true → (s.tapDanceStates i).index = idx
  alone : ∀ j, j ≠ i → ¬Slot cfg s idx j
  bound : idx < cfg.tapDanceCount ∧ idx < 256
  index : state.inUse = true → state.index = idx
  unused : state.inUse = false → state = .zero
  dance : dance s'.trace idx =
    if state.inUse = true then some ⟨state.finished, state.pressed⟩ else none
  others : ∀ other, other ≠ idx → TapDance.dance s'.trace other = TapDance.dance s.trace other
  allowed : Always Allowed s'.trace

namespace Replaces

variable {s s' : State} {idx i : Nat} {state : TapDanceState}

theorem slot_self (h : Replaces cfg s s' idx i state) {other : Nat} :
    Slot cfg s' other i ↔ state.inUse = true ∧ other = idx := by
  simp only [Slot, h.states, Function.update_self]
  constructor
  · rintro ⟨-, huse, rfl⟩
    exact ⟨huse, h.index huse⟩
  · rintro ⟨huse, rfl⟩
    exact ⟨h.lt, huse, h.index huse⟩

theorem slot_of_ne (h : Replaces cfg s s' idx i state) {other j : Nat} (hj : j ≠ i) :
    Slot cfg s' other j ↔ Slot cfg s other j := by
  simp only [Slot, h.states, Function.update_of_ne hj]

theorem state_of_ne (h : Replaces cfg s s' idx i state) {j : Nat} (hj : j ≠ i) :
    s'.tapDanceStates j = s.tapDanceStates j := by
  rw [h.states, Function.update_of_ne hj]

theorem state_self (h : Replaces cfg s s' idx i state) : s'.tapDanceStates i = state := by
  rw [h.states, Function.update_self]

theorem ne_of_slot (h : Replaces cfg s s' idx i state) {other j : Nat} (hj : j ≠ i)
    (hslot : Slot cfg s other j) : other ≠ idx :=
  fun heq => h.alone j hj (heq ▸ hslot)

theorem core (h : Replaces cfg s s' idx i state) (hs : Core cfg s) : Core cfg s' where
  distinct other j k hj hk := by
    by_cases hji : j = i <;> by_cases hki : k = i
    · rw [hji, hki]
    · subst hji
      have hother := (h.slot_self.mp hj).2
      exact absurd ((h.slot_of_ne hki).mp hk) (hother ▸ h.alone k hki)
    · subst hki
      have hother := (h.slot_self.mp hk).2
      exact absurd ((h.slot_of_ne hji).mp hj) (hother ▸ h.alone j hji)
    · exact hs.distinct other j k ((h.slot_of_ne hji).mp hj) ((h.slot_of_ne hki).mp hk)
  bound other j hj := by
    by_cases hji : j = i
    · subst hji
      rw [(h.slot_self.mp hj).2]
      exact h.bound
    · exact hs.bound other j ((h.slot_of_ne hji).mp hj)
  unused j hj := by
    by_cases hji : j = i
    · subst hji
      rw [h.state_self] at hj ⊢
      exact h.unused hj
    · rw [h.state_of_ne hji] at hj ⊢
      exact hs.unused j hj
  dances other j hj := by
    by_cases hji : j = i
    · subst hji
      obtain ⟨huse, rfl⟩ := h.slot_self.mp hj
      rw [h.dance, if_pos huse, h.state_self]
    · have hslot := (h.slot_of_ne hji).mp hj
      rw [h.others other (h.ne_of_slot hji hslot), h.state_of_ne hji]
      exact hs.dances other j hslot
  absent other hnone := by
    by_cases hother : other = idx
    · subst hother
      rw [h.dance, if_neg fun huse => hnone i (h.slot_self.mpr ⟨huse, rfl⟩)]
    · rw [h.others other hother]
      refine hs.absent other fun j hj => ?_
      by_cases hji : j = i
      · subst hji
        exact hother (hj.2.2.symm.trans (h.own hj.2.1))
      · exact hnone j ((h.slot_of_ne hji).mpr hj)
  allowed := h.allowed

end Replaces

/-! ## The invariant -/

structure Inv (cfg : Config) (s : State) : Prop where
  core : Core cfg s
  /-- A finished dance waits for its key. -/
  settled : ∀ idx i, Slot cfg s idx i → (s.tapDanceStates i).finished = true →
    (s.tapDanceStates i).pressed = true
  active : s.activeTd ≠ 0 → ∃ idx i, s.activeTd = td idx ∧ Slot cfg s idx i ∧
    (s.tapDanceStates i).finished = false
  unfinished : ∀ idx i, Slot cfg s idx i → (s.tapDanceStates i).finished = false →
    s.activeTd = td idx ∧ (s.tapDanceStates i).interrupted = false
  held : ∀ idx i, Slot cfg s idx i →
    ((s.tapDanceStates i).pressed = true ↔ s.held (cfg.keyOf idx) = some (td idx))
  keys : ∀ key keycode, s.held key = some keycode → isQkTapDance keycode →
    cfg.keyOf (qkTapDanceGetIndex keycode) = key

theorem inv_initial : Inv cfg State.initial where
  core :=
    { distinct := fun _ _ _ h => nomatch h.2.1
      bound := fun _ _ h => nomatch h.2.1
      unused := fun _ _ => rfl
      dances := fun _ _ h => nomatch h.2.1
      absent := fun _ _ => rfl
      allowed := Always.nil }
  settled _ _ h := nomatch h.2.1
  active h := absurd rfl h
  unfinished _ _ h := nomatch h.2.1
  held _ _ h := nomatch h.2.1
  keys _ _ h := nomatch h

/-- What a new value of a state has to agree with. -/
structure Fits (cfg : Config) (s s' : State) (idx i : Nat) (state : TapDanceState) :
    Prop where
  settled : state.inUse = true → state.finished = true → state.pressed = true
  unfinished : state.inUse = true → state.finished = false →
    s'.activeTd = td idx ∧ state.interrupted = false
  others : ∀ other j, j ≠ i → Slot cfg s other j → (s.tapDanceStates j).finished = false →
    s'.activeTd = td other
  active : s'.activeTd ≠ 0 →
    s'.activeTd = td idx ∧ state.inUse = true ∧ state.finished = false ∨
      s'.activeTd = s.activeTd ∧ s.activeTd ≠ td idx
  held : state.inUse = true →
    (state.pressed = true ↔ s'.held (cfg.keyOf idx) = some (td idx))
  kept : ∀ other j, j ≠ i → Slot cfg s other j →
    (s'.held (cfg.keyOf other) = some (td other) ↔ s.held (cfg.keyOf other) = some (td other))
  keys : ∀ key keycode, s'.held key = some keycode → isQkTapDance keycode →
    cfg.keyOf (qkTapDanceGetIndex keycode) = key

theorem Replaces.inv {s s' : State} {idx i : Nat} {state : TapDanceState}
    (h : Replaces cfg s s' idx i state) (hs : Inv cfg s) (hfits : Fits cfg s s' idx i state) :
    Inv cfg s' where
  core := h.core hs.core
  settled other j hj := by
    by_cases hji : j = i
    · subst hji
      rw [h.state_self]
      exact hfits.settled (h.slot_self.mp hj).1
    · rw [h.state_of_ne hji]
      exact hs.settled other j ((h.slot_of_ne hji).mp hj)
  active hne := by
    rcases hfits.active hne with ⟨hactive, huse, hunfinished⟩ | ⟨hactive, hother⟩
    · exact ⟨idx, i, hactive, h.slot_self.mpr ⟨huse, rfl⟩, h.state_self ▸ hunfinished⟩
    · obtain ⟨other, j, hname, hslot, hunfinished⟩ := hs.active (hactive ▸ hne)
      have hji : j ≠ i := by
        rintro rfl
        exact hother (hname.trans (congrArg td (hslot.2.2.symm.trans (h.own hslot.2.1))))
      exact ⟨other, j, hactive.trans hname, (h.slot_of_ne hji).mpr hslot,
        h.state_of_ne hji ▸ hunfinished⟩
  unfinished other j hj := by
    by_cases hji : j = i
    · subst hji
      obtain ⟨huse, rfl⟩ := h.slot_self.mp hj
      rw [h.state_self]
      exact hfits.unfinished huse
    · have hslot := (h.slot_of_ne hji).mp hj
      rw [h.state_of_ne hji]
      intro hunfinished
      exact ⟨hfits.others other j hji hslot hunfinished,
        (hs.unfinished other j hslot hunfinished).2⟩
  held other j hj := by
    by_cases hji : j = i
    · subst hji
      obtain ⟨huse, rfl⟩ := h.slot_self.mp hj
      rw [h.state_self]
      exact hfits.held huse
    · have hslot := (h.slot_of_ne hji).mp hj
      rw [h.state_of_ne hji, hfits.kept other j hji hslot]
      exact hs.held other j hslot
  keys := hfits.keys

/-! ## Finishing a dance -/

/-- A dance that is not finished, and no other one, is named by `active_td`. -/
theorem Inv.finished_of_ne {s : State} (h : Inv cfg s) {idx i : Nat}
    (hslot : Slot cfg s idx i) (hunfinished : (s.tapDanceStates i).finished = false)
    {other j : Nat} (hji : j ≠ i) (hother : Slot cfg s other j) :
    (s.tapDanceStates j).finished = true := by
  by_contra hnot
  have hname := (h.unfinished idx i hslot hunfinished).1
  have hname' := (h.unfinished other j hother (Bool.not_eq_true _ ▸ hnot)).1
  have heq := td_inj (h.core.bound idx i hslot).2 (h.core.bound other j hother).2
    (hname.symm.trans hname')
  subst heq
  exact hji (h.core.distinct idx j i hother hslot)

theorem Inv.alone {s : State} (h : Inv cfg s) {idx i : Nat} (hslot : Slot cfg s idx i) (j : Nat)
    (hji : j ≠ i) : ¬Slot cfg s idx j :=
  fun hj => hji (h.core.distinct idx j i hj hslot)

/-- The state after an interruption by a key. -/
def interrupt (i : Nat) (interrupted : Bool) (interruptingKeycode : Nat) (s : State) : State :=
  s.setState i { s.tapDanceStates i with interrupted, interruptingKeycode }

theorem processOnDanceFinished_pressed {s : State} {i : Nat}
    (hunfinished : (s.tapDanceStates i).finished = false)
    (hpressed : (s.tapDanceStates i).pressed = true) (interrupted : Bool)
    (interruptingKeycode : Nat) :
    processOnDanceFinished i (interrupt i interrupted interruptingKeycode s) =
      { s with
        activeTd := 0
        tapDanceStates := Function.update s.tapDanceStates i
          { s.tapDanceStates i with interrupted, interruptingKeycode, finished := true }
        trace := .onDanceFinished (s.tapDanceStates i).index :: s.trace } := by
  simp [processOnDanceFinished, interrupt, State.setState, State.log, hunfinished, hpressed]

theorem processOnDanceFinished_released {s : State} {i : Nat}
    (hunfinished : (s.tapDanceStates i).finished = false)
    (hpressed : (s.tapDanceStates i).pressed = false) (interrupted : Bool)
    (interruptingKeycode : Nat) :
    processOnDanceFinished i (interrupt i interrupted interruptingKeycode s) =
      { s with
        activeTd := 0
        tapDanceStates := Function.update s.tapDanceStates i .zero
        trace := .onReset (s.tapDanceStates i).index ::
          .onDanceFinished (s.tapDanceStates i).index :: s.trace } := by
  simp [processOnDanceFinished, processOnReset, interrupt, State.setState, State.log,
    hunfinished, hpressed]

/-- A dance that is not finished is finished, by time or by another key. -/
theorem Inv.finish {s : State} (h : Inv cfg s) {idx i : Nat} (hslot : Slot cfg s idx i)
    (hunfinished : (s.tapDanceStates i).finished = false) (interrupted : Bool)
    (interruptingKeycode : Nat) :
    Inv cfg (processOnDanceFinished i (interrupt i interrupted interruptingKeycode s)) := by
  have hdance := h.core.dances idx i hslot
  have hothers (other j : Nat) (hji : j ≠ i) (hother : Slot cfg s other j)
      (hnot : (s.tapDanceStates j).finished = false) : (0 : Nat) = td other := by
    rw [h.finished_of_ne hslot hunfinished hji hother] at hnot
    contradiction
  have hfinished : Always Allowed (.onDanceFinished idx :: s.trace) :=
    Always.cons_iff.mpr ⟨h.core.allowed, _, hdance, hunfinished⟩
  have hindex := hslot.2.2
  cases hpressed : (s.tapDanceStates i).pressed with
  | true =>
      rw [processOnDanceFinished_pressed hunfinished hpressed, hindex]
      refine @Replaces.inv cfg s _ idx i _ ⟨rfl, hslot.1, fun _ => hindex, h.alone hslot,
        h.core.bound idx i hslot, fun _ => hindex, ?_, ?_, ?_, hfinished⟩ h
        ⟨fun _ _ => hpressed, ?_, hothers, fun hne => absurd rfl hne,
          fun _ => h.held idx i hslot, fun _ _ _ _ => Iff.rfl, h.keys⟩
      · intro hfree
        exact absurd (hslot.2.1.symm.trans hfree) (by decide)
      · simp [dance, hdance, hslot.2.1]
      · intro other hne
        simp [dance, hne.symm]
      · intro _ hnot
        contradiction
  | false =>
      have hdone : dance (.onDanceFinished idx :: s.trace) idx = some ⟨true, false⟩ := by
        simp [dance, hdance, hpressed]
      rw [processOnDanceFinished_released hunfinished hpressed, hindex]
      refine @Replaces.inv cfg s _ idx i .zero ⟨rfl, hslot.1, fun _ => hindex, h.alone hslot,
        h.core.bound idx i hslot, nofun, fun _ => rfl, ?_, ?_,
        Always.cons_iff.mpr ⟨hfinished, _, hdone, rfl, rfl⟩⟩ h
        ⟨nofun, nofun, hothers, fun hne => absurd rfl hne, nofun, fun _ _ _ _ => Iff.rfl,
          h.keys⟩
      · simp [dance, TapDanceState.zero]
      · intro other hne
        simp [dance, hne.symm]

@[simp] theorem processOnDanceFinished_activeTd (i : Nat) (s : State) :
    (processOnDanceFinished i s).activeTd = 0 := by
  unfold processOnDanceFinished
  dsimp only
  split <;> rfl

@[simp] theorem processOnDanceFinished_held (i : Nat) (s : State) :
    (processOnDanceFinished i s).held = s.held := by
  unfold processOnDanceFinished
  dsimp only
  split <;> split <;> rfl

theorem Inv.getActive {s : State} (h : Inv cfg s) (hactive : s.activeTd ≠ 0) :
    ∃ idx i, s.activeTd = td idx ∧ Slot cfg s idx i ∧ (s.tapDanceStates i).finished = false ∧
      tapDanceGetState cfg s (qkTapDanceGetIndex s.activeTd) = some i := by
  obtain ⟨idx, i, hname, hslot, hunfinished⟩ := h.active hactive
  refine ⟨idx, i, hname, hslot, hunfinished, ?_⟩
  rw [hname, index_td (h.core.bound idx i hslot).2]
  exact h.core.getState hslot

/-- Before a press is processed, no dance but the one that it may go on with is active. -/
theorem preprocessTapDance_inv {s : State} (h : Inv cfg s) (keycode : Nat) :
    Inv cfg (preprocessTapDance cfg keycode s).2 ∧
      (preprocessTapDance cfg keycode s).2.held = s.held ∧
      ((preprocessTapDance cfg keycode s).2.activeTd = 0 ∨
        (preprocessTapDance cfg keycode s).1 = false ∧
          (preprocessTapDance cfg keycode s).2.activeTd = keycode) := by
  unfold preprocessTapDance
  split
  · rename_i hcase
    refine ⟨h, rfl, ?_⟩
    rcases hcase with hnone | hsame
    · exact .inl hnone
    · exact .inr ⟨rfl, hsame.symm⟩
  · rename_i hcase
    obtain ⟨idx, i, -, hslot, hunfinished, hget⟩ := h.getActive fun hnone => hcase (.inl hnone)
    rw [hget]
    refine ⟨h.finish hslot hunfinished true keycode, ?_, .inl ?_⟩
    · exact processOnDanceFinished_held i _
    · exact processOnDanceFinished_activeTd i _

theorem tapDanceTask_inv {s : State} (h : Inv cfg s) (now : Nat) :
    Inv cfg (tapDanceTask cfg now s) := by
  unfold tapDanceTask
  split
  · exact h
  · rename_i hcase
    obtain ⟨idx, i, -, hslot, hunfinished, hget⟩ := h.getActive fun hnone => hcase (.inl hnone)
    have hinterrupted := (h.unfinished idx i hslot hunfinished).2
    have hsame : interrupt i (s.tapDanceStates i).interrupted
        (s.tapDanceStates i).interruptingKeycode s = s := by
      simp [interrupt, State.setState]
    have hfinish := h.finish hslot hunfinished (s.tapDanceStates i).interrupted
      (s.tapDanceStates i).interruptingKeycode
    rw [hsame] at hfinish
    simp only [hget, hinterrupted, if_true]
    exact hfinish

/-! ## Pressing a key -/

/-- Only the record of the keys that are down changes, and it says the same of the
dances in progress. -/
theorem Inv.hold {s : State} (h : Inv cfg s) {key : Nat} {keycode : Option Nat}
    (hsame : ∀ idx i, Slot cfg s idx i → cfg.keyOf idx = key →
      (keycode = some (td idx) ↔ s.held key = some (td idx)))
    (hkey : ∀ kc, keycode = some kc → isQkTapDance kc →
      cfg.keyOf (qkTapDanceGetIndex kc) = key) :
    Inv cfg { s with held := Function.update s.held key keycode } where
  core := ⟨h.core.distinct, h.core.bound, h.core.unused, h.core.dances, h.core.absent,
    h.core.allowed⟩
  settled := h.settled
  active := h.active
  unfinished := h.unfinished
  held idx i hslot := by
    rw [h.held idx i hslot]
    by_cases hidx : cfg.keyOf idx = key
    · simp only [hidx, Function.update_self]
      exact (hsame idx i hslot hidx).symm
    · simp only [Function.update_of_ne hidx]
  keys other kc hheld htap := by
    change Function.update s.held key keycode other = some kc at hheld
    by_cases hother : other = key
    · subst hother
      rw [Function.update_self] at hheld
      exact hkey kc hheld htap
    · rw [Function.update_of_ne hother] at hheld
      exact h.keys other kc hheld htap

/-- A state that a press may go on with, or start from. -/
structure Opens (cfg : Config) (s : State) (idx i : Nat) (state : TapDanceState) : Prop where
  lt : i < cfg.maxSimultaneous
  own : (s.tapDanceStates i).inUse = true → (s.tapDanceStates i).index = idx
  alone : ∀ j, j ≠ i → ¬Slot cfg s idx j
  bound : idx < cfg.tapDanceCount ∧ idx < 256
  index : state.index = idx
  inUse : state.inUse = true
  finished : state.finished = false
  interrupted : state.interrupted = false
  dance : ∀ d, dance s.trace idx = some d → d.finished = false ∧ d.pressed = false

theorem Inv.getOrAllocate {s : State} (h : Inv cfg s) {idx : Nat} (hidx : idx < 256)
    (hup : s.held (cfg.keyOf idx) = none) :
    (tapDanceGetOrAllocateState cfg idx true s = none ∧ ∀ i, ¬Slot cfg s idx i) ∨
      ∃ i state, tapDanceGetOrAllocateState cfg idx true s = some (i, s.setState i state) ∧
        Opens cfg s idx i state := by
  unfold tapDanceGetOrAllocateState
  split
  · rename_i hcount
    exact .inl ⟨rfl, fun i hslot => Nat.not_le_of_lt (h.core.bound idx i hslot).1 hcount⟩
  · rename_i hcount
    have hbound : idx < cfg.tapDanceCount ∧ idx < 256 := ⟨Nat.lt_of_not_le hcount, hidx⟩
    cases hfind : findState cfg s idx with
    | some i =>
        have hslot := findState_some hfind
        have hreleased : (s.tapDanceStates i).pressed = false := by
          rw [← Bool.not_eq_true, h.held idx i hslot, hup]
          exact Option.some_ne_none _ ∘ Eq.symm
        have hunfinished : (s.tapDanceStates i).finished = false := by
          rw [← Bool.not_eq_true]
          intro hfinished
          have hpressed := h.settled idx i hslot hfinished
          rw [hreleased] at hpressed
          contradiction
        refine .inr ⟨i, s.tapDanceStates i, by simp [State.setState], hslot.1,
          fun _ => hslot.2.2, h.alone hslot, hbound, hslot.2.2, hslot.2.1, hunfinished,
          (h.unfinished idx i hslot hunfinished).2, ?_⟩
        intro d hd
        rw [h.core.dances idx i hslot, hunfinished, hreleased, Option.some_inj] at hd
        exact hd ▸ ⟨rfl, rfl⟩
    | none =>
        have hnone := findState_none hfind
        cases hfree : freeState cfg s with
        | none => exact .inl ⟨rfl, hnone⟩
        | some i =>
            obtain ⟨hlt, hunused⟩ := freeState_some hfree
            have hzero := h.core.unused i hunused
            refine .inr ⟨i, _, rfl, hlt, fun huse => ?_, fun j _ => hnone j, hbound, rfl, rfl,
              ?_, ?_, fun d hd => ?_⟩
            · rw [hunused] at huse
              contradiction
            · rw [hzero]
              rfl
            · rw [hzero]
              rfl
            · rw [h.core.absent idx hnone] at hd
              contradiction

theorem processTapDance_press {s : State} {keycode i : Nat} {state : TapDanceState}
    (htap : isQkTapDance keycode)
    (hget : tapDanceGetOrAllocateState cfg (qkTapDanceGetIndex keycode) true s =
      some (i, s.setState i state)) (now : Nat) (finishes : Bool) :
    processTapDance cfg keycode true now finishes s =
      { s with
        lastTapTime := BitVec.ofNat 16 now
        activeTd := if (state.finished || finishes) = true then 0 else keycode
        tapDanceStates := Function.update s.tapDanceStates i
          { state with
            pressed := true
            count := state.count + 1
            finished := state.finished || finishes }
        trace := .onEachTap state.index finishes :: s.trace } := by
  rw [processTapDance, if_pos htap, hget]
  simp [setPressed, processOnEachTap, State.setState, State.log]

theorem processTapDance_none {s : State} {keycode : Nat} (pressed : Bool) (now : Nat)
    (finishes : Bool)
    (hnone : isQkTapDance keycode →
      tapDanceGetOrAllocateState cfg (qkTapDanceGetIndex keycode) pressed s = none) :
    processTapDance cfg keycode pressed now finishes s = s := by
  unfold processTapDance
  split
  · rename_i htap
    rw [hnone htap]
  · rfl

/-- A press of a key that was up, while no dance but that of the keycode is active. -/
theorem press_inv {s : State} (h : Inv cfg s) {key keycode : Nat} (now : Nat)
    (finishes : Bool) (hup : s.held key = none)
    (hkey : isQkTapDance keycode → cfg.keyOf (qkTapDanceGetIndex keycode) = key)
    (hactive : s.activeTd = 0 ∨ s.activeTd = keycode) :
    Inv cfg { processTapDance cfg keycode true now finishes s with
      held := Function.update s.held key (some keycode) } := by
  have hkeys (kc : Nat) (heq : some keycode = some kc) (htap : isQkTapDance kc) :
      cfg.keyOf (qkTapDanceGetIndex kc) = key := by
    cases heq
    exact hkey htap
  by_cases htap : isQkTapDance keycode
  · have hidx := index_lt keycode
    rcases h.getOrAllocate hidx (by rw [hkey htap, hup]) with
      ⟨hnone, hslots⟩ | ⟨i, state, hget, hopens⟩
    · rw [processTapDance_none true now finishes fun _ => hnone]
      refine h.hold (fun idx i hslot _ => iff_of_false ?_ (by simp [hup])) hkeys
      intro heq
      have hname := congrArg qkTapDanceGetIndex (Option.some.inj heq)
      rw [index_td (h.core.bound idx i hslot).2] at hname
      exact hslots i (hname ▸ hslot)
    · have hother (other j : Nat) (hji : j ≠ i) (hslot : Slot cfg s other j) :
          keycode ≠ td other := by
        intro heq
        have hname := congrArg qkTapDanceGetIndex heq
        rw [index_td (h.core.bound other j hslot).2] at hname
        exact hopens.alone j hji (hname ▸ hslot)
      rw [processTapDance_press htap hget, hopens.index]
      refine @Replaces.inv cfg s _ (qkTapDanceGetIndex keycode) i _ ⟨rfl, hopens.lt, hopens.own,
        hopens.alone, hopens.bound, fun _ => rfl, ?_, ?_, ?_, ?_⟩ h
        ⟨fun _ _ => rfl, ?_, ?_, ?_, fun _ => ?_, ?_, ?_⟩
      · intro hfree
        exact absurd (hopens.inUse.symm.trans hfree) (by decide)
      · have hbefore : ((dance s.trace (qkTapDanceGetIndex keycode)).map Dance.finished).getD
            false = false := by
          cases hdance : dance s.trace (qkTapDanceGetIndex keycode) with
          | none => rfl
          | some d => exact (hopens.dance d hdance).1
        simp [dance, hbefore, hopens.finished, hopens.inUse]
      · intro other hne
        simp [dance, hne.symm]
      · exact Always.cons_iff.mpr ⟨h.core.allowed, hopens.dance⟩
      · intro _ hunfinished
        simp only at hunfinished
        simp [hunfinished, hopens.interrupted, td_index htap]
      · intro other j hji hslot hunfinished
        have hname := (h.unfinished other j hslot hunfinished).1
        rcases hactive with hnone | hsame
        · exact absurd (hname.symm.trans hnone) (td_ne_zero other)
        · exact absurd (hsame.symm.trans hname) (hother other j hji hslot)
      · intro hne
        refine .inl ?_
        by_cases hfinishes : (state.finished || finishes) = true
        · exact absurd (if_pos hfinishes) hne
        · exact ⟨(if_neg hfinishes).trans (td_index htap).symm, hopens.inUse,
            Bool.not_eq_true _ ▸ hfinishes⟩
      · simp [hkey htap, td_index htap]
      · intro other j hji hslot
        by_cases hsame : cfg.keyOf other = key
        · have hne := hother other j hji hslot
          simp [hsame, hup, hne]
        · simp [Function.update_of_ne hsame]
      · intro other kc hheld hname
        change Function.update s.held key (some keycode) other = some kc at hheld
        by_cases hsame : other = key
        · rw [hsame, Function.update_self] at hheld
          exact hsame ▸ hkeys kc hheld hname
        · rw [Function.update_of_ne hsame] at hheld
          exact h.keys other kc hheld hname
  · rw [processTapDance_none true now finishes fun hdance => absurd hdance htap]
    refine h.hold (fun idx i hslot _ => iff_of_false ?_ (by simp [hup])) hkeys
    intro heq
    exact htap (Option.some.inj heq ▸ isQkTapDance_td idx)

theorem processTapDance_held (keycode : Nat) (pressed : Bool) (now : Nat) (finishes : Bool)
    (s : State) : (processTapDance cfg keycode pressed now finishes s).held = s.held := by
  have hget (idx : Nat) (allocate : Bool) (i : Nat) (s' : State)
      (h : tapDanceGetOrAllocateState cfg idx allocate s = some (i, s')) : s'.held = s.held := by
    unfold tapDanceGetOrAllocateState at h
    split at h
    · contradiction
    · split at h
      · cases h
        rfl
      · split at h
        · contradiction
        · split at h
          · cases h
            rfl
          · contradiction
  unfold processTapDance
  split
  · split
    · rfl
    · rename_i i s' hsome
      have hsame := hget _ _ i s' hsome
      dsimp only
      split
      · exact hsame
      · split <;> exact hsame
  · rfl

theorem pressKey_inv {s : State} (h : Inv cfg s) {key keycode again : Nat} (now : Nat)
    (finishes : Bool) (hup : s.held key = none)
    (hkey : isQkTapDance keycode → cfg.keyOf (qkTapDanceGetIndex keycode) = key)
    (hagain : isQkTapDance again → cfg.keyOf (qkTapDanceGetIndex again) = key) :
    Inv cfg (pressKey cfg key keycode again now finishes s) := by
  obtain ⟨hinv, hheld, hactive⟩ := preprocessTapDance_inv h keycode
  have hpress (kc : Nat) (hkc : isQkTapDance kc → cfg.keyOf (qkTapDanceGetIndex kc) = key)
      (hname : (preprocessTapDance cfg keycode s).2.activeTd = 0 ∨
        (preprocessTapDance cfg keycode s).2.activeTd = kc) :=
    press_inv hinv now finishes (by rw [hheld, hup]) hkc hname
  unfold pressKey
  simp only [processTapDance_held]
  by_cases hlooked : (preprocessTapDance cfg keycode s).1 = true
  · rw [if_pos hlooked]
    refine hpress again hagain ?_
    rcases hactive with hnone | ⟨hfalse, -⟩
    · exact .inl hnone
    · rw [hlooked] at hfalse
      contradiction
  · rw [if_neg hlooked]
    refine hpress keycode hkey ?_
    rcases hactive with hnone | ⟨-, hsame⟩
    · exact .inl hnone
    · exact .inr hsame

/-! ## Releasing a key -/

theorem Core.getOrAllocate_false {s : State} (h : Core cfg s) (idx : Nat) :
    (tapDanceGetOrAllocateState cfg idx false s = none ∧ ∀ i, ¬Slot cfg s idx i) ∨
      ∃ i, tapDanceGetOrAllocateState cfg idx false s = some (i, s) ∧ Slot cfg s idx i := by
  unfold tapDanceGetOrAllocateState
  split
  · rename_i hcount
    exact .inl ⟨rfl, fun i hslot => Nat.not_le_of_lt (h.bound idx i hslot).1 hcount⟩
  · cases hfind : TapDance.findState cfg s idx with
    | some i => exact .inr ⟨i, rfl, findState_some hfind⟩
    | none => exact .inl ⟨rfl, findState_none hfind⟩

theorem processTapDance_release {s : State} {keycode i : Nat} (htap : isQkTapDance keycode)
    (hget : tapDanceGetOrAllocateState cfg (qkTapDanceGetIndex keycode) false s = some (i, s))
    (now : Nat) (finishes : Bool) :
    processTapDance cfg keycode false now finishes s =
      if ((s.tapDanceStates i).finished || finishes) = true then
        { s with
          activeTd := if s.activeTd = keycode then 0 else s.activeTd
          tapDanceStates := Function.update s.tapDanceStates i .zero
          trace := .onReset (s.tapDanceStates i).index ::
            .onEachRelease (s.tapDanceStates i).index finishes :: s.trace }
      else
        { s with
          tapDanceStates := Function.update s.tapDanceStates i
            { s.tapDanceStates i with pressed := false, finished := false }
          trace := .onEachRelease (s.tapDanceStates i).index finishes :: s.trace } := by
  rw [processTapDance, if_pos htap, hget]
  cases hfinished : ((s.tapDanceStates i).finished || finishes) with
  | true =>
      simp [setPressed, processOnEachRelease, processOnReset, State.setState, State.log,
        hfinished]
  | false =>
      simp [setPressed, processOnEachRelease, State.setState, State.log, hfinished]

theorem release_inv {s : State} (h : Inv cfg s) {key keycode : Nat} (now : Nat)
    (finishes : Bool) (hdown : s.held key = some keycode) :
    Inv cfg { processTapDance cfg keycode false now finishes s with
      held := Function.update s.held key none } := by
  have hkeys (other kc : Nat) (hheld : Function.update s.held key none other = some kc)
      (hname : isQkTapDance kc) : cfg.keyOf (qkTapDanceGetIndex kc) = other := by
    by_cases hsame : other = key
    · rw [hsame, Function.update_self] at hheld
      contradiction
    · rw [Function.update_of_ne hsame] at hheld
      exact h.keys other kc hheld hname
  have hquiet (hnone : isQkTapDance keycode → ∀ i, ¬Slot cfg s (qkTapDanceGetIndex keycode) i) :
      Inv cfg { s with held := Function.update s.held key none } := by
    refine h.hold (fun idx i hslot _ => iff_of_false nofun ?_) nofun
    rw [hdown]
    intro heq
    have hname := Option.some.inj heq
    refine hnone (hname ▸ isQkTapDance_td idx) i ?_
    rw [hname, index_td (h.core.bound idx i hslot).2]
    exact hslot
  by_cases htap : isQkTapDance keycode
  · rcases h.core.getOrAllocate_false (qkTapDanceGetIndex keycode) with
      ⟨hnone, hslots⟩ | ⟨i, hget, hslot⟩
    · rw [processTapDance_none false now finishes fun _ => hnone]
      exact hquiet fun _ => hslots
    · have hkey := h.keys key keycode hdown htap
      have hindex := hslot.2.2
      have hpressed : (s.tapDanceStates i).pressed = true := by
        rw [h.held _ i hslot, hkey, td_index htap]
        exact hdown
      have hdance := h.core.dances _ i hslot
      rw [hpressed] at hdance
      have hother (other j : Nat) (hji : j ≠ i) (hslot' : Slot cfg s other j) :
          keycode ≠ td other := by
        intro heq
        have hname := congrArg qkTapDanceGetIndex heq
        rw [index_td (h.core.bound other j hslot').2] at hname
        exact h.alone hslot j hji (hname ▸ hslot')
      have hkept (other j : Nat) (hji : j ≠ i) (hslot' : Slot cfg s other j) :
          Function.update s.held key none (cfg.keyOf other) = some (td other) ↔
            s.held (cfg.keyOf other) = some (td other) := by
        by_cases hsame : cfg.keyOf other = key
        · simp [hsame, hdown, hother other j hji hslot']
        · simp [Function.update_of_ne hsame]
      have hreleased : Always Allowed
          (.onEachRelease (qkTapDanceGetIndex keycode) finishes :: s.trace) :=
        Always.cons_iff.mpr ⟨h.core.allowed, _, hdance, rfl⟩
      rw [processTapDance_release htap hget, hindex]
      split
      · rename_i hfinished
        have hdone : dance (.onEachRelease (qkTapDanceGetIndex keycode) finishes :: s.trace)
            (qkTapDanceGetIndex keycode) = some ⟨true, false⟩ := by
          simp [dance, hdance, hfinished]
        refine @Replaces.inv cfg s _ (qkTapDanceGetIndex keycode) i .zero ⟨rfl, hslot.1,
          fun _ => hindex, h.alone hslot, h.core.bound _ i hslot, nofun, fun _ => rfl, ?_, ?_,
          Always.cons_iff.mpr ⟨hreleased, _, hdone, rfl, rfl⟩⟩ h
          ⟨nofun, nofun, ?_, ?_, nofun, hkept, hkeys⟩
        · simp [dance, TapDanceState.zero]
        · intro other hne
          simp [dance, hne.symm]
        · intro other j hji hslot' hunfinished
          have hname := (h.unfinished other j hslot' hunfinished).1
          have hne : s.activeTd ≠ keycode := hname ▸ (hother other j hji hslot').symm
          exact (if_neg hne).trans hname
        · intro hne
          refine .inr ?_
          by_cases hsame : s.activeTd = keycode
          · exact absurd (if_pos hsame) hne
          · exact ⟨if_neg hsame, by rwa [td_index htap]⟩
      · rename_i hnot
        obtain ⟨hunfinished, rfl⟩ : (s.tapDanceStates i).finished = false ∧ finishes = false := by
          simpa using hnot
        have hactive := h.unfinished _ i hslot hunfinished
        refine @Replaces.inv cfg s _ (qkTapDanceGetIndex keycode) i _ ⟨rfl, hslot.1,
          fun _ => hindex, h.alone hslot, h.core.bound _ i hslot, fun _ => hindex, ?_, ?_, ?_,
          hreleased⟩ h ⟨nofun, fun _ _ => hactive, ?_, ?_, ?_, hkept, hkeys⟩
        · intro hfree
          exact absurd (hslot.2.1.symm.trans hfree) (by decide)
        · simp [dance, hdance, hunfinished, hslot.2.1]
        · intro other hne
          simp [dance, hne.symm]
        · intro other j hji hslot' hnot
          rw [h.finished_of_ne hslot hunfinished hji hslot'] at hnot
          contradiction
        · exact fun _ => .inl ⟨hactive.1, hslot.2.1, rfl⟩
        · intro _
          simp [hkey]
  · rw [processTapDance_none false now finishes fun hdance => absurd hdance htap]
    exact hquiet fun hdance => absurd hdance htap

/-! ## Runs -/

/-- A key is pressed while it is up, and the keycode of a dance has one key. -/
def Proper (cfg : Config) (s : State) : Input → Prop
  | .press key keycode again _ _ => s.held key = none ∧
      (isQkTapDance keycode → cfg.keyOf (qkTapDanceGetIndex keycode) = key) ∧
      (isQkTapDance again → cfg.keyOf (qkTapDanceGetIndex again) = key)
  | _ => True

theorem Inv.step {s : State} (h : Inv cfg s) (input : Input) (hproper : Proper cfg s input) :
    Inv cfg (TapDance.step cfg s input) := by
  cases input with
  | press key keycode again now finishes =>
      obtain ⟨hup, hkey, hagain⟩ := hproper
      exact pressKey_inv h now finishes hup hkey hagain
  | release key now finishes =>
      simp only [TapDance.step, releaseKey]
      split
      · exact h
      · rename_i keycode hdown
        rw [processTapDance_held]
        exact release_inv h now finishes hdown
  | task now => exact tapDanceTask_inv h now

/-- The table of states and `active_td`, seen against the calls of the callbacks. -/
structure Lifecycle (cfg : Config) (s : State) : Prop where
  allowed : Always Allowed s.trace
  pressed : ∀ idx d, dance s.trace idx = some d →
    (d.pressed = true ↔ s.held (cfg.keyOf idx) = some (td idx))
  /-- A dance that is finished while its key is up has been reset. -/
  reset : ∀ idx d, dance s.trace idx = some d → d.finished = true → d.pressed = true
  active : s.activeTd ≠ 0 →
    ∃ idx d, s.activeTd = td idx ∧ dance s.trace idx = some d ∧ d.finished = false
  returned : (∀ key, s.held key = none) → ∀ now,
    (s.activeTd ≠ 0 → cfg.getTappingTerm s.activeTd < s.elapsed now) →
      ∀ i < cfg.maxSimultaneous, ((tapDanceTask cfg now s).tapDanceStates i).inUse = false

theorem Core.slot_of_dance {s : State} (h : Core cfg s) {idx : Nat} {d : Dance}
    (hdance : dance s.trace idx = some d) : ∃ i, Slot cfg s idx i ∧
      d = ⟨(s.tapDanceStates i).finished, (s.tapDanceStates i).pressed⟩ := by
  by_cases hslot : ∃ i, Slot cfg s idx i
  · obtain ⟨i, hslot⟩ := hslot
    rw [h.dances idx i hslot] at hdance
    exact ⟨i, hslot, (Option.some.inj hdance).symm⟩
  · rw [h.absent idx fun i hi => hslot ⟨i, hi⟩] at hdance
    contradiction

theorem Inv.active_of_up {s : State} (h : Inv cfg s) (hup : ∀ key, s.held key = none)
    {idx i : Nat} (hslot : Slot cfg s idx i) :
    s.activeTd = td idx ∧ (s.tapDanceStates i).finished = false ∧
      (s.tapDanceStates i).pressed = false := by
  have hreleased : (s.tapDanceStates i).pressed = false := by
    rw [← Bool.not_eq_true, h.held idx i hslot, hup]
    exact Option.some_ne_none _ ∘ Eq.symm
  have hunfinished : (s.tapDanceStates i).finished = false := by
    rw [← Bool.not_eq_true]
    intro hfinished
    have hpressed := h.settled idx i hslot hfinished
    rw [hreleased] at hpressed
    contradiction
  exact ⟨(h.unfinished idx i hslot hunfinished).1, hunfinished, hreleased⟩

theorem tapDanceTask_held (now : Nat) (s : State) : (tapDanceTask cfg now s).held = s.held := by
  unfold tapDanceTask
  split
  · rfl
  · split
    · rfl
    · split
      · exact processOnDanceFinished_held _ s
      · rfl

theorem Inv.returned {s : State} (h : Inv cfg s) (hup : ∀ key, s.held key = none) (now : Nat)
    (hterm : s.activeTd ≠ 0 → cfg.getTappingTerm s.activeTd < s.elapsed now) :
    ∀ i < cfg.maxSimultaneous, ((tapDanceTask cfg now s).tapDanceStates i).inUse = false := by
  have hafter := tapDanceTask_inv h now
  have hactive : (tapDanceTask cfg now s).activeTd = 0 := by
    by_cases hnone : s.activeTd = 0
    · rw [tapDanceTask, if_pos (.inl hnone), hnone]
    · obtain ⟨idx, i, -, hslot, hunfinished, hget⟩ := h.getActive hnone
      have hinterrupted := (h.unfinished idx i hslot hunfinished).2
      rw [tapDanceTask, if_neg (by simpa [hnone] using hterm hnone), hget]
      simp [hinterrupted]
  intro i hlt
  rw [← Bool.not_eq_true]
  intro huse
  have hslot : Slot cfg (tapDanceTask cfg now s) _ i := ⟨hlt, huse, rfl⟩
  have hname := (hafter.active_of_up (fun key => by rw [tapDanceTask_held, hup]) hslot).1
  exact td_ne_zero _ (hname.symm.trans hactive)

theorem Inv.lifecycle {s : State} (h : Inv cfg s) : Lifecycle cfg s where
  allowed := h.core.allowed
  pressed idx d hdance := by
    obtain ⟨i, hslot, rfl⟩ := h.core.slot_of_dance hdance
    exact h.held idx i hslot
  reset idx d hdance := by
    obtain ⟨i, hslot, rfl⟩ := h.core.slot_of_dance hdance
    exact h.settled idx i hslot
  active hne := by
    obtain ⟨idx, i, hname, hslot, hunfinished⟩ := h.active hne
    exact ⟨idx, _, hname, h.core.dances idx i hslot, hunfinished⟩
  returned hup now hterm := h.returned hup now hterm

def oneDance : Config where
  tapDanceCount := 1
  maxSimultaneous := 3
  getTappingTerm _ := 200
  keyOf _ := 0

def tapped : List Input := [.press 0 (td 0) (td 0) 0 false, .release 0 10 false]

theorem tapped_proper : Meets (step oneDance) (Proper oneDance) State.initial tapped :=
  ⟨⟨rfl, fun _ => rfl, fun _ => rfl⟩, trivial, trivial⟩

end Qmk.TapDance
