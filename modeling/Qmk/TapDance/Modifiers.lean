import Qmk.TapDance.Lifecycle

/-!
# Tap dances and modifiers

The engine together with the modifiers: a tap captures those that are active, and they are applied
when the dance is finished and removed when it is reset.  The callbacks leave the modifiers alone.
-/

namespace Qmk.TapDance

open Qmk.Lib

section Slots

variable {cfg : Config}

theorem Core.getOrAllocate_slot {s : State} (h : Core cfg s) {idx i : Nat}
    (hslot : Slot cfg s idx i) : tapDanceGetOrAllocateState cfg idx false s = some (i, s) := by
  rcases h.getOrAllocate_false idx with ⟨-, hunused⟩ | ⟨j, hget, hother⟩
  · exact absurd hslot (hunused i)
  · rwa [h.distinct idx i j hslot hother]

theorem Core.reset_slot {s t : State} (h : Core cfg s) {idx i : Nat} (hslot : Slot cfg s idx i)
    (ht : t.tapDanceStates = Function.update s.tapDanceStates i .zero) (j : Nat) :
    ¬ Slot cfg t idx j := by
  rintro ⟨hlt, huse, hindex⟩
  rw [ht] at huse hindex
  by_cases hj : j = i
  · rw [hj, Function.update_self] at huse
    cases huse
  · rw [Function.update_of_ne hj] at huse hindex
    exact hj (h.distinct idx j i ⟨hlt, huse, hindex⟩ hslot)

theorem processOnDanceFinished_timeout {s : State} {i : Nat}
    (hunfinished : (s.tapDanceStates i).finished = false) :
    processOnDanceFinished i s =
      if (s.tapDanceStates i).pressed = true then
        { s with
          activeTd := 0
          tapDanceStates := Function.update s.tapDanceStates i
            { s.tapDanceStates i with finished := true }
          trace := .onDanceFinished (s.tapDanceStates i).index :: s.trace }
      else
        { s with
          activeTd := 0
          tapDanceStates := Function.update s.tapDanceStates i .zero
          trace := .onReset (s.tapDanceStates i).index ::
            .onDanceFinished (s.tapDanceStates i).index :: s.trace } := by
  have hsame : interrupt i (s.tapDanceStates i).interrupted
      (s.tapDanceStates i).interruptingKeycode s = s := by
    simp [interrupt, State.setState]
  cases hpressed : (s.tapDanceStates i).pressed with
  | true =>
      have hfinished := processOnDanceFinished_pressed hunfinished hpressed
        (s.tapDanceStates i).interrupted (s.tapDanceStates i).interruptingKeycode
      rwa [hsame] at hfinished
  | false =>
      have hreset := processOnDanceFinished_released hunfinished hpressed
        (s.tapDanceStates i).interrupted (s.tapDanceStates i).interruptingKeycode
      rwa [hsame] at hreset

end Slots

/-- `real_mods`, `weak_mods` and `oneshot_mods`. -/
structure Modifiers where
  real : BitVec 8
  weak : BitVec 8
  oneshot : BitVec 8

/-- The modifiers of `tap_dance_state_t`. -/
structure Captured where
  weakMods : BitVec 8
  oneshotMods : BitVec 8

structure ModState where
  dances : State
  captured : Nat → Captured
  mods : Modifiers

/-- A report uses one-shot modifiers up if there is a key in it. -/
def sendKeyboardReport (anyKey : Bool) (mods : Modifiers) : Modifiers :=
  if mods.oneshot ≠ 0 ∧ anyKey = true then { mods with oneshot := 0 } else mods

namespace ModState

def onEachTap (i : Nat) (finishes : Bool) (s : ModState) : ModState :=
  { s with
    dances := processOnEachTap i finishes s.dances
    captured := Function.update s.captured i ⟨s.mods.real ||| s.mods.weak, s.mods.oneshot⟩ }

def onReset (anyKey : Bool) (i : Nat) (s : ModState) : ModState where
  dances := processOnReset i s.dances
  captured := Function.update s.captured i ⟨0, 0⟩
  mods := sendKeyboardReport anyKey
    { s.mods with
      weak := s.mods.weak &&& ~~~(s.captured i).weakMods
      real := s.mods.real &&& ~~~(s.captured i).oneshotMods }

/-- The part of `process_tap_dance_action_on_dance_finished` for a dance that is not finished. -/
def finish (anyKey : Bool) (i : Nat) (s : ModState) : ModState :=
  let state := s.dances.tapDanceStates i
  { s with
    dances := (s.dances.setState i { state with finished := true }).log
      (.onDanceFinished state.index)
    mods := sendKeyboardReport anyKey
      { s.mods with
        weak := s.mods.weak ||| (s.captured i).weakMods
        real := s.mods.real ||| (s.captured i).oneshotMods } }

def onDanceFinished (anyKey : Bool) (i : Nat) (s : ModState) : ModState :=
  let state := s.dances.tapDanceStates i
  let s := if state.finished = false then s.finish anyKey i else s
  let s := { s with dances := { s.dances with activeTd := 0 } }
  if state.pressed = false then s.onReset anyKey i else s

variable (cfg : Config)

/-- `preprocess_tap_dance`, with the end of the weak modifiers. -/
def preprocess (keycode : Nat) (anyKey : Bool) (s : ModState) : Bool × ModState :=
  if s.dances.activeTd = 0 ∨ keycode = s.dances.activeTd then (false, s)
  else
    match tapDanceGetState cfg s.dances (qkTapDanceGetIndex s.dances.activeTd) with
    | none => (false, s)
    | some i =>
        let state := s.dances.tapDanceStates i
        let s := onDanceFinished anyKey i { s with
          dances := s.dances.setState i
            { state with interrupted := true, interruptingKeycode := keycode } }
        (true, { s with mods := { s.mods with weak := 0 } })

/-- The part of `process_tap_dance` for a release after which the dance is finished. -/
def resetFinished (keycode : Nat) (anyKey : Bool) (i : Nat) (s : ModState) : ModState :=
  if (s.dances.tapDanceStates i).finished = true then
    let s := s.onReset anyKey i
    { s with dances := { s.dances with
        activeTd := if s.dances.activeTd = keycode then 0 else s.dances.activeTd } }
  else s

/-- `process_tap_dance`. -/
def process (keycode : Nat) (pressed : Bool) (now : Nat) (finishes anyKey : Bool)
    (s : ModState) : ModState :=
  if isQkTapDance keycode then
    match tapDanceGetOrAllocateState cfg (qkTapDanceGetIndex keycode) pressed s.dances with
    | none => s
    | some (i, dances) =>
        let s := { s with dances := setPressed i pressed dances }
        if pressed = true then
          let s := onEachTap i finishes
            { s with dances := { s.dances with lastTapTime := BitVec.ofNat 16 now } }
          { s with dances := { s.dances with
              activeTd := if (s.dances.tapDanceStates i).finished = true then 0 else keycode } }
        else
          resetFinished keycode anyKey i
            { s with dances := processOnEachRelease i finishes s.dances }
  else s

/-- `tap_dance_task`. -/
def task (now : Nat) (anyKey : Bool) (s : ModState) : ModState :=
  if s.dances.activeTd = 0 ∨ s.dances.elapsed now ≤ cfg.getTappingTerm s.dances.activeTd then s
  else
    match tapDanceGetState cfg s.dances (qkTapDanceGetIndex s.dances.activeTd) with
    | none => s
    | some i =>
        if (s.dances.tapDanceStates i).interrupted = false then s.onDanceFinished anyKey i else s

/-- An input, and whether there is a key in the reports that it leads to. -/
structure Reported where
  input : Input
  anyKey : Bool

def step (s : ModState) (reported : Reported) : ModState :=
  match reported.input with
  | .press key keycode again now finishes =>
      let looked := s.preprocess cfg keycode reported.anyKey
      let keycode := if looked.1 = true then again else keycode
      let s := process cfg keycode true now finishes reported.anyKey looked.2
      { s with dances := { s.dances with held := Function.update s.dances.held key (some keycode) } }
  | .release key now finishes =>
      match s.dances.held key with
      | none => s
      | some keycode =>
          let s := process cfg keycode false now finishes reported.anyKey s
          { s with dances := { s.dances with held := Function.update s.dances.held key none } }
  | .task now => s.task cfg now reported.anyKey

/-! ## The engine underneath -/

variable {cfg}

theorem onDanceFinished_dances (anyKey : Bool) (i : Nat) (s : ModState) :
    (s.onDanceFinished anyKey i).dances = processOnDanceFinished i s.dances := by
  simp only [onDanceFinished, processOnDanceFinished]
  split <;> split <;> rfl

theorem preprocess_dances (keycode : Nat) (anyKey : Bool) (s : ModState) :
    (s.preprocess cfg keycode anyKey).1 = (preprocessTapDance cfg keycode s.dances).1 ∧
      (s.preprocess cfg keycode anyKey).2.dances =
        (preprocessTapDance cfg keycode s.dances).2 := by
  unfold preprocess preprocessTapDance
  split
  · exact ⟨rfl, rfl⟩
  · cases tapDanceGetState cfg s.dances (qkTapDanceGetIndex s.dances.activeTd) with
    | none => exact ⟨rfl, rfl⟩
    | some i => exact ⟨rfl, onDanceFinished_dances anyKey i _⟩

theorem process_dances (keycode : Nat) (pressed : Bool) (now : Nat) (finishes anyKey : Bool)
    (s : ModState) :
    (s.process cfg keycode pressed now finishes anyKey).dances =
      processTapDance cfg keycode pressed now finishes s.dances := by
  unfold process processTapDance
  split
  · cases tapDanceGetOrAllocateState cfg (qkTapDanceGetIndex keycode) pressed s.dances with
    | none => rfl
    | some found =>
        dsimp only
        split
        · rfl
        · unfold resetFinished
          dsimp only
          split <;> rfl
  · rfl

theorem task_dances (now : Nat) (anyKey : Bool) (s : ModState) :
    (s.task cfg now anyKey).dances = tapDanceTask cfg now s.dances := by
  unfold task tapDanceTask
  split
  · rfl
  · cases tapDanceGetState cfg s.dances (qkTapDanceGetIndex s.dances.activeTd) with
    | none => rfl
    | some i =>
        dsimp only
        split
        · exact onDanceFinished_dances anyKey i s
        · rfl

theorem step_dances (s : ModState) (reported : Reported) :
    (step cfg s reported).dances = TapDance.step cfg s.dances reported.input := by
  obtain ⟨input, anyKey⟩ := reported
  cases input with
  | press key keycode again now finishes =>
      obtain ⟨hlooked, hstate⟩ := @preprocess_dances cfg keycode anyKey s
      simp only [step, TapDance.step, pressKey, process_dances, hlooked, hstate]
  | release key now finishes =>
      simp only [step, TapDance.step, releaseKey]
      cases s.dances.held key with
      | none => rfl
      | some keycode => simp only [process_dances]
  | task now => exact task_dances now anyKey s

/-! ## What the modifiers become -/

theorem process_press {s : ModState} {keycode i : Nat} {state : TapDanceState}
    (htap : isQkTapDance keycode)
    (hget : tapDanceGetOrAllocateState cfg (qkTapDanceGetIndex keycode) true s.dances =
      some (i, s.dances.setState i state)) (now : Nat) (finishes anyKey : Bool) :
    (s.process cfg keycode true now finishes anyKey).mods = s.mods ∧
      (s.process cfg keycode true now finishes anyKey).captured =
        Function.update s.captured i ⟨s.mods.real ||| s.mods.weak, s.mods.oneshot⟩ := by
  rw [process, if_pos htap, hget]
  exact ⟨rfl, rfl⟩

@[simp] theorem sendKeyboardReport_real (anyKey : Bool) (mods : Modifiers) :
    (sendKeyboardReport anyKey mods).real = mods.real := by
  unfold sendKeyboardReport
  split <;> rfl

theorem process_release {s : ModState} {keycode i : Nat} (htap : isQkTapDance keycode)
    (hget : tapDanceGetOrAllocateState cfg (qkTapDanceGetIndex keycode) false s.dances =
      some (i, s.dances)) (now : Nat) (finishes anyKey : Bool) :
    let t := s.process cfg keycode false now finishes anyKey
    if ((s.dances.tapDanceStates i).finished || finishes) = true then
      t.mods.real = s.mods.real &&& ~~~(s.captured i).oneshotMods
    else t.mods = s.mods ∧ t.captured = s.captured := by
  rw [process, if_pos htap, hget]
  cases hfinished : ((s.dances.tapDanceStates i).finished || finishes) with
  | true =>
      simp [setPressed, processOnEachRelease, State.setState, State.log, resetFinished, hfinished,
        onReset]
  | false =>
      simp [setPressed, processOnEachRelease, State.setState, State.log, resetFinished, hfinished]

/-- A dance that is finished while its key is down keeps the modifiers of its last tap. -/
theorem onDanceFinished_mods {s : ModState} {i : Nat}
    (hunfinished : (s.dances.tapDanceStates i).finished = false) (anyKey : Bool) :
    let t := s.onDanceFinished anyKey i
    if (s.dances.tapDanceStates i).pressed = true then
      t.mods.real = s.mods.real ||| (s.captured i).oneshotMods ∧ t.captured = s.captured
    else
      t.mods.real =
        (s.mods.real ||| (s.captured i).oneshotMods) &&& ~~~(s.captured i).oneshotMods := by
  simp only [onDanceFinished, if_pos hunfinished]
  cases hpressed : (s.dances.tapDanceStates i).pressed with
  | true => simp [finish]
  | false => simp [finish, onReset]

/-! ## A dance -/

/-- The dance is in progress. -/
def InProgress (cfg : Config) (idx : Nat) (s : ModState) : Prop :=
  ∃ i, Slot cfg s.dances idx i

/-- The dance started with these modifiers, and uses the state `i`. -/
structure Dancing (cfg : Config) (idx : Nat) (start : Modifiers) (s : ModState) (i : Nat) :
    Prop where
  slot : Slot cfg s.dances idx i
  captured : (s.captured i).oneshotMods = start.oneshot
  active : s.dances.activeTd =
    if (s.dances.tapDanceStates i).finished = true then 0 else td idx
  held : s.dances.held (cfg.keyOf idx) = none ∨ s.dances.held (cfg.keyOf idx) = some (td idx)
  unfinished : (s.dances.tapDanceStates i).finished = false →
    s.mods.real = start.real ∧ s.mods.oneshot = start.oneshot
  finished : (s.dances.tapDanceStates i).finished = true →
    s.mods.real = start.real ∨ s.mods.real = start.real ||| start.oneshot

/-- What the real modifiers are after the dance. -/
def Over (cfg : Config) (idx : Nat) (start : Modifiers) (s : ModState) : Prop :=
  ¬ InProgress cfg idx s ∧ s.mods.real = start.real &&& ~~~start.oneshot

/-- An event of the key of the dance, or none. -/
def OfDance (cfg : Config) (idx : Nat) : Input → Prop
  | .press key keycode _ _ _ => key = cfg.keyOf idx ∧ keycode = td idx
  | .release key _ _ => key = cfg.keyOf idx
  | .task _ => True

theorem or_andNot (real oneshot : BitVec 8) :
    (real ||| oneshot) &&& ~~~oneshot = real &&& ~~~oneshot := by
  ext k
  simp
  cases real[k] <;> cases oneshot[k] <;> rfl

/-- Without the one-shot modifiers, the real ones are those of the start. -/
theorem Dancing.removed {s : ModState} {idx i : Nat} {start : Modifiers}
    (h : Dancing cfg idx start s i) :
    s.mods.real &&& ~~~start.oneshot = start.real &&& ~~~start.oneshot := by
  cases hfinished : (s.dances.tapDanceStates i).finished with
  | false => rw [(h.unfinished hfinished).1]
  | true =>
      rcases h.finished hfinished with hreal | hreal
      · rw [hreal]
      · rw [hreal, or_andNot]

theorem and_not_eq_self_iff (real oneshot : BitVec 8) :
    real &&& ~~~oneshot = real ↔ real &&& oneshot = 0 := by
  simp only [BitVec.eq_of_getElem_eq_iff, BitVec.getElem_and, BitVec.getElem_not]
  refine forall_congr' fun k => forall_congr' fun _ => ?_
  cases real[k] <;> cases oneshot[k] <;> simp

theorem press_dancing {s : ModState} (h : Inv cfg s.dances) {idx : Nat} (hidx : idx < 256)
    {start : Modifiers} (hup : s.dances.held (cfg.keyOf idx) = none)
    (hactive : s.dances.activeTd = 0 ∨ s.dances.activeTd = td idx)
    (hreal : s.mods.real = start.real) (honeshot : s.mods.oneshot = start.oneshot)
    (again now : Nat) (finishes anyKey : Bool)
    (hbegan : InProgress cfg idx s ∨ InProgress cfg idx
      (step cfg s ⟨.press (cfg.keyOf idx) (td idx) again now finishes, anyKey⟩)) :
    ∃ i, Dancing cfg idx start
      (step cfg s ⟨.press (cfg.keyOf idx) (td idx) again now finishes, anyKey⟩) i := by
  have hlooked : s.preprocess cfg (td idx) anyKey = (false, s) :=
    if_pos (hactive.imp id Eq.symm)
  have htap := isQkTapDance_td idx
  have hindex := index_td hidx
  simp only [step, hlooked, if_neg Bool.false_ne_true] at hbegan ⊢
  rcases h.getOrAllocate hidx hup with ⟨hnone, hunused⟩ | ⟨i, state, hget, hopens⟩
  · -- There is no room for the dance.
    rw [← hindex] at hnone
    have hsame : s.process cfg (td idx) true now finishes anyKey = s := by
      rw [process, if_pos htap, hnone]
    rw [hsame] at hbegan
    obtain ⟨i, hslot⟩ := hbegan.elim id id
    exact absurd hslot (hunused i)
  · rw [← hindex] at hget
    obtain ⟨hmods, hcaptured⟩ := process_press (s := s) htap hget now finishes anyKey
    have hdances := @process_dances cfg (td idx) true now finishes anyKey s
    rw [processTapDance_press htap hget] at hdances
    generalize s.process cfg (td idx) true now finishes anyKey = t at hmods hcaptured hdances ⊢
    have hstate : t.dances.tapDanceStates i =
        { state with
          pressed := true, count := state.count + 1, finished := state.finished || finishes } := by
      rw [hdances]
      exact Function.update_self _ _ _
    refine ⟨i, ⟨hopens.lt, ?_, ?_⟩, ?_, ?_, .inr ?_, fun _ => ?_, fun _ => .inl ?_⟩
    · change (t.dances.tapDanceStates i).inUse = true
      rw [hstate]
      exact hopens.inUse
    · change (t.dances.tapDanceStates i).index = idx
      rw [hstate]
      exact hopens.index
    · change (t.captured i).oneshotMods = start.oneshot
      rw [hcaptured, Function.update_self]
      exact honeshot
    · change t.dances.activeTd = if (t.dances.tapDanceStates i).finished = true then 0 else td idx
      rw [hstate, hdances]
    · exact Function.update_self _ _ _
    · exact ⟨hmods ▸ hreal, hmods ▸ honeshot⟩
    · exact hmods ▸ hreal

theorem Dancing.release {s : ModState} (hinv : Inv cfg s.dances) {idx i : Nat}
    {start : Modifiers} (h : Dancing cfg idx start s i) (now : Nat) (finishes anyKey : Bool) :
    let t := step cfg s ⟨.release (cfg.keyOf idx) now finishes, anyKey⟩
    Dancing cfg idx start t i ∨ Over cfg idx start t := by
  have htap := isQkTapDance_td idx
  have hindex := index_td (hinv.core.bound idx i h.slot).2
  rcases h.held with hup | hdown
  · have hsame : step cfg s ⟨.release (cfg.keyOf idx) now finishes, anyKey⟩ = s := by
      simp only [step, hup]
    rw [hsame]
    exact .inl h
  · have hget : tapDanceGetOrAllocateState cfg (qkTapDanceGetIndex (td idx)) false s.dances =
        some (i, s.dances) := by
      rw [hindex]
      exact hinv.core.getOrAllocate_slot h.slot
    have hmods := process_release (s := s) htap hget now finishes anyKey
    have hdances := @process_dances cfg (td idx) false now finishes anyKey s
    rw [processTapDance_release htap hget] at hdances
    simp only [step, hdown]
    generalize s.process cfg (td idx) false now finishes anyKey = t at hmods hdances ⊢
    by_cases hfinished : ((s.dances.tapDanceStates i).finished || finishes) = true
    · rw [if_pos hfinished] at hmods hdances
      rw [h.captured, h.removed] at hmods
      refine .inr ⟨?_, hmods⟩
      rintro ⟨j, hslot⟩
      exact hinv.core.reset_slot h.slot (congrArg State.tapDanceStates hdances) j hslot
    · rw [if_neg hfinished] at hmods hdances
      obtain ⟨hmods, hcaptured⟩ := hmods
      obtain ⟨hunfinished, -⟩ := Bool.or_eq_false_iff.mp (Bool.not_eq_true _ ▸ hfinished)
      obtain ⟨hreal, honeshot⟩ := h.unfinished hunfinished
      have hstate : t.dances.tapDanceStates i =
          { s.dances.tapDanceStates i with pressed := false, finished := false } := by
        rw [hdances]
        exact Function.update_self _ _ _
      have hactive : t.dances.activeTd = td idx := by
        rw [hdances]
        change s.dances.activeTd = td idx
        rw [h.active, hunfinished]
        rfl
      refine .inl ⟨⟨h.slot.1, ?_, ?_⟩, ?_, ?_, .inl ?_, fun _ => ?_, fun hend => ?_⟩
      · change (t.dances.tapDanceStates i).inUse = true
        rw [hstate]
        exact h.slot.2.1
      · change (t.dances.tapDanceStates i).index = idx
        rw [hstate]
        exact h.slot.2.2
      · change (t.captured i).oneshotMods = start.oneshot
        rw [hcaptured]
        exact h.captured
      · change t.dances.activeTd =
          if (t.dances.tapDanceStates i).finished = true then 0 else td idx
        rw [hactive, hstate]
        rfl
      · exact Function.update_self _ _ _
      · exact ⟨hmods ▸ hreal, hmods ▸ honeshot⟩
      · change (t.dances.tapDanceStates i).finished = true at hend
        rw [hstate] at hend
        cases hend

theorem Dancing.task {s : ModState} (hinv : Inv cfg s.dances) {idx i : Nat}
    {start : Modifiers} (h : Dancing cfg idx start s i) (now : Nat) (anyKey : Bool) :
    let t := step cfg s ⟨.task now, anyKey⟩
    Dancing cfg idx start t i ∨ Over cfg idx start t := by
  change Dancing cfg idx start (s.task cfg now anyKey) i ∨
    Over cfg idx start (s.task cfg now anyKey)
  by_cases hwait : s.dances.activeTd = 0 ∨
      s.dances.elapsed now ≤ cfg.getTappingTerm s.dances.activeTd
  · rw [ModState.task, if_pos hwait]
    exact .inl h
  · have hunfinished : (s.dances.tapDanceStates i).finished = false := by
      by_contra hnot
      refine hwait (.inl ?_)
      rw [h.active, if_pos (Bool.not_eq_false _ ▸ hnot)]
    have hactive : s.dances.activeTd = td idx := by
      rw [h.active, hunfinished]
      rfl
    have hget : tapDanceGetState cfg s.dances (qkTapDanceGetIndex s.dances.activeTd) = some i := by
      rw [hactive, index_td (hinv.core.bound idx i h.slot).2]
      exact hinv.core.getState h.slot
    have hinterrupted := (hinv.unfinished idx i h.slot hunfinished).2
    have htask : s.task cfg now anyKey = s.onDanceFinished anyKey i := by
      rw [ModState.task, if_neg hwait, hget]
      exact if_pos hinterrupted
    obtain ⟨hreal, honeshot⟩ := h.unfinished hunfinished
    have hmods := onDanceFinished_mods hunfinished anyKey
    have hdances := onDanceFinished_dances anyKey i s
    rw [processOnDanceFinished_timeout hunfinished] at hdances
    rw [htask]
    generalize s.onDanceFinished anyKey i = t at hmods hdances ⊢
    rw [h.captured, hreal] at hmods
    cases hpressed : (s.dances.tapDanceStates i).pressed with
    | true =>
        rw [hpressed, if_pos rfl] at hmods hdances
        have hstate : t.dances.tapDanceStates i =
            { s.dances.tapDanceStates i with finished := true } := by
          rw [hdances]
          exact Function.update_self _ _ _
        refine .inl ⟨⟨h.slot.1, ?_, ?_⟩, ?_, ?_, ?_, fun hend => ?_, fun _ => .inr hmods.1⟩
        · rw [hstate]
          exact h.slot.2.1
        · rw [hstate]
          exact h.slot.2.2
        · rw [hmods.2]
          exact h.captured
        · rw [hstate, hdances]
          rfl
        · rw [hdances]
          exact h.held
        · rw [hstate] at hend
          cases hend
    | false =>
        rw [hpressed, if_neg Bool.false_ne_true] at hmods hdances
        rw [or_andNot] at hmods
        refine .inr ⟨?_, hmods⟩
        rintro ⟨j, hslot⟩
        exact hinv.core.reset_slot h.slot (congrArg State.tapDanceStates hdances) j hslot

/-! ## Runs -/

/-- An input of a dance that is in progress. -/
def Continues (cfg : Config) (idx : Nat) (s : ModState) (reported : Reported) : Prop :=
  InProgress cfg idx s ∧ OfDance cfg idx reported.input ∧ Proper cfg s.dances reported.input

theorem Dancing.step {s : ModState} (hinv : Inv cfg s.dances) {idx i : Nat} {start : Modifiers}
    (h : Dancing cfg idx start s i) {reported : Reported}
    (hof : OfDance cfg idx reported.input) (hproper : Proper cfg s.dances reported.input) :
    (∃ j, Dancing cfg idx start (ModState.step cfg s reported) j) ∨
      Over cfg idx start (ModState.step cfg s reported) := by
  obtain ⟨input, anyKey⟩ := reported
  cases input with
  | press key keycode again now finishes =>
      obtain ⟨rfl, rfl⟩ := hof
      have hup : s.dances.held (cfg.keyOf idx) = none := hproper.1
      have hunfinished : (s.dances.tapDanceStates i).finished = false := by
        by_contra hnot
        have hpressed := hinv.settled idx i h.slot (Bool.not_eq_false _ ▸ hnot)
        rw [hinv.held idx i h.slot, hup] at hpressed
        cases hpressed
      obtain ⟨hreal, honeshot⟩ := h.unfinished hunfinished
      have hactive : s.dances.activeTd = td idx := by
        rw [h.active, hunfinished]
        rfl
      exact .inl (press_dancing hinv (hinv.core.bound idx i h.slot).2 hup (.inr hactive) hreal
        honeshot again now finishes anyKey (.inl ⟨i, h.slot⟩))
  | release key now finishes =>
      obtain rfl := hof
      exact (h.release hinv now finishes anyKey).imp_left fun h => ⟨i, h⟩
  | task now => exact (h.task hinv now anyKey).imp_left fun h => ⟨i, h⟩

theorem dance_run {s : ModState} (hinv : Inv cfg s.dances) {idx i : Nat} {start : Modifiers}
    (h : Dancing cfg idx start s i) {rest : List Reported}
    (hrest : Meets (ModState.step cfg) (Continues cfg idx) s rest)
    (hreset : ¬ InProgress cfg idx (run (ModState.step cfg) s rest)) :
    Over cfg idx start (run (ModState.step cfg) s rest) := by
  induction rest generalizing s i with
  | nil => exact absurd ⟨i, h.slot⟩ hreset
  | cons reported rest ih =>
      obtain ⟨⟨-, hof, hproper⟩, hrest⟩ := hrest
      have hinv' : Inv cfg (ModState.step cfg s reported).dances := by
        rw [step_dances]
        exact hinv.step reported.input hproper
      rcases h.step hinv hof hproper with ⟨j, hj⟩ | hover
      · exact ih hinv' hj hrest hreset
      · cases rest with
        | nil => exact hover
        | cons next rest => exact absurd hrest.1.1 hover.1

/-- The real modifiers are those of the start after a dance, just when none of them was a one-shot
modifier too. -/
theorem tapDance_keepsMods_iff {before : List Input}
    (hbefore : Meets (TapDance.step cfg) (Proper cfg) State.initial before) {idx : Nat}
    (hidx : idx < 256) {start : ModState}
    (hstart : start.dances = run (TapDance.step cfg) State.initial before)
    (hactive : start.dances.activeTd = 0) (again now : Nat) (finishes anyKey : Bool)
    (hproper : Proper cfg start.dances (.press (cfg.keyOf idx) (td idx) again now finishes))
    {rest : List Reported}
    (hrest : Meets (ModState.step cfg) (Continues cfg idx)
      (ModState.step cfg start
        ⟨.press (cfg.keyOf idx) (td idx) again now finishes, anyKey⟩) rest) :
    let first := ModState.step cfg start
      ⟨.press (cfg.keyOf idx) (td idx) again now finishes, anyKey⟩
    let last := run (ModState.step cfg) first rest
    InProgress cfg idx first → ¬ InProgress cfg idx last →
      (last.mods.real = start.mods.real ↔ start.mods.real &&& start.mods.oneshot = 0) := by
  intro first last hbegan hreset
  have hinv : Inv cfg start.dances := by
    rw [hstart]
    exact hbefore.preserves (Inv cfg) (fun _ input hs hproper => hs.step input hproper) inv_initial
  obtain ⟨i, hdancing⟩ := @press_dancing _ _ hinv _ hidx start.mods hproper.1 (.inl hactive)
    rfl rfl again now finishes anyKey (.inr hbegan)
  have hfirst : Inv cfg first.dances := by
    rw [step_dances]
    exact hinv.step _ hproper
  have hover := (dance_run hfirst hdancing hrest hreset).2
  rw [hover, and_not_eq_self_iff]

/-- The modifiers at the start of a single tap of the first dance. -/
def tapWith (mods : Modifiers) : ModState where
  dances := State.initial
  captured _ := ⟨0, 0⟩
  mods := mods

def firstTap (mods : Modifiers) : ModState :=
  ModState.step oneDance (tapWith mods) ⟨.press 0 (td 0) (td 0) 0 false, true⟩

/-- The key is released, and the tapping term passes. -/
def afterTap : List Reported := [⟨.release 0 10 false, true⟩, ⟨.task 300, true⟩]

theorem firstTap_dances (mods : Modifiers) : (firstTap mods).dances =
    TapDance.step oneDance State.initial (.press 0 (td 0) (td 0) 0 false) :=
  step_dances _ _

theorem firstTap_slot (mods : Modifiers) : Slot oneDance (firstTap mods).dances 0 0 := by
  rw [firstTap_dances]
  exact ⟨Nat.succ_pos 2, by decide, by decide⟩

theorem afterTap_continues (mods : Modifiers) :
    Meets (ModState.step oneDance) (Continues oneDance 0) (firstTap mods) afterTap := by
  refine ⟨⟨⟨0, firstTap_slot mods⟩, rfl, trivial⟩, ⟨⟨0, ?_⟩, trivial, trivial⟩, trivial⟩
  rw [step_dances, firstTap_dances]
  exact ⟨Nat.succ_pos 2, by decide, by decide⟩

theorem afterTap_reset (mods : Modifiers) :
    ¬ InProgress oneDance 0 (run (ModState.step oneDance) (firstTap mods) afterTap) := by
  rintro ⟨i, hlt, huse, -⟩
  simp only [afterTap, run, List.foldl_cons, List.foldl_nil, step_dances, firstTap_dances] at huse
  revert huse
  revert i
  decide

theorem afterTap_keepsMods :
    (run (ModState.step oneDance) (firstTap ⟨2, 0, 1⟩) afterTap).mods.real = 2 :=
  (@tapDance_keepsMods_iff oneDance [] trivial 0
    (Nat.succ_pos 255) (tapWith ⟨2, 0, 1⟩) rfl rfl (td 0) 0 false true ⟨rfl, fun _ => rfl, fun _ => rfl⟩
    afterTap (afterTap_continues ⟨2, 0, 1⟩) ⟨0, firstTap_slot ⟨2, 0, 1⟩⟩ (afterTap_reset ⟨2, 0, 1⟩)).mpr rfl

/-- A left Shift that is held and a one-shot modifier too is taken away by a tap. -/
theorem afterTap_takesShift :
    Meets (ModState.step oneDance) (Continues oneDance 0) (firstTap ⟨2, 0, 2⟩) afterTap ∧
      InProgress oneDance 0 (firstTap ⟨2, 0, 2⟩) ∧
      ¬ InProgress oneDance 0
        (run (ModState.step oneDance) (firstTap ⟨2, 0, 2⟩) afterTap) ∧
      (run (ModState.step oneDance) (firstTap ⟨2, 0, 2⟩) afterTap).mods.real = 0 :=
  ⟨afterTap_continues ⟨2, 0, 2⟩, ⟨0, firstTap_slot ⟨2, 0, 2⟩⟩, afterTap_reset ⟨2, 0, 2⟩, rfl⟩

end ModState

end Qmk.TapDance
