import Mathlib.Logic.Function.Basic
import Mathlib.Tactic.Common
import Qmk.Lib.Run

/-!
# Caps Word with inverted shift

While Caps Word is on, a shift key that goes down is kept in `held_mods` and not in `real_mods`.
The reports are modelled by their modifiers.
-/

namespace Qmk.CapsWord

open Qmk.Lib

inductive Shift
  | lsft
  | rsft
  deriving DecidableEq

/-- `MOD_BIT` -/
def Shift.bit : Shift → BitVec 8
  | .lsft => 0x02
  | .rsft => 0x20

def Shift.index : Shift → Nat
  | .lsft => 1
  | .rsft => 5

/-- The key codes of the keys: `QK_CAPS_WORD_TOGGLE`, the shifts and others of one byte. -/
inductive Code
  | basic (kc : Nat)
  | shift (m : Shift)
  | capsWordToggle
  deriving DecidableEq

structure Config where
  keymap : Nat → Code
  /-- `CAPS_WORD_IDLE_TIMEOUT`, zero for none. -/
  idleTimeout : BitVec 16

structure State where
  realMods : BitVec 8
  weakMods : BitVec 8
  heldMods : BitVec 8
  active : Bool
  idleTimer : BitVec 16
  /-- The modifiers of the last report. -/
  report : BitVec 8
  /-- The switches of the keys. -/
  down : Nat → Bool
  /-- A report was sent since the last event of a shift key; for the statements only. -/
  reported : Bool

def State.initial : State where
  realMods := 0
  weakMods := 0
  heldMods := 0
  active := false
  idleTimer := 0
  report := 0
  down := fun _ => false
  reported := true

def modMaskShift : BitVec 8 := 0x22
def modBitRalt : BitVec 8 := 0x40

def timerExpired (current future : BitVec 16) : Bool := decide ((current - future).toNat < 32767)

/-! ## `action_util.c` and `caps_word.c` -/

def sendKeyboardReport (s : State) : State :=
  { s with report := s.realMods ||| s.weakMods, reported := true }

def unregisterWeakMods (mods : BitVec 8) (s : State) : State :=
  if mods ≠ 0 then sendKeyboardReport { s with weakMods := s.weakMods &&& ~~~mods } else s

variable (cfg : Config)

def capsWordResetIdleTimer (now : BitVec 16) (s : State) : State :=
  if cfg.idleTimeout ≠ 0 then { s with idleTimer := now + cfg.idleTimeout } else s

def capsWordOn (now : BitVec 16) (s : State) : State :=
  if s.active then s
  else { capsWordResetIdleTimer cfg now { s with realMods := 0 } with active := true }

def capsWordOff (s : State) : State :=
  if s.active then { unregisterWeakMods modMaskShift s with active := false } else s

def capsWordToggle (now : BitVec 16) (s : State) : State :=
  if s.active then capsWordOff s else capsWordOn cfg now s

def capsWordTask (now : BitVec 16) (s : State) : State :=
  if cfg.idleTimeout ≠ 0 ∧ s.active ∧ timerExpired now s.idleTimer then capsWordOff s else s

/-! ## `process_caps_word.c` -/

def handleShift (code : Code) (pressed : Bool) (s : State) : Bool × State :=
  match code with
  | .shift m =>
      if s.active then
        (false, { s with
          heldMods := if pressed then s.heldMods ||| m.bit else s.heldMods &&& ~~~m.bit })
      else if s.heldMods &&& m.bit ≠ 0 then
        (pressed, { s with
          heldMods := s.heldMods &&& ~~~m.bit
          realMods := s.realMods &&& ~~~m.bit })
      else (true, s)
  | _ => (true, s)

def capsWordPressUser (code : Code) (s : State) : Bool × State :=
  match code with
  | .basic kc =>
      -- `KC_A ... KC_Z` and `KC_MINS`
      if 0x04 ≤ kc ∧ kc ≤ 0x1D ∨ kc = 0x2D then
        (true, { s with weakMods := s.weakMods ||| Shift.lsft.bit })
      -- `KC_1 ... KC_0`, `KC_BSPC` and `KC_DEL`
      else if 0x1E ≤ kc ∧ kc ≤ 0x27 ∨ kc = 0x2A ∨ kc = 0x4C then (true, s)
      else (false, s)
  | _ => (false, s)

/-- A press while Caps Word is on. -/
def continueWord (code : Code) (s : State) : State :=
  let (stay, s) :=
    if s.realMods &&& ~~~(modMaskShift ||| modBitRalt) = 0 then
      capsWordPressUser code { s with weakMods := 0 }
    else (false, s)
  if stay then
    sendKeyboardReport
      (if s.heldMods ≠ 0 then { s with weakMods := s.weakMods ^^^ Shift.lsft.bit } else s)
  else
    let s := capsWordOff s
    { s with realMods := s.realMods ||| s.heldMods }

def processCapsWord (code : Code) (pressed : Bool) (now : BitVec 16) (s : State) : Bool × State :=
  if code = .capsWordToggle then (false, if pressed then capsWordToggle cfg now s else s)
  else
    let (unhandled, s) := handleShift code pressed s
    if !unhandled then (false, s)
    else if !s.active then (true, s)
    else
      let s := capsWordResetIdleTimer cfg now s
      (true, if pressed then continueWord code s else s)

/-- `process_action`, of which the keys of the report are left out. -/
def processAction (code : Code) (pressed : Bool) (s : State) : State :=
  match code with
  | .basic _ => sendKeyboardReport s
  | .shift m =>
      sendKeyboardReport { s with
        realMods := if pressed then s.realMods ||| m.bit else s.realMods &&& ~~~m.bit }
  | .capsWordToggle => s

def actionExec (code : Code) (pressed : Bool) (now : BitVec 16) (s : State) : State :=
  let s := if pressed then { s with weakMods := 0 } else s
  let (go, s) := processCapsWord cfg code pressed now s
  if go then processAction code pressed s else s

inductive Input
  /-- A key that is up goes down, and one that is down goes up. -/
  | switch (key : Nat) (now : BitVec 16)
  | on (now : BitVec 16)
  | off
  | toggle (now : BitVec 16)
  | task (now : BitVec 16)

def Code.isShift : Code → Bool
  | .shift _ => true
  | _ => false

def step (s : State) : Input → State
  | .switch key now =>
      let pressed := !s.down key
      let code := cfg.keymap key
      actionExec cfg code pressed now { s with
        down := Function.update s.down key pressed
        reported := s.reported && !code.isShift }
  | .on now => capsWordOn cfg now s
  | .off => capsWordOff s
  | .toggle now => capsWordToggle cfg now s
  | .task now => capsWordTask cfg now s

/-! ## Shift bits -/

def has (mods : BitVec 8) (m : Shift) : Bool := mods.getLsbD m.index

@[simp] theorem has_zero (m : Shift) : has 0#8 m = false := BitVec.getLsbD_zero

@[simp] theorem has_or (x y : BitVec 8) (m : Shift) : has (x ||| y) m = (has x m || has y m) :=
  BitVec.getLsbD_or

@[simp] theorem has_bit (m m' : Shift) : has m'.bit m = decide (m = m') := by
  cases m <;> cases m' <;> rfl

@[simp] theorem has_andNot (x y : BitVec 8) (m : Shift) :
    has (x &&& ~~~y) m = (has x m && !has y m) := by
  cases m <;> simp [has, Shift.index]

@[simp] theorem has_andNot_shift (x : BitVec 8) (m : Shift) :
    has (x &&& ~~~modMaskShift) m = false := by
  rw [has_andNot]
  cases m <;> exact Bool.and_false _

theorem and_bit_ne_zero (x : BitVec 8) (m : Shift) : x &&& m.bit ≠ 0#8 ↔ has x m = true := by
  revert x
  cases m <;> decide

/-! ## Shifts are held by keys -/

variable {cfg}

def ShiftDown (cfg : Config) (s : State) (m : Shift) : Prop :=
  ∃ key, cfg.keymap key = .shift m ∧ s.down key = true

structure Inv (cfg : Config) (s : State) : Prop where
  covered : ∀ m, has s.realMods m = true ∨ has s.heldMods m = true → ShiftDown cfg s m
  weak : s.active = false → ∀ m, has s.weakMods m = false
  real : s.active = true → ∀ m, has s.realMods m = false
  held : s.heldMods &&& ~~~modMaskShift = 0
  report : s.active = false → s.reported = true → (∀ m, ¬ShiftDown cfg s m) →
    ∀ m, has s.report m = false

namespace Inv

variable {s : State}

theorem initial : Inv cfg .initial where
  covered := fun m h => by simp [State.initial] at h
  weak := fun _ => has_zero
  real := fun _ => has_zero
  held := by decide
  report := fun _ _ _ => has_zero

theorem send (h : Inv cfg s) : Inv cfg (sendKeyboardReport s) :=
  { h with
    report := fun hactive _ hup m => by
      have hreal : has s.realMods m = false :=
        Bool.eq_false_iff.mpr fun hm => hup m (h.covered m (.inl hm))
      rw [sendKeyboardReport, has_or, hreal, h.weak hactive m, Bool.false_or] }

theorem clearWeak (h : Inv cfg s) : Inv cfg { s with weakMods := 0 } :=
  { h with weak := fun _ => has_zero }

theorem resetIdleTimer_eq (now : BitVec 16) (s : State) :
    ∃ timer, capsWordResetIdleTimer cfg now s = { s with idleTimer := timer } := by
  unfold capsWordResetIdleTimer
  split
  · exact ⟨_, rfl⟩
  · exact ⟨s.idleTimer, rfl⟩

theorem resetIdleTimer (h : Inv cfg s) (now : BitVec 16) :
    Inv cfg (capsWordResetIdleTimer cfg now s) := by
  obtain ⟨timer, htimer⟩ := @resetIdleTimer_eq cfg now s
  rw [htimer]
  exact { h with }

theorem on (h : Inv cfg s) (now : BitVec 16) : Inv cfg (capsWordOn cfg now s) := by
  unfold capsWordOn
  split
  · exact h
  · obtain ⟨timer, htimer⟩ := @resetIdleTimer_eq cfg now { s with realMods := 0 }
    rw [htimer]
    exact
      { h with
        covered := fun m hm => h.covered m (.inr (hm.resolve_left (by simp)))
        weak := fun h => Bool.noConfusion h
        real := fun _ => has_zero
        report := fun h => Bool.noConfusion h }

theorem capsWordOff_of_active (hactive : s.active = true) :
    capsWordOff s =
      { sendKeyboardReport { s with weakMods := s.weakMods &&& ~~~modMaskShift } with
        active := false } :=
  if_pos hactive

theorem off (h : Inv cfg s) : Inv cfg (capsWordOff s) := by
  by_cases hactive : s.active = true
  · rw [capsWordOff_of_active hactive]
    have hreport : ∀ m, has (s.realMods ||| s.weakMods &&& ~~~modMaskShift) m = false := by
      intro m
      rw [has_or, h.real hactive m, has_andNot_shift, Bool.false_or]
    exact
      { h with
        weak := fun _ => has_andNot_shift _
        real := fun h => Bool.noConfusion h
        report := fun _ _ _ => hreport }
  · rwa [capsWordOff, if_neg hactive]

theorem toggle (h : Inv cfg s) (now : BitVec 16) : Inv cfg (capsWordToggle cfg now s) := by
  unfold capsWordToggle
  split
  · exact h.off
  · exact h.on now

theorem task (h : Inv cfg s) (now : BitVec 16) : Inv cfg (capsWordTask cfg now s) := by
  unfold capsWordTask
  split
  · exact h.off
  · exact h

theorem pressUser_eq (code : Code) (s : State) :
    ∃ mods, (capsWordPressUser code s).2 = { s with weakMods := mods } := by
  unfold capsWordPressUser
  split
  · split_ifs
    · exact ⟨_, rfl⟩
    · exact ⟨s.weakMods, rfl⟩
    · exact ⟨s.weakMods, rfl⟩
  · exact ⟨s.weakMods, rfl⟩

theorem setWeak (h : Inv cfg s) (hactive : s.active = true) (mods : BitVec 8) :
    Inv cfg { s with weakMods := mods } :=
  { h with weak := fun hoff => absurd (hactive.symm.trans hoff) (by decide) }

theorem off_held (h : Inv cfg s) (hactive : s.active = true) :
    Inv cfg { capsWordOff s with
      realMods := (capsWordOff s).realMods ||| (capsWordOff s).heldMods } := by
  have hoff := h.off
  rw [capsWordOff_of_active hactive] at hoff ⊢
  exact
    { hoff with
      covered := fun m hm => by
        rw [has_or, Bool.or_eq_true] at hm
        rcases hm with (hm | hm) | hm
        · exact hoff.covered m (.inl hm)
        · exact hoff.covered m (.inr hm)
        · exact hoff.covered m (.inr hm)
      real := fun h => Bool.noConfusion h }

theorem continueWord (h : Inv cfg s) (hactive : s.active = true) (code : Code) :
    Inv cfg (continueWord code s) := by
  unfold CapsWord.continueWord
  by_cases hmods : s.realMods &&& ~~~(modMaskShift ||| modBitRalt) = 0
  · rw [if_pos hmods]
    obtain ⟨mods, hmods⟩ := pressUser_eq code { s with weakMods := 0 }
    generalize capsWordPressUser code { s with weakMods := 0 } = user at hmods
    obtain ⟨stay, after⟩ := user
    cases hmods
    have hweak := h.setWeak hactive
    dsimp only
    split
    · split
      · exact (hweak _).send
      · exact (hweak _).send
    · exact (hweak mods).off_held hactive
  · rw [if_neg hmods]
    dsimp only
    rw [if_neg (by decide)]
    exact h.off_held hactive

end Inv

/-! ## Keys -/

section Keys

variable {s : State}

theorem processCapsWord_basic (h : Inv cfg s) (kc : Nat) (pressed : Bool) (now : BitVec 16) :
    (processCapsWord cfg (.basic kc) pressed now s).1 = true ∧
      Inv cfg (processCapsWord cfg (.basic kc) pressed now s).2 := by
  rw [processCapsWord, if_neg (fun h => by cases h)]
  dsimp only [handleShift]
  rw [if_neg (by decide)]
  split
  · exact ⟨rfl, h⟩
  · rename_i hactive
    refine ⟨rfl, ?_⟩
    have hreset := h.resetIdleTimer now
    dsimp only
    split
    · refine hreset.continueWord ?_ _
      obtain ⟨timer, htimer⟩ := @Inv.resetIdleTimer_eq cfg now s
      rw [htimer]
      simpa using hactive
    · exact hreset

theorem actionExec_basic (h : Inv cfg s) (kc : Nat) (pressed : Bool) (now : BitVec 16) :
    Inv cfg (actionExec cfg (.basic kc) pressed now s) := by
  have hstart : Inv cfg (if pressed then { s with weakMods := 0 } else s) := by
    split
    · exact h.clearWeak
    · exact h
  obtain ⟨hgo, hinv⟩ := processCapsWord_basic hstart kc pressed now
  rw [actionExec]
  dsimp only
  rw [hgo]
  exact hinv.send

theorem actionExec_toggle (h : Inv cfg s) (pressed : Bool) (now : BitVec 16) :
    Inv cfg (actionExec cfg .capsWordToggle pressed now s) := by
  cases pressed with
  | false => exact h
  | true => exact h.clearWeak.toggle now

theorem actionExec_shift_active (hactive : s.active = true) (m : Shift) (pressed : Bool)
    (now : BitVec 16) :
    ∃ weakMods, actionExec cfg (.shift m) pressed now s =
      { s with
        weakMods := weakMods
        heldMods := if pressed then s.heldMods ||| m.bit else s.heldMods &&& ~~~m.bit } := by
  unfold actionExec processCapsWord handleShift
  cases pressed with
  | false => exact ⟨s.weakMods, by simp [hactive]⟩
  | true => exact ⟨0, by simp [hactive]⟩

theorem actionExec_shift_held (hactive : s.active = false) (m : Shift)
    (hheld : has s.heldMods m = true) (pressed : Bool) (now : BitVec 16) :
    actionExec cfg (.shift m) pressed now s =
      let after := { s with
        heldMods := s.heldMods &&& ~~~m.bit
        realMods := s.realMods &&& ~~~m.bit }
      if pressed then
        sendKeyboardReport { after with weakMods := 0, realMods := after.realMods ||| m.bit }
      else after := by
  have hbit := (and_bit_ne_zero s.heldMods m).mpr hheld
  unfold actionExec processCapsWord handleShift
  cases pressed <;> simp [hactive, hbit, processAction]

theorem actionExec_shift_off (hactive : s.active = false) (m : Shift)
    (hheld : has s.heldMods m = false) (pressed : Bool) (now : BitVec 16) :
    actionExec cfg (.shift m) pressed now s =
      sendKeyboardReport (if pressed then { s with weakMods := 0, realMods := s.realMods ||| m.bit }
        else { s with realMods := s.realMods &&& ~~~m.bit }) := by
  have hbit : s.heldMods &&& m.bit = 0#8 := by
    rw [← not_not (a := s.heldMods &&& m.bit = 0#8), ← ne_eq, and_bit_ne_zero, hheld]
    decide
  unfold actionExec processCapsWord handleShift
  cases pressed <;> simp [hactive, hbit, processAction]

/-- The bits of one shift have changed as its key has. -/
structure Shifted (cfg : Config) (m : Shift) (s s' : State) : Prop where
  active : s'.active = s.active
  real : ∀ m' ≠ m, has s'.realMods m' = true → has s.realMods m' = true
  held : ∀ m' ≠ m, has s'.heldMods m' = true → has s.heldMods m' = true
  down : ∀ m' ≠ m, ShiftDown cfg s m' → ShiftDown cfg s' m'
  covered : has s'.realMods m = true ∨ has s'.heldMods m = true → ShiftDown cfg s' m
  weak : s'.active = false → ∀ m', has s'.weakMods m' = true → has s.weakMods m' = true
  activeReal : s'.active = true → s'.realMods = s.realMods
  heldShift : s'.heldMods &&& ~~~modMaskShift = 0
  reported : s'.reported = false

theorem Inv.shifted {s' : State} {m : Shift} (h : Inv cfg s) (hs : Shifted cfg m s s') :
    Inv cfg s' where
  covered := fun m' hm' => by
    by_cases heq : m' = m
    · subst heq
      exact hs.covered hm'
    · exact hs.down m' heq (h.covered m' (hm'.imp (hs.real m' heq) (hs.held m' heq)))
  weak := fun hactive m' => by
    refine Bool.eq_false_iff.mpr fun hm' => ?_
    have := hs.weak hactive m' hm'
    rw [h.weak (hs.active ▸ hactive) m'] at this
    cases this
  real := fun hactive m' => by
    rw [hs.activeReal hactive]
    exact h.real (hs.active ▸ hactive) m'
  held := hs.heldShift
  report := fun _ hreported => absurd (hs.reported.symm.trans hreported) (by decide)

theorem heldShift_or {x : BitVec 8} (h : x &&& ~~~modMaskShift = 0) (m : Shift) :
    (x ||| m.bit) &&& ~~~modMaskShift = 0 := by
  revert x
  cases m <;> decide

theorem heldShift_andNot {x : BitVec 8} (h : x &&& ~~~modMaskShift = 0) (m : Shift) :
    x &&& ~~~m.bit &&& ~~~modMaskShift = 0 := by
  revert x
  cases m <;> decide

theorem has_andNot_of_ne {x : BitVec 8} {m m' : Shift} (h : has (x &&& ~~~m.bit) m' = true) :
    has x m' = true := by
  rw [has_andNot, Bool.and_eq_true] at h
  exact h.1

theorem has_or_of_ne {x : BitVec 8} {m m' : Shift} (hne : m' ≠ m)
    (h : has (x ||| m.bit) m' = true) : has x m' = true := by
  simpa [hne] using h

theorem not_has_andNot (x : BitVec 8) (m : Shift) : ¬has (x &&& ~~~m.bit) m = true := by
  simp

theorem actionExec_shift (h : Inv cfg s) {key : Nat} {m : Shift} (hkey : cfg.keymap key = .shift m)
    (now : BitVec 16) :
    Inv cfg (actionExec cfg (.shift m) (!s.down key) now { s with
      down := Function.update s.down key (!s.down key)
      reported := false }) := by
  have hdown (s' : State) (hs' : s'.down = Function.update s.down key (!s.down key)) :
      ∀ m' ≠ m, ShiftDown cfg s m' → ShiftDown cfg s' m' := by
    rintro m' hne ⟨key', hkey', hon⟩
    have hother : key' ≠ key := by
      rintro rfl
      exact hne (Code.shift.inj (hkey'.symm.trans hkey))
    exact ⟨key', hkey', by rw [hs', Function.update_of_ne hother, hon]⟩
  have hpress (s' : State) (hs' : s'.down = Function.update s.down key (!s.down key))
      (hup : s.down key = false) : ShiftDown cfg s' m :=
    ⟨key, hkey, by rw [hs', Function.update_self, hup]; rfl⟩
  by_cases hactive : s.active = true
  · obtain ⟨weakMods, heq⟩ := @actionExec_shift_active cfg { s with
      down := Function.update s.down key (!s.down key), reported := false } hactive m
      (!s.down key) now
    have hoff : ¬s.active = false := by rw [hactive]; decide
    rw [heq]
    cases hup : s.down key with
    | false =>
        exact h.shifted ⟨rfl, fun _ _ h => h, fun m' hne => has_or_of_ne hne,
          hdown _ (by rw [hup]), fun _ => hpress _ (by rw [hup]) hup,
          fun h => absurd h hoff, fun _ => rfl, heldShift_or h.held m, rfl⟩
    | true =>
        refine h.shifted ⟨rfl, fun _ _ h => h, fun m' _ => has_andNot_of_ne,
          hdown _ (by rw [hup]), fun hm => ?_, fun h => absurd h hoff, fun _ => rfl,
          heldShift_andNot h.held m, rfl⟩
        have hreal := h.real hactive m
        exact hm.elim (fun hm => absurd (hreal.symm.trans hm) (by decide))
          fun hm => absurd hm (not_has_andNot _ _)
  have hinactive := Bool.eq_false_iff.mpr hactive
  have hon (s' : State) (hs' : s'.active = s.active) : ¬s'.active = true := by rwa [hs']
  cases hheld : has s.heldMods m with
  | true =>
      rw [@actionExec_shift_held cfg { s with
        down := Function.update s.down key (!s.down key), reported := false } hinactive m hheld]
      cases hup : s.down key with
      | false =>
          have hs : Shifted cfg m s { s with
              down := Function.update s.down key true
              reported := false
              weakMods := 0
              heldMods := s.heldMods &&& ~~~m.bit
              realMods := s.realMods &&& ~~~m.bit ||| m.bit } :=
            ⟨rfl, fun m' hne hm' => has_andNot_of_ne (has_or_of_ne hne hm'),
              fun m' _ => has_andNot_of_ne, hdown _ (by rw [hup]; rfl),
              fun _ => hpress _ (by rw [hup]; rfl) hup, fun _ m' hm' => absurd hm' (by simp),
              fun h => absurd h (hon _ rfl), heldShift_andNot h.held m, rfl⟩
          exact (h.shifted hs).send
      | true =>
          refine h.shifted ⟨rfl, fun m' _ => has_andNot_of_ne, fun m' _ => has_andNot_of_ne,
            hdown _ (by rw [hup]; rfl), fun hm => ?_, fun _ _ h => h,
            fun h => absurd h (hon _ rfl), heldShift_andNot h.held m, rfl⟩
          exact hm.elim (fun hm => absurd hm (not_has_andNot _ _))
            fun hm => absurd hm (not_has_andNot _ _)
  | false =>
      rw [@actionExec_shift_off cfg { s with
        down := Function.update s.down key (!s.down key), reported := false } hinactive m hheld]
      cases hup : s.down key with
      | false =>
          have hs : Shifted cfg m s { s with
              down := Function.update s.down key true
              reported := false
              weakMods := 0
              realMods := s.realMods ||| m.bit } :=
            ⟨rfl, fun m' hne => has_or_of_ne hne, fun _ _ h => h, hdown _ (by rw [hup]; rfl),
              fun _ => hpress _ (by rw [hup]; rfl) hup, fun _ m' hm' => absurd hm' (by simp),
              fun h => absurd h (hon _ rfl), h.held, rfl⟩
          exact (h.shifted hs).send
      | true =>
          have hs : Shifted cfg m s { s with
              down := Function.update s.down key false
              reported := false
              realMods := s.realMods &&& ~~~m.bit } :=
            ⟨rfl, fun m' _ => has_andNot_of_ne, fun _ _ h => h, hdown _ (by rw [hup]; rfl),
              fun hm => hm.elim (fun hm => absurd hm (not_has_andNot _ _))
                fun hm => absurd (hheld.symm.trans hm) (by decide),
              fun _ _ h => h, fun h => absurd h (hon _ rfl), h.held, rfl⟩
          exact (h.shifted hs).send

theorem Inv.otherKey (h : Inv cfg s) {key : Nat} (hkey : (cfg.keymap key).isShift = false)
    (pressed : Bool) :
    Inv cfg { s with
      down := Function.update s.down key pressed
      reported := s.reported && !(cfg.keymap key).isShift } := by
  have hdown (m : Shift) : ShiftDown cfg { s with
      down := Function.update s.down key pressed
      reported := s.reported && !(cfg.keymap key).isShift } m ↔ ShiftDown cfg s m := by
    refine exists_congr fun key' => and_congr_right fun hkey' => ?_
    have hother : key' ≠ key := by
      rintro rfl
      rw [hkey'] at hkey
      cases hkey
    dsimp only
    rw [Function.update_of_ne hother]
  exact
    { h with
      covered := fun m hm => (hdown m).mpr (h.covered m hm)
      report := fun hactive hreported hup => by
        rw [hkey, Bool.not_false, Bool.and_true] at hreported
        exact h.report hactive hreported fun m hm => hup m ((hdown m).mpr hm) }

end Keys

theorem Inv.step {s : State} (h : Inv cfg s) (input : Input) : Inv cfg (step cfg s input) := by
  cases input with
  | on now => exact h.on now
  | off => exact h.off
  | toggle now => exact h.toggle now
  | task now => exact h.task now
  | switch key now =>
      have hother := fun hkey => @Inv.otherKey cfg s h key hkey (!s.down key)
      cases hcode : cfg.keymap key with
      | basic kc =>
          have := actionExec_basic (hother (by rw [hcode]; rfl)) kc (!s.down key) now
          rwa [← hcode] at this
      | shift m =>
          have := actionExec_shift h hcode now
          rwa [CapsWord.step, hcode, Code.isShift, Bool.not_true, Bool.and_false]
      | capsWordToggle =>
          have := actionExec_toggle (hother (by rw [hcode]; rfl)) (!s.down key) now
          rwa [← hcode] at this

theorem inv_run (inputs : List Input) : Inv cfg (run (step cfg) .initial inputs) :=
  List.foldlRecOn inputs (step cfg) .initial fun _ h input _ => h.step input

theorem eq_zero_of_has {x : BitVec 8} (h : ∀ m, has x m = false) : x &&& modMaskShift = 0 := by
  have hboth := And.intro (h .lsft) (h .rsft)
  clear h
  revert x
  decide

variable (cfg)

/-- With all keys up, no shift is left in `real_mods` or in `held_mods`, and a report that was sent
since the last event of a shift key has none either while Caps Word is off. -/
theorem shifts_released (inputs : List Input)
    (hup : ∀ key, (run (step cfg) .initial inputs).down key = false) :
    let s := run (step cfg) .initial inputs
    s.realMods &&& modMaskShift = 0 ∧ s.heldMods = 0 ∧
      (s.active = false → s.reported = true → s.report &&& modMaskShift = 0) := by
  intro s
  have hinv : Inv cfg s := inv_run inputs
  have hnone (m : Shift) : ¬ShiftDown cfg s m := by
    rintro ⟨key, -, hon⟩
    rw [hup key] at hon
    cases hon
  have hreal (m : Shift) : has s.realMods m = false :=
    Bool.eq_false_iff.mpr fun hm => hnone m (hinv.covered m (.inl hm))
  have hheld (m : Shift) : has s.heldMods m = false :=
    Bool.eq_false_iff.mpr fun hm => hnone m (hinv.covered m (.inr hm))
  refine ⟨eq_zero_of_has hreal, ?_, fun hactive hreported =>
    eq_zero_of_has (hinv.report hactive hreported hnone)⟩
  have hmask := eq_zero_of_has hheld
  have hrest := hinv.held
  generalize s.heldMods = x at hmask hrest
  revert x
  decide

/-- Left shift, the space bar and the letter A. -/
def threeKeys : Config where
  keymap
    | 0 => .shift .lsft
    | 1 => .basic 0x2C
    | _ => .basic 0x04
  idleTimeout := 5000

/-- Each key is tapped, with shift held over the space that ends the word. -/
def heldOverSpace : List Input :=
  [.on 0, .switch 0 0, .switch 1 0, .switch 1 0, .switch 0 0, .switch 2 0, .switch 2 0]

theorem heldOverSpace_up (key : Nat) :
    (run (step threeKeys) .initial heldOverSpace).down key = false := by
  match key with
  | 0 => rfl
  | 1 => rfl
  | 2 => rfl
  | _ + 3 => rfl

theorem heldOverSpace_released :
    let s := run (step threeKeys) .initial heldOverSpace
    s.realMods &&& modMaskShift = 0 ∧ s.heldMods = 0 ∧
      (s.active = false → s.reported = true → s.report &&& modMaskShift = 0) :=
  shifts_released threeKeys heldOverSpace heldOverSpace_up

/-- The report of a letter keeps its shift while Caps Word is on, and the release of a shift that
was held over the end of the word sends no report. -/
theorem shiftReport_kept :
    let letter := run (step threeKeys) .initial [.on 0, .switch 2 0, .switch 2 0]
    let ended := run (step threeKeys) .initial (heldOverSpace.take 5)
    ((letter.down 0 = false ∧ letter.down 1 = false ∧ letter.down 2 = false) ∧
      letter.active = true ∧ letter.report = 0x02) ∧
      (ended.down 0 = false ∧ ended.down 1 = false ∧ ended.down 2 = false) ∧
        ended.active = false ∧ ended.report = 0x02 := by
  decide

end Qmk.CapsWord
