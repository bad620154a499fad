import Qmk.KeyOverrides.Engine

/-!
# Overrides and the keys that are down

A replacement is registered or deferred only for the active override, and the trigger of
the active override is down as long as the remembered key is.
-/

namespace Qmk.KeyOverrides

open Qmk.Lib

variable {cfg : Config}

/-- A key that was pressed with the keycode is down. -/
def Down (s : State) (keycode : Nat) : Prop := ∃ key, s.held key = some keycode

def AllUp (s : State) : Prop := ∀ key, s.held key = none

/-- A replacement is deferred. -/
def Pending (s : State) : Prop := s.deferredRegister ≠ 0 ∧ s.deferredReplacement = true

def Quiet (s : State) : Prop := s.registered = [] ∧ ¬Pending s

/-- The keycode is what the active override registers. -/
def Owns (cfg : Config) (s : State) (code : Nat) : Prop :=
  ∃ o, s.activeOverride = some o ∧ code = clearModsFrom (cfg.override o).replacement ∧
    code ≠ kcNo ∧ code < safeRange

structure Owned (cfg : Config) (s : State) : Prop where
  registered : ∀ code ∈ s.registered, ∃ full, Owns cfg s full ∧ code = full % 0x100
  pending : Pending s → Owns cfg s s.deferredRegister

/-- The handler of the active override, if it has one, lets its replacement be
unregistered. -/
def Unregisters (cfg : Config) (s : State) (env : Env) : Prop :=
  ∀ o, s.activeOverride = some o → s.registered ≠ [] →
    (cfg.override o).hasCustomAction = true → env.customAction o false = true

/-- What an operation that is not about the keys leaves alone. -/
structure SameKeys (s s' : State) : Prop where
  held : s'.held = s.held
  enabled : s'.enabled = s.enabled
  lastKeyDown : s'.lastKeyDown = s.lastKeyDown

/-! ## The operations -/

theorem Owned.quiet {s : State} (h : Owned cfg s) (hnone : s.activeOverride = none) :
    Quiet s := by
  constructor
  · refine List.eq_nil_iff_forall_not_mem.mpr fun code hcode => ?_
    obtain ⟨_, ⟨o, hactive, -⟩, -⟩ := h.registered code hcode
    rw [hnone] at hactive
    contradiction
  · intro hpending
    obtain ⟨o, hactive, -⟩ := h.pending hpending
    rw [hnone] at hactive
    contradiction

theorem Quiet.owned {s : State} (h : Quiet s) : Owned cfg s where
  registered code hcode := by
    rw [h.1] at hcode
    contradiction
  pending hpending := absurd hpending h.2

theorem scheduleDeferredRegister_sameKeys (keycode : Nat) (replacement : Bool) (env : Env)
    (s : State) : SameKeys s (scheduleDeferredRegister cfg keycode replacement env s) := by
  unfold scheduleDeferredRegister
  split <;> exact ⟨rfl, rfl, rfl⟩

theorem scheduleDeferredRegister_registered (keycode : Nat) (replacement : Bool) (env : Env)
    (s : State) :
    (scheduleDeferredRegister cfg keycode replacement env s).registered = s.registered := by
  unfold scheduleDeferredRegister
  split <;> rfl

theorem SameKeys.trans {s s' s'' : State} (h : SameKeys s s') (h' : SameKeys s' s'') :
    SameKeys s s'' :=
  ⟨h'.held.trans h.held, h'.enabled.trans h.enabled, h'.lastKeyDown.trans h.lastKeyDown⟩

theorem unregisterReplacement_sameKeys (o : Nat) (env : Env) (s : State) :
    SameKeys s (unregisterReplacement cfg o env s) := by
  unfold unregisterReplacement
  split <;> exact ⟨rfl, rfl, rfl⟩

theorem reregisterTrigger_sameKeys (override : KeyOverride) (allow : Bool) (env : Env)
    (s : State) : SameKeys s (reregisterTrigger cfg override allow env s) := by
  unfold reregisterTrigger
  split
  · exact scheduleDeferredRegister_sameKeys ..
  · exact ⟨rfl, rfl, rfl⟩

theorem clearActiveOverride_sameKeys (allow : Bool) (env : Env) (s : State) :
    SameKeys s (clearActiveOverride cfg allow env s) := by
  unfold clearActiveOverride
  split
  · exact ⟨rfl, rfl, rfl⟩
  · obtain ⟨hheld, henabled, hlast⟩ :=
      (unregisterReplacement_sameKeys _ env _).trans (reregisterTrigger_sameKeys _ allow env _)
    exact ⟨hheld, henabled, hlast⟩

theorem clearActiveOverride_activeOverride (allow : Bool) (env : Env) (s : State) :
    (clearActiveOverride cfg allow env s).activeOverride = none := by
  unfold clearActiveOverride
  split
  · assumption
  · rfl

theorem reregisterTrigger_registered (override : KeyOverride) (allow : Bool) (env : Env)
    (s : State) : (reregisterTrigger cfg override allow env s).registered = s.registered := by
  unfold reregisterTrigger
  split
  · exact scheduleDeferredRegister_registered ..
  · rfl

theorem unregisterReplacement_deferredRegister (o : Nat) (env : Env) (s : State) :
    (unregisterReplacement cfg o env s).deferredRegister = s.deferredRegister := by
  unfold unregisterReplacement
  split <;> rfl

theorem reregisterTrigger_not_pending {s : State} (override : KeyOverride) (allow : Bool)
    (env : Env) (h : s.deferredRegister = 0) :
    ¬Pending (reregisterTrigger cfg override allow env s) := by
  unfold reregisterTrigger
  split
  · exact fun hpending => absurd hpending.2 (by simp [scheduleDeferredRegister])
  · exact fun hpending => hpending.1 h

theorem unregisterReplacement_registered {s : State} {o : Nat} {env : Env}
    (h : ∀ code ∈ s.registered, code = clearModsFrom (cfg.override o).replacement % 0x100)
    (hhandles : s.registered ≠ [] → handlesReplacement cfg o false env = true) :
    (unregisterReplacement cfg o env s).registered = [] := by
  unfold unregisterReplacement
  split
  · exact List.filter_eq_nil_iff.mpr fun code hcode => by simp [h code hcode]
  · rename_i hnot
    by_cases hempty : s.registered = []
    · exact hempty
    · exact absurd (hhandles hempty) hnot

theorem Owned.owner {s : State} {o code : Nat} (h : Owned cfg s)
    (hactive : s.activeOverride = some o) (hcode : code ∈ s.registered) :
    ∃ full, code = full % 0x100 ∧ full = clearModsFrom (cfg.override o).replacement ∧
      full ≠ kcNo ∧ full < safeRange := by
  obtain ⟨full, ⟨o', hactive', hfull⟩, rfl⟩ := h.registered code hcode
  cases hactive.symm.trans hactive'
  exact ⟨full, rfl, hfull⟩

theorem Owned.handles {s : State} {o : Nat} {env : Env} (h : Owned cfg s)
    (hactive : s.activeOverride = some o) (hunregisters : Unregisters cfg s env)
    (hsome : s.registered ≠ []) : handlesReplacement cfg o false env = true := by
  obtain ⟨code, hcode⟩ := List.exists_mem_of_ne_nil _ hsome
  obtain ⟨full, -, rfl, hno, hsafe⟩ := h.owner hactive hcode
  have hcustom := hunregisters o hactive hsome
  cases hhas : (cfg.override o).hasCustomAction with
  | false => simp [handlesReplacement, hno, hsafe, hhas]
  | true => simp [handlesReplacement, hno, hsafe, hcustom hhas]

theorem clearActiveOverride_quiet {s : State} {env : Env} (allow : Bool) (h : Owned cfg s)
    (hunregisters : Unregisters cfg s env) : Quiet (clearActiveOverride cfg allow env s) := by
  unfold clearActiveOverride
  split
  · rename_i hnone
    exact h.quiet hnone
  · rename_i o hactive
    constructor
    · refine (reregisterTrigger_registered ..).trans (unregisterReplacement_registered ?_ ?_)
      · intro code hcode
        obtain ⟨_, rfl, rfl, -⟩ := h.owner hactive hcode
        rfl
      · exact h.handles hactive hunregisters
    · exact reregisterTrigger_not_pending _ _ _ (unregisterReplacement_deferredRegister _ _ _)

theorem unregisterTrigger_quiet {s : State} (a : Attempt) (override : KeyOverride)
    (h : Quiet s) : Quiet (unregisterTrigger a override s) := by
  unfold unregisterTrigger
  split
  · exact ⟨by simp [State.unregisterCode, h.1], h.2⟩
  · exact h

theorem unregisterTrigger_sameKeys (a : Attempt) (override : KeyOverride) (s : State) :
    SameKeys s (unregisterTrigger a override s) ∧
      (unregisterTrigger a override s).activeOverride = s.activeOverride := by
  unfold unregisterTrigger
  split <;> exact ⟨⟨rfl, rfl, rfl⟩, rfl⟩

theorem registerReplacement_sameKeys (cfg : Config) (a : Attempt) (o : Nat) (s : State) :
    SameKeys s (registerReplacement cfg a o s) ∧
      (registerReplacement cfg a o s).activeOverride = s.activeOverride := by
  unfold registerReplacement scheduleDeferredRegister
  dsimp only
  split
  · split
    · split <;> exact ⟨⟨rfl, rfl, rfl⟩, rfl⟩
    · exact ⟨⟨rfl, rfl, rfl⟩, rfl⟩
  · exact ⟨⟨rfl, rfl, rfl⟩, rfl⟩

theorem registerReplacement_owned {s : State} (a : Attempt) {o : Nat} (h : Quiet s)
    (hactive : s.activeOverride = some o) :
    Owned cfg (registerReplacement cfg a o s) := by
  have hsame := (registerReplacement_sameKeys cfg a o s).2.trans hactive
  by_cases hhandles : handlesReplacement cfg o true a.env = true
  · have howns : Owns cfg (registerReplacement cfg a o s)
        (clearModsFrom (cfg.override o).replacement) := by
      simp only [handlesReplacement, Bool.and_eq_true, decide_eq_true_eq] at hhandles
      exact ⟨o, hsame, rfl, hhandles.1⟩
    cases hmod : a.isMod with
    | true =>
        constructor
        · intro code hcode
          simp [registerReplacement, hhandles, hmod, scheduleDeferredRegister_registered,
            h.1] at hcode
        · intro _
          simpa [registerReplacement, hhandles, hmod, scheduleDeferredRegister] using howns
    | false =>
        constructor
        · intro code hcode
          simp only [registerReplacement, if_pos hhandles, hmod, State.registerCode, h.1,
            Bool.false_eq_true, if_false, List.mem_singleton] at hcode
          exact ⟨_, howns, hcode⟩
        · intro hpending
          simp only [registerReplacement, if_pos hhandles, hmod, State.registerCode,
            Bool.false_eq_true, if_false] at hpending
          exact absurd hpending h.2
  · have hsame : registerReplacement cfg a o s = s := if_neg hhandles
    rw [hsame]
    exact h.owned

/-- What an operation that clears the active override and does nothing else does. -/
structure Cleared (s s' : State) : Prop where
  keys : SameKeys s s'
  active : s'.activeOverride = none
  quiet : Quiet s'

theorem clearActiveOverride_cleared {s : State} {env : Env} (allow : Bool) (h : Owned cfg s)
    (hunregisters : Unregisters cfg s env) :
    Cleared s (clearActiveOverride cfg allow env s) :=
  ⟨clearActiveOverride_sameKeys allow env s, clearActiveOverride_activeOverride allow env s,
    clearActiveOverride_quiet allow h hunregisters⟩

structure Activated (cfg : Config) (a : Attempt) (o : Nat) (s s' : State) : Prop where
  keys : SameKeys s s'
  active : s'.activeOverride = some o
  owned : Owned cfg s'
  quiet : handlesReplacement cfg o true a.env = false → Quiet s'

theorem activate_activated {s : State} {a : Attempt} (o : Nat) (h : Owned cfg s)
    (hunregisters : Unregisters cfg s a.env) : Activated cfg a o s (activate cfg a o s) := by
  have hclear := clearActiveOverride_cleared false h hunregisters
  let cleared := clearActiveOverride cfg false a.env s
  let claimed : State := { cleared with
    activeOverride := some o
    activeOverrideTriggerIsDown := true
    suppressedOverrideMods := (cfg.override o).suppressedMods }
  have hclaimed : SameKeys s claimed :=
    ⟨hclear.keys.held, hclear.keys.enabled, hclear.keys.lastKeyDown⟩
  have hquiet : Quiet claimed := ⟨hclear.quiet.1, hclear.quiet.2⟩
  obtain ⟨htrigger, htriggerActive⟩ := unregisterTrigger_sameKeys a (cfg.override o) claimed
  obtain ⟨hregister, hregisterActive⟩ := registerReplacement_sameKeys cfg a o
    (unregisterTrigger a (cfg.override o) claimed)
  have hafter := unregisterTrigger_quiet a (cfg.override o) hquiet
  refine ⟨(hclaimed.trans htrigger).trans hregister, hregisterActive.trans htriggerActive,
    registerReplacement_owned a hafter htriggerActive, fun hnot => ?_⟩
  have hsame : activate cfg a o s = unregisterTrigger a (cfg.override o) claimed :=
    if_neg (by simp [hnot])
  rw [hsame]
  exact hafter

/-! ## Key events -/

/-- The release deactivates the override. -/
def letsGo (a : Attempt) (override : KeyOverride) : Bool :=
  if a.isMod = true then !keyOverrideMatchesActiveModifiers override a.activeMods
  else decide (a.keycode = override.trigger)

theorem checkDeactivation_cases {s : State} {a : Attempt} (h : Owned cfg s)
    (hunregisters : Unregisters cfg s a.env) :
    Cleared s (checkDeactivation cfg a s) ∨
      checkDeactivation cfg a s = s ∧ ∀ o, s.activeOverride = some o → a.keyDown = false →
        letsGo a (cfg.override o) = false := by
  unfold checkDeactivation
  split
  · rename_i hnone
    refine .inr ⟨rfl, fun o hactive => ?_⟩
    rw [hnone] at hactive
    contradiction
  · rename_i o hactive
    cases hmod : a.isMod with
    | true =>
        simp only [if_true]
        split
        · rename_i hmatches
          refine .inr ⟨rfl, fun o' hactive' _ => ?_⟩
          cases hactive.symm.trans hactive'
          simp [letsGo, hmod, hmatches]
        · exact .inl (clearActiveOverride_cleared true h hunregisters)
    | false =>
        simp only [Bool.false_eq_true, if_false]
        split
        · split
          · have hlifted : Owned cfg { s with activeOverrideTriggerIsDown := false } :=
              ⟨h.registered, h.pending⟩
            obtain ⟨⟨hheld, henabled, hlast⟩, hnone, hquiet⟩ :=
              clearActiveOverride_cleared false hlifted hunregisters
            exact .inl ⟨⟨hheld, henabled, hlast⟩, hnone, hquiet⟩
          · exact .inl (clearActiveOverride_cleared false h hunregisters)
        · rename_i hnot
          simp only [Bool.or_eq_true, not_or, Bool.not_eq_true] at hnot
          rw [if_neg (by simp [hnot.1])]
          refine .inr ⟨rfl, fun o' hactive' hup => ?_⟩
          cases hactive.symm.trans hactive'
          simpa [letsGo, hmod, hup] using hnot.1

theorem noteKey_fields (keycode : Nat) (keyDown : Bool) (env : Env) (s : State) :
    let s' := noteKey keycode keyDown env s
    s'.activeOverride = s.activeOverride ∧ s'.registered = s.registered ∧
      s'.deferredReplacement = s.deferredReplacement ∧ s'.held = s.held ∧
      s'.enabled = s.enabled ∧
      (s'.deferredRegister = s.deferredRegister ∨ s'.deferredRegister = 0) := by
  unfold noteKey
  split
  · simp
  · split
    · simp
    · split <;> simp

theorem noteKey_owned {s : State} (keycode : Nat) (keyDown : Bool) (env : Env)
    (h : Owned cfg s) : Owned cfg (noteKey keycode keyDown env s) := by
  obtain ⟨hactive, hregistered, hreplacement, -, -, hdeferred⟩ :=
    noteKey_fields keycode keyDown env s
  constructor
  · intro code hcode
    rw [hregistered] at hcode
    obtain ⟨full, ⟨o, howner, hfull⟩, hcode⟩ := h.registered code hcode
    exact ⟨full, ⟨o, hactive.trans howner, hfull⟩, hcode⟩
  · rintro ⟨hne, htrue⟩
    rw [hreplacement] at htrue
    rcases hdeferred with hsame | hzero
    · rw [hsame] at hne ⊢
      obtain ⟨o, howner, hfull⟩ := h.pending ⟨hne, htrue⟩
      exact ⟨o, hactive.trans howner, hfull⟩
    · exact absurd hzero hne

theorem noteKey_unregisters {s : State} {keycode : Nat} {keyDown : Bool} {env : Env}
    (h : Unregisters cfg s env) : Unregisters cfg (noteKey keycode keyDown env s) env := by
  obtain ⟨hactive, hregistered, -⟩ := noteKey_fields keycode keyDown env s
  intro o howner hsome
  rw [hactive] at howner
  rw [hregistered] at hsome
  exact h o howner hsome

/-- The remembered key is down, where an override waits for it. -/
def Remembers (cfg : Config) (s : State) : Prop :=
  ∀ o ∈ cfg.table, (cfg.override o).trigger ≠ kcNo →
    (cfg.override o).trigger = s.lastKeyDown → Down s s.lastKeyDown

/-- What a key event does while overrides are on: it activates an override, or not. -/
theorem handleKey_cases {s : State} (keycode : Nat) (keyDown : Bool) {env : Env}
    (h : Owned cfg s) (hunregisters : Unregisters cfg s env) :
    let a := attempt keycode keyDown env
    let noted := noteKey keycode keyDown env s
    let s' := (handleKey cfg keycode keyDown env s).2
    (∃ o ∈ cfg.table, activatable cfg a noted o = true ∧ (a.isMod || keyDown) = true ∧
        Activated cfg a o noted s') ∨
      Cleared noted s' ∨
      s' = noted ∧ ∀ o, noted.activeOverride = some o → keyDown = false →
        letsGo a (cfg.override o) = false := by
  intro a noted
  have howned := noteKey_owned keycode keyDown env h
  have hnoted : Unregisters cfg noted a.env := noteKey_unregisters hunregisters
  by_cases htry : (a.isMod || keyDown) = true
  · cases hfind : cfg.table.find? (activatable cfg a noted) with
    | none =>
        have heq : (handleKey cfg keycode keyDown env s).2 = checkDeactivation cfg a noted := by
          simp [handleKey, tryActivatingOverride, a, noted, htry, hfind]
        rw [heq]
        exact .inr (checkDeactivation_cases howned hnoted)
    | some o =>
        have heq : (handleKey cfg keycode keyDown env s).2 = activate cfg a o noted := by
          simp [handleKey, tryActivatingOverride, a, noted, htry, hfind]
        rw [heq]
        exact .inl ⟨o, List.mem_of_find?_eq_some hfind, List.find?_some hfind, htry,
          activate_activated o howned hnoted⟩
  · have heq : (handleKey cfg keycode keyDown env s).2 = checkDeactivation cfg a noted := by
      simp [handleKey, a, noted, htry]
    rw [heq]
    exact .inr (checkDeactivation_cases howned hnoted)

/-! ## The invariant -/

/-- The trigger is a key that is not a modifier. -/
def HasKey (override : KeyOverride) : Prop :=
  override.trigger ≠ kcNo ∧ isModifierKeycode override.trigger = false

structure Inv (cfg : Config) (s : State) : Prop where
  owned : Owned cfg s
  off : s.enabled = false → s.activeOverride = none
  remembered : isModifierKeycode s.lastKeyDown = false
  trigger : ∀ o, s.activeOverride = some o → HasKey (cfg.override o) →
    Down s (cfg.override o).trigger
  up : AllUp s → Quiet s

theorem Inv.initial : Inv cfg .initial where
  owned := ⟨nofun, fun hpending => absurd rfl hpending.1⟩
  off := nofun
  remembered := by decide
  trigger := nofun
  up _ := ⟨rfl, fun hpending => hpending.1 rfl⟩

theorem Inv.of_none {s : State} (hnone : s.activeOverride = none) (hquiet : Quiet s)
    (hlast : isModifierKeycode s.lastKeyDown = false) : Inv cfg s where
  owned := hquiet.owned
  off _ := hnone
  remembered := hlast
  trigger o hactive := by
    rw [hnone] at hactive
    contradiction
  up _ := hquiet

theorem Down.setHeld {s s' : State} {key code : Nat} {keycode : Option Nat} (h : Down s code)
    (hheld : s'.held = s.held) (hne : s.held key ≠ some code) :
    Down (s'.setHeld key keycode) code := by
  obtain ⟨other, hother⟩ := h
  have hkey : other ≠ key := fun heq => hne (heq ▸ hother)
  refine ⟨other, ?_⟩
  simp only [State.setHeld, Function.update_of_ne hkey, hheld]
  exact hother

theorem down_pressed (s : State) (key keycode : Nat) :
    Down (s.setHeld key (some keycode)) keycode :=
  ⟨key, Function.update_self ..⟩

theorem not_allUp_pressed (s : State) (key keycode : Nat) :
    ¬AllUp (s.setHeld key (some keycode)) := by
  intro hup
  have hkey : Function.update s.held key (some keycode) key = none := hup key
  rw [Function.update_self] at hkey
  contradiction

theorem Inv.press {s : State} (h : Inv cfg s) {key : Nat} (keycode : Nat)
    (hup : s.held key = none) : Inv cfg (s.setHeld key (some keycode)) where
  owned := ⟨h.owned.registered, h.owned.pending⟩
  off := h.off
  remembered := h.remembered
  trigger o hactive hkey := (h.trigger o hactive hkey).setHeld rfl (by simp [hup])
  up hall := absurd hall (not_allUp_pressed s key keycode)

theorem keyOverrideOn_inv {s : State} (h : Inv cfg s) : Inv cfg (keyOverrideOn s) :=
  ⟨⟨h.owned.registered, h.owned.pending⟩, nofun, h.remembered, h.trigger, h.up⟩

theorem keyOverrideOff_cleared {s : State} {env : Env} (h : Owned cfg s)
    (hunregisters : Unregisters cfg s env) :
    Cleared { s with enabled := false } (keyOverrideOff cfg env s) := by
  have hoff : Owned cfg { s with enabled := false } := ⟨h.registered, h.pending⟩
  exact clearActiveOverride_cleared false hoff hunregisters

theorem Cleared.inv {s s' : State} (h : Cleared s s')
    (hlast : isModifierKeycode s.lastKeyDown = false) : Inv cfg s' :=
  .of_none h.active h.quiet (h.keys.lastKeyDown ▸ hlast)

theorem keyOverrideTask_inv {s : State} (h : Inv cfg s) (now : BitVec 32) :
    Inv cfg (keyOverrideTask now s) := by
  unfold keyOverrideTask
  split
  · exact h
  · rename_i hdeferred
    split
    · by_cases hreplacement : s.deferredReplacement = true
      · have hpending : Pending s := ⟨hdeferred, hreplacement⟩
        rw [if_pos hreplacement]
        refine ⟨⟨?_, fun hzero => absurd rfl hzero.1⟩, h.off, h.remembered, h.trigger,
          fun hup => absurd hpending (h.up hup).2⟩
        intro code hcode
        rcases List.mem_cons.mp hcode with rfl | hcode
        · exact ⟨s.deferredRegister, h.owned.pending hpending, rfl⟩
        · exact h.owned.registered code hcode
      · rw [if_neg hreplacement]
        exact ⟨⟨h.owned.registered, fun hzero => absurd rfl hzero.1⟩, h.off, h.remembered,
          h.trigger, fun hup => ⟨(h.up hup).1, fun hzero => hzero.1 rfl⟩⟩
    · exact h

/-! ## Activation -/

theorem activatable_trigger {a : Attempt} {s : State} {o : Nat}
    (h : activatable cfg a s o = true) :
    (cfg.override o).trigger = kcNo ∨
      ((cfg.override o).trigger = a.keycode ∧ a.keyDown = true) ∨
      s.lastKeyDown = (cfg.override o).trigger := by
  simp only [activatable, Attempt.triggerDown, Bool.and_eq_true, Bool.or_eq_true,
    decide_eq_true_eq, or_assoc] at h
  exact h.2

theorem noteKey_modifier {keycode : Nat} (h : isModifierKeycode keycode = true)
    (keyDown : Bool) (env : Env) (s : State) : noteKey keycode keyDown env s = s :=
  if_pos h

theorem noteKey_lastKeyDown {s : State} (keycode : Nat) (keyDown : Bool) (env : Env)
    (h : isModifierKeycode s.lastKeyDown = false) :
    isModifierKeycode (noteKey keycode keyDown env s).lastKeyDown = false := by
  unfold noteKey
  split
  · exact h
  · rename_i hmod
    split
    · exact Bool.not_eq_true _ ▸ hmod
    · split
      · rfl
      · exact h

/-- An override is activated for no key, for the key that is pressed, or at a modifier event
for the remembered key. -/
theorem activated_trigger {s : State} {keycode o : Nat} {keyDown : Bool} {env : Env}
    (htry : ((attempt keycode keyDown env).isMod || keyDown) = true)
    (h : activatable cfg (attempt keycode keyDown env) (noteKey keycode keyDown env s) o =
      true) :
    (cfg.override o).trigger = kcNo ∨
      ((cfg.override o).trigger = keycode ∧ keyDown = true) ∨
      isModifierKeycode keycode = true ∧ (cfg.override o).trigger = s.lastKeyDown := by
  rcases activatable_trigger h with hno | hpressed | hlast
  · exact .inl hno
  · exact .inr (.inl hpressed)
  · cases hmod : isModifierKeycode keycode with
    | true =>
        rw [noteKey_modifier hmod] at hlast
        exact .inr (.inr ⟨rfl, hlast.symm⟩)
    | false =>
        have hdown : keyDown = true := by simpa [attempt, hmod] using htry
        have hnoted : (noteKey keycode keyDown env s).lastKeyDown = keycode := by
          simp [noteKey, hmod, hdown]
        exact .inr (.inl ⟨hlast.symm.trans hnoted, hdown⟩)

/-- The key that an event is about was up before a press and down before a release. -/
def keyBefore (keycode : Nat) (keyDown : Bool) : Option Nat :=
  if keyDown = true then none else some keycode

def keyAfter (keycode : Nat) (keyDown : Bool) : Option Nat :=
  if keyDown = true then some keycode else none

theorem activated_down {s s' : State} {key keycode o : Nat} {keyDown : Bool} {env : Env}
    (h : Inv cfg s) (hbefore : s.held key = keyBefore keycode keyDown)
    (hremembers : isModifierKeycode keycode = true → Remembers cfg s) (ho : o ∈ cfg.table)
    (htry : ((attempt keycode keyDown env).isMod || keyDown) = true)
    (hactivatable : activatable cfg (attempt keycode keyDown env)
      (noteKey keycode keyDown env s) o = true) (hheld : s'.held = s.held) :
    (cfg.override o).trigger = kcNo ∨
      Down (s'.setHeld key (keyAfter keycode keyDown)) (cfg.override o).trigger := by
  rcases activated_trigger htry hactivatable with hno | ⟨hpressed, hdown⟩ | ⟨hmod, hlast⟩
  · exact .inl hno
  · rw [hpressed, hdown]
    exact .inr (down_pressed s' key keycode)
  · by_cases hno : (cfg.override o).trigger = kcNo
    · exact .inl hno
    · have hdown := hremembers hmod o ho hno hlast
      rw [hlast]
      refine .inr (hdown.setHeld hheld ?_)
      rw [hbefore]
      intro heq
      unfold keyBefore at heq
      split at heq
      · contradiction
      · rw [Option.some.inj heq, h.remembered] at hmod
        contradiction

/-- A release that leaves no key down lets go of an override without a key, unless it
registers nothing, and activates none that would register its replacement. -/
def LastRelease (cfg : Config) (s : State) (key keycode : Nat) (env : Env) : Prop :=
  (∀ other, other ≠ key → s.held other = none) →
    let a := attempt keycode false env
    let noted := noteKey keycode false env s
    (∀ o, s.activeOverride = some o → ¬HasKey (cfg.override o) → ¬Quiet noted →
      letsGo a (cfg.override o) = true) ∧
    (∀ o ∈ cfg.table, (cfg.override o).trigger = kcNo → a.isMod = true →
      activatable cfg a noted o = true → handlesReplacement cfg o true env = false)

theorem Owned.exists_active {s : State} (h : Owned cfg s) (hnot : ¬Quiet s) :
    ∃ o, s.activeOverride = some o := by
  cases hactive : s.activeOverride with
  | none => exact absurd (h.quiet hactive) hnot
  | some o => exact ⟨o, rfl⟩

theorem allUp_released {s : State} {key : Nat} (h : AllUp (s.setHeld key none)) :
    ∀ other, other ≠ key → s.held other = none := by
  intro other hne
  have hother : Function.update s.held key none other = none := h other
  rwa [Function.update_of_ne hne] at hother

theorem not_down_of_allUp {s : State} (h : AllUp s) (code : Nat) : ¬Down s code := by
  rintro ⟨key, hkey⟩
  rw [h key] at hkey
  contradiction

theorem handleKey_inv {s : State} {key keycode : Nat} {keyDown : Bool} {env : Env}
    (h : Inv cfg s) (hon : s.enabled = true)
    (hbefore : s.held key = keyBefore keycode keyDown) (hunregisters : Unregisters cfg s env)
    (hremembers : isModifierKeycode keycode = true → Remembers cfg s)
    (hlast : keyDown = false → LastRelease cfg s key keycode env) :
    Inv cfg (((handleKey cfg keycode keyDown env s).2).setHeld key
      (keyAfter keycode keyDown)) := by
  have hremembered := noteKey_lastKeyDown keycode keyDown env h.remembered
  obtain ⟨hactive, -, -, hheld, henabled, -⟩ := noteKey_fields keycode keyDown env s
  rcases handleKey_cases keycode keyDown h.owned hunregisters with
    ⟨o, ho, hactivatable, htry, hactivated⟩ | hcleared | ⟨hsame, hstays⟩
  · have hdown := activated_down h hbefore hremembers ho htry hactivatable
      (hactivated.keys.held.trans hheld)
    refine ⟨⟨hactivated.owned.registered, hactivated.owned.pending⟩, ?_, ?_, ?_, ?_⟩
    · intro hoff
      have henabled := hactivated.keys.enabled.trans henabled
      rw [State.setHeld, henabled, hon] at hoff
      contradiction
    · exact hactivated.keys.lastKeyDown ▸ hremembered
    · intro o' hactive' hkey
      cases hactivated.active.symm.trans hactive'
      exact hdown.resolve_left hkey.1
    · intro hup
      cases keyDown with
      | true => exact absurd hup (not_allUp_pressed _ key keycode)
      | false =>
          have hreleased := allUp_released hup
          rw [hactivated.keys.held, hheld] at hreleased
          have hno := hdown.resolve_right (not_down_of_allUp hup _)
          have hquiet := hactivated.quiet
            ((hlast rfl hreleased).2 o ho hno (by simpa using htry) hactivatable)
          exact ⟨hquiet.1, hquiet.2⟩
  · exact .of_none hcleared.active ⟨hcleared.quiet.1, hcleared.quiet.2⟩
      (hcleared.keys.lastKeyDown ▸ hremembered)
  · have howned := noteKey_owned keycode keyDown env h.owned
    have htrigger (o : Nat) (ho : s.activeOverride = some o) (hkey : HasKey (cfg.override o)) :
        Down ((noteKey keycode keyDown env s).setHeld key (keyAfter keycode keyDown))
          (cfg.override o).trigger := by
      refine (h.trigger o ho hkey).setHeld hheld ?_
      rw [hbefore]
      cases keyDown with
      | true => exact nofun
      | false =>
          intro heq
          have hcode : keycode = (cfg.override o).trigger := Option.some.inj heq
          have hlets := hstays o (hactive.trans ho) rfl
          simp [letsGo, attempt, hcode, hkey.2] at hlets
    rw [hsame]
    refine ⟨⟨howned.registered, howned.pending⟩, ?_, hremembered, ?_, ?_⟩
    · intro hoff
      rw [State.setHeld, henabled, hon] at hoff
      contradiction
    · exact fun o ho hkey => htrigger o (hactive.symm.trans ho) hkey
    · intro hup
      cases keyDown with
      | true => exact absurd hup (not_allUp_pressed _ key keycode)
      | false =>
          have hreleased := allUp_released hup
          rw [hheld] at hreleased
          by_cases hquiet : Quiet (noteKey keycode false env s)
          · exact ⟨hquiet.1, hquiet.2⟩
          · obtain ⟨o, ho⟩ := howned.exists_active hquiet
            have hnokey : ¬HasKey (cfg.override o) := fun hkey =>
              not_down_of_allUp hup _ (htrigger o (hactive.symm.trans ho) hkey)
            have hlets := (hlast rfl hreleased).1 o (hactive.symm.trans ho) hnokey hquiet
            rw [hstays o ho rfl] at hlets
            contradiction

/-! ## Runs -/

/-- What a step of a run has to meet: handlers let replacements be unregistered, at a
modifier event the remembered key is down, and the last release lets go. -/
def Allowed (cfg : Config) (s : State) : Input → Prop
  | .press _ keycode env =>
      Unregisters cfg s env ∧
        (s.enabled = true → isModifierKeycode keycode = true → Remembers cfg s)
  | .release key env =>
      Unregisters cfg s env ∧ ∀ keycode, s.held key = some keycode → s.enabled = true →
        (isModifierKeycode keycode = true → Remembers cfg s) ∧
          LastRelease cfg s key keycode env
  | .on => True
  | .off env => Unregisters cfg s env
  | .toggle env => Unregisters cfg s env
  | .task _ => True

/-- What is claimed of a step: an override that it activates has no trigger, or one that is
down after it, and with all keys up and nothing deferred no replacement is registered. -/
structure FiresForDown (cfg : Config) (s : State) (input : Input) : Prop where
  activates : ∀ o, (step cfg s input).activeOverride = some o → s.activeOverride ≠ some o →
    (cfg.override o).trigger = kcNo ∨ Down (step cfg s input) (cfg.override o).trigger
  letsGo : AllUp (step cfg s input) → (step cfg s input).deferredRegister = 0 →
    (step cfg s input).registered = []

theorem keyOverrideToggle_inv {s : State} {env : Env} (h : Inv cfg s)
    (hunregisters : Unregisters cfg s env) : Inv cfg (keyOverrideToggle cfg env s) := by
  unfold keyOverrideToggle
  split
  · exact (keyOverrideOff_cleared h.owned hunregisters).inv h.remembered
  · exact keyOverrideOn_inv h

theorem keyOverrideOff_held (env : Env) (s : State) :
    (keyOverrideOff cfg env s).held = s.held :=
  (clearActiveOverride_sameKeys false env { s with enabled := false }).held

theorem keyOverrideToggle_held (env : Env) (s : State) :
    (keyOverrideToggle cfg env s).held = s.held := by
  unfold keyOverrideToggle
  split
  · exact keyOverrideOff_held env s
  · rfl

theorem processKeyOverride_inv {s : State} {key keycode : Nat} {keyDown : Bool} {env : Env}
    (h : Inv cfg s) (hbefore : s.held key = keyBefore keycode keyDown)
    (hunregisters : Unregisters cfg s env)
    (hremembers : s.enabled = true → isModifierKeycode keycode = true → Remembers cfg s)
    (hlast : s.enabled = true → keyDown = false → LastRelease cfg s key keycode env) :
    Inv cfg (((processKeyOverride cfg keycode keyDown env s).2).setHeld key
      (keyAfter keycode keyDown)) := by
  have hcontrol {s' : State} (hinv : Inv cfg s') (hheld : s'.held = s.held)
      (hdown : keyDown = true) : Inv cfg (s'.setHeld key (keyAfter keycode keyDown)) := by
    subst hdown
    exact hinv.press keycode ((congrFun hheld key).trans hbefore)
  unfold processKeyOverride
  split
  · rename_i htoggle
    exact hcontrol (keyOverrideToggle_inv h hunregisters) (keyOverrideToggle_held env s)
      htoggle.1
  · split
    · rename_i hon
      exact hcontrol (keyOverrideOn_inv h) rfl hon.1
    · split
      · rename_i hoff
        exact hcontrol ((keyOverrideOff_cleared h.owned hunregisters).inv h.remembered)
          (keyOverrideOff_held env s) hoff.1
      · split
        · rename_i hdisabled
          have hnone := h.off hdisabled
          have hquiet := h.owned.quiet hnone
          exact .of_none hnone ⟨hquiet.1, hquiet.2⟩ h.remembered
        · rename_i henabled
          have hon : s.enabled = true := by simpa using henabled
          exact handleKey_inv h hon hbefore hunregisters (hremembers hon) (hlast hon)

theorem pressKey_up {s : State} {key : Nat} (keycode : Nat) (env : Env)
    (h : s.held key = none) :
    pressKey cfg key keycode env s =
      ((processKeyOverride cfg keycode true env s).2).setHeld key (some keycode) := by
  rw [pressKey, h]

theorem releaseKey_down {s : State} {key keycode : Nat} (env : Env)
    (h : s.held key = some keycode) :
    releaseKey cfg key env s =
      ((processKeyOverride cfg keycode false env s).2).setHeld key none := by
  rw [releaseKey, h]

theorem step_inv {s : State} {input : Input} (h : Inv cfg s) (hallowed : Allowed cfg s input) :
    Inv cfg (step cfg s input) := by
  cases input with
  | press key keycode env =>
      cases hheld : s.held key with
      | some other => simpa [step, pressKey, hheld] using h
      | none =>
          rw [step, pressKey_up keycode env hheld]
          exact processKeyOverride_inv h hheld hallowed.1 hallowed.2 nofun
  | release key env =>
      cases hheld : s.held key with
      | none => simpa [step, releaseKey, hheld] using h
      | some keycode =>
          have hrelease := hallowed.2 keycode hheld
          rw [step, releaseKey_down env hheld]
          exact processKeyOverride_inv h hheld hallowed.1 (fun hon => (hrelease hon).1)
            fun hon _ => (hrelease hon).2
  | on => exact keyOverrideOn_inv h
  | off env => exact (keyOverrideOff_cleared h.owned hallowed).inv h.remembered
  | toggle env => exact keyOverrideToggle_inv h hallowed
  | task now => exact keyOverrideTask_inv h now

/-- What an operation that activates no override does to the active one. -/
def Keeps (s s' : State) : Prop := s'.activeOverride = none ∨ s'.activeOverride = s.activeOverride

theorem Keeps.not_activates {s s' : State} {o : Nat} (h : Keeps s s')
    (hactive : s'.activeOverride = some o) : s.activeOverride = some o := by
  rcases h with hnone | hsame
  · rw [hnone] at hactive
    contradiction
  · exact hsame.symm.trans hactive

theorem keyOverrideOff_keeps (env : Env) (s : State) : Keeps s (keyOverrideOff cfg env s) :=
  .inl (clearActiveOverride_activeOverride false env _)

theorem keyOverrideToggle_keeps (env : Env) (s : State) :
    Keeps s (keyOverrideToggle cfg env s) := by
  unfold keyOverrideToggle
  split
  · exact keyOverrideOff_keeps env s
  · exact .inr rfl

theorem keyOverrideTask_keeps (now : BitVec 32) (s : State) :
    Keeps s (keyOverrideTask now s) := by
  unfold keyOverrideTask
  split
  · exact .inr rfl
  · split
    · by_cases hreplacement : s.deferredReplacement = true
      · rw [if_pos hreplacement]
        exact .inr rfl
      · rw [if_neg hreplacement]
        exact .inr rfl
    · exact .inr rfl

theorem processKeyOverride_keeps (keycode : Nat) (keyDown : Bool) (env : Env) (s : State) :
    Keeps s (processKeyOverride cfg keycode keyDown env s).2 ∨
      s.enabled = true ∧ processKeyOverride cfg keycode keyDown env s =
        handleKey cfg keycode keyDown env s := by
  unfold processKeyOverride
  split
  · exact .inl (keyOverrideToggle_keeps env s)
  · split
    · exact .inl (.inr rfl)
    · split
      · exact .inl (keyOverrideOff_keeps env s)
      · split
        · exact .inl (.inr rfl)
        · rename_i henabled
          exact .inr ⟨by simpa using henabled, rfl⟩

theorem processKeyOverride_activates {s : State} {key keycode o : Nat} {keyDown : Bool}
    {env : Env} (h : Inv cfg s) (hbefore : s.held key = keyBefore keycode keyDown)
    (hunregisters : Unregisters cfg s env)
    (hremembers : s.enabled = true → isModifierKeycode keycode = true → Remembers cfg s)
    (hactive : (processKeyOverride cfg keycode keyDown env s).2.activeOverride = some o)
    (hnew : s.activeOverride ≠ some o) :
    (cfg.override o).trigger = kcNo ∨
      Down (((processKeyOverride cfg keycode keyDown env s).2).setHeld key
        (keyAfter keycode keyDown)) (cfg.override o).trigger := by
  rcases processKeyOverride_keeps keycode keyDown env s with hkeeps | ⟨hon, heq⟩
  · exact absurd (hkeeps.not_activates hactive) hnew
  · rw [heq] at hactive ⊢
    obtain ⟨hnoted, -, -, hheld, -, -⟩ := noteKey_fields keycode keyDown env s
    rcases handleKey_cases keycode keyDown h.owned hunregisters with
      ⟨o', ho, hactivatable, htry, hactivated⟩ | hcleared | ⟨hsame, -⟩
    · cases hactivated.active.symm.trans hactive
      exact activated_down h hbefore (hremembers hon) ho htry hactivatable
        (hactivated.keys.held.trans hheld)
    · rw [hcleared.active] at hactive
      contradiction
    · rw [hsame, hnoted] at hactive
      exact absurd hactive hnew

theorem step_firesForDown {s : State} {input : Input} (h : Inv cfg s)
    (hallowed : Allowed cfg s input) : FiresForDown cfg s input where
  letsGo hup _ := ((step_inv h hallowed).up hup).1
  activates o hactive hnew := by
    cases input with
    | press key keycode env =>
        cases hheld : s.held key with
        | some other =>
            have hsame : step cfg s (.press key keycode env) = s := by
              simp [step, pressKey, hheld]
            rw [hsame] at hactive
            exact absurd hactive hnew
        | none =>
            rw [step, pressKey_up keycode env hheld] at hactive ⊢
            exact processKeyOverride_activates h hheld hallowed.1 hallowed.2 hactive hnew
    | release key env =>
        cases hheld : s.held key with
        | none =>
            have hsame : step cfg s (.release key env) = s := by simp [step, releaseKey, hheld]
            rw [hsame] at hactive
            exact absurd hactive hnew
        | some keycode =>
            rw [step, releaseKey_down env hheld] at hactive ⊢
            exact processKeyOverride_activates h hheld hallowed.1
              (fun hon => (hallowed.2 keycode hheld hon).1) hactive hnew
    | on => exact absurd hactive hnew
    | off env => exact absurd ((keyOverrideOff_keeps env s).not_activates hactive) hnew
    | toggle env => exact absurd ((keyOverrideToggle_keeps env s).not_activates hactive) hnew
    | task now => exact absurd ((keyOverrideTask_keeps now s).not_activates hactive) hnew

/-- Overrides fire only for keys that are down, in a run that keeps what is remembered of
the keys up to date. -/
theorem keyOverrides_fireForDown {inputs : List Input}
    (h : Meets (step cfg) (Allowed cfg) .initial inputs) :
    Meets (step cfg) (FiresForDown cfg) .initial inputs :=
  h.imp_of_invariant (Inv cfg) (fun _ _ => step_inv) (fun _ _ => step_firesForDown) .initial

/-! ## One override -/

def shiftless : KeyOverride where
  trigger := 0x1B
  triggerMods := 0
  layers := 0xFFFFFFFF#32
  negativeModMask := 0x02#8
  suppressedMods := 0
  replacement := 0x04
  options := koOptionsAllActivations
  hasCustomAction := false
  hasEnabled := false

def oneOverride : Config where
  keyOverrides := [some 0]
  override _ := shiftless
  repeatDelay := 500

def envAt (now : BitVec 32) (mods : BitVec 8) : Env where
  mods := mods
  layer := 0
  now := now
  customAction _ _ := true
  overrideEnabled _ := true

theorem oneOverride_unregisters (s : State) (env : Env) : Unregisters oneOverride s env :=
  fun _ _ _ hcustom => absurd hcustom Bool.false_ne_true

theorem hasKey_shiftless : HasKey shiftless := ⟨by decide, by decide⟩

theorem oneOverride_lastRelease (s : State) (key keycode : Nat) (env : Env) :
    LastRelease oneOverride s key keycode env := by
  intro _
  constructor
  · intro _ _ hnokey _
    exact absurd hasKey_shiftless hnokey
  · intro _ _ htrigger
    exact absurd htrigger hasKey_shiftless.1

theorem oneOverride_remembers {s : State}
    (h : s.lastKeyDown = 0x1B → s.held 1 = some 0x1B) : Remembers oneOverride s := by
  intro o _ _ htrigger
  have hlast : s.lastKeyDown = 0x1B := htrigger.symm
  rw [hlast]
  exact ⟨1, h hlast⟩

/-- Shift goes up while the key is down, and the key after its replacement is registered. -/
def freshRun : List Input :=
  [.press 0 0xE1 (envAt 0 0), .press 1 0x1B (envAt 10 2), .release 0 (envAt 20 2), .task 600,
    .release 1 (envAt 700 0)]

theorem freshRun_firesForDown :
    Meets (step oneOverride) (FiresForDown oneOverride) .initial freshRun ∧
      (run (step oneOverride) .initial (freshRun.take 4)).registered = [0x04] := by
  refine ⟨keyOverrides_fireForDown ⟨?_, ?_, ?_, trivial, ?_, trivial⟩, by decide⟩
  · exact ⟨oneOverride_unregisters _ _, fun _ _ => oneOverride_remembers (by decide)⟩
  · exact ⟨oneOverride_unregisters _ _, fun _ hmod => absurd hmod (by decide)⟩
  · exact ⟨oneOverride_unregisters _ _, fun _ _ _ =>
      ⟨fun _ => oneOverride_remembers fun _ => rfl, oneOverride_lastRelease _ _ _ _⟩⟩
  · refine ⟨oneOverride_unregisters _ _, fun keycode hheld _ =>
      ⟨fun hmod => ?_, oneOverride_lastRelease _ _ _ _⟩⟩
    cases hheld.symm.trans (rfl : _ = some 0x1B)
    exact absurd hmod (by decide)

/-- The key goes up while overrides are off, and shift afterwards. -/
def staleRun : List Input :=
  [.press 0 0xE1 (envAt 0 0), .press 1 0x1B (envAt 10 2), .off (envAt 20 2),
    .release 1 (envAt 30 2), .on, .release 0 (envAt 40 2), .task 600]

theorem stale_allUp : AllUp (run (step oneOverride) .initial staleRun) := by
  intro key
  have hheld : (run (step oneOverride) .initial staleRun).held =
      Function.update (Function.update (Function.update (Function.update (fun _ => none)
        0 (some 0xE1)) 1 (some 0x1B)) 1 none) 0 none := rfl
  rw [hheld]
  by_cases hshift : key = 0
  · rw [hshift, Function.update_self]
  · rw [Function.update_of_ne hshift]
    by_cases hkey : key = 1
    · rw [hkey, Function.update_self]
    · simp only [Function.update_of_ne hkey, Function.update_of_ne hshift]

theorem stale_not_firesForDown :
    ¬Meets (step oneOverride) (FiresForDown oneOverride) .initial staleRun := by
  intro h
  have hsplit : staleRun = staleRun.take 6 ++ [.task 600] := rfl
  rw [hsplit, Meets.append_iff] at h
  have hquiet := h.2.1.letsGo stale_allUp (by decide)
  exact absurd hquiet (by decide)

end Qmk.KeyOverrides
