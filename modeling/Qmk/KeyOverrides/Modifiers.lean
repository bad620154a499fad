import Qmk.KeyOverrides.Activation

/-!
# Overrides and the modifiers that are reported

An active override takes modifiers out of the report and puts others in.  The engine also
registers and unregisters keycodes, and a keycode that `register_code` takes for a modifier
changes `real_mods`, where the modifier keys have theirs.
-/

namespace Qmk.KeyOverrides

open Qmk.Lib

/-- What the code reads and calls apart from the overrides and the real modifiers. -/
structure Outside where
  /-- The weak and the one-shot modifiers that `process_key_override` counts. -/
  counted : BitVec 8
  /-- The weak and the one-shot modifiers that are reported. -/
  others : BitVec 8
  layer : Nat
  now : BitVec 32
  customAction : Nat → Bool → Bool
  overrideEnabled : Nat → Bool

structure Board where
  engine : State
  realMods : BitVec 8
  /-- The modifiers whose last key event was a press. -/
  heldMods : BitVec 8
  /-- The modifiers of the last report. -/
  report : BitVec 8
  /-- The weak and the one-shot modifiers at the last report. -/
  others : BitVec 8

def isBasicKeycode (code : Nat) : Bool := decide (0x04 ≤ code ∧ code ≤ 0xA4)

/-- What `register_code` adds to the real modifiers, for the eight bits that it takes. -/
def modsOfCode (code : Nat) : BitVec 8 :=
  if isModifierKeycode (code % 0x100) = true then modBit code else 0

/-- Whether `register_code16` sends a keyboard report. -/
def registerReports (code : Nat) : Bool :=
  decide (extractModBits code ≠ 0) || isBasicKeycode (code % 0x100) ||
    isModifierKeycode (code % 0x100)

namespace Board

def initial : Board where
  engine := .initial
  realMods := 0
  heldMods := 0
  report := 0
  others := 0

def env (b : Board) (out : Outside) : Env where
  mods := b.realMods ||| out.counted
  layer := out.layer
  now := out.now
  customAction := out.customAction
  overrideEnabled := out.overrideEnabled

def getModsForReport (b : Board) (others : BitVec 8) : BitVec 8 :=
  ((b.realMods ||| others) &&& ~~~b.engine.suppressedOverrideMods) ||| b.engine.weakOverrideMods

def sendKeyboardReport (others : BitVec 8) (b : Board) : Board :=
  { b with report := b.getModsForReport others, others := others }

def registerCode (code : Nat) (b : Board) : Board :=
  { b with realMods := b.realMods ||| modsOfCode code }

def unregisterCode (code : Nat) (b : Board) : Board :=
  { b with realMods := b.realMods &&& ~~~modsOfCode code }

variable (cfg : Config)

def clearActiveOverride (allowReregister : Bool) (out : Outside) (b : Board) : Board :=
  match b.engine.activeOverride with
  | none => b
  | some o =>
      let env := b.env out
      let b :=
        if handlesReplacement cfg o false env = true then
          b.unregisterCode (clearModsFrom (cfg.override o).replacement)
        else b
      sendKeyboardReport out.others
        { b with engine := KeyOverrides.clearActiveOverride cfg allowReregister env b.engine }

def unregisterTrigger (a : Attempt) (override : KeyOverride) (b : Board) : Board :=
  if a.triggerDown override = false ∧ override.trigger ≠ kcNo then
    b.unregisterCode override.trigger
  else b

def registerReplacement (a : Attempt) (o : Nat) (b : Board) : Board :=
  if handlesReplacement cfg o true a.env = true ∧ a.isMod = false then
    b.registerCode (clearModsFrom (cfg.override o).replacement)
  else b

/-- Every branch of the activation sends its report after the modifiers are set. -/
def activate (a : Attempt) (o : Nat) (out : Outside) (b : Board) : Board :=
  let engine := KeyOverrides.activate cfg a o b.engine
  let b := clearActiveOverride cfg false out b
  let b := registerReplacement cfg a o (unregisterTrigger a (cfg.override o) b)
  sendKeyboardReport out.others { b with engine := engine }

def tryActivatingOverride (a : Attempt) (out : Outside) (b : Board) : Bool × Bool × Board :=
  match cfg.table.find? (activatable cfg a b.engine) with
  | none => (true, false, b)
  | some o => (!a.triggerDown (cfg.override o), true, b.activate cfg a o out)

def keyOverrideTask (out : Outside) (b : Board) : Board :=
  let code := b.engine.deferredRegister
  if code ≠ 0 ∧ b.engine.deferDelay ≤ timerElapsed32 out.now b.engine.deferReferenceTime then
    let b := { b.registerCode code with engine := KeyOverrides.keyOverrideTask out.now b.engine }
    if registerReports code = true then b.sendKeyboardReport out.others else b
  else b

def keyOverrideOn (b : Board) : Board := { b with engine := KeyOverrides.keyOverrideOn b.engine }

def keyOverrideOff (out : Outside) (b : Board) : Board :=
  clearActiveOverride cfg false out { b with engine := { b.engine with enabled := false } }

def keyOverrideToggle (out : Outside) (b : Board) : Board :=
  if b.engine.enabled = true then keyOverrideOff cfg out b else keyOverrideOn b

def checkDeactivation (a : Attempt) (out : Outside) (b : Board) : Board :=
  match b.engine.activeOverride with
  | none => b
  | some o =>
      let override := cfg.override o
      if a.isMod = true then
        if keyOverrideMatchesActiveModifiers override a.activeMods = true then b
        else clearActiveOverride cfg true out b
      else
        let lifted := decide (a.keycode = override.trigger) && !a.keyDown
        let other := a.keyDown &&
          decide (override.options &&& koOptionNoUnregisterOnOtherKeyDown = 0)
        let b :=
          if lifted = true then
            { b with engine := { b.engine with activeOverrideTriggerIsDown := false } }
          else b
        if (lifted || other) = true then clearActiveOverride cfg false out b else b

def handleKey (keycode : Nat) (keyDown : Bool) (out : Outside) (b : Board) : Bool × Board :=
  let a := attempt keycode keyDown (b.env out)
  let b := { b with engine := noteKey keycode keyDown (b.env out) b.engine }
  let tried :=
    if (a.isMod || keyDown) = true then tryActivatingOverride cfg a out b else (true, false, b)
  (tried.1, if tried.2.1 = true then tried.2.2 else checkDeactivation cfg a out tried.2.2)

def processKeyOverride (keycode : Nat) (keyDown : Bool) (out : Outside) (b : Board) :
    Bool × Board :=
  if keyDown = true ∧ keycode = qkKeyOverrideToggle then (false, keyOverrideToggle cfg out b)
  else if keyDown = true ∧ keycode = qkKeyOverrideOn then (false, keyOverrideOn b)
  else if keyDown = true ∧ keycode = qkKeyOverrideOff then (false, keyOverrideOff cfg out b)
  else if b.engine.enabled = false then (true, b)
  else handleKey cfg keycode keyDown out b

def registerMods (mods others : BitVec 8) (b : Board) : Board :=
  if mods = 0 then b
  else sendKeyboardReport others { b with realMods := b.realMods ||| mods }

def unregisterMods (mods others : BitVec 8) (b : Board) : Board :=
  if mods = 0 then b
  else sendKeyboardReport others { b with realMods := b.realMods &&& ~~~mods }

/-- The action of a modifier key, and of no other key. -/
def processAction (keycode : Nat) (keyDown : Bool) (others : BitVec 8) (b : Board) : Board :=
  if isModifierKeycode keycode = true then
    if keyDown = true then registerMods (modBit keycode) others b
    else unregisterMods (modBit keycode) others b
  else b

/-- The modifier that a key holds. -/
def noteHeld (mods : BitVec 8) (keyDown : Bool) (b : Board) : Board :=
  { b with heldMods := if keyDown = true then b.heldMods ||| mods else b.heldMods &&& ~~~mods }

def processKey (keycode : Nat) (keyDown : Bool) (out : Outside) (b : Board) : Board :=
  let (proceed, b) := processKeyOverride cfg keycode keyDown out b
  let b := if proceed = true then processAction keycode keyDown out.others b else b
  b.noteHeld (if isModifierKeycode keycode = true then modBit keycode else 0) keyDown

def setHeld (key : Nat) (keycode : Option Nat) (b : Board) : Board :=
  { b with engine := b.engine.setHeld key keycode }

def pressKey (key keycode : Nat) (out : Outside) (b : Board) : Board :=
  match b.engine.held key with
  | some _ => b
  | none => (processKey cfg keycode true out b).setHeld key (some keycode)

def releaseKey (key : Nat) (out : Outside) (b : Board) : Board :=
  match b.engine.held key with
  | none => b
  | some keycode => (processKey cfg keycode false out b).setHeld key none

/-- The engine's inputs, and what other keys do: a mod-tap key that is held has its modifiers
registered, a key in the report sends it. -/
inductive Event
  | press (key keycode : Nat) (out : Outside)
  | release (key : Nat) (out : Outside)
  | on
  | off (out : Outside)
  | toggle (out : Outside)
  | task (out : Outside)
  | registerMods (mods others : BitVec 8)
  | unregisterMods (mods others : BitVec 8)
  | report (others : BitVec 8)

def step (b : Board) : Event → Board
  | .press key keycode out => pressKey cfg key keycode out b
  | .release key out => releaseKey cfg key out b
  | .on => keyOverrideOn b
  | .off out => keyOverrideOff cfg out b
  | .toggle out => keyOverrideToggle cfg out b
  | .task out => keyOverrideTask out b
  | .registerMods mods others => (registerMods mods others b).noteHeld mods true
  | .unregisterMods mods others => (unregisterMods mods others b).noteHeld mods false
  | .report others => sendKeyboardReport others b

end Board

variable {cfg : Config}

/-! ## The three globals -/

/-- What the engine keeps in step with the active override. -/
structure Tied (cfg : Config) (s : State) : Prop where
  idle : s.activeOverride = none → s.suppressedOverrideMods = 0 ∧ s.weakOverrideMods = 0
  suppressed : ∀ o, s.activeOverride = some o →
    s.suppressedOverrideMods = (cfg.override o).suppressedMods
  pending : Pending s → ∃ o, s.activeOverride = some o ∧
    s.deferredRegister = clearModsFrom (cfg.override o).replacement

namespace Tied

theorem initial : Tied cfg .initial where
  idle _ := ⟨rfl, rfl⟩
  suppressed _ hactive := absurd hactive nofun
  pending hpending := absurd rfl hpending.1

theorem of_idle {s : State} (hnone : s.activeOverride = none)
    (hsuppressed : s.suppressedOverrideMods = 0) (hweak : s.weakOverrideMods = 0)
    (hpending : ¬Pending s) : Tied cfg s where
  idle _ := ⟨hsuppressed, hweak⟩
  suppressed o hactive := by
    rw [hnone] at hactive
    contradiction
  pending h := absurd h hpending

theorem not_pending {s : State} (h : Tied cfg s) (hnone : s.activeOverride = none) :
    ¬Pending s := by
  intro hpending
  obtain ⟨o, hactive, -⟩ := h.pending hpending
  rw [hnone] at hactive
  contradiction

end Tied

/-- What an operation that does not end or begin an override leaves alone. -/
structure SameMods (s s' : State) : Prop where
  active : s'.activeOverride = s.activeOverride
  suppressed : s'.suppressedOverrideMods = s.suppressedOverrideMods
  weak : s'.weakOverrideMods = s.weakOverrideMods

namespace SameMods

theorem trans {s s' s'' : State} (h : SameMods s s') (h' : SameMods s' s'') : SameMods s s'' :=
  ⟨h'.active.trans h.active, h'.suppressed.trans h.suppressed, h'.weak.trans h.weak⟩

theorem tied {s s' : State} (h : SameMods s s') (htied : Tied cfg s)
    (hpending : Pending s' → Pending s ∧ s'.deferredRegister = s.deferredRegister) :
    Tied cfg s' where
  idle hnone := by
    rw [h.suppressed, h.weak]
    exact htied.idle (h.active.symm.trans hnone)
  suppressed o hactive := by
    rw [h.suppressed]
    exact htied.suppressed o (h.active.symm.trans hactive)
  pending hnew := by
    obtain ⟨hold, hsame⟩ := hpending hnew
    rw [h.active, hsame]
    exact htied.pending hold

end SameMods

theorem scheduleDeferredRegister_sameMods (keycode : Nat) (replacement : Bool) (env : Env)
    (s : State) : SameMods s (scheduleDeferredRegister cfg keycode replacement env s) := by
  unfold scheduleDeferredRegister
  split <;> exact ⟨rfl, rfl, rfl⟩

theorem unregisterReplacement_sameMods (o : Nat) (env : Env) (s : State) :
    SameMods s (unregisterReplacement cfg o env s) := by
  unfold unregisterReplacement
  split <;> exact ⟨rfl, rfl, rfl⟩

theorem reregisterTrigger_sameMods (override : KeyOverride) (allow : Bool) (env : Env)
    (s : State) : SameMods s (reregisterTrigger cfg override allow env s) := by
  unfold reregisterTrigger
  split
  · exact scheduleDeferredRegister_sameMods ..
  · exact ⟨rfl, rfl, rfl⟩

theorem unregisterTrigger_sameMods (a : Attempt) (override : KeyOverride) (s : State) :
    SameMods s (unregisterTrigger a override s) ∧
      (unregisterTrigger a override s).deferredRegister = s.deferredRegister ∧
      (unregisterTrigger a override s).deferredReplacement = s.deferredReplacement := by
  unfold unregisterTrigger
  split <;> exact ⟨⟨rfl, rfl, rfl⟩, rfl, rfl⟩

theorem endReplacement_sameMods {s : State} (h : s.deferredRegister = 0) (o : Nat)
    (allow : Bool) (env : Env) :
    let s' := reregisterTrigger cfg (cfg.override o) allow env (unregisterReplacement cfg o env s)
    SameMods s s' ∧ ¬Pending s' :=
  ⟨(unregisterReplacement_sameMods o env s).trans (reregisterTrigger_sameMods _ allow env _),
    reregisterTrigger_not_pending _ allow env
      ((unregisterReplacement_deferredRegister o env s).trans h)⟩

theorem clearActiveOverride_mods {s : State} (h : Tied cfg s) (allow : Bool) (env : Env) :
    (clearActiveOverride cfg allow env s).suppressedOverrideMods = 0 ∧
      (clearActiveOverride cfg allow env s).weakOverrideMods = 0 ∧
      ¬Pending (clearActiveOverride cfg allow env s) := by
  unfold clearActiveOverride
  cases hactive : s.activeOverride with
  | none => exact ⟨(h.idle hactive).1, (h.idle hactive).2, h.not_pending hactive⟩
  | some o =>
      obtain ⟨hsame, hpending⟩ := @endReplacement_sameMods cfg { s with
        activeOverride := some o, deferredRegister := 0, suppressedOverrideMods := 0,
        weakOverrideMods := 0 } rfl o allow env
      exact ⟨hsame.suppressed, hsame.weak, hpending⟩

theorem clearActiveOverride_tied {s : State} (h : Tied cfg s) (allow : Bool) (env : Env) :
    Tied cfg (clearActiveOverride cfg allow env s) := by
  obtain ⟨hsuppressed, hweak, hpending⟩ := clearActiveOverride_mods h allow env
  exact .of_idle (clearActiveOverride_activeOverride allow env s) hsuppressed hweak hpending

theorem registerReplacement_tied {s : State} {o : Nat} (hactive : s.activeOverride = some o)
    (hsuppressed : s.suppressedOverrideMods = (cfg.override o).suppressedMods)
    (hpending : ¬Pending s) (a : Attempt) :
    Tied cfg (registerReplacement cfg a o s) ∧
      (registerReplacement cfg a o s).activeOverride = some o := by
  have htied {s' : State} (hactive' : s'.activeOverride = some o)
      (hsuppressed' : s'.suppressedOverrideMods = (cfg.override o).suppressedMods)
      (hpending' : Pending s' →
        s'.deferredRegister = clearModsFrom (cfg.override o).replacement) : Tied cfg s' := by
    refine ⟨fun hnone => ?_, fun other hother => ?_, fun h => ⟨o, hactive', hpending' h⟩⟩
    · rw [hactive'] at hnone
      contradiction
    · rw [hactive'] at hother
      cases hother
      exact hsuppressed'
  unfold registerReplacement
  dsimp only
  split
  · split
    · have hsame := @scheduleDeferredRegister_sameMods cfg
        (clearModsFrom (cfg.override o).replacement) true a.env
        { s with weakOverrideMods := extractModBits (cfg.override o).replacement }
      exact ⟨htied (hsame.active.trans hactive) (hsame.suppressed.trans hsuppressed)
        fun _ => rfl, hsame.active.trans hactive⟩
    · exact ⟨htied hactive hsuppressed fun h => absurd h hpending, hactive⟩
  · exact ⟨htied hactive hsuppressed fun h => absurd h hpending, hactive⟩

theorem activate_tied {s : State} (h : Tied cfg s) (a : Attempt) (o : Nat) :
    Tied cfg (activate cfg a o s) ∧ (activate cfg a o s).activeOverride = some o := by
  obtain ⟨-, -, hpending⟩ := clearActiveOverride_mods h false a.env
  obtain ⟨hsame, hregister, hreplacement⟩ := unregisterTrigger_sameMods a (cfg.override o)
    { clearActiveOverride cfg false a.env s with
      activeOverride := some o
      activeOverrideTriggerIsDown := true
      suppressedOverrideMods := (cfg.override o).suppressedMods }
  refine registerReplacement_tied hsame.active hsame.suppressed (fun hnew => hpending ?_) a
  rw [Pending, hregister, hreplacement] at hnew
  exact hnew

theorem noteKey_tied {s : State} (h : Tied cfg s) (keycode : Nat) (keyDown : Bool) (env : Env) :
    Tied cfg (noteKey keycode keyDown env s) := by
  unfold noteKey
  split
  · exact h
  · split
    · exact SameMods.tied (s := s) ⟨rfl, rfl, rfl⟩ h fun hnew => absurd rfl hnew.1
    · split
      · exact SameMods.tied (s := s) ⟨rfl, rfl, rfl⟩ h fun hnew => absurd rfl hnew.1
      · exact h

theorem keyOverrideTask_tied {s : State} (h : Tied cfg s) (now : BitVec 32) :
    Tied cfg (keyOverrideTask now s) := by
  unfold keyOverrideTask
  split
  · exact h
  · split
    · refine SameMods.tied ?_ h fun hnew => absurd rfl hnew.1
      split <;> exact ⟨rfl, rfl, rfl⟩
    · exact h

/-! ## Modifiers that are held -/

/-- The two agree on the modifiers that are not in `mask`. -/
def SameOutside (mask x y : BitVec 8) : Prop := x &&& ~~~mask = y &&& ~~~mask

theorem sameOutside_iff {mask x y : BitVec 8} :
    SameOutside mask x y ↔ ∀ i, (hi : i < 8) → mask[i] = false → x[i] = y[i] := by
  constructor
  · intro h i hi hmask
    have hbit := congrArg (fun v : BitVec 8 => v[i]) h
    simpa [hmask] using hbit
  · intro h
    apply BitVec.eq_of_getElem_eq
    intro i hi
    simp only [BitVec.getElem_and, BitVec.getElem_not]
    cases hmask : mask[i] with
    | true => simp
    | false => rw [h i hi hmask]

namespace SameOutside

variable {mask other x y : BitVec 8}

theorem eq_iff : SameOutside 0 x y ↔ x = y := by
  have hall : ~~~(0 : BitVec 8) = BitVec.allOnes 8 := rfl
  rw [SameOutside, hall, BitVec.and_allOnes, BitVec.and_allOnes]

theorem mono (h : SameOutside mask x y) (other : BitVec 8) : SameOutside (mask ||| other) x y := by
  rw [sameOutside_iff] at h ⊢
  intro i hi hmask
  simp only [BitVec.getElem_or, Bool.or_eq_false_iff] at hmask
  exact h i hi hmask.1

theorem mono_left (h : SameOutside mask x y) (other : BitVec 8) :
    SameOutside (other ||| mask) x y := by
  rw [BitVec.or_comm]
  exact h.mono other

theorem spared (h : SameOutside mask x y) (hother : y &&& other &&& ~~~mask = 0) :
    SameOutside mask (x &&& ~~~other) y := by
  rw [sameOutside_iff] at h ⊢
  intro i hi hmask
  have hbit := congrArg (fun v : BitVec 8 => v[i]) hother
  simp only [BitVec.getElem_and, BitVec.getElem_not, hmask] at hbit ⊢
  rw [h i hi hmask]
  cases hy : y[i] <;> cases hmod : other[i] <;> simp_all

theorem covered (h : SameOutside (mask ||| 0) x y) (hother : other &&& ~~~(y ||| mask) = 0) :
    SameOutside (mask ||| 0) (x ||| other) y := by
  have hzero : mask ||| 0 = mask := BitVec.or_zero
  rw [hzero, sameOutside_iff] at h ⊢
  intro i hi hmask
  have hbit := congrArg (fun v : BitVec 8 => v[i]) hother
  simp only [BitVec.getElem_and, BitVec.getElem_not, BitVec.getElem_or, hmask, Bool.or_false]
    at hbit ⊢
  rw [h i hi hmask]
  cases hy : y[i] <;> cases hmod : other[i] <;> simp_all

theorem set (h : SameOutside (mask ||| other) x y) :
    SameOutside mask (x ||| other) (y ||| other) := by
  rw [sameOutside_iff] at h ⊢
  intro i hi hmask
  have hbit := h i hi
  simp only [BitVec.getElem_or] at hbit ⊢
  cases hother : other[i] with
  | true => simp
  | false => simp [hbit (by simp [hmask, hother])]

theorem clear (h : SameOutside (mask ||| other) x y) :
    SameOutside mask (x &&& ~~~other) (y &&& ~~~other) := by
  rw [sameOutside_iff] at h ⊢
  intro i hi hmask
  have hbit := h i hi
  simp only [BitVec.getElem_or, BitVec.getElem_and, BitVec.getElem_not] at hbit ⊢
  cases hother : other[i] with
  | true => simp
  | false => simp [hbit (by simp [hmask, hother])]

theorem andNot_left (replacement : BitVec 8) (x : BitVec 8) :
    SameOutside replacement (x &&& ~~~replacement) x := by
  simp [SameOutside, BitVec.and_assoc]

theorem andNot_iff {replacement event : BitVec 8} :
    SameOutside (~~~replacement ||| event) (x &&& ~~~replacement) y ↔
      SameOutside (~~~replacement ||| event) 0 y := by
  have hzero : x &&& ~~~replacement &&& ~~~(~~~replacement ||| event) =
      0 &&& ~~~(~~~replacement ||| event) := by
    apply BitVec.eq_of_getElem_eq
    intro i hi
    simp only [BitVec.getElem_and, BitVec.getElem_not, BitVec.getElem_or]
    cases replacement[i] <;> simp
  rw [SameOutside, SameOutside, hzero]

/-- What is left of the replacement has to be what the keys hold of it. -/
theorem cleared_iff {replacement event left : BitVec 8}
    (h : SameOutside (replacement ||| event) x y)
    (hleft : SameOutside replacement left x) :
    SameOutside event left y ↔ SameOutside (~~~replacement ||| event) left y := by
  simp only [sameOutside_iff, BitVec.getElem_or, BitVec.getElem_not, Bool.or_eq_false_iff,
    Bool.not_eq_false'] at h hleft ⊢
  constructor
  · intro hsame i hi hmask
    exact hsame i hi hmask.2
  · intro hsame i hi hevent
    cases hbit : replacement[i] with
    | true => exact hsame i hi ⟨hbit, hevent⟩
    | false => exact (hleft i hi hbit).trans (h i hi ⟨hbit, hevent⟩)

end SameOutside

namespace Board

variable (cfg)

/-- What the replacement of an override is among the real modifiers. -/
def replacementMods (o : Nat) : BitVec 8 := modsOfCode (clearModsFrom (cfg.override o).replacement)

def activeMods (s : State) : BitVec 8 :=
  match s.activeOverride with
  | none => 0
  | some o => replacementMods cfg o

/-- Of the active override's replacement, `clear_active_override` leaves the modifiers that are
held, apart from those of the key event that is under way. -/
def Restores (event : BitVec 8) (b : Board) (out : Outside) : Prop :=
  ∀ o, b.engine.activeOverride = some o →
    SameOutside (~~~replacementMods cfg o ||| event)
      (if handlesReplacement cfg o false (b.env out) = true then 0 else b.realMods) b.heldMods

/-- The modifier that a key event is about. -/
def eventMods (keycode : Nat) : BitVec 8 :=
  if isModifierKeycode keycode = true then modBit keycode else 0

structure Inv (event : BitVec 8) (b : Board) : Prop where
  tied : Tied cfg b.engine
  report : b.report = b.getModsForReport b.others
  mods : SameOutside (activeMods cfg b.engine ||| event) b.realMods b.heldMods

variable {cfg}

theorem Inv.mono {event : BitVec 8} {b : Board} (h : Inv cfg 0 b) : Inv cfg event b where
  tied := h.tied
  report := h.report
  mods := by
    have hmods := h.mods
    have hzero : activeMods cfg b.engine ||| 0 = activeMods cfg b.engine := BitVec.or_zero
    rw [hzero] at hmods
    exact hmods.mono event

theorem clearActiveOverride_engine (allow : Bool) (out : Outside) (b : Board) :
    (clearActiveOverride cfg allow out b).engine =
      KeyOverrides.clearActiveOverride cfg allow (b.env out) b.engine := by
  unfold clearActiveOverride
  split
  · rename_i hactive
    rw [KeyOverrides.clearActiveOverride, hactive]
  · dsimp only [sendKeyboardReport]
    split <;> rfl

theorem clearActiveOverride_active (allow : Bool) (out : Outside) {b : Board} {o : Nat}
    (hactive : b.engine.activeOverride = some o) :
    let c := clearActiveOverride cfg allow out b
    c.realMods = (if handlesReplacement cfg o false (b.env out) = true then
        b.realMods &&& ~~~replacementMods cfg o else b.realMods) ∧
      c.heldMods = b.heldMods ∧ c.others = out.others ∧
      c.report = c.getModsForReport out.others := by
  unfold clearActiveOverride
  rw [hactive]
  dsimp only [sendKeyboardReport]
  split <;> exact ⟨rfl, rfl, rfl, rfl⟩

/-- What `clear_active_override` does to a board on which the modifiers agree. -/
theorem clearActiveOverride_mods_iff {event : BitVec 8} {b : Board} (h : Inv cfg event b)
    (allow : Bool) (out : Outside) :
    SameOutside event (clearActiveOverride cfg allow out b).realMods b.heldMods ↔
      Restores cfg event b out := by
  cases hactive : b.engine.activeOverride with
  | none =>
      have hmods : SameOutside (0#8 ||| event) b.realMods b.heldMods := by
        have hmods := h.mods
        rwa [activeMods, hactive] at hmods
      have hsame : clearActiveOverride cfg allow out b = b := by
        rw [clearActiveOverride, hactive]
      rw [BitVec.zero_or] at hmods
      rw [hsame, Restores, hactive]
      exact ⟨fun _ => nofun, fun _ => hmods⟩
  | some o =>
      have hmods : SameOutside (replacementMods cfg o ||| event) b.realMods b.heldMods := by
        have hmods := h.mods
        rwa [activeMods, hactive] at hmods
      obtain ⟨hreal, -⟩ := @clearActiveOverride_active cfg allow out _ _ hactive
      have hrestores : Restores cfg event b out ↔
          SameOutside (~~~replacementMods cfg o ||| event)
            (if handlesReplacement cfg o false (b.env out) = true then 0 else b.realMods)
            b.heldMods := by
        simp [Restores, hactive]
      rw [hrestores, hreal]
      split
      · rw [hmods.cleared_iff (SameOutside.andNot_left _ _), SameOutside.andNot_iff]
      · exact hmods.cleared_iff rfl

theorem clearActiveOverride_heldMods (allow : Bool) (out : Outside) (b : Board) :
    (clearActiveOverride cfg allow out b).heldMods = b.heldMods := by
  cases hactive : b.engine.activeOverride with
  | none => rw [clearActiveOverride, hactive]
  | some o => exact (clearActiveOverride_active allow out hactive).2.1

theorem clearActiveOverride_report {event : BitVec 8} {b : Board} (h : Inv cfg event b)
    (allow : Bool) (out : Outside) :
    let c := clearActiveOverride cfg allow out b
    c.report = c.getModsForReport c.others := by
  cases hactive : b.engine.activeOverride with
  | none =>
      have hsame : clearActiveOverride cfg allow out b = b := by
        rw [clearActiveOverride, hactive]
      rw [hsame]
      exact h.report
  | some o =>
      obtain ⟨-, -, hothers, hreport⟩ := @clearActiveOverride_active cfg allow out _ _ hactive
      rw [← hothers] at hreport
      exact hreport

theorem clearActiveOverride_inv {event : BitVec 8} {b : Board} (h : Inv cfg event b)
    {out : Outside} (hrestores : Restores cfg event b out) (allow : Bool) :
    Inv cfg event (clearActiveOverride cfg allow out b) := by
  have hengine := @clearActiveOverride_engine cfg allow out b
  have hnone := @clearActiveOverride_activeOverride cfg allow (b.env out) b.engine
  refine ⟨?_, clearActiveOverride_report h allow out, ?_⟩
  · rw [hengine]
    exact clearActiveOverride_tied h.tied allow _
  · rw [hengine, activeMods, hnone, clearActiveOverride_heldMods]
    have hzero : (0 : BitVec 8) ||| event = event := BitVec.zero_or
    dsimp only
    rw [hzero]
    exact (clearActiveOverride_mods_iff h allow out).mpr hrestores

/-! ## Key events -/

variable (cfg)

/-- The trigger of the override that the event activates, if it was pressed before, is not a
keycode that `unregister_code` takes for a modifier that is held.  If the event is its press,
nothing is done for the key, and the modifier it holds has to be there without it. -/
def SparesActivation (b : Board) (a : Attempt) (o : Nat) (out : Outside) : Prop :=
  if a.triggerDown (cfg.override o) = true then
    Restores cfg 0 b out ∧
      eventMods a.keycode &&& ~~~(b.heldMods ||| replacementMods cfg o) = 0
  else
    Restores cfg (eventMods a.keycode) b out ∧
      b.heldMods &&& modsOfCode (cfg.override o).trigger &&& ~~~eventMods a.keycode = 0

/-- Whether the active override ends, if the event does not activate another. -/
def deactivates (a : Attempt) (s : State) : Bool :=
  match s.activeOverride with
  | none => false
  | some o =>
      if a.isMod = true then
        !keyOverrideMatchesActiveModifiers (cfg.override o) a.activeMods
      else
        decide (a.keycode = (cfg.override o).trigger) && !a.keyDown || a.keyDown &&
          decide ((cfg.override o).options &&& koOptionNoUnregisterOnOtherKeyDown = 0)

/-- The override that the event activates. -/
def activates (a : Attempt) (s : State) : Option Nat :=
  if (a.isMod || a.keyDown) = true then cfg.table.find? (activatable cfg a s) else none

def SparesKey (b : Board) (a : Attempt) (out : Outside) : Prop :=
  match activates cfg a b.engine with
  | some o => SparesActivation cfg b a o out
  | none => deactivates cfg a b.engine = true → Restores cfg (eventMods a.keycode) b out

/-- The board with the key event noted. -/
def noted (keycode : Nat) (keyDown : Bool) (out : Outside) (b : Board) : Board :=
  { b with engine := noteKey keycode keyDown (b.env out) b.engine }

def SparesEvent (b : Board) (keycode : Nat) (keyDown : Bool) (out : Outside) : Prop :=
  if keyDown = true ∧ keycode = qkKeyOverrideToggle then
    b.engine.enabled = true → Restores cfg 0 b out
  else if keyDown = true ∧ keycode = qkKeyOverrideOn then True
  else if keyDown = true ∧ keycode = qkKeyOverrideOff then Restores cfg 0 b out
  else b.engine.enabled = true →
    SparesKey cfg (b.noted keycode keyDown out) (attempt keycode keyDown (b.env out)) out

variable {cfg}

theorem unregisterTrigger_mods (a : Attempt) (override : KeyOverride) (b : Board) :
    (unregisterTrigger a override b).heldMods = b.heldMods ∧
      (unregisterTrigger a override b).realMods =
        if a.triggerDown override = true then b.realMods
        else b.realMods &&& ~~~modsOfCode override.trigger := by
  unfold unregisterTrigger
  cases hdown : a.triggerDown override with
  | true => simp
  | false =>
      by_cases htrigger : override.trigger = kcNo
      · have hzero : ~~~modsOfCode kcNo = BitVec.allOnes 8 := rfl
        rw [if_neg (by simp [htrigger]), if_neg Bool.false_ne_true, htrigger, hzero,
          BitVec.and_allOnes]
        exact ⟨rfl, rfl⟩
      · simp [htrigger, unregisterCode]

theorem registerReplacement_mods (a : Attempt) (o : Nat) (b : Board) :
    (registerReplacement cfg a o b).heldMods = b.heldMods ∧
      SameOutside (replacementMods cfg o) (registerReplacement cfg a o b).realMods b.realMods := by
  unfold registerReplacement
  split
  · refine ⟨rfl, ?_⟩
    rw [sameOutside_iff]
    intro i hi hmask
    rw [replacementMods] at hmask
    simp [registerCode, hmask]
  · exact ⟨rfl, rfl⟩

theorem activate_inv {b : Board} (h : Inv cfg 0 b) {a : Attempt} {o : Nat} {out : Outside}
    (hspares : SparesActivation cfg b a o out) :
    Inv cfg (if a.triggerDown (cfg.override o) = true then 0 else eventMods a.keycode)
        (b.activate cfg a o out) ∧
      (b.activate cfg a o out).heldMods = b.heldMods ∧
      (b.activate cfg a o out).engine.activeOverride = some o := by
  obtain ⟨htied, hactive⟩ := activate_tied h.tied a o
  have hheld : (b.activate cfg a o out).heldMods = b.heldMods := by
    rw [activate, sendKeyboardReport, (registerReplacement_mods a o _).1,
      (unregisterTrigger_mods a _ _).1, clearActiveOverride_heldMods]
  refine ⟨⟨htied, rfl, ?_⟩, hheld, hactive⟩
  have hregister := (@registerReplacement_mods cfg a o (unregisterTrigger a
    (cfg.override o) (clearActiveOverride cfg false out b))).2
  have hmods : activeMods cfg (b.activate cfg a o out).engine = replacementMods cfg o := by
    rw [activeMods]
    split
    · rename_i hnone
      exact absurd (hactive.symm.trans hnone) nofun
    · rename_i hsome
      cases hactive.symm.trans hsome
      rfl
  rw [(unregisterTrigger_mods a _ _).2] at hregister
  rw [hmods, hheld]
  refine (hregister.mono _).trans (SameOutside.mono_left ?_ _)
  unfold SparesActivation at hspares
  split at hspares
  · rename_i hdown
    rw [if_pos hdown, if_pos hdown]
    exact (clearActiveOverride_mods_iff h false out).mpr hspares.1
  · rename_i hdown
    rw [if_neg hdown, if_neg hdown]
    have hclear := (clearActiveOverride_mods_iff h.mono false out).mpr hspares.1
    exact hclear.spared hspares.2

theorem sendKeyboardReport_inv {event : BitVec 8} {b : Board} (h : Inv cfg event b)
    (others : BitVec 8) : Inv cfg event (sendKeyboardReport others b) :=
  ⟨h.tied, rfl, h.mods⟩

theorem noted_inv {event : BitVec 8} {b : Board} (h : Inv cfg event b) (keycode : Nat)
    (keyDown : Bool) (out : Outside) : Inv cfg event (b.noted keycode keyDown out) := by
  obtain ⟨hsame, hreport⟩ : SameMods b.engine (noteKey keycode keyDown (b.env out) b.engine) ∧
      (b.noted keycode keyDown out).report = b.report := by
    refine ⟨?_, rfl⟩
    unfold noteKey
    split
    · exact ⟨rfl, rfl, rfl⟩
    · split
      · exact ⟨rfl, rfl, rfl⟩
      · split <;> exact ⟨rfl, rfl, rfl⟩
  refine ⟨noteKey_tied h.tied keycode keyDown _, ?_, ?_⟩
  · have hshown := h.report
    rw [getModsForReport] at hshown ⊢
    rw [← hsame.suppressed, ← hsame.weak] at hshown
    exact hshown
  · have hmods := h.mods
    rw [activeMods] at hmods ⊢
    rw [← hsame.active] at hmods
    exact hmods

theorem checkDeactivation_inv {event : BitVec 8} {b : Board} (h : Inv cfg event b) {a : Attempt}
    {out : Outside} (hrestores : deactivates cfg a b.engine = true → Restores cfg event b out) :
    Inv cfg event (checkDeactivation cfg a out b) ∧
      (checkDeactivation cfg a out b).heldMods = b.heldMods := by
  unfold checkDeactivation
  unfold deactivates at hrestores
  cases hactive : b.engine.activeOverride with
  | none => exact ⟨h, rfl⟩
  | some o =>
      have hlifted : Inv cfg event
          { b with engine := { b.engine with activeOverrideTriggerIsDown := false } } :=
        ⟨⟨h.tied.idle, h.tied.suppressed, h.tied.pending⟩, h.report, h.mods⟩
      rw [hactive] at hrestores
      dsimp only at hrestores ⊢
      split
      · rename_i hmod
        rw [if_pos hmod] at hrestores
        split
        · exact ⟨h, rfl⟩
        · rename_i hmatches
          refine ⟨clearActiveOverride_inv h (hrestores ?_) true, clearActiveOverride_heldMods ..⟩
          simp [hmatches]
      · rename_i hmod
        rw [if_neg hmod] at hrestores
        split
        · rename_i hends
          have hrestores := hrestores hends
          split
          · exact ⟨clearActiveOverride_inv hlifted (by exact hrestores) false,
              clearActiveOverride_heldMods ..⟩
          · exact ⟨clearActiveOverride_inv h hrestores false, clearActiveOverride_heldMods ..⟩
        · split
          · exact ⟨hlifted, rfl⟩
          · exact ⟨h, rfl⟩

/-- After the overrides have seen a key event, whether the key's own action is next. -/
structure Handled (cfg : Config) (keycode : Nat) (keyDown : Bool) (b : Board)
    (result : Bool × Board) : Prop where
  inv : Inv cfg (if result.1 = true then eventMods keycode else 0) result.2
  held : result.2.heldMods = b.heldMods
  suppressed : result.1 = false → keyDown = true ∧
    eventMods keycode &&& ~~~(b.heldMods ||| activeMods cfg result.2.engine) = 0

theorem handleKey_eq (keycode : Nat) (keyDown : Bool) (out : Outside) (b : Board) :
    let a := attempt keycode keyDown (b.env out)
    let b' := b.noted keycode keyDown out
    handleKey cfg keycode keyDown out b = match activates cfg a b'.engine with
      | some o => (!a.triggerDown (cfg.override o), b'.activate cfg a o out)
      | none => (true, b'.checkDeactivation cfg a out) := by
  unfold handleKey activates noted
  dsimp only
  by_cases hkey : ((attempt keycode keyDown (b.env out)).isMod || keyDown) = true
  · have hkey' : ((attempt keycode keyDown (b.env out)).isMod ||
        (attempt keycode keyDown (b.env out)).keyDown) = true := hkey
    rw [if_pos hkey, if_pos hkey', tryActivatingOverride]
    cases cfg.table.find? (activatable cfg (attempt keycode keyDown (b.env out))
      (noteKey keycode keyDown (b.env out) b.engine)) <;> rfl
  · have hkey' : ¬((attempt keycode keyDown (b.env out)).isMod ||
        (attempt keycode keyDown (b.env out)).keyDown) = true := hkey
    rw [if_neg hkey, if_neg hkey']
    rfl

theorem handleKey_handled {b : Board} (h : Inv cfg 0 b) {keycode : Nat} {keyDown : Bool}
    {out : Outside} (hspares : SparesKey cfg (b.noted keycode keyDown out)
      (attempt keycode keyDown (b.env out)) out) :
    Handled cfg keycode keyDown b (handleKey cfg keycode keyDown out b) := by
  have hnoted := noted_inv h keycode keyDown out
  rw [handleKey_eq]
  unfold SparesKey at hspares
  split at hspares
  · rename_i o _
    obtain ⟨hinv, hheld, hactive⟩ := activate_inv hnoted hspares
    unfold SparesActivation at hspares
    cases hdown : (attempt keycode keyDown (b.env out)).triggerDown (cfg.override o) with
    | true =>
        rw [if_pos hdown] at hinv hspares
        refine ⟨hinv, hheld, fun _ => ⟨?_, ?_⟩⟩
        · rw [Attempt.triggerDown, Bool.and_eq_true] at hdown
          exact hdown.2
        · rw [activeMods, hactive]
          exact hspares.2
    | false =>
        rw [if_neg (Bool.eq_false_iff.mp hdown)] at hinv
        exact ⟨hinv, hheld, fun hfalse => Bool.noConfusion hfalse⟩
  · obtain ⟨hinv, hheld⟩ := checkDeactivation_inv hnoted.mono hspares
    exact ⟨hinv, hheld, fun hfalse => Bool.noConfusion hfalse⟩

theorem keyOverrideOn_board_inv {b : Board} (h : Inv cfg 0 b) : Inv cfg 0 (keyOverrideOn b) :=
  ⟨⟨h.tied.idle, h.tied.suppressed, h.tied.pending⟩, h.report, h.mods⟩

theorem keyOverrideOff_board_inv {b : Board} (h : Inv cfg 0 b) {out : Outside}
    (hrestores : Restores cfg 0 b out) :
    Inv cfg 0 (keyOverrideOff cfg out b) ∧ (keyOverrideOff cfg out b).heldMods = b.heldMods := by
  have hdisabled : Inv cfg 0 { b with engine := { b.engine with enabled := false } } :=
    ⟨⟨h.tied.idle, h.tied.suppressed, h.tied.pending⟩, h.report, h.mods⟩
  exact ⟨clearActiveOverride_inv hdisabled hrestores false, clearActiveOverride_heldMods ..⟩

theorem keyOverrideToggle_board_inv {b : Board} (h : Inv cfg 0 b) {out : Outside}
    (hrestores : b.engine.enabled = true → Restores cfg 0 b out) :
    Inv cfg 0 (keyOverrideToggle cfg out b) ∧
      (keyOverrideToggle cfg out b).heldMods = b.heldMods := by
  unfold keyOverrideToggle
  split
  · rename_i henabled
    exact keyOverrideOff_board_inv h (hrestores henabled)
  · exact ⟨keyOverrideOn_board_inv h, rfl⟩

theorem Handled.of_keycode {b c : Board} {keycode : Nat} {keyDown : Bool}
    (h : Inv cfg 0 c ∧ c.heldMods = b.heldMods) (hdown : keyDown = true)
    (hkeycode : eventMods keycode = 0) : Handled cfg keycode keyDown b (false, c) := by
  refine ⟨h.1, h.2, fun _ => ⟨hdown, ?_⟩⟩
  rw [hkeycode]
  exact BitVec.zero_and

theorem processKeyOverride_handled {b : Board} (h : Inv cfg 0 b) {keycode : Nat} {keyDown : Bool}
    {out : Outside} (hspares : SparesEvent cfg b keycode keyDown out) :
    Handled cfg keycode keyDown b (processKeyOverride cfg keycode keyDown out b) := by
  unfold SparesEvent at hspares
  unfold processKeyOverride
  split at hspares
  · rename_i htoggle
    rw [if_pos htoggle]
    exact .of_keycode (keyOverrideToggle_board_inv h hspares) htoggle.1 (by rw [htoggle.2]; rfl)
  · rename_i htoggle
    rw [if_neg htoggle]
    split at hspares
    · rename_i hon
      rw [if_pos hon]
      exact .of_keycode ⟨keyOverrideOn_board_inv h, rfl⟩ hon.1 (by rw [hon.2]; rfl)
    · rename_i hon
      rw [if_neg hon]
      split at hspares
      · rename_i hoff
        rw [if_pos hoff]
        exact .of_keycode (keyOverrideOff_board_inv h hspares) hoff.1 (by rw [hoff.2]; rfl)
      · rename_i hoff
        rw [if_neg hoff]
        split
        · exact ⟨h.mono, rfl, fun hfalse => Bool.noConfusion hfalse⟩
        · rename_i henabled
          exact handleKey_handled h (hspares (eq_true_of_ne_false henabled))

theorem registerMods_inv {event : BitVec 8} {b : Board} (h : Inv cfg event b)
    (others : BitVec 8) : Inv cfg 0 ((registerMods event others b).noteHeld event true) := by
  have hmods : SameOutside (activeMods cfg b.engine ||| 0) (b.realMods ||| event)
      (b.heldMods ||| event) := h.mods.set.mono 0
  unfold registerMods
  split
  · rename_i hzero
    refine ⟨h.tied, h.report, ?_⟩
    rw [hzero] at hmods ⊢
    have hreal : b.realMods ||| 0 = b.realMods := BitVec.or_zero
    rw [hreal] at hmods
    exact hmods
  · exact ⟨h.tied, rfl, hmods⟩

theorem unregisterMods_inv {event : BitVec 8} {b : Board} (h : Inv cfg event b)
    (others : BitVec 8) : Inv cfg 0 ((unregisterMods event others b).noteHeld event false) := by
  have hmods : SameOutside (activeMods cfg b.engine ||| 0) (b.realMods &&& ~~~event)
      (b.heldMods &&& ~~~event) := h.mods.clear.mono 0
  unfold unregisterMods
  split
  · rename_i hzero
    refine ⟨h.tied, h.report, ?_⟩
    rw [hzero] at hmods ⊢
    have hreal : b.realMods &&& ~~~(0 : BitVec 8) = b.realMods := BitVec.and_allOnes
    rw [hreal] at hmods
    exact hmods
  · exact ⟨h.tied, rfl, hmods⟩

theorem processAction_inv {keycode : Nat} {b : Board} (h : Inv cfg (eventMods keycode) b)
    (keyDown : Bool) (others : BitVec 8) :
    Inv cfg 0 ((processAction keycode keyDown others b).noteHeld (eventMods keycode) keyDown) := by
  unfold processAction
  unfold eventMods at h ⊢
  split
  · rename_i hmod
    rw [if_pos hmod] at h
    cases keyDown with
    | true => exact registerMods_inv h others
    | false => exact unregisterMods_inv h others
  · rename_i hmod
    rw [if_neg hmod] at h
    cases keyDown with
    | true => exact registerMods_inv h others
    | false => exact unregisterMods_inv h others

theorem noteHeld_inv {event : BitVec 8} {b : Board} (h : Inv cfg 0 b)
    (hheld : event &&& ~~~(b.heldMods ||| activeMods cfg b.engine) = 0) :
    Inv cfg 0 (b.noteHeld event true) := by
  refine ⟨h.tied, h.report, ?_⟩
  have hmods := h.mods
  rw [sameOutside_iff] at hmods ⊢
  intro i hi hmask
  have hmask' : (activeMods cfg b.engine)[i] = false := by
    simp only [BitVec.getElem_or, Bool.or_eq_false_iff] at hmask
    exact hmask.1
  have hbit := congrArg (fun v : BitVec 8 => v[i]) hheld
  have hnoted : (b.noteHeld event true).heldMods = b.heldMods ||| event := rfl
  rw [hnoted]
  simp only [BitVec.getElem_and, BitVec.getElem_not, BitVec.getElem_or, hmask', Bool.or_false]
    at hbit ⊢
  rw [← hmods i hi hmask] at hbit ⊢
  cases hreal : b.realMods[i] <;> cases hevent : event[i] <;> simp_all [noteHeld]

theorem processKey_inv {b : Board} (h : Inv cfg 0 b) {keycode : Nat} {keyDown : Bool}
    {out : Outside} (hspares : SparesEvent cfg b keycode keyDown out) :
    Inv cfg 0 (processKey cfg keycode keyDown out b) := by
  have hhandled := processKeyOverride_handled h hspares
  unfold processKey
  generalize processKeyOverride cfg keycode keyDown out b = result at hhandled ⊢
  obtain ⟨proceed, b'⟩ := result
  cases proceed with
  | true => exact processAction_inv hhandled.inv keyDown out.others
  | false =>
      obtain ⟨hdown, hmods⟩ := hhandled.suppressed rfl
      rw [← hhandled.held] at hmods
      rw [hdown]
      exact noteHeld_inv hhandled.inv hmods

variable (cfg) in
/-- The step leaves among the real modifiers those that are held. -/
def Spares (b : Board) : Event → Prop
  | .press key keycode out =>
      b.engine.held key = none → SparesEvent cfg b keycode true out
  | .release key out =>
      ∀ keycode, b.engine.held key = some keycode → SparesEvent cfg b keycode false out
  | .off out => Restores cfg 0 b out
  | .toggle out => b.engine.enabled = true → Restores cfg 0 b out
  | .task out =>
      b.engine.deferDelay ≤ timerElapsed32 out.now b.engine.deferReferenceTime →
      b.engine.deferredReplacement = false →
      modsOfCode b.engine.deferredRegister &&&
        ~~~(b.heldMods ||| activeMods cfg b.engine) = 0
  | _ => True

theorem keyOverrideTask_sameMods (now : BitVec 32) (s : State) :
    SameMods s (KeyOverrides.keyOverrideTask now s) := by
  unfold KeyOverrides.keyOverrideTask
  split
  · exact ⟨rfl, rfl, rfl⟩
  · split
    · dsimp only
      split <;> exact ⟨rfl, rfl, rfl⟩
    · exact ⟨rfl, rfl, rfl⟩

theorem modsOfCode_silent {code : Nat} (h : registerReports code = false) :
    modsOfCode code = 0 := by
  simp only [registerReports, Bool.or_eq_false_iff] at h
  rw [modsOfCode, h.2]
  rfl

theorem keyOverrideTask_inv {b : Board} (h : Inv cfg 0 b) {out : Outside}
    (hspares : Spares cfg b (.task out)) : Inv cfg 0 (keyOverrideTask out b) := by
  unfold keyOverrideTask
  dsimp only
  split
  · rename_i hdue
    obtain ⟨hcode, hdue⟩ := hdue
    have hsame := keyOverrideTask_sameMods out.now b.engine
    have htied := keyOverrideTask_tied h.tied out.now
    have hspared : modsOfCode b.engine.deferredRegister &&&
        ~~~(b.heldMods ||| activeMods cfg b.engine) = 0 := by
      cases hreplacement : b.engine.deferredReplacement with
      | false => exact hspares hdue hreplacement
      | true =>
          obtain ⟨o, hactive, howned⟩ := h.tied.pending ⟨hcode, hreplacement⟩
          rw [activeMods, hactive, howned]
          apply BitVec.eq_of_getElem_eq
          intro i hi
          simp only [replacementMods, BitVec.getElem_and, BitVec.getElem_not, BitVec.getElem_or]
          cases (modsOfCode (clearModsFrom (cfg.override o).replacement))[i] <;> simp
    have hactive : activeMods cfg (KeyOverrides.keyOverrideTask out.now b.engine) =
        activeMods cfg b.engine := by
      rw [activeMods, activeMods, hsame.active]
    have hmods : SameOutside (activeMods cfg b.engine ||| 0)
        (b.realMods ||| modsOfCode b.engine.deferredRegister) b.heldMods :=
      h.mods.covered hspared
    split
    · refine ⟨htied, rfl, ?_⟩
      rw [← hactive] at hmods
      exact hmods
    · rename_i hsilent
      refine ⟨htied, ?_, ?_⟩
      · have hshown := h.report
        have hzero := modsOfCode_silent (Bool.eq_false_iff.mpr hsilent)
        have hreal : b.realMods ||| 0 = b.realMods := BitVec.or_zero
        rw [getModsForReport] at hshown ⊢
        rw [← hsame.suppressed, ← hsame.weak] at hshown
        rw [registerCode, hzero, hreal]
        exact hshown
      · rw [← hactive] at hmods
        exact hmods
  · exact h

theorem setHeld_inv {b : Board} (h : Inv cfg 0 b) (key : Nat) (keycode : Option Nat) :
    Inv cfg 0 (b.setHeld key keycode) :=
  ⟨⟨h.tied.idle, h.tied.suppressed, h.tied.pending⟩, h.report, h.mods⟩

theorem Inv.step {b : Board} (h : Inv cfg 0 b) {event : Event} (hspares : Spares cfg b event) :
    Inv cfg 0 (step cfg b event) := by
  cases event with
  | press key keycode out =>
      rw [Board.step, pressKey]
      cases hkey : b.engine.held key with
      | none => exact setHeld_inv (processKey_inv h (hspares hkey)) key _
      | some _ => exact h
  | release key out =>
      rw [Board.step, releaseKey]
      cases hkey : b.engine.held key with
      | none => exact h
      | some keycode => exact setHeld_inv (processKey_inv h (hspares keycode hkey)) key _
  | on => exact keyOverrideOn_board_inv h
  | off out => exact (keyOverrideOff_board_inv h hspares).1
  | toggle out => exact (keyOverrideToggle_board_inv h hspares).1
  | task out => exact keyOverrideTask_inv h hspares
  | registerMods mods others => exact registerMods_inv h.mono others
  | unregisterMods mods others => exact unregisterMods_inv h.mono others
  | report others => exact sendKeyboardReport_inv h others

theorem Inv.initial : Inv cfg 0 .initial := ⟨.initial, rfl, rfl⟩

/-- In a run whose steps leave the real modifiers to the keys that are held, a modifier is
suppressed or put in the report only by the active override, and the end of the override
leaves in the report what the keys hold, just when it spares the modifiers that are held. -/
theorem overrideMods_tied {events : List Event}
    (h : Meets (step cfg) (Spares cfg) .initial events) :
    let b := run (step cfg) .initial events
    (b.engine.suppressedOverrideMods ≠ 0 ∨ b.engine.weakOverrideMods ≠ 0 →
      ∃ o, b.engine.activeOverride = some o ∧
        b.engine.suppressedOverrideMods = (cfg.override o).suppressedMods) ∧
    ∀ allowReregister out,
      let c := clearActiveOverride cfg allowReregister out b
      c.engine.suppressedOverrideMods = 0 ∧ c.engine.weakOverrideMods = 0 ∧
        c.report = c.realMods ||| c.others ∧
        (c.realMods = c.heldMods ↔ Restores cfg 0 b out) := by
  intro b
  have hinv : Inv cfg 0 b := h.preserves (Inv cfg 0) (fun _ _ hb => hb.step) .initial
  refine ⟨fun hmods => ?_, fun allow out => ?_⟩
  · cases hactive : b.engine.activeOverride with
    | none =>
        obtain ⟨hsuppressed, hweak⟩ := hinv.tied.idle hactive
        exact absurd hmods (not_or.mpr ⟨not_not.mpr hsuppressed, not_not.mpr hweak⟩)
    | some o => exact ⟨o, rfl, hinv.tied.suppressed o hactive⟩
  · have hengine := @clearActiveOverride_engine cfg allow out b
    obtain ⟨hsuppressed, hweak, -⟩ := clearActiveOverride_mods hinv.tied allow (b.env out)
    rw [← hengine] at hsuppressed hweak
    refine ⟨hsuppressed, hweak, ?_, ?_⟩
    · have hreport := clearActiveOverride_report hinv allow out
      dsimp only at hreport
      have hall : ~~~(0 : BitVec 8) = BitVec.allOnes 8 := rfl
      rw [hreport, getModsForReport, hsuppressed, hweak, hall, BitVec.and_allOnes]
      exact BitVec.or_zero
    · rw [clearActiveOverride_heldMods, ← SameOutside.eq_iff]
      exact clearActiveOverride_mods_iff hinv allow out

/-! ## Control and Escape for Super -/

/-- `ko_make_basic(MOD_MASK_CTRL, KC_ESC, KC_LGUI)`. -/
def ctrlEscape : KeyOverride where
  trigger := 0x29
  triggerMods := 0x11#8
  layers := 0xFFFFFFFF#32
  negativeModMask := 0
  suppressedMods := 0x11#8
  replacement := 0xE3
  options := koOptionsAllActivations
  hasCustomAction := false
  hasEnabled := false

def superBoard : Config where
  keyOverrides := [some 0]
  override _ := ctrlEscape
  repeatDelay := 500

def outsideAt (now : BitVec 32) : Outside where
  counted := 0
  others := 0
  layer := 0
  now := now
  customAction _ _ := true
  overrideEnabled _ := true

/-- Control is held and Escape tapped. -/
def superTap : List Event :=
  [.press 0 0xE0 (outsideAt 0), .press 1 0x29 (outsideAt 10), .release 1 (outsideAt 20)]

theorem SparesEvent.of_attempt {b : Board} {keycode : Nat} {keyDown : Bool} {out : Outside}
    (hkey : keycode < qkKeyOverrideToggle) (h : SparesKey cfg (b.noted keycode keyDown out)
      (attempt keycode keyDown (b.env out)) out) : SparesEvent cfg b keycode keyDown out := by
  rw [SparesEvent, if_neg (fun hkeycode => absurd hkeycode.2 (Nat.ne_of_lt hkey)),
    if_neg (fun hkeycode => absurd hkeycode.2 (Nat.ne_of_lt (Nat.lt_succ_of_lt hkey))),
    if_neg (fun hkeycode => absurd hkeycode.2
      (Nat.ne_of_lt (Nat.lt_succ_of_lt (Nat.lt_succ_of_lt hkey))))]
  exact fun _ => h

theorem superTap_spares : Meets (step superBoard) (Spares superBoard) .initial superTap := by
  refine ⟨fun _ => .of_attempt (by decide) ?_, fun _ => .of_attempt (by decide) ?_,
    fun keycode hheld => ?_, trivial⟩
  · exact fun hdeactivates => absurd hdeactivates (by decide)
  · exact ⟨nofun, by decide⟩
  · cases hheld.symm.trans (rfl : _ = some 0x29)
    refine .of_attempt (by decide) fun _ o hactive => ?_
    cases hactive
    rfl

theorem superTap_tied :
    let c := clearActiveOverride superBoard false (outsideAt 30)
      (run (step superBoard) .initial superTap)
    c.engine.suppressedOverrideMods = 0 ∧ c.engine.weakOverrideMods = 0 ∧
      c.report = c.realMods ||| c.others ∧ c.realMods = c.heldMods := by
  obtain ⟨hsuppressed, hweak, hreport, hmods⟩ :=
    (overrideMods_tied superTap_spares).2 false (outsideAt 30)
  exact ⟨hsuppressed, hweak, hreport, hmods.mpr nofun⟩

/-- The Super key is held too, and the end of the override takes it out of the report. -/
theorem superHeld_lost :
    let b := run (step superBoard) .initial (.press 2 0xE3 (outsideAt 0) :: superTap)
    b.engine.activeOverride = none ∧ b.heldMods = 0x09#8 ∧ b.report = 0x01#8 := by
  decide

end Board

end Qmk.KeyOverrides
