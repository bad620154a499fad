import Mathlib.Algebra.Group.Nat.Defs
import Mathlib.Logic.Function.Basic
import Qmk.Lib.Run

/-!
# Key overrides

The engine of `process_key_override.c`.  A keycode counts as registered from the call
that registers it to the call that unregisters it, whatever the report does with it.
-/

namespace Qmk.KeyOverrides

/-! ## Keycodes -/

def kcNo : Nat := 0x0000
def safeRange : Nat := 0x7E40
def qkKeyOverrideToggle : Nat := 0x7C5D
def qkKeyOverrideOn : Nat := 0x7C5E
def qkKeyOverrideOff : Nat := 0x7C5F

/-- `KC_LEFT_CTRL ... KC_RIGHT_GUI`. -/
def isModifierKeycode (code : Nat) : Bool := decide (0xE0 ≤ code ∧ code ≤ 0xE7)

/-- `QK_MODS ... QK_MODS_MAX`. -/
def isQkMods (code : Nat) : Bool := decide (0x0100 ≤ code ∧ code ≤ 0x1FFF)

def modBit (code : Nat) : BitVec 8 := 1#8 <<< (code % 8)

/-- What is left below the bits of `all_mods`, `0x1F00`. -/
def clearModsFrom (keycode : Nat) : Nat :=
  if isQkMods keycode = true then keycode % 0x100 else keycode

/-- The low four bits for the left modifiers, the high four for the right ones. -/
def extractModBits (code : Nat) : BitVec 8 :=
  if isQkMods code = true then
    let mods := BitVec.ofNat 8 (code / 0x100 % 0x10)
    if code.testBit 12 = true then mods <<< 4 else mods
  else 0

/-! ## Overrides -/

def koOptionActivationTriggerDown : BitVec 8 := 1#8 <<< 0
def koOptionActivationRequiredModDown : BitVec 8 := 1#8 <<< 1
def koOptionActivationNegativeModUp : BitVec 8 := 1#8 <<< 2
def koOptionsAllActivations : BitVec 8 :=
  koOptionActivationNegativeModUp ||| koOptionActivationRequiredModDown |||
    koOptionActivationTriggerDown
def koOptionOneMod : BitVec 8 := 1#8 <<< 3
def koOptionNoReregisterTrigger : BitVec 8 := 1#8 <<< 4
def koOptionNoUnregisterOnOtherKeyDown : BitVec 8 := 1#8 <<< 5

/-- `key_override_t`; of its two pointers, whether they are set. -/
structure KeyOverride where
  trigger : Nat
  triggerMods : BitVec 8
  layers : BitVec 32
  negativeModMask : BitVec 8
  suppressedMods : BitVec 8
  replacement : Nat
  options : BitVec 8
  hasCustomAction : Bool
  hasEnabled : Bool

structure Config where
  /-- The pointers that `key_override_get` returns, with `none` for `NULL`. -/
  keyOverrides : List (Option Nat)
  override : Nat → KeyOverride
  /-- `KEY_OVERRIDE_REPEAT_DELAY`. -/
  repeatDelay : Nat

/-- The overrides up to the end of the array. -/
def Config.table (cfg : Config) : List Nat :=
  (cfg.keyOverrides.takeWhile Option.isSome).filterMap id

/-- What the code reads and calls outside its own state while it handles an event. -/
structure Env where
  /-- `get_mods()`, with the weak and the one-shot modifiers that are counted. -/
  mods : BitVec 8
  layer : Nat
  now : BitVec 32
  /-- What the `custom_action` of an override returns. -/
  customAction : Nat → Bool → Bool
  /-- `*(override->enabled) & 1`. -/
  overrideEnabled : Nat → Bool

structure State where
  activeOverride : Option Nat
  activeOverrideTriggerIsDown : Bool
  lastKeyDown : Nat
  lastKeyDownTime : BitVec 32
  deferReferenceTime : BitVec 32
  deferDelay : Nat
  deferredRegister : Nat
  enabled : Bool
  weakOverrideMods : BitVec 8
  suppressedOverrideMods : BitVec 8
  /-- Whether the deferred keycode is a replacement, and not a trigger. -/
  deferredReplacement : Bool
  /-- The replacement keycodes that are registered. -/
  registered : List Nat
  /-- The keycode with which each key that is down was pressed. -/
  held : Nat → Option Nat

def State.initial : State where
  activeOverride := none
  activeOverrideTriggerIsDown := false
  lastKeyDown := 0
  lastKeyDownTime := 0
  deferReferenceTime := 0
  deferDelay := 0
  deferredRegister := 0
  enabled := true
  weakOverrideMods := 0
  suppressedOverrideMods := 0
  deferredReplacement := false
  registered := []
  held _ := none

variable (cfg : Config)

/-- `add_key` and `register_code` take eight bits. -/
def State.registerCode (code : Nat) (s : State) : State :=
  { s with registered := code % 0x100 :: s.registered }

def State.unregisterCode (code : Nat) (s : State) : State :=
  { s with registered := s.registered.filter (· ≠ code % 0x100) }

def timerElapsed32 (now time : BitVec 32) : Nat := (now - time).toNat

/-- Moves both sides of the modifiers to one. -/
def oneSided (mods : BitVec 8) : BitVec 8 := (mods &&& 0b1111#8) ||| (mods >>> 4)

def keyOverrideMatchesActiveModifiers (override : KeyOverride) (mods : BitVec 8) : Bool :=
  if override.negativeModMask &&& mods ≠ 0 then false
  else if override.triggerMods = 0 then true
  else if override.options &&& koOptionOneMod ≠ 0 then
    decide (override.triggerMods &&& mods ≠ 0)
  else decide (oneSided (override.triggerMods &&& mods) = oneSided override.triggerMods)

def scheduleDeferredRegister (keycode : Nat) (replacement : Bool) (env : Env) (s : State) :
    State :=
  let s :=
    if timerElapsed32 env.now s.lastKeyDownTime < cfg.repeatDelay then
      { s with deferReferenceTime := s.lastKeyDownTime, deferDelay := cfg.repeatDelay }
    else { s with deferReferenceTime := env.now, deferDelay := 50 }
  { s with deferredRegister := keycode, deferredReplacement := replacement }

/-- Whether the replacement of the override is to be registered, or unregistered. -/
def handlesReplacement (o : Nat) (activated : Bool) (env : Env) : Bool :=
  let code := clearModsFrom (cfg.override o).replacement
  decide (code ≠ kcNo) && decide (code < safeRange) &&
    (!(cfg.override o).hasCustomAction || env.customAction o activated)

def unregisterReplacement (o : Nat) (env : Env) (s : State) : State :=
  if handlesReplacement cfg o false env = true then
    s.unregisterCode (clearModsFrom (cfg.override o).replacement)
  else s

/-- Whether the trigger of the override is to be registered again. -/
def reregisters (override : KeyOverride) (allowReregister : Bool) (s : State) : Bool :=
  allowReregister && decide (override.options &&& koOptionNoReregisterTrigger = 0) &&
    s.activeOverrideTriggerIsDown && decide (override.trigger ≠ kcNo) &&
    decide (override.trigger < safeRange)

def reregisterTrigger (override : KeyOverride) (allowReregister : Bool) (env : Env)
    (s : State) : State :=
  if reregisters override allowReregister s = true then
    scheduleDeferredRegister cfg override.trigger false env s
  else s

def clearActiveOverride (allowReregister : Bool) (env : Env) (s : State) : State :=
  match s.activeOverride with
  | none => s
  | some o =>
      let s := { s with
        deferredRegister := 0, suppressedOverrideMods := 0, weakOverrideMods := 0 }
      let s := unregisterReplacement cfg o env s
      let s := reregisterTrigger cfg (cfg.override o) allowReregister env s
      { s with activeOverride := none, activeOverrideTriggerIsDown := false }

def checkActivationEvent (override : KeyOverride) (keyDown isMod : Bool) : Bool :=
  let options :=
    if override.options &&& koOptionsAllActivations = 0 then koOptionsAllActivations
    else override.options
  match isMod, keyDown with
  | true, true => decide (options &&& koOptionActivationRequiredModDown ≠ 0)
  | true, false => decide (options &&& koOptionActivationNegativeModUp ≠ 0)
  | false, true => decide (options &&& koOptionActivationTriggerDown ≠ 0)
  | false, false => false

/-- A key event as `try_activating_override` sees it. -/
structure Attempt where
  keycode : Nat
  keyDown : Bool
  isMod : Bool
  activeMods : BitVec 8
  env : Env

def Attempt.triggerDown (a : Attempt) (override : KeyOverride) : Bool :=
  decide (override.trigger = a.keycode) && a.keyDown

/-- The checks that an override has to pass, in the order of the loop. -/
def activatable (a : Attempt) (s : State) (o : Nat) : Bool :=
  let override := cfg.override o
  !(decide (a.activeMods = 0) && decide (override.triggerMods ≠ 0)) &&
    decide (override.layers &&& (1#32 <<< a.env.layer) ≠ 0) &&
    checkActivationEvent override a.keyDown a.isMod &&
    !(decide (override.trigger = a.keycode) && !a.keyDown) &&
    decide (s.activeOverride ≠ some o) &&
    !(override.hasEnabled && !a.env.overrideEnabled o) &&
    keyOverrideMatchesActiveModifiers override a.activeMods &&
    (decide (override.trigger = kcNo) || a.triggerDown override ||
      decide (s.lastKeyDown = override.trigger))

/-- A trigger that was not just pressed is taken out of the report. -/
def unregisterTrigger (a : Attempt) (override : KeyOverride) (s : State) : State :=
  if a.triggerDown override = false ∧ override.trigger ≠ kcNo then
    s.unregisterCode override.trigger
  else s

/-- A modifier event always defers the replacement. -/
def registerReplacement (a : Attempt) (o : Nat) (s : State) : State :=
  let replacement := (cfg.override o).replacement
  if handlesReplacement cfg o true a.env = true then
    let s := { s with weakOverrideMods := extractModBits replacement }
    if a.isMod = true then
      scheduleDeferredRegister cfg (clearModsFrom replacement) true a.env s
    else s.registerCode (clearModsFrom replacement)
  else s

/-- The body of the loop for the override that is activated. -/
def activate (a : Attempt) (o : Nat) (s : State) : State :=
  let s := clearActiveOverride cfg false a.env s
  let s := { s with
    activeOverride := some o
    activeOverrideTriggerIsDown := true
    suppressedOverrideMods := (cfg.override o).suppressedMods }
  registerReplacement cfg a o (unregisterTrigger a (cfg.override o) s)

/-- Whether the key action is to be sent, whether an override was activated, and the state. -/
def tryActivatingOverride (a : Attempt) (s : State) : Bool × Bool × State :=
  match cfg.table.find? (activatable cfg a s) with
  | none => (true, false, s)
  | some o => (!a.triggerDown (cfg.override o), true, activate cfg a o s)

def keyOverrideTask (now : BitVec 32) (s : State) : State :=
  if s.deferredRegister = 0 then s
  else if s.deferDelay ≤ timerElapsed32 now s.deferReferenceTime then
    let s := if s.deferredReplacement = true then s.registerCode s.deferredRegister else s
    { s with deferredRegister := 0, deferReferenceTime := 0, deferDelay := 0 }
  else s

def keyOverrideOn (s : State) : State := { s with enabled := true }

def keyOverrideOff (env : Env) (s : State) : State :=
  clearActiveOverride cfg false env { s with enabled := false }

def keyOverrideToggle (env : Env) (s : State) : State :=
  if s.enabled = true then keyOverrideOff cfg env s else keyOverrideOn s

/-- The modifiers as they are after the event. -/
def effectiveMods (keycode : Nat) (keyDown : Bool) (env : Env) : BitVec 8 :=
  if isModifierKeycode keycode = true then
    if keyDown = true then env.mods ||| modBit keycode else env.mods &&& ~~~modBit keycode
  else env.mods

/-- Keeps track of the last key down. -/
def noteKey (keycode : Nat) (keyDown : Bool) (env : Env) (s : State) : State :=
  if isModifierKeycode keycode = true then s
  else if keyDown = true then
    { s with lastKeyDown := keycode, lastKeyDownTime := env.now, deferredRegister := 0 }
  else if keycode = s.lastKeyDown then
    { s with lastKeyDown := 0, lastKeyDownTime := 0, deferredRegister := 0 }
  else s

/-- Deactivates the active override where the event asks for it. -/
def checkDeactivation (a : Attempt) (s : State) : State :=
  match s.activeOverride with
  | none => s
  | some o =>
      let override := cfg.override o
      if a.isMod = true then
        if keyOverrideMatchesActiveModifiers override a.activeMods = true then s
        else clearActiveOverride cfg true a.env s
      else
        let lifted := decide (a.keycode = override.trigger) && !a.keyDown
        let other := a.keyDown &&
          decide (override.options &&& koOptionNoUnregisterOnOtherKeyDown = 0)
        let s := if lifted = true then { s with activeOverrideTriggerIsDown := false } else s
        if (lifted || other) = true then clearActiveOverride cfg false a.env s else s

def attempt (keycode : Nat) (keyDown : Bool) (env : Env) : Attempt :=
  ⟨keycode, keyDown, isModifierKeycode keycode, effectiveMods keycode keyDown env, env⟩

/-- What is done with a key event while overrides are on. -/
def handleKey (keycode : Nat) (keyDown : Bool) (env : Env) (s : State) : Bool × State :=
  let a := attempt keycode keyDown env
  let s := noteKey keycode keyDown env s
  let tried :=
    if (a.isMod || keyDown) = true then tryActivatingOverride cfg a s else (true, false, s)
  (tried.1, if tried.2.1 = true then tried.2.2 else checkDeactivation cfg a tried.2.2)

def processKeyOverride (keycode : Nat) (keyDown : Bool) (env : Env) (s : State) :
    Bool × State :=
  if keyDown = true ∧ keycode = qkKeyOverrideToggle then (false, keyOverrideToggle cfg env s)
  else if keyDown = true ∧ keycode = qkKeyOverrideOn then (false, keyOverrideOn s)
  else if keyDown = true ∧ keycode = qkKeyOverrideOff then (false, keyOverrideOff cfg env s)
  else if s.enabled = false then (true, s)
  else handleKey cfg keycode keyDown env s

/-! ## Runs -/

/-- A key that is down is not pressed, and is released with the keycode of its press. -/
inductive Input
  | press (key keycode : Nat) (env : Env)
  | release (key : Nat) (env : Env)
  | on
  | off (env : Env)
  | toggle (env : Env)
  | task (now : BitVec 32)

def State.setHeld (s : State) (key : Nat) (keycode : Option Nat) : State :=
  { s with held := Function.update s.held key keycode }

def pressKey (key keycode : Nat) (env : Env) (s : State) : State :=
  match s.held key with
  | some _ => s
  | none => ((processKeyOverride cfg keycode true env s).2).setHeld key (some keycode)

def releaseKey (key : Nat) (env : Env) (s : State) : State :=
  match s.held key with
  | none => s
  | some keycode => ((processKeyOverride cfg keycode false env s).2).setHeld key none

def step (s : State) : Input → State
  | .press key keycode env => pressKey cfg key keycode env s
  | .release key env => releaseKey cfg key env s
  | .on => keyOverrideOn s
  | .off env => keyOverrideOff cfg env s
  | .toggle env => keyOverrideToggle cfg env s
  | .task now => keyOverrideTask now s

end Qmk.KeyOverrides
