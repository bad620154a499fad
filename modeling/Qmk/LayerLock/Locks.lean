import Mathlib.Data.BitVec
import Mathlib.Tactic.ByContra
import Mathlib.Tactic.Tauto
import Qmk.Lib.Run

/-!
# Layer lock

`layer_lock.c` and `process_layer_lock.c`: a locked layer stays on when the key that holds it goes
up.
-/

namespace Qmk.LayerLock

open Lib (run Meets)

/-- What a key may change behind `process_layer_lock`; `w` is the width of `layer_state_t`. -/
structure Board (w : Nat) (ρ : Type) where
  layerState : BitVec w
  oneshotLayerData : BitVec 8
  rest : ρ

structure State (w : Nat) (ρ : Type) where
  board : Board w ρ
  lockedLayers : BitVec w
  layerLockTimer : BitVec 32

/-- What the code reads of a `keyrecord_t`. -/
structure Record where
  pressed : Bool
  tapCount : Nat

structure Firmware (w : Nat) (ρ : Type) where
  /-- `LAYER_LOCK_IDLE_TIMEOUT`, 0 where it is not defined. -/
  idleTimeout : Nat
  noActionOneshot : Bool
  noActionTapping : Bool
  /-- `layer_state_set_modules` and `layer_state_set_kb`. -/
  layerStateSetHooks : BitVec w → BitVec w
  /-- The release of keys at a change of the layers, in the configurations that have it. -/
  layersChanged : ρ → ρ
  layerLockSetKb : BitVec w → ρ → ρ
  oneshotLayerChangedKb : BitVec 8 → ρ → ρ
  clearMods : ρ → ρ
  sendKeyboardReport : ρ → ρ
  /-- What is done with a key that `process_layer_lock` lets through. -/
  processOn : Nat → Record → Board w ρ → Board w ρ

variable {w : Nat} {ρ : Type} (fw : Firmware w ρ)

/-! ## `layer_lock.c` -/

def State.perform (action : ρ → ρ) (s : State w ρ) : State w ρ :=
  { s with board := { s.board with rest := action s.board.rest } }

def layerStateSet (state : BitVec w) (s : State w ρ) : State w ρ :=
  { s with board := { s.board with layerState := fw.layerStateSetHooks state } }.perform
    fw.layersChanged

def layerOn (layer : Nat) (s : State w ρ) : State w ρ :=
  layerStateSet fw (s.board.layerState ||| BitVec.twoPow w layer) s

def layerOff (layer : Nat) (s : State w ρ) : State w ρ :=
  layerStateSet fw (s.board.layerState &&& ~~~BitVec.twoPow w layer) s

def layerAnd (state : BitVec w) (s : State w ρ) : State w ρ :=
  layerStateSet fw (s.board.layerState &&& state) s

/-- `biton` of the width; 0 where no layer is on. -/
def getHighestLayer (state : BitVec w) : Nat := state.toNat.log2

def getOneshotLayer (s : State w ρ) : Nat := (s.board.oneshotLayerData >>> 3).toNat

def resetOneshotLayer (s : State w ρ) : State w ρ :=
  { s with board := { s.board with oneshotLayerData := 0 } }.perform (fw.oneshotLayerChangedKb 0)

def setLockedLayers (locked : BitVec w) (s : State w ρ) : State w ρ :=
  { s with lockedLayers := locked }.perform (fw.layerLockSetKb locked)

def isLayerLocked (layer : Nat) (s : State w ρ) : Bool :=
  s.lockedLayers &&& BitVec.twoPow w layer ≠ 0

def layerLockAllOff (s : State w ρ) : State w ρ :=
  setLockedLayers fw 0 (layerAnd fw (~~~s.lockedLayers) s)

/-- `now` is `timer_read32()`. -/
def layerLockActivityTrigger (now : BitVec 32) (s : State w ρ) : State w ρ :=
  if 0 < fw.idleTimeout then { s with layerLockTimer := now } else s

def Idle (now : BitVec 32) (s : State w ρ) : Prop :=
  0 < fw.idleTimeout ∧ fw.idleTimeout < (now - s.layerLockTimer).toNat

instance (now : BitVec 32) (s : State w ρ) : Decidable (Idle fw now s) :=
  inferInstanceAs (Decidable (_ ∧ _))

def layerLockTimeoutTask (now : BitVec 32) (s : State w ρ) : State w ρ :=
  if s.lockedLayers ≠ 0 ∧ Idle fw now s then
    { layerLockAllOff fw s with layerLockTimer := now }
  else s

def layerLockInvert (now : BitVec 32) (layer : Nat) (s : State w ρ) : State w ρ :=
  let locked := s.lockedLayers ^^^ BitVec.twoPow w layer
  if isLayerLocked layer s then setLockedLayers fw locked (layerOff fw layer s)
  else
    let s :=
      if fw.noActionOneshot = false ∧ layer = getOneshotLayer s then resetOneshotLayer fw s else s
    setLockedLayers fw locked (layerLockActivityTrigger fw now (layerOn fw layer s))

def layerLockOn (now : BitVec 32) (layer : Nat) (s : State w ρ) : State w ρ :=
  if isLayerLocked layer s then s else layerLockInvert fw now layer s

def layerLockOff (now : BitVec 32) (layer : Nat) (s : State w ρ) : State w ρ :=
  if isLayerLocked layer s then layerLockInvert fw now layer s else s

/-! ## `process_layer_lock.c` -/

def qkLayerLock : Nat := 0x7C7B

/-- The layer of a key `MO`, `TT` or `LM`. -/
def switchedLayer (keycode : Nat) : Option Nat :=
  if 0x5220 ≤ keycode ∧ keycode ≤ 0x523F then some (keycode % 32)
  else if 0x52C0 ≤ keycode ∧ keycode ≤ 0x52DF then some (keycode % 32)
  else if 0x5000 ≤ keycode ∧ keycode ≤ 0x51FF then some (keycode / 32 % 16)
  else none

def isLayerMod (keycode : Nat) : Bool := 0x5000 ≤ keycode && keycode ≤ 0x51FF

/-- The layer of a key `LT`. -/
def tappedLayer (keycode : Nat) : Option Nat :=
  if 0x4000 ≤ keycode ∧ keycode ≤ 0x4FFF then some (keycode / 256 % 16) else none

/-- A press unlocks the layer; the release of a key `LM` clears its modifiers. -/
def handleSwitch (now : BitVec 32) (keycode layer : Nat) (record : Record) (s : State w ρ) :
    Bool × State w ρ :=
  if isLayerLocked layer s then
    if record.pressed then (false, layerLockInvert fw now layer s)
    else if isLayerMod keycode then
      (false, (s.perform fw.clearMods).perform fw.sendKeyboardReport)
    else (false, s)
  else (true, s)

/-- Locked layers that something else has turned off are unlocked. -/
def unlockOff (s : State w ρ) : State w ρ :=
  if s.lockedLayers &&& ~~~s.board.layerState ≠ 0 then
    setLockedLayers fw (s.lockedLayers &&& s.board.layerState) s
  else s

def processLayerLock (now : BitVec 32) (keycode : Nat) (record : Record) (s : State w ρ) :
    Bool × State w ρ :=
  let s := unlockOff fw (layerLockActivityTrigger fw now s)
  if keycode = qkLayerLock then
    (false, if record.pressed then layerLockInvert fw now (getHighestLayer s.board.layerState) s
      else s)
  else
    match switchedLayer keycode, tappedLayer keycode with
    | some layer, _ => handleSwitch fw now keycode layer record s
    | none, some layer =>
        (!(!fw.noActionTapping && record.tapCount = 0 && !record.pressed && isLayerLocked layer s),
          s)
    | none, none => (true, s)

/-! ## Runs -/

inductive Event (w : Nat)
  | key (now : BitVec 32) (keycode : Nat) (record : Record)
  | task (now : BitVec 32)
  /-- The layers are set elsewhere than for a key. -/
  | layers (state : BitVec w)
  | invert (now : BitVec 32) (layer : Nat)
  | lockOn (now : BitVec 32) (layer : Nat)
  | lockOff (now : BitVec 32) (layer : Nat)
  | allOff

def step (s : State w ρ) : Event w → State w ρ
  | .key now keycode record =>
      let (goesOn, s) := processLayerLock fw now keycode record s
      if goesOn then { s with board := fw.processOn keycode record s.board } else s
  | .task now => layerLockTimeoutTask fw now s
  | .layers state => { s with board := { s.board with layerState := state } }
  | .invert now layer => layerLockInvert fw now layer s
  | .lockOn now layer => layerLockOn fw now layer s
  | .lockOff now layer => layerLockOff fw now layer s
  | .allOff => layerLockAllOff fw s

/-- A lock of a layer that is off is none. -/
def Locked (layer : Nat) (s : State w ρ) : Prop :=
  s.lockedLayers.getLsbD layer = true ∧ s.board.layerState.getLsbD layer = true

instance (layer : Nat) (s : State w ρ) : Decidable (Locked layer s) :=
  inferInstanceAs (Decidable (_ ∧ _))

/-- The key is not let through. -/
def Skips (keycode : Nat) (record : Record) (s : State w ρ) : Prop :=
  keycode = qkLayerLock ∨ (∃ layer ∈ switchedLayer keycode, Locked layer s) ∨
    ∃ layer ∈ tappedLayer keycode,
      fw.noActionTapping = false ∧ record.tapCount = 0 ∧ record.pressed = false ∧ Locked layer s

instance (keycode : Nat) (record : Record) (s : State w ρ) :
    Decidable (Skips fw keycode record s) := inferInstanceAs (Decidable (_ ∨ _ ∨ _))

def Locks (layer : Nat) (s : State w ρ) : Event w → Prop
  | .key _ keycode record =>
      keycode = qkLayerLock ∧ record.pressed = true ∧
        getHighestLayer s.board.layerState = layer ∧ layer < w ∧ ¬Locked layer s
  -- until the next key a lock stays that the layer comes back to
  | .layers state =>
      s.lockedLayers.getLsbD layer = true ∧ ¬Locked layer s ∧ state.getLsbD layer = true
  | .invert _ other => other = layer ∧ layer < w ∧ ¬s.lockedLayers.getLsbD layer = true
  | .lockOn _ other => other = layer ∧ layer < w ∧ ¬s.lockedLayers.getLsbD layer = true
  | .task _ => False
  | .lockOff _ _ => False
  | .allOff => False

def Unlocks (layer : Nat) (s : State w ρ) : Event w → Prop
  | .key _ keycode record =>
      (record.pressed = true ∧ (keycode = qkLayerLock ∧ getHighestLayer s.board.layerState = layer ∨
        switchedLayer keycode = some layer)) ∨
      (¬Skips fw keycode record s ∧
        (fw.processOn keycode record (unlockOff fw s).board).layerState.getLsbD layer = false)
  | .task now => Idle fw now s
  | .layers state => state.getLsbD layer = false
  | .invert _ other => other = layer
  | .lockOn _ _ => False
  | .lockOff _ other => other = layer
  | .allOff => True

instance (layer : Nat) (s : State w ρ) : (event : Event w) → Decidable (Unlocks fw layer s event)
  | .key .. => inferInstanceAs (Decidable (_ ∨ _))
  | .task _ => inferInstanceAs (Decidable (Idle fw _ s))
  | .layers _ => inferInstanceAs (Decidable (_ = _))
  | .invert .. => inferInstanceAs (Decidable (_ = _))
  | .lockOn .. => inferInstanceAs (Decidable False)
  | .lockOff .. => inferInstanceAs (Decidable (_ = _))
  | .allOff => inferInstanceAs (Decidable True)

variable {fw} {s : State w ρ} {layer : Nat} {now : BitVec 32} {keycode : Nat} {record : Record}

/-! ## One function -/

theorem isLayerLocked_iff : isLayerLocked layer s = true ↔ s.lockedLayers.getLsbD layer = true := by
  rw [isLayerLocked, BitVec.and_twoPow, decide_eq_true_eq]
  constructor
  · intro hne
    by_contra hbit
    rw [if_neg hbit] at hne
    exact hne rfl
  · intro hbit hzero
    have hlt := BitVec.lt_of_getLsbD hbit
    rw [if_pos hbit] at hzero
    have hone := congrArg (fun mask => mask.getLsbD layer) hzero
    simp [hlt] at hone

theorem locked_perform (action : ρ → ρ) : Locked layer (s.perform action) ↔ Locked layer s :=
  Iff.rfl

@[simp] theorem trigger_board (s : State w ρ) :
    (layerLockActivityTrigger fw now s).board = s.board := by
  unfold layerLockActivityTrigger
  split <;> rfl

@[simp] theorem trigger_lockedLayers (s : State w ρ) :
    (layerLockActivityTrigger fw now s).lockedLayers = s.lockedLayers := by
  unfold layerLockActivityTrigger
  split <;> rfl

theorem invert_lockedLayers (other : Nat) :
    (layerLockInvert fw now other s).lockedLayers =
      s.lockedLayers ^^^ BitVec.twoPow w other := by
  unfold layerLockInvert
  dsimp only
  split <;> rfl

theorem invert_layerState (hweak : ∀ state, fw.layerStateSetHooks state = state) (other : Nat) :
    (layerLockInvert fw now other s).board.layerState =
      if isLayerLocked other s then s.board.layerState &&& ~~~BitVec.twoPow w other
      else s.board.layerState ||| BitVec.twoPow w other := by
  unfold layerLockInvert
  dsimp only
  split
  · exact hweak _
  · simp only [setLockedLayers, State.perform, trigger_board, layerOn, layerStateSet, hweak]
    split <;> rfl

theorem locked_invert (hweak : ∀ state, fw.layerStateSetHooks state = state) (other : Nat) :
    Locked layer (layerLockInvert fw now other s) ↔
      (other = layer ∧ layer < w ∧ ¬s.lockedLayers.getLsbD layer = true) ∨
        (Locked layer s ∧ ¬other = layer) := by
  rw [Locked, invert_lockedLayers, invert_layerState hweak]
  by_cases heq : other = layer
  · subst heq
    by_cases hbit : s.lockedLayers.getLsbD other = true
    · rw [if_pos (isLayerLocked_iff.mpr hbit)]
      simp [hbit, BitVec.lt_of_getLsbD hbit]
    · rw [if_neg (mt isLayerLocked_iff.mp hbit)]
      simpa [hbit] using Or.inr
  · have hsame : (s.lockedLayers ^^^ BitVec.twoPow w other).getLsbD layer =
        s.lockedLayers.getLsbD layer := by
      simp [heq]
    have hboth : s.lockedLayers.getLsbD layer = true → layer < w := BitVec.lt_of_getLsbD
    rw [Locked, hsame]
    split
    · simpa [heq] using fun hlocked _ => hboth hlocked
    · simp [heq]

theorem unlockOff_lockedLayers :
    (unlockOff fw s).lockedLayers = s.lockedLayers &&& s.board.layerState := by
  unfold unlockOff
  split
  · rfl
  · next hnone =>
    rw [ne_eq, not_not] at hnone
    refine BitVec.eq_of_getLsbD_eq fun i hi => ?_
    have hbit := congrArg (fun state => state.getLsbD i) hnone
    rw [BitVec.getLsbD_and]
    cases hlocked : s.lockedLayers.getLsbD i
    · rfl
    · simpa [hi, hlocked] using hbit

theorem unlockOff_layerState : (unlockOff fw s).board.layerState = s.board.layerState := by
  unfold unlockOff
  split <;> rfl

theorem unlockOff_bit : (unlockOff fw s).lockedLayers.getLsbD layer = true ↔ Locked layer s := by
  rw [unlockOff_lockedLayers, BitVec.getLsbD_and, Bool.and_eq_true, Locked]

theorem locked_unlockOff : Locked layer (unlockOff fw s) ↔ Locked layer s := by
  rw [Locked, unlockOff_bit, unlockOff_layerState]
  exact and_iff_left_of_imp And.right

/-! ## One event -/

theorem tappedLayer_of_switched (h : switchedLayer keycode = some layer) :
    tappedLayer keycode = none := by
  unfold switchedLayer at h
  unfold tappedLayer
  split at h
  · exact if_neg (by omega)
  · split at h
    · exact if_neg (by omega)
    · split at h
      · exact if_neg (by omega)
      · cases h

/-- The state in which the key is looked at. -/
theorem looked_bit :
    isLayerLocked layer (unlockOff fw (layerLockActivityTrigger fw now s)) = true ↔
      Locked layer s := by
  rw [isLayerLocked_iff, unlockOff_bit, Locked, trigger_board, trigger_lockedLayers, Locked]

theorem looked_locked :
    Locked layer (unlockOff fw (layerLockActivityTrigger fw now s)) ↔ Locked layer s := by
  rw [locked_unlockOff, Locked, trigger_board, trigger_lockedLayers, Locked]

/-- What inverting the lock of a layer does there. -/
theorem looked_invert (hweak : ∀ state, fw.layerStateSetHooks state = state) (other : Nat) :
    Locked layer
        (layerLockInvert fw now other (unlockOff fw (layerLockActivityTrigger fw now s))) ↔
      (other = layer ∧ layer < w ∧ ¬Locked layer s) ∨ (Locked layer s ∧ ¬other = layer) := by
  rw [locked_invert hweak, looked_locked, ← isLayerLocked_iff, looked_bit]

theorem looked_board : (unlockOff fw (layerLockActivityTrigger fw now s)).board =
    (unlockOff fw s).board := by
  unfold unlockOff
  rw [trigger_board, trigger_lockedLayers]
  split
  · simp [setLockedLayers, State.perform]
  · exact trigger_board s

theorem processLayerLock_on (h : ¬Skips fw keycode record s) :
    processLayerLock fw now keycode record s =
      (true, unlockOff fw (layerLockActivityTrigger fw now s)) := by
  unfold Skips at h
  rw [not_or, not_or] at h
  obtain ⟨hkey, hswitch, htap⟩ := h
  unfold processLayerLock
  dsimp only
  rw [if_neg hkey]
  split
  · next other hother =>
    have hunlocked : ¬Locked other s := fun hlocked => hswitch ⟨other, hother, hlocked⟩
    rw [handleSwitch, if_neg (mt looked_bit.mp hunlocked)]
  · next other _ hother =>
    refine Prod.ext ?_ rfl
    rw [Bool.not_eq_true', ← Bool.not_eq_true]
    intro hall
    simp only [Bool.and_eq_true, Bool.not_eq_true', decide_eq_true_eq, looked_bit] at hall
    obtain ⟨⟨⟨htapping, hcount⟩, hreleased⟩, hlocked⟩ := hall
    exact htap ⟨other, hother, htapping, hcount, hreleased, hlocked⟩
  · rfl

theorem processLayerLock_off (now : BitVec 32)
    (hweak : ∀ state, fw.layerStateSetHooks state = state)
    (h : Skips fw keycode record s) :
    (processLayerLock fw now keycode record s).1 = false ∧
      (Locked layer (processLayerLock fw now keycode record s).2 ↔
        Locks layer s (.key now keycode record) ∨
          (Locked layer s ∧ ¬Unlocks fw layer s (.key now keycode record))) := by
  have hunlocks : Unlocks fw layer s (.key now keycode record) ↔
      record.pressed = true ∧ (keycode = qkLayerLock ∧
        getHighestLayer s.board.layerState = layer ∨ switchedLayer keycode = some layer) :=
    or_iff_left fun hother => hother.1 h
  have hhighest : (unlockOff fw (layerLockActivityTrigger fw now s)).board.layerState =
      s.board.layerState := by
    rw [unlockOff_layerState, trigger_board]
  rw [hunlocks, Locks]
  unfold processLayerLock
  dsimp only
  by_cases hkey : keycode = qkLayerLock
  · have hnone : switchedLayer qkLayerLock = none := rfl
    subst hkey
    rw [if_pos rfl, hhighest]
    refine ⟨rfl, ?_⟩
    by_cases hpressed : record.pressed = true
    · rw [if_pos hpressed, looked_invert hweak]
      simp [hpressed, hnone]
    · rw [if_neg hpressed, looked_locked]
      simp [hpressed]
  · rw [if_neg hkey]
    rcases h.resolve_left hkey with ⟨other, hother, hlocked⟩ | ⟨other, hother, htap⟩
    · have hswitch : switchedLayer keycode = some other := hother
      rw [hswitch]
      dsimp only
      rw [handleSwitch, if_pos (looked_bit.mpr hlocked)]
      by_cases hpressed : record.pressed = true
      · rw [if_pos hpressed]
        refine ⟨rfl, ?_⟩
        rw [looked_invert hweak]
        by_cases heq : other = layer
        · subst heq
          simp [hkey, hlocked, hpressed]
        · simp [hkey, heq]
      · rw [if_neg hpressed]
        split
        · refine ⟨rfl, ?_⟩
          rw [locked_perform, locked_perform, looked_locked]
          simp [hpressed]
        · refine ⟨rfl, ?_⟩
          rw [looked_locked]
          simp [hpressed]
    · have htapped : tappedLayer keycode = some other := hother
      have hswitch : switchedLayer keycode = none := by
        cases hcase : switchedLayer keycode with
        | none => rfl
        | some switched => exact absurd htapped (by rw [tappedLayer_of_switched hcase]; nofun)
      obtain ⟨htapping, hcount, hreleased, hlocked⟩ := htap
      rw [hswitch, htapped]
      refine ⟨?_, ?_⟩
      · simp [htapping, hcount, hreleased, looked_bit.mpr hlocked]
      · rw [looked_locked]
        simp [hkey, hreleased]

theorem locked_key (hweak : ∀ state, fw.layerStateSetHooks state = state) (now : BitVec 32)
    (keycode : Nat) (record : Record) :
    Locked layer (step fw s (.key now keycode record)) ↔
      Locks layer s (.key now keycode record) ∨
        (Locked layer s ∧ ¬Unlocks fw layer s (.key now keycode record)) := by
  by_cases hskips : Skips fw keycode record s
  · obtain ⟨hfalse, hlocked⟩ := processLayerLock_off now hweak hskips
    rw [step, ← hlocked]
    simp [hfalse]
  · have hkey : ¬keycode = qkLayerLock := fun hkey => hskips (.inl hkey)
    have hlocks : ¬Locks layer s (.key now keycode record) := fun hlocks => hkey hlocks.1
    have hswitch : Locked layer s → ¬switchedLayer keycode = some layer :=
      fun hlocked hswitch => hskips (.inr (.inl ⟨layer, hswitch, hlocked⟩))
    rw [step, processLayerLock_on hskips, or_iff_right hlocks]
    dsimp only
    rw [if_pos rfl, Locked, looked_board, ← isLayerLocked_iff]
    constructor
    · rintro ⟨hbit, hon⟩
      have hlocked := looked_bit.mp hbit
      refine ⟨hlocked, ?_⟩
      rintro (⟨-, ⟨hlock, -⟩ | hsame⟩ | ⟨-, hoff⟩)
      · exact hkey hlock
      · exact hswitch hlocked hsame
      · exact Bool.noConfusion (hon.symm.trans hoff)
    · rintro ⟨hlocked, hkept⟩
      refine ⟨looked_bit.mpr hlocked, Bool.not_eq_false _ ▸ fun hoff => ?_⟩
      exact hkept (.inr ⟨hskips, hoff⟩)

theorem locked_allOff : ¬Locked layer (layerLockAllOff fw s) := by
  rintro ⟨hlocked, -⟩
  simp [layerLockAllOff, setLockedLayers, State.perform] at hlocked

theorem locked_task (now : BitVec 32) :
    Locked layer (layerLockTimeoutTask fw now s) ↔ Locked layer s ∧ ¬Idle fw now s := by
  unfold layerLockTimeoutTask
  split
  · next hall =>
    exact iff_of_false locked_allOff fun hkept => hkept.2 hall.2
  · next hnone =>
    refine (and_iff_left_of_imp fun hlocked hidle => hnone ⟨fun hzero => ?_, hidle⟩).symm
    have hbit := hlocked.1
    simp [hzero] at hbit

theorem locked_lockOn (hweak : ∀ state, fw.layerStateSetHooks state = state) (now : BitVec 32)
    (other : Nat) :
    Locked layer (step fw s (.lockOn now other)) ↔
      Locks layer s (.lockOn now other) ∨
        (Locked layer s ∧ ¬Unlocks fw layer s (.lockOn now other)) := by
  by_cases hbit : isLayerLocked other s = true
  · have hstays : ¬(other = layer ∧ layer < w ∧ ¬s.lockedLayers.getLsbD layer = true) := by
      rintro ⟨rfl, -, hnot⟩
      exact hnot (isLayerLocked_iff.mp hbit)
    rw [step, layerLockOn, if_pos hbit, Locks, or_iff_right hstays, Unlocks, not_false_eq_true,
      and_true]
  · have hbefore : other = layer → ¬Locked layer s := by
      rintro rfl hlocked
      exact hbit (isLayerLocked_iff.mpr hlocked.1)
    rw [step, layerLockOn, if_neg hbit, locked_invert hweak, Locks, Unlocks, not_false_eq_true,
      and_true]
    tauto

theorem locked_lockOff (hweak : ∀ state, fw.layerStateSetHooks state = state) (now : BitVec 32)
    (other : Nat) :
    Locked layer (step fw s (.lockOff now other)) ↔
      Locks layer s (.lockOff now other) ∨
        (Locked layer s ∧ ¬Unlocks fw layer s (.lockOff now other)) := by
  by_cases hbit : isLayerLocked other s = true
  · have hlocked : other = layer → s.lockedLayers.getLsbD layer = true := by
      rintro rfl
      exact isLayerLocked_iff.mp hbit
    rw [step, layerLockOff, if_pos hbit, locked_invert hweak, Locks, Unlocks]
    tauto
  · rw [step, layerLockOff, if_neg hbit, Locks, Unlocks, false_or]
    refine (and_iff_left_of_imp ?_).symm
    rintro hlocked rfl
    exact hbit (isLayerLocked_iff.mpr hlocked.1)

/-- A layer is locked after an event if it locks the layer, or the layer was locked and it does not
unlock it. -/
theorem locked_step (hweak : ∀ state, fw.layerStateSetHooks state = state) (s : State w ρ)
    (event : Event w) :
    Locked layer (step fw s event) ↔
      Locks layer s event ∨ (Locked layer s ∧ ¬Unlocks fw layer s event) := by
  cases event with
  | key now keycode record => exact locked_key hweak now keycode record
  | task now => rw [step, locked_task, Locks, false_or, Unlocks]
  | layers state =>
      simp only [Locked, step, Locks, Unlocks, Bool.not_eq_false]
      tauto
  | invert now other => exact locked_invert hweak other
  | lockOn now other => exact locked_lockOn hweak now other
  | lockOff now other => exact locked_lockOff hweak now other
  | allOff => exact iff_of_false locked_allOff (by simp [Locks, Unlocks])

/-- A key that holds or switches to a locked layer does not unlock it when it goes up. -/
theorem release_keeps (hlocked : Locked layer s) (hreleased : record.pressed = false)
    (hkey : switchedLayer keycode = some layer ∨
      (tappedLayer keycode = some layer ∧ fw.noActionTapping = false ∧ record.tapCount = 0)) :
    ¬Unlocks fw layer s (.key now keycode record) := by
  have hskips : Skips fw keycode record s := by
    rcases hkey with hswitch | ⟨htapped, htapping, hcount⟩
    · exact .inr (.inl ⟨layer, hswitch, hlocked⟩)
    · exact .inr (.inr ⟨layer, htapped, htapping, hcount, hreleased, hlocked⟩)
  rintro (⟨hpressed, -⟩ | ⟨hnot, -⟩)
  · exact Bool.noConfusion (hpressed.symm.trans hreleased)
  · exact hnot hskips

/-- A layer is locked after a run if and only if an event of it has locked the layer, and none
since then has unlocked it; the release of the key that holds the layer is none that does. -/
theorem locked_run_iff (hweak : ∀ state, fw.layerStateSetHooks state = state)
    (hstart : s.lockedLayers = 0) (events : List (Event w)) (layer : Nat) :
    (Locked layer (run (step fw) s events) ↔
      ∃ before event after, events = before ++ event :: after ∧
        Locks layer (run (step fw) s before) event ∧
        Meets (step fw) (fun s event => ¬Unlocks fw layer s event)
          (run (step fw) s (before ++ [event])) after) ∧
    ∀ s now keycode record, Locked layer s → record.pressed = false →
      (switchedLayer keycode = some layer ∨
        (tappedLayer keycode = some layer ∧ fw.noActionTapping = false ∧ record.tapCount = 0)) →
      ¬Unlocks fw layer s (.key now keycode record) := by
  have hnone : ¬Locked layer s := by
    rintro ⟨hbit, -⟩
    simp [hstart] at hbit
  refine ⟨(Lib.run_since_iff (locked_step hweak) s events).trans ?_, ?_⟩
  · exact or_iff_right fun hfirst => hnone hfirst.1
  · intro s now keycode record hlocked hreleased hkey
    exact release_keeps hlocked hreleased hkey

/-! ## A run -/

/-- The keys `MO` turn their layers on and off. -/
def momentaryKeys : Firmware 8 Unit where
  idleTimeout := 60000
  noActionOneshot := false
  noActionTapping := false
  layerStateSetHooks state := state
  layersChanged := id
  layerLockSetKb _ := id
  oneshotLayerChangedKb _ := id
  clearMods := id
  sendKeyboardReport := id
  processOn keycode record board :=
    if 0x5220 ≤ keycode ∧ keycode ≤ 0x523F then
      { board with
        layerState :=
          if record.pressed then board.layerState ||| BitVec.twoPow 8 (keycode % 32)
          else board.layerState &&& ~~~BitVec.twoPow 8 (keycode % 32) }
    else board

def nothingLocked : State 8 Unit := ⟨⟨0, 0, ()⟩, 0, 0⟩

/-- `MO(1)` goes up before the layer lock key does; a key is typed on the layer. -/
def lockedByTap : List (Event 8) :=
  [.key 10 0x5221 ⟨true, 0⟩, .key 20 qkLayerLock ⟨true, 0⟩, .key 30 0x5221 ⟨false, 0⟩,
    .key 40 qkLayerLock ⟨false, 0⟩, .task 50, .key 60 4 ⟨true, 0⟩, .key 70 4 ⟨false, 0⟩]

theorem lockedByTap_locked : Locked 1 (run (step momentaryKeys) nothingLocked lockedByTap) := by
  refine (locked_run_iff (fun _ => rfl) rfl lockedByTap 1).1.mpr
    ⟨lockedByTap.take 1, .key 20 qkLayerLock ⟨true, 0⟩, lockedByTap.drop 2, rfl, ?_, ?_⟩
  · exact ⟨rfl, rfl, by decide, by decide, by decide⟩
  · exact ⟨by decide, by decide, by decide, by decide, by decide, trivial⟩

/-- The next `MO(1)` unlocks the layer and turns it off. -/
example :
    (run (step momentaryKeys) nothingLocked
      (lockedByTap ++ [.key 80 0x5221 ⟨true, 0⟩])).board.layerState = 0 := by decide

end Qmk.LayerLock
