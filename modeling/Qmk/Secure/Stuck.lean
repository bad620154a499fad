import Qmk.Layers.Undo
import Qmk.Report.OneShot
import Qmk.Secure.Unlock

/-!
# Keys that are held while the unlock is pending

Basic, modifier and momentary-layer keys and the keys of `process_secure.c`, in the default
configuration and with `SECURE_ENABLE`.  None of them is a tap-hold key, and the tapping engine
passes each record on.
-/

namespace Qmk.Secure

open Qmk.Lib
open Qmk.Tapping (KeyPos)
open Qmk.Report (isKeyPressed clearKeysFromReport isKeyPressed_add isKeyPressed_del
  isKeyPressed_clear)

/-- `QK_SECURE_LOCK` and the codes after it. -/
inductive SecureKey
  | lock
  | unlock
  | toggle
  | request
  deriving DecidableEq

def SecureKey.keycode : SecureKey → Nat
  | .lock => qkSecureLock
  | .unlock => qkSecureUnlock
  | .toggle => qkSecureToggle
  | .request => qkSecureRequest

/-- `KC_NO` is the basic code zero. -/
inductive Code
  | basic (code : UInt8)
  | momentary (layer : BitVec 5)
  | secure (key : SecureKey)
  | transparent
  deriving DecidableEq

def Code.keycode : Code → Nat
  | .basic code => code.toNat
  | .momentary layer => 0x5220 + layer.toNat
  | .secure key => key.keycode
  | .transparent => 1

structure Keyboard where
  secure : Config
  layers : Layers.Config
  keymap : BitVec 8 → KeyPos → Code
  nkro : Bool

structure Board (kb : Keyboard) where
  secure : State
  report : Report.OneShot.State
  layerState : Layers.LayerState kb.layers
  defaultLayerState : Layers.LayerState kb.layers
  sourceLayersCache : Layers.Cache
  /-- The switches of the keys. -/
  down : KeyPos → Bool

variable {kb : Keyboard}

/-! ## Layers and reports -/

def keymapKeyToKeycode (kb : Keyboard) (layer : BitVec 8) (key : KeyPos) : Code :=
  if kb.layers.InMatrix key then kb.keymap layer key else .basic 0

/-- The loop of `layer_switch_get_layer`, from the layer below `i`. -/
def Board.topLayer (b : Board kb) (key : KeyPos) : Nat → BitVec 8
  | 0 => 0#8
  | i + 1 =>
      if (b.layerState ||| b.defaultLayerState).getLsbD i ∧
          keymapKeyToKeycode kb (BitVec.ofNat 8 i) key ≠ .transparent then
        BitVec.ofNat 8 i
      else b.topLayer key i

def Board.layerSwitchGetLayer (b : Board kb) (key : KeyPos) : BitVec 8 :=
  b.topLayer key kb.layers.maxLayer

/-- `get_record_keycode` and `store_or_get_action`: a press is looked up in the layers and stored, a
release is read from the cache. -/
def Board.lookUp (pressed : Bool) (key : KeyPos) (b : Board kb) : Code × Board kb :=
  if pressed then
    let layer := b.layerSwitchGetLayer key
    (keymapKeyToKeycode kb layer key, { b with
      sourceLayersCache :=
        Layers.updateSourceLayersCache kb.layers key layer b.sourceLayersCache })
  else
    (keymapKeyToKeycode kb
      (Layers.readSourceLayersCache kb.layers key b.sourceLayersCache) key, b)

def Board.layerOn (layer : BitVec 5) (b : Board kb) : Board kb :=
  { b with layerState := b.layerState ||| ((1 : Layers.LayerState kb.layers) <<< layer.toNat) }

def Board.layerOff (layer : BitVec 5) (b : Board kb) : Board kb :=
  { b with layerState := b.layerState &&& ~~~((1 : Layers.LayerState kb.layers) <<< layer.toNat) }

def Board.layerClear (b : Board kb) : Board kb := { b with layerState := 0 }

def Board.clearKeyboard (b : Board kb) : Board kb :=
  { b with report := Report.OneShot.sendKeyboardReport kb.nkro { b.report with
      realMods := 0
      weakMods := 0
      reports := clearKeysFromReport kb.nkro b.report.reports } }

/-! ## The lock -/

def Board.secureHookQuantum (b : Board kb) : Board kb :=
  if b.secure.secureStatus = .pending then b.clearKeyboard.layerClear else b

def Board.secureLock (b : Board kb) : Board kb :=
  { b with secure := Secure.secureLock b.secure }.secureHookQuantum

def Board.secureUnlock (now : BitVec 32) (b : Board kb) : Board kb :=
  { b with secure := Secure.secureUnlock now b.secure }.secureHookQuantum

def Board.secureRequestUnlock (now : BitVec 32) (b : Board kb) : Board kb :=
  { b with secure := Secure.secureRequestUnlock now b.secure }.secureHookQuantum

def Board.secureActivityEvent (now : BitVec 32) (b : Board kb) : Board kb :=
  { b with secure := Secure.secureActivityEvent now b.secure }

/-- The hook does nothing after `secure_lock`. -/
def Board.secureTask (now : BitVec 32) (b : Board kb) : Board kb :=
  { b with secure := Secure.secureTask kb.secure now b.secure }

/-- The hook does nothing after the lock or the unlock of `secure_keypress_event`. -/
def Board.preprocessSecure (pressed : Bool) (key : KeyPos) (now : BitVec 32) (b : Board kb) :
    Bool × Board kb :=
  let (goOn, secure) :=
    Secure.preprocessSecure kb.secure pressed key.row.toNat key.col.toNat now b.secure
  (goOn, { b with secure := secure })

/-- A record that is handled ends in one call of the hook. -/
def Board.processSecure (code : Code) (pressed : Bool) (now : BitVec 32) (b : Board kb) :
    Bool × Board kb :=
  let (goOn, secure) := Secure.processSecure code.keycode pressed now b.secure
  (goOn, if goOn then { b with secure := secure }
    else { b with secure := secure }.secureHookQuantum)

/-! ## Records -/

/-- The code of a basic or a modifier key goes to the report, and other codes of one byte to other
reports. -/
def Board.processAction (code : Code) (pressed : Bool) (b : Board kb) : Board kb :=
  match code with
  | .basic code =>
      if pressed then { b with report := Report.OneShot.registerCode kb.nkro code b.report }
      else { b with report := Report.OneShot.unregisterCode kb.nkro code b.report }
  | .momentary layer => if pressed then b.layerOn layer else b.layerOff layer
  | .secure _ | .transparent => b

def Board.processRecordHandler (pressed : Bool) (key : KeyPos) (b : Board kb) : Board kb :=
  let (code, b) := b.lookUp pressed key
  b.processAction code pressed

def Board.processRecord (pressed : Bool) (key : KeyPos) (now : BitVec 32) (b : Board kb) :
    Board kb :=
  let (code, b) := b.lookUp pressed key
  let (goOn, b) := b.preprocessSecure pressed key now
  if !goOn then b
  else
    let (goOn, b) := b.processSecure code pressed now
    if !goOn then b else b.processRecordHandler pressed key

/-- The switch of a key closes if it is open, and opens if it is closed. -/
inductive BoardInput
  | switch (key : KeyPos) (now : BitVec 32)
  | lock
  | unlock (now : BitVec 32)
  | request (now : BitVec 32)
  | activity (now : BitVec 32)
  | task (now : BitVec 32)

def Board.setSwitch (key : KeyPos) (pressed : Bool) (b : Board kb) : Board kb :=
  { b with down := Function.update b.down key pressed }

def Board.step (b : Board kb) : BoardInput → Board kb
  | .switch key now => (b.setSwitch key (!b.down key)).processRecord (!b.down key) key now
  | .lock => b.secureLock
  | .unlock now => b.secureUnlock now
  | .request now => b.secureRequestUnlock now
  | .activity now => b.secureActivityEvent now
  | .task now => b.secureTask now

def Board.boot (kb : Keyboard) (defaultLayerState : Layers.LayerState kb.layers) : Board kb where
  secure := .initial
  report := Report.OneShot.boot
  layerState := 0
  defaultLayerState := defaultLayerState
  sourceLayersCache := fun _ _ => 0#8
  down := fun _ => false

/-! ## What is active -/

/-- A key code of the report, a bit of `real_mods` or a layer. -/
inductive Item
  | key (code : UInt8)
  | mod (bit : Nat)
  | layer (i : Nat)

def Board.active (b : Board kb) : Item → Prop
  | .key code => isKeyPressed kb.nkro b.report.reports code = true
  | .mod bit => b.report.realMods.toBitVec.getLsbD bit = true
  | .layer i => b.layerState.getLsbD i = true

/-- What a press of the code registers. -/
def Code.gives : Code → Item → Prop
  | .basic code, .key other => Report.OneShot.isBasicKeycode code = true ∧ other = code
  | .basic code, .mod bit =>
      Report.OneShot.isBasicKeycode code = false ∧ Report.OneShot.isModifierKeycode code = true ∧
        (Report.OneShot.modBit code).toBitVec.getLsbD bit = true
  | .momentary layer, .layer i => i = layer.toNat
  | _, _ => False

/-- The code that the key was looked up as when it went down. -/
def Board.heldCode (b : Board kb) (key : KeyPos) : Code :=
  keymapKeyToKeycode kb (Layers.readSourceLayersCache kb.layers key b.sourceLayersCache) key

/-- What is active is given by a key that is down, and nothing is active while the unlock is
pending. -/
structure Board.Inv (b : Board kb) : Prop where
  held : ∀ item, b.active item → ∃ key, b.down key = true ∧ (b.heldCode key).gives item
  pending : b.secure.secureStatus = .pending → ∀ item, ¬b.active item

/-! ## Registering and unregistering -/

section Reports

variable {nkro : Bool} {code : UInt8} (t : Report.OneShot.State)

theorem sendKeyboardReport_reports :
    (Report.OneShot.sendKeyboardReport nkro t).reports = t.reports :=
  (Report.OneShot.sendKeyboardReport_spec nkro t).1

theorem sendKeyboardReport_realMods :
    (Report.OneShot.sendKeyboardReport nkro t).realMods = t.realMods :=
  (Report.OneShot.sendKeyboardReport_spec nkro t).2.1

theorem releasePressed_realMods :
    (Report.OneShot.releasePressed nkro code t).realMods = t.realMods := by
  rw [Report.OneShot.releasePressed]
  split_ifs
  · exact sendKeyboardReport_realMods _
  · rfl

theorem isKeyPressed_releasePressed {other : UInt8} (hrange : Report.InRange code)
    (h : isKeyPressed nkro (Report.OneShot.releasePressed nkro code t).reports other = true) :
    isKeyPressed nkro t.reports other = true := by
  rw [Report.OneShot.releasePressed] at h
  split_ifs at h
  · rw [sendKeyboardReport_reports] at h
    exact (isKeyPressed_del hrange h).2
  · exact h

end Reports

theorem layerBit (w n i : Nat) :
    ((1 : BitVec w) <<< n).getLsbD i = (decide (i = n) && decide (n < w)) := by
  have htwo : (1 : BitVec w) <<< n = BitVec.twoPow w n := by
    simp [BitVec.twoPow]
  rw [htwo, BitVec.getLsbD_twoPow, Bool.and_comm]
  congr 1
  exact decide_eq_decide.mpr eq_comm

theorem active_press {b : Board kb} {code : Code} {item : Item}
    (h : (b.processAction code true).active item) : code.gives item ∨ b.active item := by
  cases code with
  | transparent => exact .inr h
  | secure key => exact .inr h
  | momentary layer =>
      cases item with
      | key code => exact .inr h
      | mod bit => exact .inr h
      | layer i =>
          have hbit : ((b.layerState ||| ((1 : Layers.LayerState kb.layers) <<< layer.toNat)).getLsbD
              i) = true := h
          rw [BitVec.getLsbD_or, Bool.or_eq_true, layerBit, Bool.and_eq_true] at hbit
          refine hbit.symm.imp (fun hnew => ?_) id
          have heq : i = layer.toNat := of_decide_eq_true hnew.1
          exact heq
  | basic code =>
      simp only [Board.processAction, if_true, Report.OneShot.registerCode] at h
      split_ifs at h with hzero hbasic hmod
      · exact .inr h
      · have hrange := (Report.OneShot.isBasicKeycode_inRange hbasic).2
        cases item with
        | layer i => exact .inr h
        | mod bit =>
            simp only [Board.active, sendKeyboardReport_realMods, Report.OneShot.addKey,
              releasePressed_realMods] at h
            exact .inr h
        | key other =>
            simp only [Board.active, sendKeyboardReport_reports, Report.OneShot.addKey] at h
            refine (isKeyPressed_add hrange h).imp (fun heq => ⟨hbasic, heq⟩) fun hold => ?_
            exact isKeyPressed_releasePressed b.report hrange hold
      · cases item with
        | layer i => exact .inr h
        | key other =>
            simp only [Board.active, sendKeyboardReport_reports, Report.OneShot.addMods] at h
            exact .inr h
        | mod bit =>
            simp only [Board.active, sendKeyboardReport_realMods, Report.OneShot.addMods,
              UInt8.toBitVec_or, BitVec.getLsbD_or, Bool.or_eq_true] at h
            have hother : Report.OneShot.isBasicKeycode code = false :=
              Bool.eq_false_iff.mpr hbasic
            exact h.symm.imp (fun hnew => ⟨hother, hmod, hnew⟩) id
      · exact .inr h

theorem active_release {b : Board kb} {code : Code} {item : Item}
    (h : (b.processAction code false).active item) : ¬code.gives item ∧ b.active item := by
  cases code with
  | transparent => exact ⟨fun hgives => hgives, h⟩
  | secure key => exact ⟨fun hgives => hgives, h⟩
  | momentary layer =>
      cases item with
      | key code => exact ⟨fun hgives => hgives, h⟩
      | mod bit => exact ⟨fun hgives => hgives, h⟩
      | layer i =>
          have hbit : ((b.layerState &&& ~~~((1 : Layers.LayerState kb.layers) <<<
              layer.toNat)).getLsbD i) = true := h
          rw [BitVec.getLsbD_and, Bool.and_eq_true, BitVec.getLsbD_not, layerBit] at hbit
          refine ⟨fun hgives => ?_, hbit.1⟩
          have hin : i < 2 ^ kb.layers.layerBits := BitVec.lt_of_getLsbD hbit.1
          have heq : i = layer.toNat := hgives
          rw [← heq] at hbit
          simp [hin] at hbit
  | basic code =>
      simp only [Board.processAction, Bool.false_eq_true, if_false,
        Report.OneShot.unregisterCode] at h
      split_ifs at h with hzero hbasic hmod
      · subst hzero
        cases item with
        | layer i => exact ⟨fun hgives => hgives, h⟩
        | key other => exact ⟨fun hgives => absurd hgives.1 (by decide), h⟩
        | mod bit => exact ⟨fun hgives => absurd hgives.2.1 (by decide), h⟩
      · have hrange := (Report.OneShot.isBasicKeycode_inRange hbasic).2
        cases item with
        | layer i => exact ⟨fun hgives => hgives, h⟩
        | mod bit =>
            simp only [Board.active, sendKeyboardReport_realMods, Report.OneShot.delKey] at h
            refine ⟨fun hgives => ?_, h⟩
            have hother : Report.OneShot.isBasicKeycode code = false := hgives.1
            rw [hbasic] at hother
            exact Bool.noConfusion hother
        | key other =>
            simp only [Board.active, sendKeyboardReport_reports, Report.OneShot.delKey] at h
            obtain ⟨hne, hold⟩ := isKeyPressed_del hrange h
            exact ⟨fun hgives => hne hgives.2, hold⟩
      · cases item with
        | layer i => exact ⟨fun hgives => hgives, h⟩
        | key other =>
            simp only [Board.active, sendKeyboardReport_reports, Report.OneShot.delMods] at h
            exact ⟨fun hgives => hbasic hgives.1, h⟩
        | mod bit =>
            simp only [Board.active, sendKeyboardReport_realMods, Report.OneShot.delMods,
              UInt8.toBitVec_and, UInt8.toBitVec_not, BitVec.getLsbD_and, Bool.and_eq_true,
              BitVec.getLsbD_not, Bool.not_eq_true'] at h
            refine ⟨fun hgives => ?_, h.1⟩
            rw [hgives.2.2] at h
            exact Bool.noConfusion h.2.2
      · cases item with
        | layer i => exact ⟨fun hgives => hgives, h⟩
        | key other => exact ⟨fun hgives => hbasic hgives.1, h⟩
        | mod bit => exact ⟨fun hgives => hmod hgives.2.1, h⟩

theorem not_active_cleared (b : Board kb) (item : Item) :
    ¬b.clearKeyboard.layerClear.active item := by
  intro h
  cases item with
  | layer i => simp [Board.active, Board.layerClear] at h
  | key code =>
      simp only [Board.active, Board.layerClear, Board.clearKeyboard,
        sendKeyboardReport_reports, isKeyPressed_clear] at h
      exact Bool.noConfusion h
  | mod bit =>
      simp [Board.active, Board.layerClear, Board.clearKeyboard,
        sendKeyboardReport_realMods] at h

/-! ## One record -/

variable {b : Board kb} {key other : KeyPos} {pressed : Bool} {code : Code} {now : BitVec 32}

theorem Board.topLayer_lt (b : Board kb) (key : KeyPos) {i : Nat} (hi : i ≤ kb.layers.maxLayer) :
    (b.topLayer key i).toNat < 2 ^ kb.layers.layerBits := by
  induction i with
  | zero => exact Nat.two_pow_pos _
  | succ i ih =>
      rw [Board.topLayer]
      split_ifs
      · have hmax := kb.layers.maxLayer_le
        exact Nat.lt_of_le_of_lt (Nat.mod_le _ _) (by omega)
      · exact ih (by omega)

theorem lookUp_eq (pressed : Bool) (key : KeyPos) (b : Board kb) :
    ∃ cache, (b.lookUp pressed key).2 = { b with sourceLayersCache := cache } := by
  cases pressed with
  | false => exact ⟨b.sourceLayersCache, rfl⟩
  | true => exact ⟨_, rfl⟩

theorem heldCode_lookUp_self : (b.lookUp true key).2.heldCode key = (b.lookUp true key).1 := by
  by_cases hkey : kb.layers.InMatrix key
  · have hread := Layers.readSourceLayersCache_self hkey (b.topLayer_lt key Nat.le.refl)
      b.sourceLayersCache
    exact congrArg (keymapKeyToKeycode kb · key) hread
  · have hnone : ∀ layer, keymapKeyToKeycode kb layer key = .basic 0 := fun layer => if_neg hkey
    exact (hnone _).trans (hnone _).symm

theorem heldCode_lookUp_of_ne (h : other ≠ key) :
    (b.lookUp pressed key).2.heldCode other = b.heldCode other := by
  cases pressed with
  | false => rfl
  | true =>
      have hread := @Layers.readSourceLayersCache_of_ne kb.layers key other h
        (b.layerSwitchGetLayer key) b.sourceLayersCache
      exact congrArg (keymapKeyToKeycode kb · other) hread

theorem processAction_spec :
    (b.processAction code pressed).secure = b.secure ∧
      (b.processAction code pressed).down = b.down ∧
      (b.processAction code pressed).sourceLayersCache = b.sourceLayersCache := by
  cases code with
  | basic code => cases pressed with
    | false => exact ⟨rfl, rfl, rfl⟩
    | true => exact ⟨rfl, rfl, rfl⟩
  | momentary layer => cases pressed with
    | false => exact ⟨rfl, rfl, rfl⟩
    | true => exact ⟨rfl, rfl, rfl⟩
  | secure key => exact ⟨rfl, rfl, rfl⟩
  | transparent => exact ⟨rfl, rfl, rfl⟩

theorem heldCode_congr {b' : Board kb} (h : b'.sourceLayersCache = b.sourceLayersCache) :
    b'.heldCode key = b.heldCode key := by
  rw [Board.heldCode, Board.heldCode, h]

theorem processSecure_below {s : State} {keycode : Nat} (h : keycode < qkSecureLock) :
    Secure.processSecure keycode pressed now s = (true, s) := by
  have hunlock : keycode ≠ qkSecureUnlock := Nat.ne_of_lt (Nat.lt_trans h (by decide))
  have htoggle : keycode ≠ qkSecureToggle := Nat.ne_of_lt (Nat.lt_trans h (by decide))
  have hrequest : keycode ≠ qkSecureRequest := Nat.ne_of_lt (Nat.lt_trans h (by decide))
  rw [Secure.processSecure, if_neg (Nat.ne_of_lt h), if_neg hunlock, if_neg htoggle,
    if_neg hrequest, ite_self]

/-- Only a key of `process_secure.c` is handled there, and it registers nothing. -/
theorem not_gives_of_handled {s : State} {item : Item}
    (h : (Secure.processSecure code.keycode pressed now s).1 = false) : ¬code.gives item := by
  cases code with
  | secure key => exact fun hgives => hgives
  | transparent => exact fun hgives => hgives
  | basic code =>
      have hlt : code.toNat < qkSecureLock := Nat.lt_trans code.toNat_lt (by decide)
      rw [Code.keycode, processSecure_below hlt] at h
      exact Bool.noConfusion h
  | momentary layer =>
      have hlt : 0x5220 + layer.toNat < qkSecureLock :=
        Nat.lt_trans (Nat.add_lt_add_left layer.isLt _) (by decide)
      rw [Code.keycode, processSecure_below hlt] at h
      exact Bool.noConfusion h

theorem processSecure_unhandled {s : State} {keycode : Nat}
    (h : (Secure.processSecure keycode pressed now s).1 = true) :
    (Secure.processSecure keycode pressed now s).2 = s := by
  unfold Secure.processSecure at h ⊢
  split_ifs at h ⊢ <;> rfl

theorem processSecure_press {s : State} {keycode : Nat} :
    Secure.processSecure keycode true now s = (true, s) := if_pos rfl

/-! ## The invariant -/

theorem Board.Inv.boot (defaultLayerState : Layers.LayerState kb.layers) :
    (Board.boot kb defaultLayerState).Inv := by
  have hnone : ∀ item, ¬(Board.boot kb defaultLayerState).active item := by
    intro item h
    cases item with
    | layer i => simp [Board.active, Board.boot] at h
    | mod bit => simp [Board.active, Board.boot, Report.OneShot.boot] at h
    | key code =>
        have hclear : isKeyPressed kb.nkro (clearKeysFromReport kb.nkro Report.Reports.empty)
            code = false := isKeyPressed_clear
        have hempty : clearKeysFromReport kb.nkro Report.Reports.empty =
            Report.Reports.empty := by
          cases kb.nkro with
          | false => rfl
          | true => rfl
        rw [hempty] at hclear
        exact Bool.noConfusion (hclear.symm.trans h)
  exact ⟨fun item hactive => absurd hactive (hnone item), fun _ => hnone⟩

theorem Board.Inv.hook
    (h : ∀ item, b.active item → ∃ key, b.down key = true ∧ (b.heldCode key).gives item) :
    b.secureHookQuantum.Inv := by
  rw [Board.secureHookQuantum]
  split_ifs with hpending
  · exact ⟨fun item hactive => absurd hactive (not_active_cleared b item),
      fun _ => not_active_cleared b⟩
  · exact ⟨h, fun hother => absurd hother hpending⟩

theorem Board.Inv.setSecure (h : b.Inv) {s : State}
    (hs : s.secureStatus = .pending → b.secure.secureStatus = .pending) :
    { b with secure := s }.Inv :=
  ⟨h.held, fun hpending => h.pending (hs hpending)⟩

theorem secureTask_pending {cfg : Config} {s : State}
    (h : (Secure.secureTask cfg now s).secureStatus = .pending) :
    s.secureStatus = .pending := by
  simp only [Secure.secureTask, idleTimeoutTask, unlockTimeoutTask, Secure.secureLock] at h
  split_ifs at h
  exact h

/-- What is active is given by a key that is down, another one than this. -/
def Board.HeldBut (b : Board kb) (key : KeyPos) : Prop :=
  ∀ item, b.active item →
    ∃ other, other ≠ key ∧ b.down other = true ∧ (b.heldCode other).gives item

theorem Board.Inv.heldBut (h : b.Inv) (hup : b.down key = false) :
    (b.setSwitch key true).HeldBut key := by
  intro item hactive
  obtain ⟨other, hheld, hgives⟩ := h.held item hactive
  have hne : other ≠ key := by
    rintro rfl
    rw [hup] at hheld
    exact Bool.noConfusion hheld
  exact ⟨other, hne, (Function.update_of_ne hne _ _).trans hheld, hgives⟩

theorem Board.HeldBut.lookUp (h : b.HeldBut key) : (b.lookUp true key).2.HeldBut key := by
  intro item hactive
  obtain ⟨other, hne, hheld, hgives⟩ := h item hactive
  refine ⟨other, hne, hheld, ?_⟩
  rw [heldCode_lookUp_of_ne hne]
  exact hgives

theorem Board.HeldBut.press (h : b.HeldBut key) (hdown : b.down key = true)
    (hstatus : b.secure.secureStatus ≠ .pending) : (b.processRecordHandler true key).Inv := by
  have hlooked := h.lookUp
  have hself := @heldCode_lookUp_self kb b key
  obtain ⟨cache, hcache⟩ := lookUp_eq true key b
  rw [Board.processRecordHandler]
  generalize b.lookUp true key = found at *
  obtain ⟨code, b'⟩ := found
  simp only at hcache hself hlooked ⊢
  obtain ⟨hsecure, hswitches, hsame⟩ := @processAction_spec kb b' true code
  constructor
  · intro item hactive
    rcases active_press hactive with hgives | hold
    · refine ⟨key, ?_, ?_⟩
      · rw [hswitches, hcache]
        exact hdown
      · rw [heldCode_congr hsame, hself]
        exact hgives
    · obtain ⟨other, -, hheld, hgives⟩ := hlooked item hold
      refine ⟨other, ?_, ?_⟩
      · rw [hswitches]
        exact hheld
      · rw [heldCode_congr hsame]
        exact hgives
  · intro hpending
    rw [hsecure, hcache] at hpending
    exact absurd hpending hstatus

theorem Board.Inv.release (h : b.Inv) (hstatus : b.secure.secureStatus ≠ .pending) :
    ((b.setSwitch key false).processRecordHandler false key).Inv := by
  have hhandler : (b.setSwitch key false).processRecordHandler false key =
      (b.setSwitch key false).processAction (b.heldCode key) false := rfl
  obtain ⟨hsecure, hswitches, hsame⟩ :=
    @processAction_spec kb (b.setSwitch key false) false (b.heldCode key)
  rw [hhandler]
  constructor
  · intro item hactive
    obtain ⟨hreleased, hold⟩ := active_release hactive
    obtain ⟨other, hheld, hgives⟩ := h.held item hold
    have hne : other ≠ key := by
      rintro rfl
      exact hreleased hgives
    refine ⟨other, ?_, ?_⟩
    · rw [hswitches]
      exact (Function.update_of_ne hne _ _).trans hheld
    · rw [heldCode_congr hsame]
      exact hgives
  · intro hpending
    rw [hsecure] at hpending
    exact absurd hpending hstatus

theorem Board.Inv.swallowed (h : b.Inv) (hstatus : b.secure.secureStatus = .pending)
    {b' : Board kb} (hreport : b'.report = b.report) (hlayers : b'.layerState = b.layerState) :
    b'.Inv := by
  have hnone : ∀ item, ¬b'.active item := by
    intro item hactive
    refine h.pending hstatus item ?_
    cases item with
    | key code =>
        simp only [Board.active, hreport] at hactive
        exact hactive
    | mod bit =>
        simp only [Board.active, hreport] at hactive
        exact hactive
    | layer i =>
        simp only [Board.active, hlayers] at hactive
        exact hactive
  exact ⟨fun item hactive => absurd hactive (hnone item), fun _ => hnone⟩

theorem preprocessSecure_pass (h : b.secure.secureStatus ≠ .pending) :
    b.preprocessSecure pressed key now = (true, b) := by
  rw [Board.preprocessSecure, Secure.preprocessSecure, if_neg h]

theorem Board.Inv.switch_press (h : b.Inv) (hup : b.down key = false) :
    ((b.setSwitch key true).processRecord true key now).Inv := by
  obtain ⟨cache, hcache⟩ := lookUp_eq true key (b.setSwitch key true)
  have hlooked := (h.heldBut hup).lookUp
  rw [Board.processRecord]
  generalize (b.setSwitch key true).lookUp true key = found at *
  obtain ⟨code, b'⟩ := found
  simp only at hcache hlooked ⊢
  have hsecure : b'.secure = b.secure := by rw [hcache]; rfl
  by_cases hstatus : b.secure.secureStatus = .pending
  · simp only [Board.preprocessSecure, Secure.preprocessSecure, hsecure, hstatus, if_true,
      Bool.not_false]
    exact h.swallowed hstatus (by rw [hcache]; rfl) (by rw [hcache]; rfl)
  · have hopen : b'.secure.secureStatus ≠ .pending := by
      rw [hsecure]
      exact hstatus
    rw [preprocessSecure_pass hopen, Board.processSecure, processSecure_press]
    refine hlooked.press ?_ hopen
    rw [hcache]
    exact Function.update_self ..

theorem Board.Inv.switch_release (h : b.Inv) :
    ((b.setSwitch key false).processRecord false key now).Inv := by
  have hlook : (b.setSwitch key false).lookUp false key =
      (b.heldCode key, b.setSwitch key false) := rfl
  rw [Board.processRecord, hlook]
  by_cases hstatus : b.secure.secureStatus = .pending
  · simp only [Board.preprocessSecure, Secure.preprocessSecure, Board.setSwitch, hstatus, if_true,
      Bool.not_false]
    exact h.swallowed hstatus rfl rfl
  · have hopen : (b.setSwitch key false).secure.secureStatus ≠ .pending := hstatus
    simp only [preprocessSecure_pass hopen, Bool.not_true, Bool.false_eq_true, if_false]
    cases hhandled : (Secure.processSecure (b.heldCode key).keycode false now b.secure).1 with
    | true =>
        have hsecure := processSecure_unhandled hhandled
        have hgo : (b.setSwitch key false).processSecure (b.heldCode key) false now =
            (true, b.setSwitch key false) := by
          simp only [Board.processSecure, Board.setSwitch, hhandled, hsecure, if_true]
        rw [hgo]
        exact h.release hstatus
    | false =>
        have hgo : (b.setSwitch key false).processSecure (b.heldCode key) false now =
            (false, { b.setSwitch key false with
              secure := (Secure.processSecure (b.heldCode key).keycode false now
                b.secure).2 }.secureHookQuantum) := by
          simp only [Board.processSecure, Board.setSwitch, hhandled, Bool.false_eq_true, if_false]
        rw [hgo]
        refine Board.Inv.hook fun item hactive => ?_
        obtain ⟨other, hheld, hgives⟩ := h.held item hactive
        have hne : other ≠ key := by
          rintro rfl
          exact not_gives_of_handled hhandled hgives
        exact ⟨other, (Function.update_of_ne hne _ _).trans hheld, hgives⟩

theorem Board.Inv.step (h : b.Inv) (input : BoardInput) : (b.step input).Inv := by
  cases input with
  | lock => exact @Board.Inv.hook kb { b with secure := Secure.secureLock b.secure } h.held
  | unlock now =>
      exact @Board.Inv.hook kb { b with secure := Secure.secureUnlock now b.secure } h.held
  | request now =>
      exact @Board.Inv.hook kb { b with secure := Secure.secureRequestUnlock now b.secure } h.held
  | activity now =>
      refine h.setSecure fun hpending => ?_
      rw [Secure.secureActivityEvent] at hpending
      split_ifs at hpending <;> exact hpending
  | task now => exact h.setSecure secureTask_pending
  | switch key now =>
      rw [Board.step]
      cases hswitch : b.down key with
      | false => exact h.switch_press hswitch
      | true => exact h.switch_release

theorem Board.Inv.run (h : b.Inv) (inputs : List BoardInput) :
    (Lib.run Board.step b inputs).Inv := by
  induction inputs generalizing b with
  | nil => exact h
  | cons input inputs ih => exact ih (h.step input)

/-- Once every key is up, no key code, modifier or layer is active, whatever the status is. -/
theorem no_stuck_key (kb : Keyboard) (defaultLayerState : Layers.LayerState kb.layers)
    (inputs : List BoardInput)
    (hup : ∀ key, (Lib.run Board.step (.boot kb defaultLayerState) inputs).down key = false)
    (item : Item) :
    ¬(Lib.run Board.step (.boot kb defaultLayerState) inputs).active item := by
  intro hactive
  have hinv := (Board.Inv.boot defaultLayerState).run inputs
  obtain ⟨key, hdown, -⟩ := hinv.held item hactive
  rw [hup key] at hdown
  exact Bool.noConfusion hdown

/-! ## The switches -/

theorem secureHookQuantum_down : b.secureHookQuantum.down = b.down := by
  rw [Board.secureHookQuantum]
  split_ifs <;> rfl

theorem lookUp_down : (b.lookUp pressed key).2.down = b.down := by
  obtain ⟨cache, hcache⟩ := lookUp_eq pressed key b
  rw [hcache]

theorem processSecure_down : (b.processSecure code pressed now).2.down = b.down := by
  simp only [Board.processSecure]
  split_ifs
  · rfl
  · exact secureHookQuantum_down

theorem processRecordHandler_down : (b.processRecordHandler pressed key).down = b.down := by
  rw [Board.processRecordHandler, processAction_spec.2.1, lookUp_down]

theorem processRecord_down : (b.processRecord pressed key now).down = b.down := by
  simp only [Board.processRecord]
  split_ifs
  · exact lookUp_down
  · exact processSecure_down.trans lookUp_down
  · exact processRecordHandler_down.trans (processSecure_down.trans lookUp_down)

theorem step_switch_down :
    (b.step (.switch key now)).down = Function.update b.down key (!b.down key) :=
  processRecord_down

theorem step_request_down : (b.step (.request now)).down = b.down := secureHookQuantum_down

/-- One row of two keys of `KC_A`, and the default unlock sequence. -/
def twoLetters : Keyboard where
  secure := ⟨5000, 60000, [(0, 0)], by simp⟩
  layers := Layers.oneRow
  keymap := fun _ _ => .basic 0x04
  nkro := false

/-- A key that goes down before a request and comes up after the other one has locked the keyboard
again. -/
def heldOverPending : List BoardInput :=
  [.switch ⟨0, 0⟩ 0, .request 1, .switch ⟨1, 0⟩ 2, .switch ⟨0, 0⟩ 3, .switch ⟨1, 0⟩ 4]

theorem no_stuck_key_heldOverPending :
    ¬(Lib.run Board.step (.boot twoLetters 1) heldOverPending).active (.key 0x04) := by
  refine no_stuck_key twoLetters 1 heldOverPending (fun key => ?_) (.key 0x04)
  simp only [heldOverPending, run_cons, run_nil, step_switch_down, step_request_down, Board.boot]
  by_cases hfirst : key = ⟨0, 0⟩
  · subst hfirst
    rfl
  · by_cases hsecond : key = ⟨1, 0⟩
    · subst hsecond
      rfl
    · simp [Function.update_of_ne hfirst, Function.update_of_ne hsecond]

end Qmk.Secure
