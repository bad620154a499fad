import Mathlib.Tactic.Common
import Qmk.Action.Records

/-!
# One-shot layers

A one-shot layer is tapped, and a key uses it up.  The layers are seen apart from the rest of the
board, with what the tap and the key make of them.
-/

namespace Qmk.Action

open Tapping (KeyRecord actionKindId actionKeyMods actionKeyCode isModifierKeycode)

/-- The layers and the one-shot layer of a board. -/
structure Layers (w : Nat) where
  state : BitVec w
  oneshot : BitVec 8
  enable : Bool

namespace Layers

variable {w : Nat}

def on (n : Nat) (l : Layers w) : Layers w := { l with state := l.state ||| BitVec.twoPow w n }

def off (n : Nat) (l : Layers w) : Layers w := { l with state := l.state &&& ~~~BitVec.twoPow w n }

def start (n : Nat) (l : Layers w) : Layers w :=
  if l.enable then { l.on n with oneshot := BitVec.ofNat 8 n <<< 3 ||| 0b11 } else l.on n

def clear (bits : BitVec 8) (l : Layers w) : Layers w :=
  let data := l.oneshot &&& ~~~bits
  if data &&& 0b111 = 0 ∧ l.oneshot ≠ data ∧ l.enable = true then
    { l.off (data >>> 3).toNat with oneshot := 0 }
  else { l with oneshot := data }

/-- Another key is pressed. -/
def other (l : Layers w) : Layers w := if l.enable then l.clear 0b10 else l

/-- The one-shot layer waits for another key, and its own is up. -/
def Pending (l : Layers w) : Prop := l.enable = true ∧ l.oneshot &&& 0b111 = 0b10

/-- The one-shot layer has been locked by taps. -/
def Locked (l : Layers w) : Prop := l.enable = true ∧ l.oneshot &&& 0b111 = 0b100

instance (l : Layers w) : Decidable l.Pending := inferInstanceAs (Decidable (_ ∧ _))

instance (l : Layers w) : Decidable l.Locked := inferInstanceAs (Decidable (_ ∧ _))

/-- The press of `OSL(n)`; `toggles` is whether taps can lock its layer. -/
def press (toggles : Bool) (n : Nat) (l : Layers w) : Layers w :=
  if toggles = true ∧ l.other.Locked then { l.other.off n with oneshot := 0 } else l.other.start n

/-- The release of `OSL(n)` after a tap. -/
def release (n : Nat) (l : Layers w) : Layers w := if l.enable then l.clear 0b01 else l.off n

/-- An ordinary key is pressed, and released if it uses up the one-shot layer. -/
def use (l : Layers w) : Layers w := if l.Pending then (l.other.on 0).off 0 else l.other

/-! ## The bits -/

theorem and_and_eq_self_iff (state mask other : BitVec w) :
    state &&& mask &&& other = state ↔ state &&& mask = state ∧ state &&& other = state := by
  constructor
  · intro h
    have hmask : state &&& mask &&& other &&& mask = state &&& mask &&& other := by
      rw [BitVec.and_assoc, BitVec.and_comm other mask, ← BitVec.and_assoc,
        BitVec.and_assoc state mask mask, BitVec.and_self]
    have hother : state &&& mask &&& other &&& other = state &&& mask &&& other := by
      rw [BitVec.and_assoc, BitVec.and_self]
    rw [h] at hmask hother
    exact ⟨hmask, hother⟩
  · rintro ⟨hmask, hother⟩
    rw [hmask, hother]

theorem andNot_eq_self_iff (state : BitVec w) (n : Nat) :
    state &&& ~~~BitVec.twoPow w n = state ↔ state.getLsbD n = false := by
  rw [BitVec.eq_of_getLsbD_eq_iff]
  constructor
  · intro h
    by_cases hn : n < w
    · simpa [hn] using h n hn
    · exact BitVec.getLsbD_of_ge state n (Nat.le_of_not_lt hn)
  · intro h i hi
    by_cases hin : n = i
    · subst hin
      simp [h]
    · simp [hi, Ne.symm hin]

theorem or_andNot (state bit : BitVec w) : (state ||| bit) &&& ~~~bit = state &&& ~~~bit := by
  ext k
  simp only [BitVec.getElem_and, BitVec.getElem_or, BitVec.getElem_not]
  cases state[k] <;> cases bit[k] <;> rfl

theorem tapped_word {n : Nat} (hn : n < 32) :
    let data := (BitVec.ofNat 8 n <<< 3 ||| 0b11) &&& ~~~0b01
    data &&& 0b111 = 0b10 ∧ data &&& ~~~0b10 &&& 0b111 = 0 ∧ data ≠ data &&& ~~~0b10 ∧
      ((data &&& ~~~0b10) >>> 3).toNat = n := by
  revert n
  decide

/-! ## A tap and a key -/

theorem clear_ends {bits oneshot : BitVec 8} {enable : Bool} (state : BitVec w)
    (hnone : oneshot &&& ~~~bits &&& 0b111 = 0) (hne : oneshot ≠ oneshot &&& ~~~bits)
    (henable : enable = true) : (Layers.mk state oneshot enable).clear bits =
      ⟨state &&& ~~~BitVec.twoPow w ((oneshot &&& ~~~bits) >>> 3).toNat, 0, enable⟩ :=
  if_pos ⟨hnone, hne, henable⟩

theorem clear_stays {bits oneshot : BitVec 8} (state : BitVec w) (enable : Bool)
    (h : oneshot &&& ~~~bits &&& 0b111 ≠ 0 ∨ oneshot &&& ~~~bits = oneshot) :
    (Layers.mk state oneshot enable).clear bits = ⟨state, oneshot &&& ~~~bits, enable⟩ :=
  if_neg fun hends => h.elim (· hends.1) (hends.2.1 ·.symm)

theorem zero_word : (0 : BitVec 8) &&& 0b111 ≠ 0b10 ∧ (0 : BitVec 8) &&& 0b111 ≠ 0b100 := by decide

@[simp] theorem clear_enable (bits : BitVec 8) (l : Layers w) : (l.clear bits).enable = l.enable := by
  unfold clear
  dsimp only
  split <;> rfl

@[simp] theorem other_enable (l : Layers w) : l.other.enable = l.enable := by
  unfold other
  split
  · exact clear_enable _ _
  · rfl

theorem other_pending {l : Layers w} (h : l.Pending) :
    l.other = ⟨l.state &&& ~~~BitVec.twoPow w (l.oneshot >>> 3).toNat, 0, l.enable⟩ := by
  obtain ⟨hnone, hne, hlayer⟩ := pending_word l.oneshot h.2
  rw [other, if_pos h.1, ← hlayer]
  exact clear_ends l.state hnone hne h.1

theorem other_of_not_pending {l : Layers w} (henable : l.enable = true) (h : ¬ l.Pending) :
    l.other = ⟨l.state, l.oneshot &&& ~~~0b10, l.enable⟩ := by
  rw [other, if_pos henable]
  by_cases hnone : l.oneshot &&& 0b111 = 0
  · exact clear_stays _ _ (.inr (inactive_word l.oneshot hnone))
  · exact clear_stays _ _ (.inl (active_word l.oneshot hnone fun hstate => h ⟨henable, hstate⟩))

theorem start_enabled (n : Nat) {l : Layers w} (henable : l.enable = true) :
    l.start n = ⟨l.state ||| BitVec.twoPow w n, BitVec.ofNat 8 n <<< 3 ||| 0b11, l.enable⟩ :=
  if_pos henable

/-- A tap and a key switch the one-shot layer off, and layer 0 with it. -/
theorem tap_use {n : Nat} (hn : n < 32) {l : Layers w} (henable : l.enable = true) :
    ((l.start n).release n).use.state =
      l.state &&& ~~~BitVec.twoPow w n &&& ~~~BitVec.twoPow w 0 := by
  obtain ⟨hpending, hnone, hne, hlayer⟩ := tapped_word hn
  have htapped : (l.start n).release n =
      ⟨l.state ||| BitVec.twoPow w n, (BitVec.ofNat 8 n <<< 3 ||| 0b11) &&& ~~~0b01, l.enable⟩ := by
    rw [start_enabled n henable, release]
    refine (if_pos henable).trans (clear_stays _ _ (.inl fun hzero => ?_))
    exact absurd (hpending.symm.trans hzero) (by decide)
  have huse : ((l.start n).release n).Pending := by
    rw [htapped]
    exact ⟨henable, hpending⟩
  have hother : ((l.start n).release n).other =
      ⟨(l.state ||| BitVec.twoPow w n) &&& ~~~BitVec.twoPow w n, 0, l.enable⟩ := by
    rw [htapped, other]
    refine (if_pos henable).trans ?_
    rw [clear_ends _ hnone hne henable, hlayer]
  rw [use, if_pos huse, hother]
  simp only [on, off, or_andNot]

theorem tap_use_disabled (n : Nat) {l : Layers w} (hdisabled : l.enable = false) :
    ((l.start n).release n).use.state = l.state &&& ~~~BitVec.twoPow w n := by
  have hoff : ¬ l.enable = true := by rw [hdisabled]; exact Bool.false_ne_true
  have htapped : (l.start n).release n = (l.on n).off n := by
    rw [start, if_neg hoff, release]
    exact if_neg hoff
  have huse : ¬ ((l.on n).off n).Pending := fun hpending => hoff hpending.1
  have hother : ((l.on n).off n).other = (l.on n).off n := by
    rw [other]
    exact if_neg hoff
  rw [htapped, use, if_neg huse, hother]
  simp only [on, off, or_andNot]

/-- The tap of a locked layer ends it, and the key has nothing to use up. -/
theorem tap_use_locked (n : Nat) (state : BitVec w) {enable : Bool} (henable : enable = true) :
    ((Layers.mk state 0 enable).release n).use.state = state := by
  have hreleased : (Layers.mk state 0 enable).release n = ⟨state, 0, enable⟩ := by
    rw [release]
    exact (if_pos henable).trans (clear_stays _ _ (.inr rfl))
  have huse : ¬ (Layers.mk state 0 enable).Pending := fun hpending => zero_word.1 hpending.2
  rw [hreleased, use, if_neg huse, other_of_not_pending henable huse]

/-- The layers are as before the tap: the bit of the layer was clear, and so was bit 0, if the key
ends the one-shot layer, and the bit of the layer that was pending. -/
def Restores (toggles : Bool) (n : Nat) (l : Layers w) : Prop :=
  l.state.getLsbD n = false ∧
    (l.enable = true → ¬ (toggles = true ∧ l.other.Locked) → l.state.getLsbD 0 = false) ∧
    (l.Pending → l.state.getLsbD (l.oneshot >>> 3).toNat = false)

theorem restores_iff (toggles : Bool) {n : Nat} (hn : n < 32) (l : Layers w) :
    ((l.press toggles n).release n).use.state = l.state ↔ l.Restores toggles n := by
  unfold Restores
  by_cases henable : l.enable = true
  · have hother : l.other.enable = true := by rwa [other_enable]
    by_cases hlocked : toggles = true ∧ l.other.Locked
    · have hpending : ¬ l.Pending := fun hpending => by
        have hword := hlocked.2.2
        rw [other_pending hpending] at hword
        exact zero_word.2 hword
      have hpress : l.press toggles n = ⟨(l.other.off n).state, 0, l.other.enable⟩ :=
        if_pos hlocked
      have hstate : l.other.state = l.state := by rw [other_of_not_pending henable hpending]
      rw [hpress, tap_use_locked n _ hother, off, hstate, andNot_eq_self_iff]
      simp [hlocked, hpending]
    · have hpress : l.press toggles n = l.other.start n := if_neg hlocked
      rw [hpress, tap_use hn hother]
      by_cases hpending : l.Pending
      · have hstate : l.other.state =
            l.state &&& ~~~BitVec.twoPow w (l.oneshot >>> 3).toNat := by
          rw [other_pending hpending]
        rw [hstate, BitVec.and_assoc (_ &&& _), and_and_eq_self_iff, ← BitVec.and_assoc,
          and_and_eq_self_iff, andNot_eq_self_iff, andNot_eq_self_iff, andNot_eq_self_iff]
        simp only [henable, hlocked, hpending, not_false_eq_true, forall_const]
        exact ⟨fun h => ⟨h.2.1, h.2.2, h.1⟩, fun h => ⟨h.2.2, h.1, h.2.1⟩⟩
      · have hstate : l.other.state = l.state := by rw [other_of_not_pending henable hpending]
        rw [hstate, and_and_eq_self_iff, andNot_eq_self_iff, andNot_eq_self_iff]
        simp only [henable, hlocked, hpending, not_false_eq_true, forall_const, IsEmpty.forall_iff,
          and_true]
  · have hdisabled : l.enable = false := Bool.not_eq_true _ ▸ henable
    have hother : l.other = l := if_neg henable
    have hlocked : ¬ (toggles = true ∧ l.other.Locked) := fun h => henable (hother ▸ h.2.1)
    have hpress : l.press toggles n = l.other.start n := if_neg hlocked
    have hpending : ¬ l.Pending := fun h => henable h.1
    rw [hpress, hother, tap_use_disabled n hdisabled, andNot_eq_self_iff]
    simp [hdisabled, hpending]

end Layers

variable {w : Nat} {ρ : Type}

def Board.layers (board : Board w ρ) : Layers w :=
  ⟨board.layerState, board.oneshotLayerData, board.oneshotEnable⟩

/-- One-shot layers are built in. -/
structure OneshotBuild (fw : Firmware w ρ) : Prop where
  layer : fw.noActionLayer = false
  tapping : fw.noActionTapping = false
  oneshot : fw.noActionOneshot = false

/-- Nothing but the actions of keys changes the layers. -/
structure NoLayerOperations (fw : Firmware w ρ) : Prop where
  hooks : ∀ state, fw.layerStateSetHooks state = state
  quantum : ∀ board record, (fw.processRecordQuantum board record).2.layers = board.layers
  post : ∀ board record, (fw.postProcessRecordQuantum board record).layers = board.layers

/-- `OSL(n)`. -/
structure IsOneshotLayer (n : Nat) (action : UInt16) : Prop where
  kind : isActLayerTap action = true
  code : actionKeyCode action = 0xF4
  layer : layerTapVal action = n

/-- A key with or without modifiers, a system or consumer usage, or a mouse key. -/
def Ordinary (action : UInt16) : Prop :=
  isActUsage action = true ∨
    (isActMods action = true ∨ isActMousekey action = true) ∧
      isModifierKeycode (actionKeyCode action) = false

section Functions

variable (fw : Firmware w ρ)

@[simp] theorem perform_layers (call : Call) (board : Board w ρ) :
    (board.perform fw call).layers = board.layers := rfl

@[simp] theorem useOneshotSwaphands_layers (board : Board w ρ) :
    (useOneshotSwaphands board).layers = board.layers := by
  unfold useOneshotSwaphands
  split <;> rfl

theorem processModsKey_layers (pressed : Bool) (action : UInt16) (board : Board w ρ) :
    (processModsKey fw pressed action board).layers = board.layers := by
  unfold processModsKey
  split <;> dsimp only <;> split <;> simp only [perform_layers]

theorem processUsage_layers (pressed : Bool) (action : UInt16) (board : Board w ρ) :
    (processUsage fw pressed action board).layers = board.layers := by
  unfold processUsage
  dsimp only
  split_ifs <;> rfl

end Functions

variable {fw : Firmware w ρ}

theorem layerOn_layers (hbuild : OneshotBuild fw) (hfw : NoLayerOperations fw) (n : Nat)
    (board : Board w ρ) : (layerOn fw n board).layers = board.layers.on n := by
  simp [layerOn, layerStateSet, hbuild.layer, hfw.hooks, Board.layers, Layers.on, Board.perform]

theorem layerOff_layers (hbuild : OneshotBuild fw) (hfw : NoLayerOperations fw) (n : Nat)
    (board : Board w ρ) : (layerOff fw n board).layers = board.layers.off n := by
  simp [layerOff, layerStateSet, hbuild.layer, hfw.hooks, Board.layers, Layers.off, Board.perform]

theorem setOneshotLayer_layers (hbuild : OneshotBuild fw) (hfw : NoLayerOperations fw) (n : Nat)
    (board : Board w ρ) :
    (setOneshotLayer fw n oneshotStart board).layers = board.layers.start n := by
  unfold setOneshotLayer Layers.start
  by_cases henable : board.oneshotEnable = true
  · have henable' : board.layers.enable = true := henable
    rw [if_pos henable, if_pos henable', perform_layers, layerOn_layers hbuild hfw]
    rfl
  · have henable' : ¬ board.layers.enable = true := henable
    rw [if_neg henable, if_neg henable', layerOn_layers hbuild hfw]

theorem clearOneshotLayerState_layers (hbuild : OneshotBuild fw) (hfw : NoLayerOperations fw)
    (bits : BitVec 8) (board : Board w ρ) :
    (clearOneshotLayerState fw bits board).layers = board.layers.clear bits := by
  unfold clearOneshotLayerState Layers.clear
  dsimp only
  by_cases hends : board.oneshotLayerData &&& ~~~bits &&& 0b111 = 0 ∧
      board.oneshotLayerData ≠ board.oneshotLayerData &&& ~~~bits ∧ board.oneshotEnable = true
  · refine (congrArg Board.layers (if_pos hends)).trans (Eq.trans ?_ (if_pos hends).symm)
    have hoff := layerOff_layers hbuild hfw
      ((board.oneshotLayerData &&& ~~~bits) >>> 3).toNat
      { board with oneshotLayerData := board.oneshotLayerData &&& ~~~bits }
    exact congrArg (fun l : Layers w => { l with oneshot := 0 }) hoff
  · exact (congrArg Board.layers (if_neg hends)).trans (if_neg hends).symm

/-! ## The actions -/

theorem used_layers (hbuild : OneshotBuild fw) (hfw : NoLayerOperations fw) {record : KeyRecord}
    {action : UInt16} {board : Board w ρ}
    (huses : usesOneshotLayer fw record action board =
      (isOneshotLayerActive board && board.oneshotEnable)) :
    (board.used fw record action).layers = board.layers.other := by
  have hclear := clearOneshotLayerState_layers hbuild hfw oneshotOtherKeyPressed board
  unfold Board.used
  cases henable : board.oneshotEnable with
  | false =>
      have hoff : ¬ board.layers.enable = true := fun hon =>
        Bool.false_ne_true (henable.symm.trans hon)
      rw [huses, henable, Bool.and_false, if_neg Bool.false_ne_true, Layers.other, if_neg hoff]
  | true =>
      have hon : board.layers.enable = true := henable
      cases hactive : isOneshotLayerActive board with
      | true =>
          rw [huses, henable, hactive, Layers.other, if_pos hon]
          exact hclear
      | false =>
          have hnone : getOneshotLayerState board = 0 := by
            simpa [isOneshotLayerActive] using hactive
          have hpending : ¬ board.layers.Pending := fun h =>
            absurd (hnone.symm.trans h.2) (by decide)
          have hsame : board.layers.oneshot &&& ~~~0b10 = board.layers.oneshot :=
            inactive_word _ hnone
          rw [huses, hactive, Layers.other_of_not_pending hon hpending, hsame]
          rfl

theorem actionBody_layers (board : Board w ρ) (record : KeyRecord) (action : UInt16) :
    (actionBody fw board record action).board.layers =
      (processKind fw record action (board.used fw record action)).1.layers := by
  unfold actionBody
  dsimp only
  split_ifs <;> simp only [perform_layers, useOneshotSwaphands_layers]

theorem actionBody_record (board : Board w ρ) (record : KeyRecord) (action : UInt16) :
    (actionBody fw board record action).record =
      (processKind fw record action (board.used fw record action)).2 := rfl

theorem actionBody_layerAction {action : UInt16} (hlayer : isLayerAction fw action = true)
    (board : Board w ρ) (record : KeyRecord) :
    (actionBody fw board record action).release = false := by
  simp [actionBody, hlayer]

theorem kinds_of_layerTap {action : UInt16} (h : isActLayerTap action = true) :
    isActMods action = false ∧ isActModsTap action = false ∧ isActUsage action = false ∧
      isActMousekey action = false ∧ isActLayer action = false ∧ isActLayerMods action = false ∧
      isActSwapHands action = false := by
  simp only [isActLayerTap, Bool.or_eq_true, decide_eq_true_eq] at h
  rcases h with h | h <;>
    simp [isActMods, isActModsTap, isActUsage, isActMousekey, isActLayer, isActLayerMods,
      isActSwapHands, h]

theorem layerTapVal_lt (action : UInt16) : layerTapVal action < 32 := by
  have hle : layerTapVal action ≤ 31 := by
    rw [layerTapVal, UInt16.toNat_and]
    exact Nat.and_le_right
  exact Nat.lt_succ_of_le hle

namespace IsOneshotLayer

variable {n : Nat} {action : UInt16}

theorem uses (h : IsOneshotLayer n action) (hbuild : OneshotBuild fw) {record : KeyRecord}
    (hpressed : record.event.pressed = true) (board : Board w ρ) :
    usesOneshotLayer fw record action board =
      (isOneshotLayerActive board && board.oneshotEnable) := by
  obtain ⟨-, hmodsTap, husage, -, -, -, hswap⟩ := kinds_of_layerTap h.kind
  have hmodifier : isModifierKeycode (actionKeyCode action) = false := by rw [h.code]; rfl
  simp [usesOneshotLayer, isShOneshot, hbuild.oneshot, hpressed, husage, hmodifier, hmodsTap,
    hswap]

theorem processKind_eq (h : IsOneshotLayer n action) (hbuild : OneshotBuild fw)
    (record : KeyRecord) (board : Board w ρ) : processKind fw record action board =
      (processLayerOneshot fw record.event.pressed record.tap.count n board, record) := by
  obtain ⟨hmods, hmodsTap, husage, hmouse, hlayer, hlayerMods, hswap⟩ := kinds_of_layerTap h.kind
  have htap : processLayerTap fw record.event.pressed record.tap.count action board =
      processLayerOneshot fw record.event.pressed record.tap.count n board := by
    simp [processLayerTap, h.code, h.layer]
  simp [processKind, hmods, hmodsTap, husage, hmouse, hlayer, hlayerMods, h.kind, hbuild.layer,
    htap]

theorem isLayerAction (h : IsOneshotLayer n action) (hbuild : OneshotBuild fw) :
    isLayerAction fw action = true := by
  simp [Action.isLayerAction, hbuild.layer, hbuild.tapping, h.kind]

/-- The press of `OSL(n)`. -/
theorem press_layers (h : IsOneshotLayer n action) (hbuild : OneshotBuild fw)
    (hfw : NoLayerOperations fw) {record : KeyRecord} (hpressed : record.event.pressed = true)
    (hcount : record.tap.count ≤ 1) (again : Board w ρ → KeyRecord → Board w ρ × KeyRecord)
    (board : Board w ρ) : (processAction fw again board record action).1.layers =
      board.layers.press (1 < fw.oneshotTapToggle) n := by
  have hbody : (processAction fw again board record action).1.layers =
      (processLayerOneshot fw true record.tap.count n (board.used fw record action)).layers := by
    rw [processAction, if_neg (by rw [actionBody_layerAction (h.isLayerAction hbuild)]; simp),
      actionBody_layers, h.processKind_eq hbuild, hpressed]
  have hused := used_layers hbuild hfw (h.uses hbuild hpressed board)
  rw [hbody]
  generalize board.used fw record action = used at hused ⊢
  rw [Layers.press, ← hused]
  cases hdisabled : used.oneshotEnable with
  | false =>
      have hkind : processLayerOneshot fw true record.tap.count n used = layerOn fw n used := by
        simp [processLayerOneshot, hdisabled]
      have hoff : ¬ used.layers.enable = true := fun hon =>
        Bool.false_ne_true (hdisabled.symm.trans hon)
      have hlocked : ¬ (decide (1 < fw.oneshotTapToggle) = true ∧ used.layers.Locked) :=
        fun hlocked => hoff hlocked.2.1
      rw [hkind, if_neg hlocked, Layers.start, if_neg hoff]
      exact layerOn_layers hbuild hfw n used
  | true =>
      have hon : used.layers.enable = true := hdisabled
      by_cases hlocked : 1 < fw.oneshotTapToggle ∧ getOneshotLayerState used = oneshotToggled
      · have hkind : processLayerOneshot fw true record.tap.count n used =
            layerOff fw n (resetOneshotLayer fw used) := by
          simp [processLayerOneshot, hdisabled, hbuild.oneshot, hbuild.tapping, hlocked]
        have hlocked' : decide (1 < fw.oneshotTapToggle) = true ∧ used.layers.Locked :=
          ⟨decide_eq_true hlocked.1, hon, hlocked.2⟩
        rw [hkind, if_pos hlocked', layerOff_layers hbuild hfw]
        rfl
      · have hkind : processLayerOneshot fw true record.tap.count n used =
            setOneshotLayer fw n oneshotStart used := by
          by_cases htoggle : 1 < fw.oneshotTapToggle
          · have hroom : record.tap.count < fw.oneshotTapToggle := Nat.lt_of_le_of_lt hcount htoggle
            have hunlocked : getOneshotLayerState used ≠ oneshotToggled :=
              fun h => hlocked ⟨htoggle, h⟩
            simp [processLayerOneshot, hdisabled, hbuild.oneshot, hbuild.tapping, htoggle,
              hunlocked, hroom]
          · simp [processLayerOneshot, hdisabled, hbuild.oneshot, hbuild.tapping, htoggle]
        have hlocked' : ¬ (decide (1 < fw.oneshotTapToggle) = true ∧ used.layers.Locked) :=
          fun h => hlocked ⟨of_decide_eq_true h.1, h.2.2⟩
        rw [hkind, if_neg hlocked', setOneshotLayer_layers hbuild hfw]

/-- The release of `OSL(n)` after a tap. -/
theorem release_layers (h : IsOneshotLayer n action) (hbuild : OneshotBuild fw)
    (hfw : NoLayerOperations fw) {record : KeyRecord} (hreleased : record.event.pressed = false)
    (hcount : record.tap.count ≤ 1) (again : Board w ρ → KeyRecord → Board w ρ × KeyRecord)
    (board : Board w ρ) : (processAction fw again board record action).1.layers =
      board.layers.release n := by
  have hunused : board.used fw record action = board := by
    rw [Board.used, if_neg (by simp [usesOneshotLayer, hreleased])]
  rw [processAction_release hreleased, actionBody_layers, h.processKind_eq hbuild, hunused,
    Layers.release, hreleased]
  cases hdisabled : board.oneshotEnable with
  | false =>
      have hkind : processLayerOneshot fw false record.tap.count n board = layerOff fw n board := by
        simp [processLayerOneshot, hdisabled]
      have hoff : ¬ board.layers.enable = true := fun hon =>
        Bool.false_ne_true (hdisabled.symm.trans hon)
      rw [if_neg hoff, hkind, layerOff_layers hbuild hfw]
  | true =>
      have hkind : processLayerOneshot fw false record.tap.count n board =
          clearOneshotLayerState fw oneshotPressed board := by
        by_cases htoggle : 1 < fw.oneshotTapToggle
        · have hroom : ¬ fw.oneshotTapToggle ≤ record.tap.count := by omega
          simp [processLayerOneshot, hdisabled, hbuild.oneshot, hbuild.tapping, htoggle, hroom]
        · have hsingle : ¬ 1 < record.tap.count := Nat.not_lt_of_le hcount
          simp [processLayerOneshot, hdisabled, hbuild.oneshot, hbuild.tapping, htoggle, hsingle]
      have hon : board.layers.enable = true := hdisabled
      rw [if_pos hon, hkind, clearOneshotLayerState_layers hbuild hfw]
      rfl

end IsOneshotLayer

namespace Ordinary

variable {action : UInt16}

theorem not_modsTap (h : Ordinary action) : isActModsTap action = false ∧
    isActSwapHands action = false ∧ isActLayer action = false ∧ isActLayerMods action = false ∧
      isActLayerTap action = false := by
  simp only [Ordinary, isActUsage, isActMods, isActMousekey, Bool.or_eq_true,
    decide_eq_true_eq] at h
  rcases h with h | ⟨(h | h) | h, -⟩ <;>
    simp [isActModsTap, isActSwapHands, isActLayer, isActLayerMods, isActLayerTap, h]

theorem uses (h : Ordinary action) (hbuild : OneshotBuild fw) {record : KeyRecord}
    (hpressed : record.event.pressed = true) (board : Board w ρ) :
    usesOneshotLayer fw record action board =
      (isOneshotLayerActive board && board.oneshotEnable) := by
  obtain ⟨hmodsTap, hswap, -⟩ := h.not_modsTap
  rcases h with husage | ⟨-, hmodifier⟩
  · simp [usesOneshotLayer, isShOneshot, hbuild.oneshot, hpressed, husage, hswap]
  · simp [usesOneshotLayer, isShOneshot, hbuild.oneshot, hpressed, hmodifier, hmodsTap, hswap]

theorem processKind_layers (h : Ordinary action) (record : KeyRecord) (board : Board w ρ) :
    (processKind fw record action board).1.layers = board.layers ∧
      (processKind fw record action board).2 = record := by
  obtain ⟨hmodsTap, hswap, hlayer, hlayerMods, hlayerTap⟩ := h.not_modsTap
  rw [processKind]
  simp only [hmodsTap, hswap, hlayer, hlayerMods, hlayerTap, Bool.false_eq_true, if_false,
    false_and]
  split_ifs
  · exact ⟨processModsKey_layers fw _ action board, rfl⟩
  · exact ⟨processUsage_layers fw _ action board, rfl⟩
  · exact ⟨perform_layers fw _ board, rfl⟩
  · exact ⟨rfl, rfl⟩

theorem not_layerAction (h : Ordinary action) : isLayerAction fw action = false := by
  obtain ⟨-, -, hlayer, hlayerMods, hlayerTap⟩ := h.not_modsTap
  simp [isLayerAction, hlayer, hlayerMods, hlayerTap]

theorem actionBody_layers (h : Ordinary action) (hbuild : OneshotBuild fw)
    (hfw : NoLayerOperations fw) {record : KeyRecord} (hpressed : record.event.pressed = true)
    (board : Board w ρ) :
    (actionBody fw board record action).board.layers = board.layers.other ∧
      (actionBody fw board record action).record = record := by
  rw [Action.actionBody_layers, actionBody_record, (h.processKind_layers record _).1,
    (h.processKind_layers record _).2, used_layers hbuild hfw (h.uses hbuild hpressed board)]
  exact ⟨rfl, rfl⟩

theorem release_layers (h : Ordinary action) {record : KeyRecord}
    (hreleased : record.event.pressed = false)
    (again : Board w ρ → KeyRecord → Board w ρ × KeyRecord) (board : Board w ρ) :
    (processAction fw again board record action).1.layers = board.layers := by
  have hunused : board.used fw record action = board := by
    rw [Board.used, if_neg (by simp [usesOneshotLayer, hreleased])]
  rw [processAction_release hreleased, Action.actionBody_layers,
    (h.processKind_layers record _).1, hunused]

theorem actionBody_release_iff (h : Ordinary action) (hbuild : OneshotBuild fw)
    {record : KeyRecord} (hpressed : record.event.pressed = true) (board : Board w ρ) :
    (actionBody fw board record action).release = true ↔ board.layers.Pending := by
  rw [Action.actionBody_release_iff]
  constructor
  · rintro ⟨huses, hstate, -⟩
    rw [h.uses hbuild hpressed, Bool.and_eq_true] at huses
    exact ⟨huses.2, hstate⟩
  · intro hpending
    have hstate : getOneshotLayerState board = oneshotOtherKeyPressed := hpending.2
    have henable : board.oneshotEnable = true := hpending.1
    refine ⟨?_, hstate, h.not_layerAction⟩
    rw [h.uses hbuild hpressed, isOneshotLayerActive, hstate, henable]
    rfl

end Ordinary

/-- The board with which the key is released that uses up a one-shot layer. -/
def releasePoint (fw : Firmware w ρ) (board : Board w ρ) (record : KeyRecord) (action : UInt16) :
    Board w ρ :=
  let body := actionBody fw board record action
  layerOn fw (getOneshotLayer body.board) body.board

/-- The action that `process_record` looks up. -/
def lookedUp (fw : Firmware w ρ) (board : Board w ρ) (record : KeyRecord) : UInt16 :=
  (fw.storeOrGetAction (fw.processRecordQuantum board record).2 record).1

theorem processRecord_release_layers (hfw : NoLayerOperations fw) {record : KeyRecord}
    (hreleased : record.event.pressed = false) (board : Board w ρ)
    (hordinary : Ordinary (lookedUp fw board record)) :
    (processRecord fw board record).1.layers = board.layers := by
  have hquantum := hfw.quantum board record
  unfold lookedUp at hordinary
  rw [processRecord, processRecordDepth]
  cases hevent : record.event.isEvent with
  | false => rfl
  | true =>
      generalize fw.processRecordQuantum board record = looked at hquantum hordinary ⊢
      obtain ⟨proceed, quantum⟩ := looked
      cases proceed with
      | true =>
          have hrelease := @Ordinary.release_layers _ _ fw _ hordinary _ hreleased (processRecordDepth fw 1)
            { quantum with rest := (fw.storeOrGetAction quantum record).2 }
          simp only [Bool.not_true, Bool.false_eq_true, if_false, if_true, hfw.post, hrelease]
          exact hquantum
      | false =>
          simp only [Bool.not_true, Bool.false_eq_true, if_false, hreleased, false_and, and_false]
          exact hquantum

namespace Ordinary

variable {action : UInt16}

theorem press_layers (h : Ordinary action) (hbuild : OneshotBuild fw)
    (hfw : NoLayerOperations fw) {record : KeyRecord} (hpressed : record.event.pressed = true)
    (board : Board w ρ)
    (hagain : Ordinary (lookedUp fw (releasePoint fw board record action) (asRelease record))) :
    (processAction fw (processRecord fw) board record action).1.layers = board.layers.use := by
  obtain ⟨hbody, hrecord⟩ := h.actionBody_layers hbuild hfw hpressed board
  have hrelease := h.actionBody_release_iff hbuild hpressed board
  by_cases hpending : board.layers.Pending
  · have hlayers := @processRecord_release_layers _ _ _ hfw (asRelease record) rfl
      (releasePoint fw board record action) hagain
    have hword : (actionBody fw board record action).board.layers.oneshot = 0 := by
      rw [hbody, Layers.other_pending hpending]
    have hlayer (other : Board w ρ) (hzero : other.layers.oneshot = 0) :
        getOneshotLayer other = 0 := by
      have hdata : other.oneshotLayerData = 0 := hzero
      rw [getOneshotLayer, hdata]
      rfl
    have hpoint : (releasePoint fw board record action).layers = board.layers.other.on 0 := by
      rw [releasePoint, layerOn_layers hbuild hfw, hlayer _ hword, hbody]
    rw [hpoint] at hlayers
    have hafter : getOneshotLayer
        (processRecord fw (releasePoint fw board record action) (asRelease record)).1 = 0 := by
      refine hlayer _ ?_
      rw [hlayers]
      exact hbody ▸ hword
    rw [processAction, if_pos (hrelease.mpr hpending), hrecord, Layers.use, if_pos hpending]
    change (layerOff fw (getOneshotLayer (processRecord fw _ _).1) _).layers = _
    rw [layerOff_layers hbuild hfw]
    change (processRecord fw (releasePoint fw board record action) (asRelease record)).1.layers.off
      (getOneshotLayer
        (processRecord fw (releasePoint fw board record action) (asRelease record)).1) = _
    rw [hlayers, hafter]
  · rw [processAction, if_neg (mt hrelease.mp hpending), Layers.use, if_neg hpending]
    exact hbody

end Ordinary

/-- `OSL(n)` is tapped. -/
def tap (fw : Firmware w ρ) (action : UInt16) (down up : KeyRecord) (board : Board w ρ) :
    Board w ρ :=
  (processAction fw (processRecord fw)
    (processAction fw (processRecord fw) board down action).1 up action).1

/-- `OSL(n)` is tapped, and a key is pressed and released. -/
def tapThenKey (fw : Firmware w ρ) (action key : UInt16) (down up press release : KeyRecord)
    (board : Board w ρ) : Board w ρ :=
  (processAction fw (processRecord fw)
    (processAction fw (processRecord fw) (tap fw action down up board) press key).1 release key).1

/-- The key uses up the one-shot layer, and the layers are as they were before it, just where their
bits were clear. -/
theorem oneshotLayer_restores_iff (hbuild : OneshotBuild fw) (hfw : NoLayerOperations fw) {n : Nat}
    {action key : UInt16} (haction : IsOneshotLayer n action) (hkey : Ordinary key)
    {down up press release : KeyRecord} (hdown : down.event.pressed = true)
    (hup : up.event.pressed = false) (hpress : press.event.pressed = true)
    (hrelease : release.event.pressed = false) (hdownCount : down.tap.count ≤ 1)
    (hupCount : up.tap.count ≤ 1) (board : Board w ρ)
    (hagain : Ordinary (lookedUp fw (releasePoint fw (tap fw action down up board) press key)
      (asRelease press))) :
    (tapThenKey fw action key down up press release board).layerState = board.layerState ↔
      board.layers.Restores (1 < fw.oneshotTapToggle) n := by
  have hn : n < 32 := by
    rw [← haction.layer]
    exact layerTapVal_lt action
  have htap : (tap fw action down up board).layers =
      (board.layers.press (1 < fw.oneshotTapToggle) n).release n := by
    rw [tap, haction.release_layers hbuild hfw hup hupCount,
      haction.press_layers hbuild hfw hdown hdownCount]
  have hlayers : (tapThenKey fw action key down up press release board).layers =
      ((board.layers.press (1 < fw.oneshotTapToggle) n).release n).use := by
    rw [tapThenKey, hkey.release_layers hrelease, hkey.press_layers hbuild hfw hpress _ hagain, htap]
  have hstate := congrArg Layers.state hlayers
  have hiff := Layers.restores_iff (1 < fw.oneshotTapToggle) hn board.layers
  rw [← hstate] at hiff
  exact hiff

/-- A firmware in which each key is the A key, and nothing else happens. -/
def keyA : Firmware 16 Unit where
  noActionLayer := false
  noActionTapping := false
  noActionOneshot := false
  swapHandsEnable := false
  extrakeyEnable := false
  holdOnOtherKeyPress := false
  oneshotTapToggle := 0
  tappingToggle := 5
  perform _ rest := rest
  getMods _ := 0
  getHoldOnOtherKeyPress _ _ := true
  layerStateSetHooks state := state
  defaultLayerStateSetHooks state := state
  processRecordQuantum board _ := (true, board)
  storeOrGetAction board _ := (0x0004, board.rest)
  postProcessRecordQuantum board _ := board

def onLayers (layerState : BitVec 16) : Board 16 Unit where
  layerState := layerState
  defaultLayerState := 1
  oneshotLayerData := 0
  oneshotEnable := true
  swapHands := false
  swapHeld := false
  swapHandsOneshot := .off
  rest := ()

def keyRecord (pressed : Bool) (count : Nat) : KeyRecord :=
  ⟨⟨⟨0, 0⟩, 0, .key, pressed⟩, ⟨false, count⟩⟩

theorem keyA_build : OneshotBuild keyA := ⟨rfl, rfl, rfl⟩

theorem keyA_noLayerOperations : NoLayerOperations keyA :=
  ⟨fun _ => rfl, fun _ _ => rfl, fun _ _ => rfl⟩

theorem noLayers_restored :
    (tapThenKey keyA 0xA1F4 0x0004 (keyRecord true 1) (keyRecord false 1) (keyRecord true 0)
      (keyRecord false 0) (onLayers 0)).layerState = 0 :=
  (oneshotLayer_restores_iff keyA_build keyA_noLayerOperations (n := 1) ⟨rfl, rfl, rfl⟩
    (.inr ⟨.inl rfl, rfl⟩) rfl rfl rfl rfl (Nat.le_refl 1) (Nat.le_refl 1) (onLayers 0)
    (.inr ⟨.inl rfl, rfl⟩)).mpr ⟨rfl, fun _ _ => rfl, fun _ => rfl⟩

/-- Layer 0 is on, as `TO(0)` leaves it: `OSL(1)` and the A key switch it off. -/
theorem layerZero_switchedOff :
    IsOneshotLayer 1 0xA1F4 ∧ Ordinary 0x0004 ∧ (onLayers 1).layerState = 1 ∧
      (tapThenKey keyA 0xA1F4 0x0004 (keyRecord true 1) (keyRecord false 1) (keyRecord true 0)
        (keyRecord false 0) (onLayers 1)).layerState = 0 :=
  ⟨⟨rfl, rfl, rfl⟩, .inr ⟨.inl rfl, rfl⟩, rfl, by decide⟩

end Qmk.Action
