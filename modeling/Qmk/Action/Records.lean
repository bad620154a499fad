import Mathlib.Tactic.Common
import Qmk.Action.Process

/-!
# The record of an action

`process_record` writes through the pointer that it is given: where a tap is taken for a hold, where
a tap of a key that swaps hands ends, and where a key uses up a one-shot layer.
-/

namespace Qmk.Action

open Tapping (KeyRecord actionKindId actionKeyMods actionKeyCode isModifierKeycode)

variable {w : Nat} {ρ : Type}

section Writes

variable (fw : Firmware w ρ) (board : Board w ρ) (record : KeyRecord) (action : UInt16)

/-- `ad hoc: set 0 to cancel tap`. -/
def CancelsTap : Prop :=
  isActModsTap action = true ∧ fw.noActionTapping = false ∧
    (actionKeyCode action = 0 → fw.noActionOneshot = true) ∧ actionKeyCode action ≠ 1 ∧
      record.event.pressed = true ∧ 0 < record.tap.count ∧
        cancelsTap fw record board = true

/-- The code is that of a key, which a tap of the swap-hands key stands for. -/
def isShTapKey : Bool :=
  let code := actionKeyCode action
  isActSwapHands action && !(code = 0xF0 || code = 0xF1 || code = 0xF2 || code = 0xF3 ||
    code = 0xF4 || code = 0xF5 || (code = opShOneshot && !fw.noActionOneshot))

/-- `hack: reset tap mode`. -/
def ResetsTap : Prop :=
  isShTapKey fw action = true ∧ fw.swapHandsEnable = true ∧ fw.noActionTapping = false ∧
    record.event.pressed = false ∧ 0 < record.tap.count

/-- The key is released before the one-shot layer is left. -/
def EndsOneshotLayer : Prop :=
  usesOneshotLayer fw record action board = true ∧
    getOneshotLayerState board = oneshotOtherKeyPressed ∧ isLayerAction fw action = false

/-- `process_record` writes in the record. -/
def Writes : Prop :=
  record.event.isEvent = true ∧ (fw.processRecordQuantum board record).1 = true ∧
    let looked := fw.storeOrGetAction (fw.processRecordQuantum board record).2 record
    let board := { (fw.processRecordQuantum board record).2 with rest := looked.2 }
    CancelsTap fw (board.used fw record looked.1) record looked.1 ∨ ResetsTap fw record looked.1 ∨
      EndsOneshotLayer fw board record looked.1

end Writes

variable {fw : Firmware w ρ}

theorem setCount_ne {record : KeyRecord} (hcount : 0 < record.tap.count) :
    record.setCount 0 ≠ record := fun h =>
  Nat.ne_of_lt hcount (congrArg (fun r : KeyRecord => r.tap.count) h)

theorem zero_ne {record : KeyRecord} (hevent : record.event.isEvent = true) :
    KeyRecord.zero ≠ record := by
  rintro rfl
  cases hevent

theorem processModsTap_record {record : KeyRecord} {action : UInt16} {board : Board w ρ}
    (hkind : isActModsTap action = true) :
    CancelsTap fw board record action ∧
        (processModsTap fw record action board).2 = record.setCount 0 ∨
      ¬ CancelsTap fw board record action ∧ (processModsTap fw record action board).2 = record := by
  unfold CancelsTap processModsTap
  dsimp only
  split_ifs <;> simp_all

/-- The codes of `ACT_SWAP_HANDS` other than those of keys leave the record alone. -/
theorem processSwapHands_record (record : KeyRecord) {action : UInt16} (board : Board w ρ)
    (hkind : isActSwapHands action = true) :
    (processSwapHands fw record action board).2 =
      if isShTapKey fw action = true ∧ fw.noActionTapping = false ∧
          record.event.pressed = false ∧ 0 < record.tap.count then .zero
      else record := by
  rw [processSwapHands]
  dsimp only
  by_cases htoggle : actionKeyCode action = 0xF0
  · rw [if_pos htoggle, isShTapKey, htoggle, hkind]
    rfl
  rw [if_neg htoggle]
  by_cases honOff : actionKeyCode action = 0xF2
  · rw [if_pos honOff, isShTapKey, honOff, hkind]
    rfl
  rw [if_neg honOff]
  by_cases hoffOn : actionKeyCode action = 0xF3
  · rw [if_pos hoffOn, isShTapKey, hoffOn, hkind]
    rfl
  rw [if_neg hoffOn]
  by_cases hon : actionKeyCode action = 0xF5
  · rw [if_pos hon, isShTapKey, hon, hkind]
    rfl
  rw [if_neg hon]
  by_cases hoff : actionKeyCode action = 0xF4
  · rw [if_pos hoff, isShTapKey, hoff, hkind]
    rfl
  rw [if_neg hoff]
  by_cases honeshot : actionKeyCode action = opShOneshot ∧ fw.noActionOneshot = false
  · rw [if_pos honeshot, isShTapKey, honeshot.1, honeshot.2, hkind]
    rfl
  rw [if_neg honeshot]
  cases htapping : fw.noActionTapping with
  | true =>
      rw [if_pos rfl, if_neg fun h => Bool.noConfusion h.2.1]
  | false =>
      rw [if_neg Bool.false_ne_true]
      by_cases htapToggle : actionKeyCode action = 0xF1
      · rw [if_pos htapToggle, isShTapKey, htapToggle, hkind]
        rfl
      rw [if_neg htapToggle]
      have hkey : isShTapKey fw action = true := by
        simpa [isShTapKey, hkind, htoggle, htapToggle, honOff, hoffOn, hon, hoff,
          imp_iff_not_or] using honeshot
      rw [hkey]
      split_ifs <;> simp_all

theorem kinds_of_modsTap {action : UInt16} (h : isActModsTap action = true) :
    isActMods action = false ∧ isActSwapHands action = false := by
  simp only [isActModsTap, Bool.or_eq_true, decide_eq_true_eq] at h
  rcases h with h | h <;> simp [isActMods, isActSwapHands, h]

theorem kinds_of_swapHands {action : UInt16} (h : isActSwapHands action = true) :
    isActMods action = false ∧ isActModsTap action = false ∧ isActUsage action = false ∧
      isActMousekey action = false ∧ isActLayer action = false ∧ isActLayerMods action = false ∧
      isActLayerTap action = false := by
  simp only [isActSwapHands, decide_eq_true_eq] at h
  simp [isActMods, isActModsTap, isActUsage, isActMousekey, isActLayer, isActLayerMods,
    isActLayerTap, h]

theorem processKind_record_cases (record : KeyRecord) (action : UInt16) (board : Board w ρ) :
    CancelsTap fw board record action ∧
        (processKind fw record action board).2 = record.setCount 0 ∨
      ResetsTap fw record action ∧ (processKind fw record action board).2 = .zero ∨
      ¬ CancelsTap fw board record action ∧ ¬ ResetsTap fw record action ∧
        (processKind fw record action board).2 = record := by
  by_cases hmodsTap : isActModsTap action = true
  · obtain ⟨hmods, hswap⟩ := kinds_of_modsTap hmodsTap
    have hkind : processKind fw record action board = processModsTap fw record action board := by
      simp [processKind, hmods, hmodsTap]
    have hreset : ¬ ResetsTap fw record action := fun h => by
      simpa [isShTapKey, hswap] using h.1
    rw [hkind]
    exact (processModsTap_record hmodsTap).imp_right fun h => .inr ⟨h.1, hreset, h.2⟩
  have hcancels : ¬ CancelsTap fw board record action := fun h => hmodsTap h.1
  by_cases hswap : isActSwapHands action = true ∧ fw.swapHandsEnable = true
  · obtain ⟨hmods, -, husage, hmouse, hlayer, hlayerMods, hlayerTap⟩ :=
      kinds_of_swapHands hswap.1
    have hkind : processKind fw record action board = processSwapHands fw record action board := by
      simp [processKind, hmods, hmodsTap, husage, hmouse, hlayer, hlayerMods, hlayerTap, hswap]
    have hreset : ResetsTap fw record action ↔
        isShTapKey fw action = true ∧ fw.noActionTapping = false ∧
          record.event.pressed = false ∧ 0 < record.tap.count := by
      simp [ResetsTap, hswap.2]
    rw [hkind, processSwapHands_record record board hswap.1, hreset]
    split_ifs with h
    · exact .inr (.inl ⟨h, rfl⟩)
    · exact .inr (.inr ⟨hcancels, h, rfl⟩)
  · have hreset : ¬ ResetsTap fw record action := fun h => hswap ⟨by
      have hkey := h.1
      simp only [isShTapKey, Bool.and_eq_true] at hkey
      exact hkey.1, h.2.1⟩
    have hkind : (processKind fw record action board).2 = record := by
      unfold processKind
      dsimp only
      split_ifs <;> rfl
    exact .inr (.inr ⟨hcancels, hreset, hkind⟩)

theorem processKind_record_iff {record : KeyRecord} (hevent : record.event.isEvent = true)
    (action : UInt16) (board : Board w ρ) :
    (processKind fw record action board).2 = record ↔
      ¬ CancelsTap fw board record action ∧ ¬ ResetsTap fw record action := by
  rcases @processKind_record_cases _ _ fw record action board with
    ⟨hcancels, hresult⟩ | ⟨hresets, hresult⟩ | ⟨hcancels, hresets, hresult⟩
  · have hne := setCount_ne hcancels.2.2.2.2.2.1
    rw [hresult]
    exact ⟨fun h => absurd h hne, fun h => absurd hcancels h.1⟩
  · rw [hresult]
    exact ⟨fun h => absurd h (zero_ne hevent), fun h => absurd hresets h.2⟩
  · exact ⟨fun _ => ⟨hcancels, hresets⟩, fun _ => hresult⟩

/-! ## One-shot layers -/

theorem inactive_word : ∀ data : BitVec 8, data &&& 0b111 = 0 → data &&& ~~~0b10 = data := by
  decide

theorem pending_word : ∀ data : BitVec 8, data &&& 0b111 = 0b10 →
    data &&& ~~~0b10 &&& 0b111 = 0 ∧ data ≠ data &&& ~~~0b10 ∧
      (data &&& ~~~0b10) >>> 3 = data >>> 3 := by
  decide

theorem active_word : ∀ data : BitVec 8, data &&& 0b111 ≠ 0 → data &&& 0b111 ≠ 0b10 →
    data &&& ~~~0b10 &&& 0b111 ≠ 0 := by
  decide

theorem layerStateSet_oneshot (state : BitVec w) (board : Board w ρ) :
    (layerStateSet fw state board).oneshotLayerData = board.oneshotLayerData := by
  unfold layerStateSet
  split <;> rfl

theorem processModsKey_oneshot (pressed : Bool) (action : UInt16) (board : Board w ρ) :
    (processModsKey fw pressed action board).oneshotLayerData = board.oneshotLayerData := by
  unfold processModsKey
  dsimp only
  split_ifs <;> rfl

theorem processModsTap_oneshot (record : KeyRecord) (action : UInt16) (board : Board w ρ) :
    (processModsTap fw record action board).1.oneshotLayerData = board.oneshotLayerData := by
  unfold processModsTap processModsOneshot
  dsimp only
  split_ifs <;> first | rfl | exact processModsKey_oneshot _ action board

theorem undoSwapHold_oneshot (board : Board w ρ) :
    (undoSwapHold board).oneshotLayerData = board.oneshotLayerData := by
  unfold undoSwapHold
  split <;> rfl

@[simp] theorem perform_oneshot (call : Call) (board : Board w ρ) :
    (board.perform fw call).oneshotLayerData = board.oneshotLayerData := rfl

theorem releaseOneshotSwaphands_oneshot (board : Board w ρ) :
    (releaseOneshotSwaphands board).oneshotLayerData = board.oneshotLayerData := by
  unfold releaseOneshotSwaphands
  split <;> rfl

theorem processSwapHands_oneshot (record : KeyRecord) (action : UInt16) (board : Board w ρ) :
    (processSwapHands fw record action board).1.oneshotLayerData = board.oneshotLayerData := by
  simp only [processSwapHands, apply_ite Prod.fst, apply_ite Board.oneshotLayerData,
    perform_oneshot, undoSwapHold_oneshot, releaseOneshotSwaphands_oneshot, setOneshotSwaphands,
    ite_self]

/-- Without taps, the codes of `ACT_LAYER_TAP` do not make a one-shot layer. -/
theorem processLayerTap_oneshot (htapping : fw.noActionTapping = true) (pressed : Bool)
    (tapCount : Nat) (action : UInt16) (board : Board w ρ) :
    (processLayerTap fw pressed tapCount action board).oneshotLayerData =
      board.oneshotLayerData := by
  unfold processLayerTap processLayerOneshot
  simp only [htapping, Bool.or_true, true_or, if_true, Bool.true_eq_false, and_false, if_false]
  split
  · split <;> exact layerStateSet_oneshot _ board
  split
  · split <;> exact layerStateSet_oneshot _ board
  split
  · split <;> exact layerStateSet_oneshot _ board
  split
  · split <;> exact layerStateSet_oneshot _ board
  · rfl

theorem processKind_oneshot {action : UInt16} (hlayer : isLayerAction fw action = false)
    (record : KeyRecord) (board : Board w ρ) :
    (processKind fw record action board).1.oneshotLayerData = board.oneshotLayerData := by
  unfold processKind
  dsimp only
  split
  · exact processModsKey_oneshot _ action board
  split
  · exact processModsTap_oneshot record action board
  split
  · unfold processUsage
    dsimp only
    split_ifs <;> rfl
  split
  · rfl
  split
  · rename_i hkind
    simp [isLayerAction, hkind] at hlayer
  split
  · rename_i hkind
    simp [isLayerAction, hkind] at hlayer
  split
  · rename_i hkind
    have htapping : fw.noActionTapping = true := by
      simp only [isLayerAction, hkind, Bool.and_true, decide_true, Bool.true_and,
        Bool.or_eq_false_iff, decide_eq_false_iff_not, Bool.not_eq_false] at hlayer
      exact hlayer.2
    exact processLayerTap_oneshot htapping _ _ action board
  split
  · exact processSwapHands_oneshot record action board
  · rfl

theorem useOneshotSwaphands_oneshot (board : Board w ρ) :
    (useOneshotSwaphands board).oneshotLayerData = board.oneshotLayerData := by
  unfold useOneshotSwaphands
  split <;> rfl

theorem actionBody_oneshot {action : UInt16} (hlayer : isLayerAction fw action = false)
    (board : Board w ρ) (record : KeyRecord) :
    (actionBody fw board record action).board.oneshotLayerData =
      (board.used fw record action).oneshotLayerData := by
  have hkind := processKind_oneshot hlayer record (board.used fw record action)
  simp only [actionBody, hlayer, Bool.false_eq_true, if_false, apply_ite Board.oneshotLayerData,
    perform_oneshot, useOneshotSwaphands_oneshot, ite_self, hkind]

theorem actionBody_release_eq (board : Board w ρ) (record : KeyRecord) (action : UInt16) :
    (actionBody fw board record action).release =
      (usesOneshotLayer fw record action board &&
        !isOneshotLayerActive (board.used fw record action) && !isLayerAction fw action &&
        decide (getOneshotLayerState (actionBody fw board record action).board &&&
          oneshotPressed = 0)) := rfl

theorem uses_active {record : KeyRecord} {action : UInt16} {board : Board w ρ}
    (huses : usesOneshotLayer fw record action board = true) :
    getOneshotLayerState board ≠ 0 ∧ record.event.pressed = true ∧ board.oneshotEnable = true := by
  simp only [usesOneshotLayer, isOneshotLayerActive, Bool.and_eq_true, decide_eq_true_eq] at huses
  exact ⟨huses.1.1.1.1.2, huses.1.1.1.2, huses.2⟩

/-- The key ends the one-shot layer just where the layer's own key is up. -/
theorem used_inactive_iff {record : KeyRecord} {action : UInt16} {board : Board w ρ}
    (huses : usesOneshotLayer fw record action board = true) :
    getOneshotLayerState (board.used fw record action) = 0 ↔
      getOneshotLayerState board = oneshotOtherKeyPressed := by
  obtain ⟨hactive, -, henable⟩ := uses_active huses
  have hused : board.used fw record action =
      clearOneshotLayerState fw oneshotOtherKeyPressed board := if_pos huses
  rw [hused, clearOneshotLayerState]
  dsimp only
  constructor
  · intro hnone
    by_contra hstate
    have hword := active_word board.oneshotLayerData hactive hstate
    rw [if_neg fun hends => hword hends.1] at hnone
    exact hword hnone
  · intro hstate
    obtain ⟨hnone, hne, -⟩ := pending_word board.oneshotLayerData hstate
    rw [if_pos ⟨hnone, hne, henable⟩, getOneshotLayerState, resetOneshotLayer, perform_oneshot]
    exact BitVec.zero_and

theorem actionBody_release_iff (board : Board w ρ) (record : KeyRecord) (action : UInt16) :
    (actionBody fw board record action).release = true ↔
      EndsOneshotLayer fw board record action := by
  rw [actionBody_release_eq, EndsOneshotLayer]
  by_cases huses : usesOneshotLayer fw record action board = true
  · have hinactive := used_inactive_iff huses
    cases hlayer : isLayerAction fw action with
    | true => simp
    | false =>
        have hbody : getOneshotLayerState (actionBody fw board record action).board =
            getOneshotLayerState (board.used fw record action) :=
          congrArg (· &&& 0b111) (actionBody_oneshot hlayer board record)
        rw [hbody, huses, isOneshotLayerActive, ← hinactive]
        constructor
        · intro hends
          simp only [Bool.and_eq_true, Bool.not_eq_true', decide_eq_false_iff_not, not_not] at hends
          exact ⟨rfl, hends.1.1.2, rfl⟩
        · rintro ⟨-, hnone, -⟩
          rw [hnone]
          rfl
  · simp [huses]

/-! ## `process_record` -/

theorem processRecordDepth_release_record {record : KeyRecord}
    (hreleased : record.event.pressed = false) (board : Board w ρ) :
    (processRecordDepth fw 1 board record).2 = record ∨
      (processRecordDepth fw 1 board record).2 = .zero := by
  rw [processRecordDepth]
  cases record.event.isEvent with
  | false => exact .inl rfl
  | true =>
      generalize fw.processRecordQuantum board record = looked
      obtain ⟨proceed, quantum⟩ := looked
      cases proceed with
      | true =>
          simp only [Bool.not_true, Bool.false_eq_true, if_false, if_true,
            processAction_release hreleased]
          rcases @processKind_record_cases _ _ fw record
              (fw.storeOrGetAction quantum record).1
              (Board.used fw record (fw.storeOrGetAction quantum record).1
                { quantum with rest := (fw.storeOrGetAction quantum record).2 }) with
            ⟨hcancels, -⟩ | ⟨-, hresult⟩ | ⟨-, -, hresult⟩
          · have hpressed := hcancels.2.2.2.2.1
            rw [hreleased] at hpressed
            cases hpressed
          · exact .inr hresult
          · exact .inl hresult
      | false =>
          simp only [Bool.not_true, Bool.false_eq_true, if_false, hreleased, false_and, and_false,
            true_or]

theorem processAction_record_iff {record : KeyRecord} (hevent : record.event.isEvent = true)
    (action : UInt16) (board : Board w ρ) :
    (processAction fw (processRecordDepth fw 1) board record action).2 = record ↔
      ¬ (CancelsTap fw (board.used fw record action) record action ∨ ResetsTap fw record action ∨
        EndsOneshotLayer fw board record action) := by
  have hbody := @actionBody_release_iff _ _ fw board record action
  by_cases hends : EndsOneshotLayer fw board record action
  · have hpressed := (uses_active hends.1).2.1
    refine ⟨fun h => ?_, fun h => absurd (.inr (.inr hends)) h⟩
    rw [processAction, if_pos (hbody.mpr hends)] at h
    dsimp only at h
    have hreleased := congrArg (fun r : KeyRecord => r.event.pressed) h
    rcases @processRecordDepth_release_record _ _ fw
        (asRelease (actionBody fw board record action).record) rfl
        (layerOn fw (getOneshotLayer (actionBody fw board record action).board)
          (actionBody fw board record action).board) with hresult | hresult
    · rw [hresult] at hreleased
      exact absurd (hreleased.trans hpressed) Bool.false_ne_true
    · rw [hresult] at hreleased
      exact absurd (hreleased.trans hpressed) Bool.false_ne_true
  · rw [processAction, if_neg (mt hbody.mp hends)]
    have hkind := @processKind_record_iff _ _ fw _ hevent action (board.used fw record action)
    simp only [hends, or_false, not_or]
    exact hkind

/-- `process_record` writes in the record just in those three cases. -/
theorem processRecord_record_iff (board : Board w ρ) (record : KeyRecord) :
    (processRecord fw board record).2 = record ↔ ¬ Writes fw board record := by
  rw [processRecord, processRecordDepth, Writes]
  cases hevent : record.event.isEvent with
  | false => simp
  | true =>
      generalize fw.processRecordQuantum board record = looked
      obtain ⟨proceed, quantum⟩ := looked
      cases proceed with
      | true =>
          have haction := @processAction_record_iff _ _ fw _ hevent
            (fw.storeOrGetAction quantum record).1
            { quantum with rest := (fw.storeOrGetAction quantum record).2 }
          simpa using haction
      | false =>
          simp only [Bool.not_true, Bool.false_eq_true, if_false]
          split <;> simp

end Qmk.Action
