import Mathlib.Tactic.SplitIfs
import Qmk.Combo.Engine

/-!
# Full buffers

A press of a combo key is stored in the key buffer, and a combo that becomes ready is saved in the
combo buffer, if there is room.  Neither buffer is checked: a press that finds no room is taken and
forgotten, and a combo that takes the last slot of the ring empties it.
-/

namespace Qmk.Combo

open Qmk.Lib

variable {c : Config}

/-! ## Nothing lost -/

/-- The state in which `process_single_combo` saves the combo to the buffer, if it does. -/
def readied (now : UInt16) (keycode : UInt16) (record : KeyRecord) (index : Nat) (s : State c) :
    Option (State c) :=
  match findKeyIndexAndCount keycode (c.keys index) 0 none with
  | (none, _) => none
  | (some keyIndex, keyCount) =>
      if record.event.pressed ∧ keyIsPartOfCombo index keyIndex keycode record s then
        if allComboKeysAreDown ((addComboKey index keyIndex s).combos index).state keyCount then
          if (addComboKey index keyIndex s).timer ≠ 0 ∧
              c.term index < now - (addComboKey index keyIndex s).timer then none
          else
            match dropOverlaps index (addComboKey index keyIndex s).comboBuffer.positions
              (addComboKey index keyIndex s) with
            | (true, _) => none
            | (false, s) => some s
        else none
      else none

/-- A combo that is saved comes behind those in the buffer. -/
def Queues (now : UInt16) (keycode : UInt16) (record : KeyRecord) (index : Nat) (s : State c) :
    Prop :=
  match readied now keycode record index s with
  | none => True
  | some t => (processSingleCombo now keycode record index s).2.comboBuffer.toList =
      t.comboBuffer.toList ++ [index]

def QueuesAll (now : UInt16) (keycode : UInt16) (record : KeyRecord) : List Nat → State c → Prop
  | [], _ => True
  | index :: indices, s =>
      Queues now keycode record index s ∧
        QueuesAll now keycode record indices (processSingleCombo now keycode record index s).2

/-- An active combo takes the press. -/
def Consumed (now : UInt16) (keycode : UInt16) (record : KeyRecord) : List Nat → State c → Prop
  | [], _ => False
  | index :: indices, s =>
      ((s.combos index).active = true ∧
        (processSingleCombo now keycode record index s).1 = .repressed) ∨
        Consumed now keycode record indices (processSingleCombo now keycode record index s).2

/-- The loop of `process_combo`. -/
def comboLoop (now : UInt16) (refKeycode : UInt16) (record : KeyRecord) (s : State c) :
    IsComboKey × State c :=
  processCombos now refKeycode record (List.range c.comboCount) ⟨false, false⟩ s

/-- The keycodes that switch combos are not looked up in the combos. -/
def SwitchesCombos (keycode : UInt16) (record : KeyRecord) : Prop :=
  (keycode = qkComboOn ∨ keycode = qkComboOff ∨ keycode = qkComboToggle) ∧
    record.event.pressed = true

instance (keycode : UInt16) (record : KeyRecord) : Decidable (SwitchesCombos keycode record) :=
  inferInstanceAs (Decidable (_ ∧ _))

/-- A press that is not processed further is stored or consumed, and every combo that is saved is
queued. -/
def Lossless (s : State c) : Input → Prop
  | .processCombo now keycode refKeycode record =>
      ¬ SwitchesCombos keycode record →
      (record.event.pressed = true → (processCombo now keycode refKeycode record s).1 = false →
        (processCombo now keycode refKeycode record s).2.keyBuffer =
            (comboLoop now refKeycode record s).2.keyBuffer ++ [⟨record, none, refKeycode⟩] ∨
          Consumed now refKeycode record (List.range c.comboCount) s) ∧
      QueuesAll now refKeycode record (List.range c.comboCount) s
  | .comboTask _ | .comboEnable | .comboDisable => True

/-! ## Room -/

/-- The key buffer has a free entry, and its size one more value. -/
def KeyRoom (s : State c) : Prop :=
  s.keyBuffer.length < c.keyBufferLength ∧ s.keyBuffer.length + 1 < 256

def comboRoom (now : UInt16) (keycode : UInt16) (record : KeyRecord) (index : Nat)
    (s : State c) : Bool :=
  match readied now keycode record index s with
  | none => true
  | some t => !t.comboBuffer.isFull

def comboRoomAll (now : UInt16) (keycode : UInt16) (record : KeyRecord) :
    List Nat → State c → Bool
  | [], _ => true
  | index :: indices, s =>
      comboRoom now keycode record index s &&
        comboRoomAll now keycode record indices (processSingleCombo now keycode record index s).2

/-- The key buffer has room when a press is stored, and two slots of the combo buffer are free when
a combo is saved. -/
def Roomy (s : State c) : Input → Prop
  | .processCombo now keycode refKeycode record =>
      ¬ SwitchesCombos keycode record →
      (record.event.pressed = true → (comboLoop now refKeycode record s).1 = ⟨true, false⟩ →
        KeyRoom (comboLoop now refKeycode record s).2) ∧
      comboRoomAll now refKeycode record (List.range c.comboCount) s = true
  | .comboTask _ | .comboEnable | .comboDisable => True

/-! ## The cursors stay in the ring -/

section Cursors

variable {s : State c}

/-- The cursors of the combo buffer are in range. -/
def RingWF (s : State c) : Prop := s.comboBuffer.WF

theorem ringLength_pos (c : Config) : 0 < c.ringLength :=
  Nat.lt_min.mpr ⟨c.comboBufferLength_pos, by decide⟩

theorem boot_ringWF (c : Config) : RingWF (State.boot c) := ⟨ringLength_pos c, ringLength_pos c⟩

theorem dropComboFromBuffer_ringWF (h : RingWF s) (index : Nat) :
    RingWF (dropComboFromBuffer index s) := by
  unfold dropComboFromBuffer
  split
  · exact h
  · split_ifs
    · exact Ring.WF.advance h
    · exact h

theorem fireCombo_ring (now : UInt16) (index : Nat) (fired : Option Nat) (s : State c) :
    (fireCombo now index fired s).comboBuffer = s.comboBuffer := by
  cases fired with
  | none => rfl
  | some keyCount =>
      unfold fireCombo
      dsimp only
      split_ifs <;> rfl

theorem applyCombo_ringWF (h : RingWF s) (now : UInt16) (index : Nat) :
    RingWF (applyCombo now index s) := by
  unfold applyCombo
  split_ifs
  · exact h
  · refine dropComboFromBuffer_ringWF ?_ index
    unfold RingWF
    rw [fireCombo_ring]
    exact h

theorem applyEntries_ringWF (now : UInt16) (positions : List Nat) (h : RingWF s) :
    RingWF (applyEntries now positions s) := by
  induction positions generalizing s with
  | nil => exact h
  | cons i positions ih =>
      rw [applyEntries]
      split_ifs
      · exact ih (dropComboFromBuffer_ringWF h _)
      · exact ih (applyCombo_ringWF h now _)

theorem applyCombos_ringWF (h : RingWF s) (now : UInt16) : RingWF (applyCombos now s) :=
  applyEntries_ringWF now s.comboBuffer.positions h

theorem dropOverlaps_ringWF (index : Nat) (positions : List Nat) (h : RingWF s) :
    RingWF (dropOverlaps index positions s).2 := by
  induction positions generalizing s with
  | nil => exact h
  | cons i positions ih =>
      rw [dropOverlaps]
      split
      · exact ih h
      · split_ifs
        · exact h
        · exact ih (Ring.WF.advance h)
        · exact ih h

theorem bufferCombo_ringWF (h : RingWF s) (now : UInt16) (index : Nat) :
    RingWF (bufferCombo now index s) := by
  have hdrop := dropOverlaps_ringWF index s.comboBuffer.positions h
  unfold bufferCombo
  split_ifs
  · exact h
  · split
    · rename_i heq
      rwa [heq] at hdrop
    · rename_i heq
      rw [heq] at hdrop
      exact Ring.WF.push hdrop index

theorem addComboKey_ring (index keyIndex : Nat) (s : State c) :
    (addComboKey index keyIndex s).comboBuffer = s.comboBuffer := by
  unfold addComboKey
  split_ifs <;> rfl

theorem pressComboKey_ringWF (h : RingWF s) (now : UInt16) (index keyIndex keyCount : Nat) :
    RingWF (pressComboKey now index keyIndex keyCount s) := by
  have hadd : RingWF (addComboKey index keyIndex s) := by
    unfold RingWF
    rw [addComboKey_ring]
    exact h
  unfold pressComboKey
  split_ifs
  · exact bufferCombo_ringWF hadd now index
  · exact hadd

theorem releaseComboKey_ringWF (h : RingWF s) (now : UInt16) (index keyIndex keyCount : Nat)
    (keycode : UInt16) (part : Bool) :
    RingWF (releaseComboKey now index keyIndex keyCount keycode part s).2 := by
  have happly := applyCombos_ringWF (applyCombo_ringWF h now index) now
  unfold releaseComboKey
  dsimp only
  split_ifs
  · exact dropComboFromBuffer_ringWF h index
  · exact happly
  · exact happly
  · exact h
  · exact h
  · exact h
  · exact h
  · exact h

theorem releaseSingleCombo_ringWF (h : RingWF s) (now : UInt16) (index keyIndex keyCount : Nat)
    (keycode : UInt16) (record : KeyRecord) :
    RingWF (releaseSingleCombo now index keyIndex keyCount keycode record s).2 := by
  have hrelease := releaseComboKey_ringWF h now index keyIndex keyCount keycode
    (keyIsPartOfCombo index keyIndex keycode record s)
  unfold releaseSingleCombo
  split
  · rename_i heq
    rw [heq] at hrelease
    exact hrelease
  · rename_i heq
    rw [heq] at hrelease
    exact hrelease

theorem processSingleCombo_ringWF (h : RingWF s) (now : UInt16) (keycode : UInt16)
    (record : KeyRecord) (index : Nat) :
    RingWF (processSingleCombo now keycode record index s).2 := by
  unfold processSingleCombo
  split
  · exact h
  · split
    · exact pressComboKey_ringWF h _ _ _ _
    · split
      · split
        · split
          · exact h
          · exact h
        · exact releaseSingleCombo_ringWF h _ _ _ _ _ _
      · exact releaseSingleCombo_ringWF h _ _ _ _ _ _

theorem processCombos_ringWF (now : UInt16) (keycode : UInt16) (record : KeyRecord)
    (indices : List Nat) (isComboKey : IsComboKey) (h : RingWF s) :
    RingWF (processCombos now keycode record indices isComboKey s).2 := by
  induction indices generalizing isComboKey s with
  | nil => exact h
  | cons index indices ih => exact ih _ (processSingleCombo_ringWF h now keycode record index)

theorem startTimer_ring (now : UInt16) (s : State c) :
    (startTimer now s).comboBuffer = s.comboBuffer := by
  unfold startTimer
  split_ifs <;> rfl

theorem pushKey_ring (qrecord : QueuedRecord) (s : State c) :
    (pushKey qrecord s).comboBuffer = s.comboBuffer := by
  unfold pushKey
  split_ifs <;> rfl

theorem finishCombos_ringWF (h : RingWF s) (now : UInt16) (keycode : UInt16) (record : KeyRecord)
    (isComboKey : IsComboKey) : RingWF (finishCombos now keycode record isComboKey s) := by
  unfold finishCombos
  split_ifs
  · unfold RingWF
    rw [startTimer_ring]
    exact h
  · unfold RingWF
    rw [pushKey_ring, startTimer_ring]
    exact h
  · exact applyCombos_ringWF h now
  · exact h

theorem comboDisable_ringWF (h : RingWF s) : RingWF (comboDisable s) := Ring.WF.clear h

theorem comboToggle_ringWF (h : RingWF s) : RingWF (comboToggle s) := by
  unfold comboToggle
  split_ifs
  · exact comboDisable_ringWF h
  · exact h

theorem comboTask_ringWF (h : RingWF s) (now : UInt16) : RingWF (comboTask now s) := by
  unfold comboTask
  split_ifs
  · exact h
  · exact applyCombos_ringWF h now
  · exact h
  · exact h

theorem perform_ringWF (h : RingWF s) (input : Input) : RingWF (perform s input) := by
  cases input with
  | processCombo now keycode refKeycode record =>
      have hloop := processCombos_ringWF now refKeycode record (List.range c.comboCount)
        ⟨false, false⟩ h
      unfold perform processCombo
      dsimp only
      split_ifs
      · exact h
      · exact comboDisable_ringWF h
      · exact comboToggle_ringWF h
      · exact finishCombos_ringWF hloop now refKeycode record _
  | comboTask now => exact comboTask_ringWF h now
  | comboEnable => exact h
  | comboDisable => exact comboDisable_ringWF h

end Cursors

theorem run_ringWF {s : State c} (h : RingWF s) (inputs : List Input) :
    RingWF (run perform s inputs) := by
  induction inputs generalizing s with
  | nil => exact h
  | cons input inputs ih => exact ih (perform_ringWF h input)

/-! ## Lossless calls -/

section Calls

variable {s : State c}

/-- An element pushed to a ring comes behind the others if two slots are free. -/
theorem toList_push_iff {r : Ring Nat c.ringLength} (h : r.WF) (index : Nat) :
    (r.push index).toList = r.toList ++ [index] ↔ r.isFull = false := by
  constructor
  · intro hqueue
    by_contra hfull
    have hlast : r.tail = (r.head + 1) % c.ringLength := by
      simpa [Ring.isFull] using hfull
    have hempty : (r.push index).toList = [] :=
      (Ring.toList_eq_nil (h.push index)).mpr (decide_eq_true hlast.symm)
    rw [hempty] at hqueue
    exact absurd hqueue.symm (by simp)
  · exact fun hroom => Ring.toList_push h hroom index

/-- `process_single_combo` saves the combo in the state that `readied` says. -/
theorem processSingleCombo_readied {now keycode : UInt16} {record : KeyRecord} {index : Nat}
    {t : State c} (h : readied now keycode record index s = some t) :
    (processSingleCombo now keycode record index s).2 = enqueueCombo index t := by
  unfold readied at h
  unfold processSingleCombo
  rcases hkey : findKeyIndexAndCount keycode (c.keys index) 0 none with ⟨keyIndex, keyCount⟩
  rw [hkey] at h
  cases keyIndex with
  | none => cases h
  | some keyIndex =>
      dsimp only at h ⊢
      split at h
      · rename_i hpart
        rw [if_pos hpart]
        split at h
        · rename_i hdown
          simp only [pressComboKey, if_pos hdown, bufferCombo]
          split at h
          · cases h
          · rename_i htime
            rw [if_neg htime]
            rcases hdrop : dropOverlaps index (addComboKey index keyIndex s).comboBuffer.positions
              (addComboKey index keyIndex s) with ⟨dropped, u⟩
            rw [hdrop] at h
            cases dropped with
            | true => cases h
            | false =>
                cases h
                rfl
        · cases h
      · cases h

theorem readied_ringWF {now keycode : UInt16} {record : KeyRecord} {index : Nat} {t : State c}
    (hwf : RingWF s) (h : readied now keycode record index s = some t) : RingWF t := by
  unfold readied at h
  split at h
  · cases h
  · rename_i keyIndex keyCount hkey
    split at h
    · split at h
      · split at h
        · cases h
        · have hadd : RingWF (addComboKey index keyIndex s) := by
            unfold RingWF
            rw [addComboKey_ring]
            exact hwf
          have hdrops := dropOverlaps_ringWF index
            (addComboKey index keyIndex s).comboBuffer.positions hadd
          split at h
          · cases h
          · rename_i hdrop
            cases h
            rwa [hdrop] at hdrops
      · cases h
    · cases h

theorem queues_iff (hwf : RingWF s) (now keycode : UInt16) (record : KeyRecord) (index : Nat) :
    Queues now keycode record index s ↔ comboRoom now keycode record index s = true := by
  unfold Queues comboRoom
  cases h : readied now keycode record index s with
  | none => exact iff_of_true trivial rfl
  | some t =>
      dsimp only
      rw [processSingleCombo_readied h, Bool.not_eq_true']
      exact toList_push_iff (readied_ringWF hwf h) index

theorem queuesAll_iff (now keycode : UInt16) (record : KeyRecord) (indices : List Nat)
    (hwf : RingWF s) :
    QueuesAll now keycode record indices s ↔
      comboRoomAll now keycode record indices s = true := by
  induction indices generalizing s with
  | nil => exact iff_of_true trivial rfl
  | cons index indices ih =>
      rw [QueuesAll, comboRoomAll, Bool.and_eq_true,
        ih (processSingleCombo_ringWF hwf now keycode record index)]
      exact and_congr_left fun _ => queues_iff hwf now keycode record index

theorem repressed_active {now keycode : UInt16} {record : KeyRecord} {index : Nat}
    (h : (processSingleCombo now keycode record index s).1 = .repressed) :
    (s.combos index).active = true := by
  have hrelease : ∀ keyIndex keyCount,
      (releaseSingleCombo now index keyIndex keyCount keycode record s).1 ≠ .repressed := by
    intro keyIndex keyCount
    unfold releaseSingleCombo
    split
    · exact fun h => nomatch h
    · exact fun h => nomatch h
  unfold processSingleCombo at h
  split at h
  · cases h
  · split at h
    · cases h
    · split at h
      · split at h
        · split at h
          · rename_i hactive
            exact hactive.1
          · dsimp only at h
            split at h
            · cases h
            · cases h
        · exact absurd h (hrelease _ _)
      · exact absurd h (hrelease _ _)

theorem processCombos_repressed (now keycode : UInt16) (record : KeyRecord) (indices : List Nat)
    (isComboKey : IsComboKey) (s : State c) :
    (processCombos now keycode record indices isComboKey s).1.repressed = true ↔
      isComboKey.repressed = true ∨ Consumed now keycode record indices s := by
  induction indices generalizing isComboKey s with
  | nil => exact ⟨.inl, fun h => h.elim id False.elim⟩
  | cons index indices ih =>
      have hor : ∀ action, (isComboKey.or action).repressed = true ↔
          isComboKey.repressed = true ∨ action = .repressed := by
        intro action
        cases action with
        | notPressed => simp [IsComboKey.or]
        | pressed => simp [IsComboKey.or]
        | repressed => simp [IsComboKey.or]
      rw [processCombos, Consumed]
      dsimp only
      rw [ih, hor, or_assoc]
      refine or_congr_right (or_congr_left ?_)
      exact ⟨fun h => ⟨repressed_active h, h⟩, fun h => h.2⟩

theorem pushKey_stored_iff (qrecord : QueuedRecord) (s : State c) :
    (pushKey qrecord s).keyBuffer = s.keyBuffer ++ [qrecord] ↔ KeyRoom s := by
  unfold pushKey KeyRoom
  split_ifs with hfree hwrap
  · exact iff_of_true rfl ⟨hfree, hwrap⟩
  · refine iff_of_false (fun h => ?_) fun h => hwrap h.2
    exact absurd h.symm (by simp)
  · exact iff_of_false (fun h => absurd (congrArg List.length h) (by simp)) fun h => hfree h.1

theorem startTimer_keyBuffer (now : UInt16) (s : State c) :
    (startTimer now s).keyBuffer = s.keyBuffer := by
  unfold startTimer
  split_ifs <;> rfl

theorem processCombo_of_not_switches {now keycode refKeycode : UInt16} {record : KeyRecord}
    (h : ¬ SwitchesCombos keycode record) :
    processCombo now keycode refKeycode record s =
      (decide ((comboLoop now refKeycode record s).1.pressed = false ∧
          (comboLoop now refKeycode record s).1.repressed = false),
        finishCombos now refKeycode record (comboLoop now refKeycode record s).1
          (comboLoop now refKeycode record s).2) := by
  unfold SwitchesCombos at h
  unfold processCombo
  rw [if_neg fun hon => h ⟨.inl hon.1, hon.2⟩, if_neg fun hoff => h ⟨.inr (.inl hoff.1), hoff.2⟩,
    if_neg fun htoggle => h ⟨.inr (.inr htoggle.1), htoggle.2⟩]
  rfl

theorem lossless_iff (hwf : RingWF s) (input : Input) : Lossless s input ↔ Roomy s input := by
  cases input with
  | comboTask now => exact Iff.rfl
  | comboEnable => exact Iff.rfl
  | comboDisable => exact Iff.rfl
  | processCombo now keycode refKeycode record =>
      refine forall_congr' fun hswitch => and_congr (forall_congr' fun hpressed => ?_)
        (queuesAll_iff now refKeycode record _ hwf)
      have hconsumed : (comboLoop now refKeycode record s).1.repressed = true ↔
          Consumed now refKeycode record (List.range c.comboCount) s := by
        refine (processCombos_repressed now refKeycode record _ ⟨false, false⟩ s).trans ?_
        exact or_iff_right Bool.false_ne_true
      have hstored := pushKey_stored_iff ⟨record, none, refKeycode⟩
        (startTimer now (comboLoop now refKeycode record s).2)
      rw [processCombo_of_not_switches hswitch, ← hconsumed]
      unfold KeyRoom at hstored ⊢
      rw [startTimer_keyBuffer] at hstored
      unfold finishCombos
      rcases hloop : comboLoop now refKeycode record s with ⟨⟨pressed, repressed⟩, t⟩
      rw [hloop] at hstored
      cases repressed with
      | true => simp
      | false =>
          cases pressed with
          | false => simp
          | true =>
              simp only [hpressed, true_and, Bool.true_eq_false, false_and, decide_false,
                Bool.false_eq_true, or_false, if_true, if_false, forall_true_left]
              exact hstored

end Calls

/-! ## Runs -/

/-- No key press and no combo is lost in the runs in which the buffers have room. -/
theorem combo_lossless_iff (c : Config) (inputs : List Input) :
    Meets perform Lossless (State.boot c) inputs ↔ Meets perform Roomy (State.boot c) inputs := by
  constructor
  · intro h
    exact h.imp_of_invariant RingWF (fun _ input hwf _ => perform_ringWF hwf input)
      (fun _ input hwf hlossless => (lossless_iff hwf input).mp hlossless) (boot_ringWF c)
  · intro h
    exact h.imp_of_invariant RingWF (fun _ input hwf _ => perform_ringWF hwf input)
      (fun _ input hwf hroomy => (lossless_iff hwf input).mpr hroomy) (boot_ringWF c)

/-- Four combos of two keys each, and the default sizes. -/
def fourPairs : Config where
  comboCount := 4
  keys index := [UInt16.ofNat (2 * index + 4), UInt16.ofNat (2 * index + 5)]
  keycode index := UInt16.ofNat (index + 0x30)
  keyBufferLength := 8
  comboBufferLength := 4
  stateBits := 8
  strictTimer := false
  term _ := 50
  holdTerm := 200
  mustHold _ := false
  mustTap _ := false
  mustPressInOrder _ := false
  shouldTrigger _ _ _ := true
  keyRelease _ _ _ := false
  keyRepress := none
  comboCount_le := by decide
  comboBufferLength_pos := Nat.two_pow_pos 2

/-- Key `i` is pressed, all in one millisecond. -/
def pressKey (i : Nat) : Input :=
  .processCombo 1 (UInt16.ofNat (i + 4)) (UInt16.ofNat (i + 4))
    ⟨⟨0, UInt8.ofNat i, 1, .key, true⟩, 0⟩

/-- With the eighth key the fourth combo is saved, and the ring is empty. -/
theorem fourPairs_lose_combos :
    ¬ ∀ (c : Config) (inputs : List Input), Meets perform Lossless (State.boot c) inputs := by
  intro h
  have hlast := (Meets.append_iff.mp (h fourPairs
    ((List.range 7).map pressKey ++ [pressKey 7]))).2.1
  have hwf := run_ringWF (boot_ringWF fourPairs) ((List.range 7).map pressKey)
  have hroom := ((lossless_iff hwf _).mp hlast (by decide +kernel)).2
  exact absurd hroom (by decide +kernel)

end Qmk.Combo
