import Mathlib.Data.List.Forall2
import Qmk.Combo.Overflow

/-!
# Flushing the key buffer

When the timer is due, `combo_task` fires the combos of the combo buffer and delivers the keys.  A
timer that was started at 0 is taken for one that does not run.  A combo of the buffer that is
disabled, or is there twice, is not dropped; one that has only some of its keys in the key buffer
silences them.
-/

namespace Qmk.Combo

open Qmk.Lib

variable {c : Config}

/-- The keycode has an index in the keys of the combo. -/
def Matches (c : Config) (index : Nat) (keycode : UInt16) : Prop :=
  (findKeyIndexAndCount keycode (c.keys index) 0 none).1 ≠ none

instance (c : Config) (index : Nat) (keycode : UInt16) : Decidable (Matches c index keycode) :=
  inferInstanceAs (Decidable (_ ≠ _))

/-- The press event of a combo. -/
def IsComboPress (c : Config) (index : Nat) : Output → Prop
  | .record record =>
      c.keycode index ≠ 0 ∧ record.keycode = c.keycode index ∧ record.event.type = .combo
  | .comboEvent i pressed => c.keycode index = 0 ∧ i = index ∧ pressed = true

/-- The record goes out itself, or in the press event of a combo that it is a key of. -/
def Delivered (c : Config) (outputs : List Output) (qrecord : QueuedRecord) : Prop :=
  (∀ output, qrecord.dump = some output → output ∈ outputs) ∨
    ∃ index, Matches c index qrecord.keycode ∧ ∃ output ∈ outputs, IsComboPress c index output

/-- Every pending press is delivered, and both buffers are empty. -/
structure Flushed (s s' : State c) : Prop where
  keyBuffer : s'.keyBuffer = []
  comboBuffer : s'.comboBuffer.head = s'.comboBuffer.tail
  delivered : ∃ outputs, s'.outputs = s.outputs ++ outputs ∧
    ∀ qrecord ∈ s.keyBuffer, Delivered c outputs qrecord

/-- The combos of the buffer that `apply_combos` fires; those that have to be tapped are only
dropped. -/
def State.normalCombos (s : State c) : List Nat :=
  s.comboBuffer.toList.filter fun index => c.mustTap index = false

/-- The combos of the buffer can all be fired: each is there once and not disabled, it finds all its
keys in the key buffer or none, and no key is one of two combos. -/
structure Prepared (s : State c) : Prop where
  nodup : s.normalCombos.Nodup
  enabled : ∀ index ∈ s.normalCombos, (s.combos index).disabled = false
  complete : ∀ index ∈ s.normalCombos,
    (applyKeys c index 0 s.keyBuffer).2 ≠ none ∨
      ∀ qrecord ∈ s.keyBuffer, ¬ Matches c index qrecord.keycode
  disjoint : ∀ index ∈ s.normalCombos, ∀ other ∈ s.normalCombos, index ≠ other →
    ∀ qrecord ∈ s.keyBuffer,
      ¬ (Matches c index qrecord.keycode ∧ Matches c other qrecord.keycode)

/-! ## Lists in step -/

section InStep

variable {α β γ : Type _} {R : α → β → Prop} {S : β → γ → Prop}

theorem forall₂_mem_left {xs : List α} {ys : List β} (h : List.Forall₂ R xs ys) {x : α}
    (hx : x ∈ xs) : ∃ y ∈ ys, R x y := by
  induction h with
  | nil => cases hx
  | cons hhead _ ih =>
      rcases List.mem_cons.mp hx with rfl | hx
      · exact ⟨_, List.mem_cons_self, hhead⟩
      · obtain ⟨y, hy, hrel⟩ := ih hx
        exact ⟨y, List.mem_cons_of_mem _ hy, hrel⟩

theorem forall₂_comp {xs : List α} {ys : List β} {zs : List γ} (h : List.Forall₂ R xs ys)
    (h' : List.Forall₂ S ys zs) : List.Forall₂ (fun x z => ∃ y, R x y ∧ S y z) xs zs := by
  induction h generalizing zs with
  | nil =>
      cases h'
      exact .nil
  | cons hhead _ ih =>
      cases h' with
      | cons hhead' htail' => exact .cons ⟨_, hhead, hhead'⟩ (ih htail')

end InStep

/-! ## Firing one combo -/

/-- The press event of the combo is in the key buffer. -/
def Fired (c : Config) (index : Nat) (keyBuffer : List QueuedRecord) : Prop :=
  ∃ qrecord ∈ keyBuffer, Matches c index qrecord.keycode ∧ qrecord.comboIndex = some index ∧
    qrecord.record.event.type = .combo ∧ qrecord.record.keycode = c.keycode index

/-- What `apply_combo` may do to a record of the buffer. -/
def Rewrites (c : Config) (index : Nat) (qrecord qrecord' : QueuedRecord) : Prop :=
  qrecord'.keycode = qrecord.keycode ∧ (qrecord' = qrecord ∨ Matches c index qrecord.keycode)

section Apply

variable {index : Nat}

theorem Rewrites.refl (qrecord : QueuedRecord) : Rewrites c index qrecord qrecord :=
  ⟨rfl, .inl rfl⟩

theorem applyKeys_rewrites (state : BitVec c.stateBits) (keyBuffer : List QueuedRecord) :
    List.Forall₂ (Rewrites c index) keyBuffer (applyKeys c index state keyBuffer).1 := by
  induction keyBuffer generalizing state with
  | nil => exact .nil
  | cons qrecord qrecords ih =>
      have hmatches : ∀ keyIndex keyCount, findKeyIndexAndCount qrecord.keycode (c.keys index) 0 none =
          (some keyIndex, keyCount) → Matches c index qrecord.keycode := by
        intro keyIndex keyCount hkey
        rw [Matches, hkey]
        exact Option.some_ne_none keyIndex
      rw [applyKeys]
      split
      · exact .cons (.refl qrecord) (ih state)
      · rename_i hkey
        split
        · exact .cons ⟨rfl, .inr (hmatches _ _ hkey)⟩ (List.forall₂_same.mpr fun q _ => .refl q)
        · exact .cons ⟨rfl, .inr (hmatches _ _ hkey)⟩ (ih _)

theorem applyKeys_fired {state : BitVec c.stateBits} {keyBuffer : List QueuedRecord}
    (h : (applyKeys c index state keyBuffer).2 ≠ none) :
    Fired c index (applyKeys c index state keyBuffer).1 := by
  induction keyBuffer generalizing state with
  | nil => exact absurd rfl h
  | cons qrecord qrecords ih =>
      rw [applyKeys] at h ⊢
      split at h
      · obtain ⟨fired, hmem, hfired⟩ := ih h
        exact ⟨fired, List.mem_cons_of_mem _ hmem, hfired⟩
      · rename_i keyIndex keyCount hkey
        dsimp only at h ⊢
        split at h
        · rename_i hdown
          rw [if_pos hdown]
          refine ⟨_, List.mem_cons_self, ?_, rfl, rfl, rfl⟩
          rw [Matches, QueuedRecord.toCombo, hkey]
          exact Option.some_ne_none keyIndex
        · rename_i hdown
          rw [if_neg hdown]
          obtain ⟨fired, hmem, hfired⟩ := ih h
          exact ⟨fired, List.mem_cons_of_mem _ hmem, hfired⟩

theorem applyKeys_congr (state : BitVec c.stateBits) {keyBuffer keyBuffer' : List QueuedRecord}
    (h : keyBuffer'.map QueuedRecord.keycode = keyBuffer.map QueuedRecord.keycode) :
    (applyKeys c index state keyBuffer').2 = (applyKeys c index state keyBuffer).2 := by
  induction keyBuffer generalizing state keyBuffer' with
  | nil =>
      obtain rfl := List.map_eq_nil_iff.mp h
      rfl
  | cons qrecord qrecords ih =>
      cases keyBuffer' with
      | nil => cases h
      | cons qrecord' qrecords' =>
          rw [List.map_cons, List.map_cons] at h
          obtain ⟨hkeycode, hrest⟩ := List.cons.inj h
          rw [applyKeys, applyKeys, hkeycode]
          split
          · exact ih state hrest
          · split
            · rfl
            · exact ih _ hrest

theorem Rewrites.eq_of_not {qrecord qrecord' : QueuedRecord} (h : Rewrites c index qrecord qrecord')
    (hnot : ¬ Matches c index qrecord.keycode) : qrecord' = qrecord :=
  h.2.resolve_right hnot

end Apply

/-! ## The key buffer while combos are fired -/

/-- The combos `done` have been fired on the key buffer `original`. -/
def Applied (c : Config) (done : List Nat) (original keyBuffer : List QueuedRecord) : Prop :=
  List.Forall₂ (fun qrecord qrecord' => qrecord'.keycode = qrecord.keycode ∧
    (qrecord' = qrecord ∨
      ∃ index ∈ done, Matches c index qrecord.keycode ∧ Fired c index keyBuffer))
    original keyBuffer

section Applied

variable {done : List Nat} {original keyBuffer : List QueuedRecord}

theorem Applied.refl (keyBuffer : List QueuedRecord) : Applied c [] keyBuffer keyBuffer :=
  List.forall₂_same.mpr fun _ _ => ⟨rfl, .inl rfl⟩

theorem Applied.keycodes (h : Applied c done original keyBuffer) :
    keyBuffer.map QueuedRecord.keycode = original.map QueuedRecord.keycode := by
  have hkeycodes := h.imp fun qrecord qrecord' hrel => hrel.1
  rw [← List.forall₂_eq_eq_eq, List.forall₂_map_left_iff, List.forall₂_map_right_iff]
  exact hkeycodes.flip

theorem Applied.mem_keycode (h : Applied c done original keyBuffer) {qrecord : QueuedRecord}
    (hmem : qrecord ∈ keyBuffer) : ∃ q ∈ original, q.keycode = qrecord.keycode := by
  have hkeycode : qrecord.keycode ∈ original.map QueuedRecord.keycode := by
    rw [← h.keycodes]
    exact List.mem_map_of_mem hmem
  exact List.mem_map.mp hkeycode

/-- Firing one more combo, with all of its keys or none and no key of those that were fired. -/
theorem Applied.step {index : Nat} (h : Applied c done original keyBuffer)
    (hcomplete : (applyKeys c index 0 original).2 ≠ none ∨
      ∀ qrecord ∈ original, ¬ Matches c index qrecord.keycode)
    (hdisjoint : ∀ other ∈ done, ∀ qrecord ∈ original,
      ¬ (Matches c other qrecord.keycode ∧ Matches c index qrecord.keycode)) :
    Applied c (done ++ [index]) original (applyKeys c index 0 keyBuffer).1 := by
  have hrewrites : List.Forall₂ (Rewrites c index) keyBuffer _ := applyKeys_rewrites 0 keyBuffer
  have hkept : ∀ other ∈ done, Fired c other keyBuffer →
      Fired c other (applyKeys c index 0 keyBuffer).1 := by
    rintro other hother ⟨qrecord, hmem, hmatches, hfired⟩
    obtain ⟨qrecord', hmem', hrewrite⟩ := forall₂_mem_left hrewrites hmem
    obtain ⟨q, hq, hkeycode⟩ := h.mem_keycode hmem
    have hnot : ¬ Matches c index qrecord.keycode := by
      intro hindex
      rw [← hkeycode] at hmatches hindex
      exact hdisjoint other hother q hq ⟨hmatches, hindex⟩
    obtain rfl := hrewrite.eq_of_not hnot
    exact ⟨qrecord', hmem', hmatches, hfired⟩
  -- A combo that has a key in the buffer has all of them there, and fires.
  have hfires : ∀ q ∈ original, Matches c index q.keycode →
      Fired c index (applyKeys c index 0 keyBuffer).1 := by
    intro q hq hmatches
    refine applyKeys_fired ?_
    rw [applyKeys_congr 0 h.keycodes]
    exact hcomplete.resolve_right fun hnone => hnone q hq hmatches
  have hboth := (List.forall₂_and_left _ _).mpr ⟨fun q hq => hq, forall₂_comp h hrewrites⟩
  refine hboth.imp ?_
  rintro q qrecord' ⟨hq, qrecord, ⟨hkeycode, hrel⟩, hkeycode', hrel'⟩
  refine ⟨hkeycode'.trans hkeycode, ?_⟩
  rcases hrel' with rfl | hmatches
  · refine hrel.imp_right ?_
    rintro ⟨other, hother, hmatches, hfired⟩
    exact ⟨other, List.mem_append_left _ hother, hmatches, hkept other hother hfired⟩
  · rw [hkeycode] at hmatches
    exact .inr ⟨index, List.mem_append_right _ List.mem_cons_self, hmatches,
      hfires q hq hmatches⟩

/-- The buffer is dumped: every key goes out, in its own record or in that of a combo. -/
theorem Applied.delivered (h : Applied c done original keyBuffer) {qrecord : QueuedRecord}
    (hmem : qrecord ∈ original) :
    Delivered c (keyBuffer.filterMap QueuedRecord.dump) qrecord := by
  obtain ⟨qrecord', hmem', -, hrel⟩ := forall₂_mem_left h hmem
  rcases hrel with rfl | ⟨index, -, hmatches, fired, hfired, -, hcombo, htype, hkeycode⟩
  · exact .inl fun output hdump => List.mem_filterMap.mpr ⟨_, hmem', hdump⟩
  · refine .inr ⟨index, hmatches, ?_⟩
    have hkey : ¬ fired.record.event.type = .tick := by
      rw [htype]
      exact fun h => nomatch h
    by_cases hzero : fired.record.keycode = 0
    · refine ⟨.comboEvent index true, List.mem_filterMap.mpr ⟨fired, hfired, ?_⟩,
        hkeycode.symm.trans hzero, rfl, rfl⟩
      rw [QueuedRecord.dump, if_neg hkey, hcombo]
      exact if_pos hzero
    · refine ⟨.record fired.record, List.mem_filterMap.mpr ⟨fired, hfired, ?_⟩,
        fun h => hzero (hkeycode.trans h), hkeycode, htype⟩
      rw [QueuedRecord.dump, if_neg hkey, hcombo]
      exact if_neg hzero

end Applied

/-! ## The combo buffer while combos are fired -/

section Entries

variable {s : State c}

/-- The combo at the read end is dropped. -/
structure DropsFront (s s' : State c) : Prop where
  comboBuffer : s'.comboBuffer = s.comboBuffer.advance
  outputs : s.outputs <+: s'.outputs
  disabled : ∀ other ≠ s.comboBuffer.slot s.comboBuffer.tail,
    (s'.combos other).disabled = (s.combos other).disabled

theorem dropComboFromBuffer_front (hwf : RingWF s) (hsome : s.comboBuffer.head ≠ s.comboBuffer.tail) :
    dropComboFromBuffer (s.comboBuffer.slot s.comboBuffer.tail) s =
      { disableCombo (s.comboBuffer.slot s.comboBuffer.tail) s with
        comboBuffer := s.comboBuffer.advance } := by
  have hfind : (s.comboBuffer.positions.find? fun i =>
      s.comboBuffer.slot i = s.comboBuffer.slot s.comboBuffer.tail) = some s.comboBuffer.tail := by
    rw [Ring.positions_advance hwf hsome, List.find?_cons_of_pos]
    exact decide_eq_true rfl
  rw [dropComboFromBuffer, hfind]
  exact if_pos rfl

theorem disableCombo_disabled_of_ne {index other : Nat} (h : other ≠ index) (s : State c) :
    (disableCombo index s).combos other = s.combos other :=
  Function.update_of_ne h _ _

theorem dropComboFromBuffer_dropsFront (hwf : RingWF s)
    (hsome : s.comboBuffer.head ≠ s.comboBuffer.tail) :
    DropsFront s (dropComboFromBuffer (s.comboBuffer.slot s.comboBuffer.tail) s) := by
  rw [dropComboFromBuffer_front hwf hsome]
  exact ⟨rfl, List.prefix_rfl, fun other hother =>
    congrArg ComboState.disabled (disableCombo_disabled_of_ne hother s)⟩

theorem fireCombo_keyBuffer (now : UInt16) (index : Nat) (fired : Option Nat) (s : State c) :
    (fireCombo now index fired s).keyBuffer = s.keyBuffer := by
  cases fired with
  | none => rfl
  | some keyCount =>
      unfold fireCombo
      dsimp only
      split_ifs <;> rfl

theorem fireCombo_outputs (now : UInt16) (index : Nat) (fired : Option Nat) (s : State c) :
    s.outputs <+: (fireCombo now index fired s).outputs := by
  cases fired with
  | none => exact List.prefix_rfl
  | some keyCount =>
      unfold fireCombo
      dsimp only
      split_ifs
      · exact List.prefix_append _ _
      · exact List.prefix_rfl

theorem fireCombo_disabled {index other : Nat} (h : other ≠ index) (now : UInt16)
    (fired : Option Nat) (s : State c) :
    ((fireCombo now index fired s).combos other).disabled = (s.combos other).disabled := by
  have hupdate : ∀ (combos : Nat → ComboState c.stateBits) combo,
      Function.update combos index combo other = combos other :=
    fun combos combo => Function.update_of_ne h combo combos
  cases fired with
  | none => rfl
  | some keyCount =>
      unfold fireCombo
      dsimp only
      split_ifs
      · simp only [releaseCombo, deactivateCombo, activateCombo, State.setCombo, State.output,
          hupdate]
      · simp only [activateCombo, State.setCombo, hupdate]

theorem applyCombo_dropsFront (now : UInt16) (hwf : RingWF s)
    (hsome : s.comboBuffer.head ≠ s.comboBuffer.tail)
    (henabled : (s.combos (s.comboBuffer.slot s.comboBuffer.tail)).disabled = false) :
    DropsFront s (applyCombo now (s.comboBuffer.slot s.comboBuffer.tail) s) ∧
      (applyCombo now (s.comboBuffer.slot s.comboBuffer.tail) s).keyBuffer =
        (applyKeys c (s.comboBuffer.slot s.comboBuffer.tail) 0 s.keyBuffer).1 := by
  generalize hindex : s.comboBuffer.slot s.comboBuffer.tail = index at henabled ⊢
  obtain ⟨t, ht⟩ : ∃ t, t = fireCombo now index (applyKeys c index 0 s.keyBuffer).2
    { s with keyBuffer := (applyKeys c index 0 s.keyBuffer).1 } := ⟨_, rfl⟩
  have hring : t.comboBuffer = s.comboBuffer := by rw [ht, fireCombo_ring]
  have happly : applyCombo now index s = dropComboFromBuffer index t := by
    rw [ht, applyCombo, henabled]
    rfl
  have hfront : dropComboFromBuffer index t =
      { disableCombo index t with comboBuffer := s.comboBuffer.advance } := by
    have hfront := dropComboFromBuffer_front (s := t) (by rwa [RingWF, hring]) (by rwa [hring])
    rwa [hring, hindex] at hfront
  have houtputs : s.outputs <+: t.outputs := by
    rw [ht]
    exact fireCombo_outputs now index (applyKeys c index 0 s.keyBuffer).2
      { s with keyBuffer := (applyKeys c index 0 s.keyBuffer).1 }
  have hkeys : t.keyBuffer = (applyKeys c index 0 s.keyBuffer).1 := by
    rw [ht, fireCombo_keyBuffer]
  rw [happly, hfront]
  refine ⟨⟨rfl, houtputs, ?_⟩, hkeys⟩
  intro other hother
  rw [hindex] at hother
  refine (congrArg ComboState.disabled (disableCombo_disabled_of_ne hother t)).trans ?_
  rw [ht]
  exact fireCombo_disabled hother now (applyKeys c index 0 s.keyBuffer).2
    { s with keyBuffer := (applyKeys c index 0 s.keyBuffer).1 }

/-- The combos `done` of the buffer have been fired, and the others are still in it. -/
structure Firing (original : List QueuedRecord) (done : List Nat) (s : State c) : Prop where
  ringWF : RingWF s
  applied : Applied c done original s.keyBuffer
  nodup : (done ++ s.normalCombos).Nodup
  enabled : ∀ index ∈ s.normalCombos, (s.combos index).disabled = false
  complete : ∀ index ∈ s.normalCombos,
    (applyKeys c index 0 original).2 ≠ none ∨
      ∀ qrecord ∈ original, ¬ Matches c index qrecord.keycode
  disjoint : ∀ index ∈ done ++ s.normalCombos, ∀ other ∈ done ++ s.normalCombos, index ≠ other →
    ∀ qrecord ∈ original,
      ¬ (Matches c index qrecord.keycode ∧ Matches c other qrecord.keycode)

variable {original : List QueuedRecord} {done : List Nat}

theorem Prepared.firing (h : Prepared s) (hwf : RingWF s) : Firing s.keyBuffer [] s :=
  ⟨hwf, .refl _, h.nodup, h.enabled, h.complete, h.disjoint⟩

theorem Firing.step {s' : State c} {done' : List Nat} (h : Firing original done s)
    (hfront : DropsFront s s') (happlied : Applied c done' original s'.keyBuffer)
    (hdone : done ++ s.normalCombos = done' ++ s'.normalCombos)
    (hrest : ∀ index ∈ s'.normalCombos, index ∈ s.normalCombos ∧
      index ≠ s.comboBuffer.slot s.comboBuffer.tail) : Firing original done' s' where
  ringWF := by
    rw [RingWF, hfront.comboBuffer]
    exact Ring.WF.advance h.ringWF
  applied := happlied
  nodup := hdone ▸ h.nodup
  enabled index hindex := by
    obtain ⟨hmem, hne⟩ := hrest index hindex
    rw [hfront.disabled index hne]
    exact h.enabled index hmem
  complete index hindex := h.complete index (hrest index hindex).1
  disjoint := hdone ▸ h.disjoint

/-- What the loop of `apply_combos` does with one combo of the buffer. -/
def applyEntry (now : UInt16) (index : Nat) (s : State c) : State c :=
  if c.mustTap index then dropComboFromBuffer index s else applyCombo now index s

theorem applyEntries_cons (now : UInt16) (i : Nat) (positions : List Nat) (s : State c) :
    applyEntries now (i :: positions) s =
      applyEntries now positions (applyEntry now (s.comboBuffer.slot i) s) := by
  rw [applyEntries, applyEntry]
  split_ifs <;> rfl

theorem Firing.applyEntry (now : UInt16) (h : Firing original done s)
    (hsome : s.comboBuffer.head ≠ s.comboBuffer.tail) :
    ∃ done', DropsFront s (applyEntry now (s.comboBuffer.slot s.comboBuffer.tail) s) ∧
      Firing original done' (applyEntry now (s.comboBuffer.slot s.comboBuffer.tail) s) := by
  have hlist : s.normalCombos = (s.comboBuffer.slot s.comboBuffer.tail ::
      s.comboBuffer.advance.toList).filter fun index => c.mustTap index = false := by
    rw [State.normalCombos, Ring.toList_advance h.ringWF hsome]
  unfold Combo.applyEntry
  by_cases htap : c.mustTap (s.comboBuffer.slot s.comboBuffer.tail) = true
  · rw [if_pos htap]
    have hfront := dropComboFromBuffer_dropsFront h.ringWF hsome
    have hnormal : s.normalCombos = (dropComboFromBuffer (s.comboBuffer.slot s.comboBuffer.tail)
        s).normalCombos := by
      rw [hlist, State.normalCombos, hfront.comboBuffer, List.filter_cons_of_neg]
      simp [htap]
    have hkeys : (dropComboFromBuffer (s.comboBuffer.slot s.comboBuffer.tail) s).keyBuffer =
        s.keyBuffer := by
      rw [dropComboFromBuffer_front h.ringWF hsome]
      rfl
    refine ⟨done, hfront, h.step hfront ?_ (congrArg (done ++ ·) hnormal) ?_⟩
    · rw [hkeys]
      exact h.applied
    · intro index hindex
      rw [← hnormal] at hindex
      refine ⟨hindex, ?_⟩
      rintro rfl
      have hnot := (List.mem_filter.mp hindex).2
      simp [htap] at hnot
  · rw [if_neg htap]
    have hhead : s.normalCombos = s.comboBuffer.slot s.comboBuffer.tail ::
        s.comboBuffer.advance.toList.filter fun index => c.mustTap index = false := by
      rw [hlist, List.filter_cons_of_pos]
      simpa using htap
    have hmem : s.comboBuffer.slot s.comboBuffer.tail ∈ s.normalCombos := by
      rw [hhead]
      exact List.mem_cons_self
    obtain ⟨hfront, hkeys⟩ := applyCombo_dropsFront now h.ringWF hsome (h.enabled _ hmem)
    have hnormal : s.normalCombos = s.comboBuffer.slot s.comboBuffer.tail ::
        (applyCombo now (s.comboBuffer.slot s.comboBuffer.tail) s).normalCombos := by
      rw [hhead, State.normalCombos, hfront.comboBuffer]
    refine ⟨done ++ [s.comboBuffer.slot s.comboBuffer.tail], hfront, h.step hfront ?_ ?_ ?_⟩
    · rw [hkeys]
      refine h.applied.step (h.complete _ hmem) ?_
      intro other hother
      refine h.disjoint other (List.mem_append_left _ hother) _ (List.mem_append_right _ hmem) ?_
      rintro rfl
      exact (List.nodup_append.mp h.nodup).2.2 _ hother _ hmem rfl
    · rw [hnormal, List.append_assoc]
      rfl
    · intro index hindex
      have hnodup := (List.nodup_append.mp h.nodup).2.1
      rw [hnormal] at hnodup ⊢
      refine ⟨List.mem_cons_of_mem _ hindex, ?_⟩
      rintro rfl
      exact (List.nodup_cons.mp hnodup).1 hindex

/-- The loop of `apply_combos` empties the ring, and fires the combos in it. -/
theorem Firing.applyEntries (now : UInt16) (h : Firing original done s) :
    ∃ done', (Combo.applyEntries now s.comboBuffer.positions s).comboBuffer.head =
        (Combo.applyEntries now s.comboBuffer.positions s).comboBuffer.tail ∧
      s.outputs <+: (Combo.applyEntries now s.comboBuffer.positions s).outputs ∧
      Applied c done' original (Combo.applyEntries now s.comboBuffer.positions s).keyBuffer := by
  obtain ⟨count, hcount⟩ : ∃ count, s.comboBuffer.count = count := ⟨_, rfl⟩
  induction count generalizing s done with
  | zero =>
      have hpositions : s.comboBuffer.positions = [] := by
        rw [Ring.positions, hcount]
        rfl
      rw [hpositions]
      exact ⟨done, (Ring.count_eq_zero h.ringWF).mp hcount, List.prefix_rfl, h.applied⟩
  | succ count ih =>
      have hsome : s.comboBuffer.head ≠ s.comboBuffer.tail := by
        intro hempty
        rw [(Ring.count_eq_zero h.ringWF).mpr hempty] at hcount
        cases hcount
      obtain ⟨done', hfront, hfiring⟩ := h.applyEntry now hsome
      rw [Ring.positions_advance h.ringWF hsome, applyEntries_cons, ← hfront.comboBuffer]
      have hnext : (Combo.applyEntry now (s.comboBuffer.slot s.comboBuffer.tail)
          s).comboBuffer.count = count := by
        have hadvance := Ring.count_advance h.ringWF hsome
        rw [hfront.comboBuffer]
        omega
      obtain ⟨done'', hempty, houtputs, happlied⟩ := ih hfiring hnext
      exact ⟨done'', hempty, hfront.outputs.trans houtputs, happlied⟩

end Entries

/-! ## Flushing -/

theorem applyCombos_flushed {s : State c} (h : Prepared s) (hwf : RingWF s) (now : UInt16) :
    Flushed s (applyCombos now s) := by
  obtain ⟨done, hempty, ⟨outputs, houtputs⟩, happlied⟩ := (h.firing hwf).applyEntries now
  refine ⟨rfl, hempty, outputs ++ (applyEntries now s.comboBuffer.positions s).keyBuffer.filterMap
    QueuedRecord.dump, ?_, ?_⟩
  · rw [← List.append_assoc, houtputs]
    rfl
  · intro qrecord hmem
    have hdelivered := happlied.delivered hmem
    exact hdelivered.imp (fun h output hdump => List.mem_append_right _ (h output hdump))
      fun ⟨index, hmatches, output, houtput, hpress⟩ =>
        ⟨index, hmatches, output, List.mem_append_right _ houtput, hpress⟩

theorem comboTask_flushed {s : State c} (h : Prepared s) (hwf : RingWF s) {now : UInt16}
    (henabled : s.enabled = true) (hdue : Due now s) : Flushed s (comboTask now s) := by
  unfold comboTask
  rw [if_neg (by simp [henabled]), if_pos hdue]
  split_ifs with hempty
  · obtain ⟨hkeys, hring, hdelivered⟩ := applyCombos_flushed h hwf now
    exact ⟨hkeys, hring, hdelivered⟩
  · refine ⟨rfl, of_decide_eq_true (Bool.not_eq_false _ ▸ hempty), _, rfl, fun qrecord hmem => ?_⟩
    exact (Applied.refl s.keyBuffer).delivered hmem

/-- In every run, a call of `combo_task` flushes the buffers if the timer is due and the combos of
the buffer can be fired. -/
theorem comboTask_flushes (c : Config) (inputs : List Input) (now : UInt16)
    (henabled : (run perform (State.boot c) inputs).enabled = true)
    (hdue : Due now (run perform (State.boot c) inputs))
    (hprepared : Prepared (run perform (State.boot c) inputs)) :
    Flushed (run perform (State.boot c) inputs)
      (comboTask now (run perform (State.boot c) inputs)) :=
  comboTask_flushed hprepared (run_ringWF (boot_ringWF c) inputs) henabled hdue

/-- The keys `0` and `1` of the first combo are pressed at 1. -/
theorem fourPairs_flushes :
    Flushed (run perform (State.boot fourPairs) [pressKey 0, pressKey 1])
      (comboTask 60 (run perform (State.boot fourPairs) [pressKey 0, pressKey 1])) :=
  comboTask_flushes fourPairs [pressKey 0, pressKey 1] 60 (by decide) (by decide)
    ⟨by decide, by decide, by decide, by decide⟩

/-- A press that is taken starts the timer at its own time, so that it is due once `longest_term` has
passed, unless that time is 0. -/
theorem processCombo_due_iff {s : State c} (hstrict : c.strictTimer = false)
    {now keycode refKeycode : UInt16} {record : KeyRecord}
    (hswitch : ¬ SwitchesCombos keycode record) (hpressed : record.event.pressed = true)
    (htaken : (processCombo now keycode refKeycode record s).1 = false) (later : UInt16) :
    Due later (processCombo now keycode refKeycode record s).2 ↔
      now ≠ 0 ∧ (processCombo now keycode refKeycode record s).2.longestTerm < later - now := by
  have hstart : ∀ t : State c, (startTimer now t).timer = now := by
    intro t
    rw [startTimer, if_neg (by simp [hstrict])]
  have hpush : ∀ (qrecord : QueuedRecord) (t : State c), (pushKey qrecord t).timer = t.timer := by
    intro qrecord t
    unfold pushKey
    split_ifs <;> rfl
  have htimer : (processCombo now keycode refKeycode record s).2.timer = now := by
    rw [processCombo_of_not_switches hswitch] at htaken ⊢
    have hkey : (comboLoop now refKeycode record s).1.pressed = true ∨
        (comboLoop now refKeycode record s).1.repressed = true := by
      by_contra hnone
      simp_all
    dsimp only
    rw [finishCombos, if_pos ⟨hpressed, hkey⟩]
    split_ifs
    · exact hstart _
    · rw [hpush, hstart]
  rw [Due, htimer]

/-- A key that is pressed while `timer_read` is 0 stays in the buffer. -/
theorem pressAtZero_stays :
    ¬ ∀ (c : Config) (inputs : List Input) (now keycode refKeycode : UInt16) (record : KeyRecord)
      (later : UInt16) (s : State c),
      s = run perform (State.boot c) (inputs ++ [.processCombo now keycode refKeycode record]) →
        s.enabled = true → s.keyBuffer ≠ [] → s.longestTerm < later - now →
          Flushed s (comboTask later s) := by
  intro h
  have hflushed := h fourPairs [] 0 4 4 ⟨⟨0, 0, 0, .key, true⟩, 0⟩ 60 _ rfl (by decide)
    (by decide) (by decide)
  exact absurd hflushed.keyBuffer (by decide)

end Qmk.Combo
