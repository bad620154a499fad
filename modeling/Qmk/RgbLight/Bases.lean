import Qmk.RgbLight.Modes

/-!
# Base modes

A mode is less than the number of modes of its effect away from its base mode, so the tables of
intervals are long enough for it.
-/

namespace Qmk.RgbLight

open Qmk.RgbSplit

/-- The interval of the effect that runs is one of its table. -/
def Timed (build : Build) (baseMode mode : Nat) : Prop :=
  ∀ effect, effectAt build baseMode = some effect →
    intervalIndex (BitVec.ofNat 8 mode - BitVec.ofNat 8 baseMode).toNat effect <
      intervalCount effect

section Bases

variable {build : Build} {effect other : Effect} {first base mode i : Nat} {list : List Effect}

theorem one_le_effectModes (effect : Effect) : 1 ≤ effect.modes := by
  cases effect <;> decide

theorem le_of_mem_modeStarts (h : (effect, base) ∈ modeStarts first list) : first ≤ base := by
  induction list generalizing first with
  | nil => cases h
  | cons head rest ih =>
      rcases List.mem_cons.mp h with heq | hrest
      · exact Nat.le_of_eq (congrArg Prod.snd heq).symm
      · exact Nat.le_trans (Nat.le_add_right _ _) (ih hrest)

/-- No two effects start at one mode. -/
theorem modeStarts_unique (h : (effect, base) ∈ modeStarts first list)
    (hother : (other, base) ∈ modeStarts first list) : effect = other := by
  induction list generalizing first with
  | nil => cases h
  | cons head rest ih =>
      have hmodes := one_le_effectModes head
      rcases List.mem_cons.mp h with heq | hrest <;> rcases List.mem_cons.mp hother with heq' | hrest'
      · exact (congrArg Prod.fst heq).trans (congrArg Prod.fst heq').symm
      · have hlow := le_of_mem_modeStarts hrest'
        have hbase : base = first := congrArg Prod.snd heq
        omega
      · have hlow := le_of_mem_modeStarts hrest
        have hbase : base = first := congrArg Prod.snd heq'
        omega
      · exact ih hrest hrest'

/-- An entry of the table is the start of an effect whose modes reach to its index. -/
theorem base_of_getElem?
    (h : ((modeStarts first list).flatMap fun start => List.replicate start.1.modes start.2)[i]? =
      some base) :
    ∃ effect, (effect, base) ∈ modeStarts first list ∧ base ≤ first + i ∧
      first + i < base + effect.modes := by
  induction list generalizing first i with
  | nil => simp [modeStarts] at h
  | cons head rest ih =>
      rw [modeStarts, List.flatMap_cons] at h
      dsimp only at h
      rcases Nat.lt_or_ge i head.modes with hlt | hge
      · rw [List.getElem?_append_left (by simpa using hlt), List.getElem?_replicate,
          if_pos hlt] at h
        obtain rfl := Option.some.inj h
        exact ⟨head, List.mem_cons_self, Nat.le_add_right _ _, Nat.add_lt_add_left hlt _⟩
      · rw [List.getElem?_append_right (by simpa using hge), List.length_replicate] at h
        obtain ⟨effect, hmem, hle, hlt⟩ := ih h
        exact ⟨effect, List.mem_cons_of_mem _ hmem, by omega, by omega⟩

theorem mem_of_effectAt (h : effectAt build base = some effect) :
    (effect, base) ∈ starts build := by
  obtain ⟨start, hfind, rfl⟩ := Option.map_eq_some_iff.mp h
  have hbase : start.2 = base := by simpa using List.find?_some hfind
  rw [← hbase]
  exact List.mem_of_find?_eq_some hfind

/-- The distance of a mode from its base mode is less than the number of modes of the effect. -/
theorem delta_lt (hbase : (modeBaseTable build)[mode]? = some base)
    (heffect : effectAt build base = some effect) :
    (BitVec.ofNat 8 mode - BitVec.ofNat 8 base).toNat < effect.modes := by
  have hmem := mem_of_effectAt heffect
  have hpos := le_of_mem_modeStarts hmem
  cases mode with
  | zero =>
      have hzero : 0 = base := Option.some.inj hbase
      omega
  | succ mode =>
      rw [modeBaseTable, List.getElem?_cons_succ] at hbase
      obtain ⟨other, hother, hle, hlt⟩ := base_of_getElem? hbase
      obtain rfl := modeStarts_unique hother hmem
      rw [BitVec.toNat_sub, BitVec.toNat_ofNat, BitVec.toNat_ofNat]
      omega

/-- A mode of the table is timed over its base mode. -/
theorem timed_of_base (hbase : (modeBaseTable build)[mode]? = some base) :
    Timed build base mode := by
  intro effect heffect
  have hdelta := delta_lt hbase heffect
  generalize (BitVec.ofNat 8 mode - BitVec.ofNat 8 base).toNat = delta at hdelta ⊢
  cases effect <;> simp only [Effect.modes] at hdelta <;>
    simp only [intervalIndex, intervalCount] <;> omega

theorem length_bases (first : Nat) (list : List Effect) :
    ((modeStarts first list).flatMap fun start => List.replicate start.1.modes start.2).length =
      (list.flatMap fun effect => List.replicate effect.modes effect).length := by
  induction list generalizing first with
  | nil => rfl
  | cons head rest ih =>
      rw [modeStarts, List.flatMap_cons, List.flatMap_cons, List.length_append, List.length_append,
        List.length_replicate, List.length_replicate, ih]

/-- The table has an entry for every mode. -/
theorem exists_base (h : mode ≤ build.modes) : ∃ base, (modeBaseTable build)[mode]? = some base := by
  have hlength : mode < (modeBaseTable build).length := by
    rw [modeBaseTable, List.length_cons, starts, length_bases, List.flatMap_cons,
      List.length_append, List.length_replicate]
    simp only [Build.modes, Build.modeTable, List.length_cons] at h
    have hstatic : Effect.staticLight.modes = 1 := rfl
    omega
  exact ⟨_, List.getElem?_eq_getElem hlength⟩

end Bases

end Qmk.RgbLight
