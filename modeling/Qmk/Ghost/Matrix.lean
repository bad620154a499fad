import Mathlib.Algebra.Group.Nat.Defs
import Qmk.Lib.Sweep

/-!
# Real keys and ghosts of a row

The checks of `MATRIX_HAS_GHOST` on one scan: which bits of a row carry real
keys, and whether a row shares two of them with another row.
-/

namespace Qmk.Ghost

open Qmk.Lib

structure Config where
  /-- `MATRIX_ROWS`. -/
  rows : Nat
  /-- `MATRIX_COLS`. -/
  cols : Nat
  /-- The width of `matrix_row_t`. -/
  rowBits : Nat
  cols_le : cols ≤ rowBits
  /-- `keycode_at_keymap_location(0, row, col)`. -/
  keycodeAt : Nat → Nat → Nat
  /-- `should_process_keypress()`. -/
  processKeypress : Bool

/-- `matrix_row_t[]`. -/
abbrev Matrix (cfg : Config) := Nat → BitVec cfg.rowBits

/-- The keymap defines a key at the position. -/
def Config.Real (cfg : Config) (row col : Nat) : Prop :=
  row < cfg.rows ∧ col < cfg.cols ∧ cfg.keycodeAt row col ≠ 0

instance (cfg : Config) (row col : Nat) : Decidable (cfg.Real row col) :=
  inferInstanceAs (Decidable (_ ∧ _ ∧ _))

/-- `((matrix_row_t)1) << col`. -/
def colMask (width col : Nat) : BitVec width := 1#_ <<< col

def getRealKeys (cfg : Config) (row : Nat) (rowdata : BitVec cfg.rowBits) :
    BitVec cfg.rowBits :=
  forRange cfg.cols
    (fun col out =>
      if cfg.keycodeAt row col ≠ 0 ∧ rowdata &&& colMask cfg.rowBits col ≠ 0#_ then
        out ||| colMask cfg.rowBits col
      else out)
    0#_

def popcountMoreThanOne {width : Nat} (rowdata : BitVec width) : Bool :=
  rowdata &&& (rowdata - 1#_) ≠ 0#_

def hasGhostInRow (cfg : Config) (matrix : Matrix cfg) (row : Nat)
    (rowdata : BitVec cfg.rowBits) : Bool :=
  let rowdata := getRealKeys cfg row rowdata
  if popcountMoreThanOne rowdata = false then false
  else
    (List.range cfg.rows).any fun i =>
      i ≠ row ∧ popcountMoreThanOne (getRealKeys cfg i (matrix i) &&& rowdata) = true

/-! ## Bits of a row -/

section Bits

variable {width : Nat}

theorem colMask_eq_twoPow (col : Nat) : colMask width col = BitVec.twoPow width col := by
  simp [colMask, BitVec.twoPow]

theorem and_colMask_ne_zero (rowdata : BitVec width) (col : Nat) :
    rowdata &&& colMask width col ≠ 0#_ ↔ rowdata.getLsbD col = true := by
  rw [colMask_eq_twoPow, BitVec.and_twoPow]
  cases hbit : rowdata.getLsbD col with
  | false => simp
  | true =>
      have hlt : col < width := BitVec.lt_of_getLsbD hbit
      have hmask : (BitVec.twoPow width col).getLsbD col = true := by
        simp [hlt]
      simp only [if_true, iff_true]
      intro hzero
      rw [hzero] at hmask
      simp at hmask

theorem exists_two_bits {n : Nat} (hzero : n ≠ 0) (hpower : ¬n.isPowerOfTwo) :
    ∃ a b, a ≠ b ∧ n.testBit a = true ∧ n.testBit b = true := by
  have htop : n.testBit n.log2 = true := Nat.testBit_log2 hzero
  by_contra hnone
  apply hpower
  refine ⟨n.log2, Nat.eq_of_testBit_eq fun a => ?_⟩
  rw [Nat.testBit_two_pow]
  by_cases ha : n.log2 = a
  · simpa [ha] using ha ▸ htop
  · have hclear : n.testBit a ≠ true := fun hset => hnone ⟨n.log2, a, ha, htop, hset⟩
    simpa [ha] using hclear

theorem popcountMoreThanOne_iff (rowdata : BitVec width) :
    popcountMoreThanOne rowdata = true ↔
      ∃ a b, a ≠ b ∧ rowdata.getLsbD a = true ∧ rowdata.getLsbD b = true := by
  simp only [popcountMoreThanOne, decide_eq_true_eq]
  by_cases hzero : rowdata = 0#_
  · simp [hzero]
  have hne : rowdata.toNat ≠ 0 := fun h => hzero (BitVec.eq_of_toNat_eq (by simpa using h))
  have hone : 1 < 2 ^ width := by
    have := rowdata.isLt
    omega
  have hsub : (rowdata - 1#_).toNat = rowdata.toNat - 1 := by
    have hle : BitVec.ofNat width 1 ≤ rowdata := by
      rw [BitVec.le_def, BitVec.toNat_ofNat, Nat.mod_eq_of_lt hone]
      omega
    rw [BitVec.toNat_sub_of_le hle, BitVec.toNat_ofNat, Nat.mod_eq_of_lt hone]
  have hand : rowdata &&& (rowdata - 1#_) ≠ 0#_ ↔ ¬rowdata.toNat.isPowerOfTwo := by
    rw [← Nat.and_sub_one_eq_zero_iff_isPowerOfTwo hne, ← hsub, ← BitVec.toNat_and]
    exact not_congr (by simp [← BitVec.toNat_inj])
  rw [hand]
  constructor
  · exact exists_two_bits hne
  · rintro ⟨a, b, hab, ha, hb⟩ ⟨k, hk⟩
    have hbit (c : Nat) (hc : rowdata.getLsbD c = true) : k = c := by
      simpa [BitVec.getLsbD, hk, Nat.testBit_two_pow] using hc
    exact hab ((hbit a ha).symm.trans (hbit b hb))

end Bits

/-! ## Ghosted rows -/

theorem getLsbD_getRealKeys (cfg : Config) (row : Nat) (rowdata : BitVec cfg.rowBits)
    (col : Nat) :
    (getRealKeys cfg row rowdata).getLsbD col = true ↔
      col < cfg.cols ∧ cfg.keycodeAt row col ≠ 0 ∧ rowdata.getLsbD col = true := by
  have hle := cfg.cols_le
  unfold getRealKeys
  generalize hn : cfg.cols = n at hle
  clear hn
  induction n with
  | zero => simp
  | succ n ih =>
      rw [forRange_succ]
      have hprev := ih (Nat.le_of_succ_le hle)
      have hbit : (colMask cfg.rowBits n).getLsbD col = decide (n = col) := by
        rw [colMask_eq_twoPow, BitVec.getLsbD_twoPow]
        grind
      split <;> rename_i h <;> rw [and_colMask_ne_zero] at h
      · rw [BitVec.getLsbD_or, Bool.or_eq_true, hbit]
        grind
      · grind

/-- The position carries a real key, and the scan shows it closed. -/
def Shown (cfg : Config) (matrix : Matrix cfg) (row col : Nat) : Prop :=
  cfg.Real row col ∧ (matrix row).getLsbD col = true

theorem getRealKeys_iff (cfg : Config) (matrix : Matrix cfg) {row : Nat}
    (hrow : row < cfg.rows) (col : Nat) :
    (getRealKeys cfg row (matrix row)).getLsbD col = true ↔ Shown cfg matrix row col := by
  rw [getLsbD_getRealKeys]
  simp [Shown, Config.Real, hrow, and_assoc]

/-- Two columns that another row shows as well. -/
def SharesTwo (cfg : Config) (matrix : Matrix cfg) (row : Nat) : Prop :=
  ∃ other, other ≠ row ∧ ∃ a b, a ≠ b ∧
    (Shown cfg matrix row a ∧ Shown cfg matrix row b) ∧
    Shown cfg matrix other a ∧ Shown cfg matrix other b

theorem hasGhostInRow_iff (cfg : Config) (matrix : Matrix cfg) {row : Nat}
    (hrow : row < cfg.rows) :
    hasGhostInRow cfg matrix row (matrix row) = true ↔ SharesTwo cfg matrix row := by
  have hkeys (i : Nat) (hi : i < cfg.rows) :
      popcountMoreThanOne (getRealKeys cfg i (matrix i) &&& getRealKeys cfg row (matrix row))
          = true ↔
        ∃ a b, a ≠ b ∧ (Shown cfg matrix i a ∧ Shown cfg matrix row a) ∧
          Shown cfg matrix i b ∧ Shown cfg matrix row b := by
    simp only [popcountMoreThanOne_iff, BitVec.getLsbD_and, Bool.and_eq_true,
      getRealKeys_iff cfg matrix hi, getRealKeys_iff cfg matrix hrow]
  simp only [hasGhostInRow]
  constructor
  · intro h
    split at h
    · contradiction
    · simp only [List.any_eq_true, List.mem_range, decide_eq_true_eq] at h
      obtain ⟨i, hi, hne, hshared⟩ := h
      obtain ⟨a, b, hab, ⟨hia, hra⟩, hib, hrb⟩ := (hkeys i hi).mp hshared
      exact ⟨i, hne, a, b, hab, ⟨hra, hrb⟩, hia, hib⟩
  · rintro ⟨i, hne, a, b, hab, ⟨hra, hrb⟩, hia, hib⟩
    have hi : i < cfg.rows := hia.1.1
    have hown : popcountMoreThanOne (getRealKeys cfg row (matrix row)) = true := by
      rw [popcountMoreThanOne_iff]
      refine ⟨a, b, hab, ?_, ?_⟩
      · exact (getRealKeys_iff cfg matrix hrow a).mpr hra
      · exact (getRealKeys_iff cfg matrix hrow b).mpr hrb
    simp only [hown, Bool.true_eq_false, if_false, List.any_eq_true, List.mem_range,
      decide_eq_true_eq]
    exact ⟨i, hi, hne, (hkeys i hi).mpr ⟨a, b, hab, ⟨hia, hra⟩, hib, hrb⟩⟩

end Qmk.Ghost
