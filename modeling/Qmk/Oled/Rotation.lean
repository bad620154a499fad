import Mathlib.Tactic.SplitIfs
import Qmk.Oled.Driver

/-!
# What the display shows

The data that are sent for a block hold every byte of it: as they are, or turned by 90 degrees.
-/

namespace Qmk.Oled

variable {c : Config}

/-- The data sent for a block show `byte` at an offset of it.  Bit `i` of column `j` of a turned tile
is bit `7 - j` of its column `i`. -/
def Shows (c : Config) (transfers : List Transfer) (offset : Nat) (byte : BitVec 8) : Prop :=
  if c.rotation.has90 = false then (transfers.flatMap Transfer.data)[offset]? = some byte
  else
    ∃ tile ∈ c.maps, ∃ j < 8, offset = tile.source.toNat + j ∧ ∀ i < 8, ∃ column,
      (transfers.flatMap Transfer.data)[tile.target.toNat + i]? = some column ∧
        column.getLsbD (7 - j) = byte.getLsbD i

/-- The tiles lie in a block and cover it, their targets lie apart, and the pages of a block make up
the block. -/
structure MapsCover (c : Config) : Prop where
  source_le : ∀ tile ∈ c.maps, tile.source.toNat + 8 ≤ c.blockSize
  target_le : ∀ tile ∈ c.maps, tile.target.toNat + 8 ≤ c.blockSize
  apart : c.maps.Pairwise fun tile other =>
    tile.target.toNat + 8 ≤ other.target.toNat ∨ other.target.toNat + 8 ≤ tile.target.toNat
  covers : ∀ offset < c.blockSize, ∃ tile ∈ c.maps, ∃ j < 8, offset = tile.source.toNat + j
  pages : c.hasHorizontalMode = false →
    columnsInBlock c * (c.blockSize / columnsInBlock c % 256) = c.blockSize

/-! ## Turning a tile -/

theorem crot_twoPow : ∀ i : Nat, i < 8 → ∀ j : Nat, j < 8 →
    crot (BitVec.twoPow 8 i) (7 - i - j) = BitVec.twoPow 8 (7 - j) := by
  decide +kernel

theorem crot_zero (n : Int) : crot 0#8 n = 0#8 := by
  simp [crot]

theorem crot_bit (byte : BitVec 8) {i j k : Nat} (hi : i < 8) (hj : j < 8) (hk : k < 8) :
    (crot (byte &&& BitVec.twoPow 8 i) (7 - i - k)).getLsbD (7 - j) =
      (decide (j = k) && byte.getLsbD i) := by
  rw [BitVec.and_twoPow]
  split_ifs with hbit
  · rw [crot_twoPow i hi k hk, BitVec.getLsbD_twoPow, hbit, Bool.and_true, Bool.eq_iff_iff]
    simp only [Bool.and_eq_true, decide_eq_true_eq]
    omega
  · rw [crot_zero, BitVec.getLsbD_zero, (Bool.not_eq_true _).mp hbit, Bool.and_false]

/-- `rotate_90` moves bit `i` of byte `j` to bit `7 - j` of byte `i`. -/
theorem rotateByte_bit (src : Nat → BitVec 8) (dest : BitVec 8) {i j : Nat} (hi : i < 8)
    (hj : j < 8) :
    (rotateByte src i dest).getLsbD (7 - j) = (dest.getLsbD (7 - j) || (src j).getLsbD i) := by
  have hfold : ∀ (columns : List Nat) (dest : BitVec 8), (∀ k : Nat, k ∈ columns → k < 8) →
      (columns.foldl (fun dest k => dest ||| crot (src k &&& BitVec.twoPow 8 i) (7 - i - k))
        dest).getLsbD (7 - j) =
      (dest.getLsbD (7 - j) || (decide (j ∈ columns) && (src j).getLsbD i)) := by
    intro columns
    induction columns with
    | nil => simp
    | cons k columns ih =>
        intro dest hcolumns
        rw [List.foldl_cons, ih _ fun k hk => hcolumns k (List.mem_cons_of_mem _ hk),
          BitVec.getLsbD_or, crot_bit _ hi hj (hcolumns k List.mem_cons_self), Bool.or_assoc]
        by_cases hk : j = k
        · subst hk
          cases (src j).getLsbD i <;> simp
        · simp [hk]
  have hmem : j ∈ List.range 8 := List.mem_range.mpr hj
  rw [rotateByte, hfold _ _ fun k hk => List.mem_range.mp hk, decide_eq_true hmem, Bool.true_and]

/-! ## Turning a block -/

section Tiles

variable (base : Nat) (buffer : Nat → BitVec 8)

/-- The loop over the maps. -/
def rotateTiles (maps : List Tile) (temp : Nat → BitVec 8) : Nat → BitVec 8 :=
  maps.foldl (fun temp tile =>
    rotate90 (base + tile.source.toNat) tile.target.toNat buffer temp) temp

theorem rotateTiles_outside {maps : List Tile} {index : Nat} (temp : Nat → BitVec 8)
    (h : ∀ tile ∈ maps, ¬ (tile.target.toNat ≤ index ∧ index < tile.target.toNat + 8)) :
    rotateTiles base buffer maps temp index = temp index := by
  induction maps generalizing temp with
  | nil => rfl
  | cons tile maps ih =>
      refine (ih _ fun other hother => h other (List.mem_cons_of_mem _ hother)).trans ?_
      exact if_neg (h tile List.mem_cons_self)

theorem rotateTiles_bit {maps : List Tile} {tile : Tile} {i j : Nat} (hi : i < 8) (hj : j < 8)
    (hapart : maps.Pairwise fun tile other =>
      tile.target.toNat + 8 ≤ other.target.toNat ∨ other.target.toNat + 8 ≤ tile.target.toNat)
    (hmem : tile ∈ maps) (temp : Nat → BitVec 8) (htemp : temp (tile.target.toNat + i) = 0) :
    (rotateTiles base buffer maps temp (tile.target.toNat + i)).getLsbD (7 - j) =
      (buffer (base + tile.source.toNat + j)).getLsbD i := by
  induction maps generalizing temp with
  | nil => cases hmem
  | cons other maps ih =>
      obtain ⟨hother, hapart⟩ := List.pairwise_cons.mp hapart
      rcases List.mem_cons.mp hmem with rfl | hmem
      · have houtside : ∀ next ∈ maps, ¬ (next.target.toNat ≤ tile.target.toNat + i ∧
            tile.target.toNat + i < next.target.toNat + 8) := by
          intro next hnext
          have := hother next hnext
          omega
        have hrest := rotateTiles_outside base buffer
          (rotate90 (base + tile.source.toNat) tile.target.toNat buffer temp) houtside
        refine (congrArg (BitVec.getLsbD · (7 - j)) hrest).trans ?_
        dsimp only [rotate90]
        rw [if_pos (by omega), htemp, Nat.add_sub_cancel_left, rotateByte_bit _ _ hi hj,
          BitVec.ofNat_eq_ofNat, BitVec.getLsbD_zero, Bool.false_or]
      · refine ih hapart hmem _ ?_
        have := hother tile hmem
        dsimp only [rotate90]
        rw [if_neg (by omega), htemp]

end Tiles

/-! ## Sending a block -/

theorem flatMap_chunks {α : Type _} (xs : List α) (size count : Nat) :
    ((List.range count).flatMap fun i => (xs.drop (size * i)).take size) =
      xs.take (size * count) := by
  induction count with
  | zero => rfl
  | succ count ih =>
      rw [List.range_succ, List.flatMap_append, ih, Nat.mul_succ, List.take_add]
      simp

theorem length_rotatedBlock (c : Config) (buffer : Nat → BitVec 8) (block : Nat) :
    (rotatedBlock c buffer block).length = c.blockSize := by
  simp [rotatedBlock]

theorem data_blockTransfers (hcover : MapsCover c) (h90 : c.rotation.has90 = true)
    (buffer : Nat → BitVec 8) (block : Nat) :
    (blockTransfers c buffer block).flatMap Transfer.data = rotatedBlock c buffer block := by
  unfold blockTransfers
  rw [if_neg (by simp [h90])]
  split_ifs with hmode
  · simp
  · rw [List.flatMap_map, flatMap_chunks, hcover.pages ((Bool.not_eq_true _).mp hmode),
      ← length_rotatedBlock c buffer block, List.take_length]

theorem blockTransfers_shows (hcover : c.rotation.has90 = true → MapsCover c)
    (buffer : Nat → BitVec 8) (block : Nat) {offset : Nat} (hoffset : offset < c.blockSize) :
    Shows c (blockTransfers c buffer block) offset (buffer (c.blockSize * block + offset)) := by
  unfold Shows
  split_ifs with h90
  · simp [blockTransfers, h90, hoffset]
  · have h90 : c.rotation.has90 = true := by simpa using h90
    have hcover := hcover h90
    obtain ⟨tile, hmem, j, hj, rfl⟩ := hcover.covers offset hoffset
    refine ⟨tile, hmem, j, hj, rfl, fun i hi => ?_⟩
    have htarget := hcover.target_le tile hmem
    have hindex : tile.target.toNat + i < c.blockSize := by omega
    rw [data_blockTransfers hcover h90, rotatedBlock]
    refine ⟨_, by rw [List.getElem?_map, List.getElem?_range hindex]; rfl, ?_⟩
    rw [← Nat.add_assoc]
    exact rotateTiles_bit (c.blockSize * block) buffer hi hj hcover.apart hmem _ rfl

end Qmk.Oled
