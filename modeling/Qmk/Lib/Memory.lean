import Mathlib.Data.List.Basic

/-!
# Memories and block copies

A memory is a function from addresses to cells.  `overlay` copies a block of
cells into a memory and `readBlock` copies one out; both are total, and a cell
that a block does not cover keeps its value.
-/

namespace Qmk.Lib

variable {α : Type*}

/-- The `length` cells from `address` on. -/
def readBlock (mem : Nat → α) (address length : Nat) : List α :=
  (List.range length).map fun i => mem (address + i)

/-- The memory after the cells of `block` are copied to `address`. -/
def overlay (mem : Nat → α) (address : Nat) (block : List α) : Nat → α :=
  fun i => if address ≤ i then (block[i - address]?).getD (mem i) else mem i

@[simp] theorem readBlock_length (mem : Nat → α) (address length : Nat) :
    (readBlock mem address length).length = length := by
  simp [readBlock]

@[simp] theorem readBlock_zero (mem : Nat → α) (address : Nat) :
    readBlock mem address 0 = [] := rfl

theorem readBlock_getElem? (mem : Nat → α) (address length i : Nat)
    (h : i < length) :
    (readBlock mem address length)[i]? = some (mem (address + i)) := by
  simp [readBlock, h]

theorem readBlock_getElem (mem : Nat → α) (address length i : Nat)
    (h : i < (readBlock mem address length).length) :
    (readBlock mem address length)[i] = mem (address + i) := by
  simp [readBlock]

theorem readBlock_add (mem : Nat → α) (address first second : Nat) :
    readBlock mem address (first + second) =
      readBlock mem address first ++ readBlock mem (address + first) second := by
  simp [readBlock, List.range_add, Function.comp_def, Nat.add_assoc]

theorem readBlock_congr {mem other : Nat → α} {address length : Nat}
    (h : ∀ i < length, mem (address + i) = other (address + i)) :
    readBlock mem address length = readBlock other address length := by
  simp only [readBlock]
  exact List.map_congr_left fun i hi => h i (List.mem_range.mp hi)

theorem readBlock_eq_iff (mem : Nat → α) (address : Nat) (block : List α) :
    readBlock mem address block.length = block ↔
      ∀ i, (h : i < block.length) → mem (address + i) = block[i] := by
  constructor
  · intro h i hi
    have hget := congrArg (fun l => l[i]?) h
    simpa [readBlock, hi] using hget
  · intro h
    apply List.ext_getElem
    · simp
    · intro i _ hi
      simpa [readBlock] using h i hi

@[simp] theorem overlay_nil (mem : Nat → α) (address : Nat) :
    overlay mem address [] = mem := by
  funext i
  simp [overlay]

theorem overlay_before (mem : Nat → α) {address i : Nat} (block : List α)
    (h : i < address) : overlay mem address block i = mem i := by
  simp [overlay, Nat.not_le.mpr h]

theorem overlay_after (mem : Nat → α) {address i : Nat} (block : List α)
    (h : address + block.length ≤ i) : overlay mem address block i = mem i := by
  have hle : block.length ≤ i - address := by omega
  simp [overlay, List.getElem?_eq_none hle]

theorem overlay_outside (mem : Nat → α) {address i : Nat} (block : List α)
    (h : i < address ∨ address + block.length ≤ i) :
    overlay mem address block i = mem i := by
  rcases h with h | h
  · exact overlay_before mem block h
  · exact overlay_after mem block h

@[simp] theorem overlay_inside (mem : Nat → α) (address : Nat) (block : List α)
    {i : Nat} (h : i < block.length) :
    overlay mem address block (address + i) = block[i] := by
  simp [overlay, h]

theorem overlay_inside' (mem : Nat → α) (address : Nat) (block : List α)
    {i : Nat} (hle : address ≤ i) (h : i - address < block.length) :
    overlay mem address block i = block[i - address] := by
  simp [overlay, hle, h]

theorem overlay_append (mem : Nat → α) (address : Nat) (first second : List α) :
    overlay mem address (first ++ second) =
      overlay (overlay mem address first) (address + first.length) second := by
  funext i
  by_cases hbefore : i < address + first.length
  · rw [overlay_before _ second hbefore]
    by_cases hle : address ≤ i
    · have hlt : i - address < first.length := by omega
      simp [overlay, hle, hlt, List.getElem?_append_left hlt]
    · simp [overlay, hle]
  · have hle : address ≤ i := by omega
    have hge : first.length ≤ i - address := by omega
    have hsub : i - address - first.length = i - (address + first.length) := by
      omega
    have hfirst := overlay_after mem first (Nat.not_lt.mp hbefore)
    simp only [overlay, hle, if_true, List.getElem?_append_right hge, hsub,
      Nat.not_lt.mp hbefore]
    simp only [overlay, hle, if_true] at hfirst
    rw [hfirst]

@[simp] theorem readBlock_overlay (mem : Nat → α) (address : Nat)
    (block : List α) :
    readBlock (overlay mem address block) address block.length = block :=
  (readBlock_eq_iff _ _ _).mpr fun _ h => overlay_inside mem address block h

theorem readBlock_overlay_outside (mem : Nat → α)
    {address other length : Nat} (block : List α)
    (h : other + length ≤ address ∨ address + block.length ≤ other) :
    readBlock (overlay mem address block) other length =
      readBlock mem other length :=
  readBlock_congr fun i hi => overlay_outside mem block (by omega)

@[simp] theorem overlay_readBlock (mem : Nat → α) (address length : Nat) :
    overlay mem address (readBlock mem address length) = mem := by
  funext i
  by_cases h : address ≤ i ∧ i < address + length
  · have hlt : i - address < length := by omega
    have hi : address + (i - address) = i := by omega
    simp [overlay, h.1, readBlock, hlt, hi]
  · exact overlay_outside mem _ (by simp; omega)

theorem overlay_of_readBlock_eq {mem : Nat → α} {address : Nat}
    {block : List α} (h : readBlock mem address block.length = block) :
    overlay mem address block = mem := by
  have hself := overlay_readBlock mem address block.length
  rwa [h] at hself

end Qmk.Lib
