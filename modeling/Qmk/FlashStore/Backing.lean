import Qmk.FlashStore.Driver

/-!
# What the backing store keeps

Erasing stops at a block that ends where the chip ends, because the driver's limit check refuses
it.  A write arrives where the bytes are erased or only gain bits, and a read of 64 KiB or more
leaves part of the caller's array alone.
-/

namespace Qmk.FlashStore

open Qmk.Lib

variable {cfg : Config}

/-- A byte of the backing store, as it reads. -/
def stored (cfg : Config) (chip : NorFlash) (address : Nat) : Byte :=
  ~~~ chip.mem (cfg.start + address)

def Inside (cfg : Config) (address length : Nat) : Prop :=
  address + length ≤ cfg.blockCount * cfg.blockSize

/-! ## Erasing -/

theorem start_add_le {address length : Nat} (inside : Inside cfg address length) :
    cfg.start + address + length ≤ cfg.size := by
  have region := cfg.inside
  rw [Inside] at inside
  rw [Nat.add_mul] at region
  rw [Config.start]
  omega

theorem flashEraseBlock_eq {addr : Nat} (chip : NorFlash) (aligned : addr % cfg.blockSize = 0)
    (before : addr + cfg.blockSize < cfg.size) :
    flashEraseBlock cfg addr chip =
      (.success, ⟨fun a => if a / cfg.blockSize = addr / cfg.blockSize then BitVec.allOnes 8
        else chip.mem a, false⟩) := by
  have accepted : ¬ (cfg.size ≤ addr + cfg.blockSize ∨ addr % cfg.blockSize ≠ 0) := by
    omega
  have positive := cfg.blockSize_pos
  rw [flashEraseBlock, if_neg accepted, NorFlash.blockErase_eq rfl (by omega)]
  rfl

theorem eraseBlocks_eq (left : Nat) (i : Nat) (chip : NorFlash)
    (before : (cfg.blockOffset + i + left) * cfg.blockSize < cfg.size) :
    (eraseBlocks cfg left i chip).1 = true ∧
      ∀ a, (eraseBlocks cfg left i chip).2.mem a =
        if cfg.blockOffset + i ≤ a / cfg.blockSize ∧
            a / cfg.blockSize < cfg.blockOffset + i + left then BitVec.allOnes 8
        else chip.mem a := by
  induction left generalizing i chip with
  | zero =>
      refine ⟨rfl, fun a => ?_⟩
      rw [if_neg (by omega)]
      rfl
  | succ left ih =>
      have positive := cfg.blockSize_pos
      have next : (cfg.blockOffset + i) * cfg.blockSize + cfg.blockSize ≤
          (cfg.blockOffset + i + (left + 1)) * cfg.blockSize := by
        rw [← Nat.succ_mul]
        exact Nat.mul_le_mul_right _ (by omega)
      have erased := flashEraseBlock_eq chip (Nat.mul_mod_left _ cfg.blockSize)
        (Nat.lt_of_le_of_lt next before)
      rw [eraseBlocks, erased]
      obtain ⟨okay, cells⟩ := ih (i + 1)
        ⟨fun a => if a / cfg.blockSize =
          (cfg.blockOffset + i) * cfg.blockSize / cfg.blockSize then BitVec.allOnes 8
            else chip.mem a, false⟩ (by
          rw [show cfg.blockOffset + (i + 1) + left = cfg.blockOffset + i + (left + 1) by omega]
          exact before)
      refine ⟨okay, fun a => (cells a).trans ?_⟩
      rw [Nat.mul_div_cancel _ positive]
      by_cases here : a / cfg.blockSize = cfg.blockOffset + i
      · rw [if_neg (by omega), if_pos (by omega)]
        exact if_pos here
      · by_cases later : cfg.blockOffset + (i + 1) ≤ a / cfg.blockSize ∧
          a / cfg.blockSize < cfg.blockOffset + (i + 1) + left
        · rw [if_pos later, if_pos (by omega)]
        · rw [if_neg later, if_neg (by omega)]
          exact if_neg here

theorem eraseBlocks_refused (left : Nat) {i : Nat} {chip : NorFlash}
    (last : (cfg.blockOffset + i + (left + 1)) * cfg.blockSize = cfg.size) :
    (eraseBlocks cfg (left + 1) i chip).1 = false := by
  induction left generalizing i chip with
  | zero =>
      have refused : cfg.size ≤ (cfg.blockOffset + i) * cfg.blockSize + cfg.blockSize := by
        rw [← Nat.succ_mul]
        exact Nat.le_of_eq last.symm
      rw [eraseBlocks, flashEraseBlock, if_pos (.inl refused)]
  | succ left ih =>
      have next : (cfg.blockOffset + (i + 1) + (left + 1)) * cfg.blockSize = cfg.size := by
        rw [← last]
        congr 1
        omega
      rw [eraseBlocks]
      split
      · exact ih next
      · rfl

/-! ## Reading -/

theorem readBulk_eq {address : Nat} {values : List Byte} {chip : NorFlash}
    (inside : Inside cfg address values.length) :
    backingStoreReadBulk cfg address values chip =
      (true, (List.range (spiLength values.length)).map (fun i => stored cfg chip (address + i)) ++
        complement (values.drop (spiLength values.length))) := by
  have room := start_add_le inside
  have received : chip.read (addressWire cfg.addressSize (cfg.start + address))
      (spiLength values.length) =
      readBlock chip.mem (cfg.start + address) (spiLength values.length) := by
    by_cases none : values.length = 0
    · rw [none]
      rfl
    · exact NorFlash.read_eq (g := cfg.toFlashGeometry) (by omega) _
  simp only [backingStoreReadBulk, flashReadRange, received, readBlock_length]
  simp only [complement, List.map_append, readBlock, List.map_map, stored, Function.comp_def,
    Nat.add_assoc]

/-- A read of a range gives what is stored there, whatever the array held. -/
def ReadsBack (cfg : Config) (address length : Nat) (chip : NorFlash) : Prop :=
  ∀ values : List Byte, values.length = length →
    backingStoreReadBulk cfg address values chip =
      (true, (List.range length).map fun i => stored cfg chip (address + i))

theorem readsBack_iff {address length : Nat} {chip : NorFlash}
    (inside : Inside cfg address length) :
    ReadsBack cfg address length chip ↔ length < 2 ^ 16 := by
  constructor
  · intro reads
    by_contra long
    -- the last byte of the array is never received
    have shorter : spiLength length < length :=
      Nat.lt_of_lt_of_le (Nat.mod_lt _ (by decide)) (by omega)
    have read := reads (List.replicate length (stored cfg chip (address + (length - 1))))
      (List.length_replicate ..)
    rw [readBulk_eq (by rwa [List.length_replicate]), List.length_replicate, Prod.mk.injEq] at read
    have last := congrArg (fun bytes => bytes[length - 1]?) read.2
    rw [List.getElem?_append_right (by simp; omega)] at last
    simp only [List.length_map, List.length_range, complement, List.getElem?_map,
      List.getElem?_drop, List.getElem?_replicate] at last
    rw [if_pos (by omega), List.getElem?_range (by omega)] at last
    simp at last
  · intro short values length_eq
    rw [readBulk_eq (by rwa [length_eq]), length_eq, spiLength_eq short, ← length_eq,
      List.drop_length, complement, List.map_nil, List.append_nil]

/-! ## The three operations -/

theorem itemSize_lt (cfg : Config) : cfg.itemSize < 2 ^ 16 := by
  rw [Config.itemSize]
  cases cfg.writeSize <;> decide

/-- `backing_store_erase` succeeds, and every backing word then reads 0. -/
def Erases (cfg : Config) (chip : NorFlash) : Prop :=
  (backingStoreErase cfg chip).1 = true ∧
    ∀ address, Inside cfg address cfg.itemSize → ∀ values : List Byte,
      values.length = cfg.itemSize →
      backingStoreReadBulk cfg address values (backingStoreErase cfg chip).2 =
        (true, List.replicate cfg.itemSize 0)

/-- The region ends before the chip does. -/
def EndsBefore (cfg : Config) : Prop :=
  cfg.blockCount = 0 ∨ (cfg.blockOffset + cfg.blockCount) * cfg.blockSize < cfg.size

theorem erases_iff (chip : NorFlash) : Erases cfg chip ↔ EndsBefore cfg := by
  constructor
  · intro erases
    by_contra ends
    rw [EndsBefore, not_or] at ends
    obtain ⟨some, atEnd⟩ := ends
    have region := cfg.inside
    obtain ⟨left, count⟩ := Nat.exists_eq_succ_of_ne_zero some
    have refused : (backingStoreErase cfg chip).1 = false := by
      rw [backingStoreErase, count]
      refine eraseBlocks_refused left ?_
      rw [Nat.add_zero, show left + 1 = cfg.blockCount from count.symm]
      omega
    have okay := erases.1
    rw [refused] at okay
    cases okay
  · intro ends
    have positive := cfg.blockSize_pos
    have erased : (backingStoreErase cfg chip).1 = true ∧
        ∀ a, cfg.start ≤ a → a < cfg.start + cfg.blockCount * cfg.blockSize →
          (backingStoreErase cfg chip).2.mem a = BitVec.allOnes 8 := by
      rcases ends with none | before
      · rw [backingStoreErase, none]
        exact ⟨rfl, fun a low high => by omega⟩
      · obtain ⟨okay, cells⟩ := eraseBlocks_eq cfg.blockCount 0 chip before
        refine ⟨okay, fun a low high => (cells a).trans (if_pos ⟨?_, ?_⟩)⟩
        · exact (Nat.le_div_iff_mul_le positive).mpr low
        · rw [Nat.div_lt_iff_lt_mul positive, Nat.add_mul]
          exact high
    refine ⟨erased.1, fun address inside values length => ?_⟩
    rw [(readsBack_iff inside).mpr (itemSize_lt cfg) values length, Prod.mk.injEq]
    refine ⟨rfl, List.eq_replicate_iff.mpr ⟨by simp, fun byte listed => ?_⟩⟩
    obtain ⟨i, below, rfl⟩ := List.mem_map.mp listed
    rw [List.mem_range] at below
    rw [Inside] at inside
    rw [stored, erased.2 _ (by omega) (by omega)]
    decide

/-- `backing_store_write_bulk` succeeds, the items of the range read as written, and the rest of
the flash is unchanged. -/
def Writes (cfg : Config) (address itemCount : Nat) (values : List Byte) (chip : NorFlash) :
    Prop :=
  let after := backingStoreWriteBulk cfg address itemCount values chip
  after.1 = true ∧
    (∀ i, i < itemCount → ∀ array : List Byte, array.length = cfg.itemSize →
      backingStoreReadBulk cfg (address + i * cfg.itemSize) array after.2 =
        (true, (values.drop (i * cfg.itemSize)).take cfg.itemSize)) ∧
    ∀ a, (a < cfg.start + address ∨ cfg.start + address + values.length ≤ a) →
      after.2.mem a = chip.mem a

/-- Each byte of the range reads 0, or has no bit that the new value lacks. -/
def OnlyGains (cfg : Config) (address : Nat) (values : List Byte) (chip : NorFlash) : Prop :=
  ∀ k (h : k < values.length), stored cfg chip (address + k) ||| values[k] = values[k]

theorem stored_write {address itemCount : Nat} {values : List Byte} (chip : NorFlash)
    (fits : TransfersFit cfg) (length : values.length = itemCount * cfg.itemSize)
    (inside : Inside cfg address values.length) :
    (backingStoreWriteBulk cfg address itemCount values chip).1 = true ∧
      (∀ k (h : k < values.length),
        stored cfg (backingStoreWriteBulk cfg address itemCount values chip).2 (address + k) =
          stored cfg chip (address + k) ||| values[k]) ∧
      ∀ a, (a < cfg.start + address ∨ cfg.start + address + values.length ≤ a) →
        (backingStoreWriteBulk cfg address itemCount values chip).2.mem a = chip.mem a := by
  have written := writeChunks_eq fits (itemCount + 1) chip (Nat.lt_succ_self _) length
    (start_add_le inside)
  rw [backingStoreWriteBulk, written]
  refine ⟨rfl, fun k h => ?_, fun a outside => ?_⟩
  · have bound : k < (complement values).length := by
      rw [length_complement]
      exact h
    have cell := burn_inside chip.mem _ (cfg.start + address) bound
    rw [Nat.add_assoc] at cell
    simp only [stored, cell, BitVec.not_and]
    simp [complement]
  · exact burn_outside _ _ (by rwa [length_complement])

theorem writes_iff {address itemCount : Nat} {values : List Byte} {chip : NorFlash}
    (fits : TransfersFit cfg) (length : values.length = itemCount * cfg.itemSize)
    (inside : Inside cfg address values.length) :
    Writes cfg address itemCount values chip ↔ OnlyGains cfg address values chip := by
  have size := itemSize_pos cfg
  obtain ⟨okay, cells, others⟩ := stored_write chip fits length inside
  have item (i : Nat) (h : i < itemCount) : (i + 1) * cfg.itemSize ≤ itemCount * cfg.itemSize :=
    Nat.mul_le_mul_right _ h
  have insideItem (i : Nat) (h : i < itemCount) :
      Inside cfg (address + i * cfg.itemSize) cfg.itemSize := by
    have bound := item i h
    rw [Nat.succ_mul] at bound
    rw [Inside] at inside ⊢
    omega
  have read (i : Nat) (h : i < itemCount) :
      ReadsBack cfg (address + i * cfg.itemSize) cfg.itemSize
        (backingStoreWriteBulk cfg address itemCount values chip).2 :=
    (readsBack_iff (insideItem i h)).mpr (itemSize_lt cfg)
  constructor
  · rintro ⟨-, reads, -⟩ k h
    have which : k / cfg.itemSize < itemCount := by
      rw [Nat.div_lt_iff_lt_mul size, ← length]
      exact h
    have position : k / cfg.itemSize * cfg.itemSize + k % cfg.itemSize = k := by
      rw [Nat.mul_comm]
      exact Nat.div_add_mod ..
    have low := Nat.mod_lt k size
    have same := reads (k / cfg.itemSize) which (List.replicate cfg.itemSize 0) (by simp)
    rw [read _ which _ (by simp), Prod.mk.injEq] at same
    have byte := congrArg (fun bytes => bytes[k % cfg.itemSize]?) same.2
    simp only [List.getElem?_map, List.getElem?_range low, Option.map_some,
      List.getElem?_take_of_lt low, List.getElem?_drop, Nat.add_assoc, position,
      List.getElem?_eq_getElem h, Option.some.injEq] at byte
    rw [← cells k h, byte]
  · intro gains
    refine ⟨okay, fun i h array arrayLength => ?_, others⟩
    have bound := item i h
    rw [Nat.succ_mul] at bound
    rw [read i h array arrayLength, Prod.mk.injEq]
    refine ⟨rfl, List.ext_getElem (by simp; omega) fun j low _ => ?_⟩
    rw [List.length_map, List.length_range] at low
    have here : i * cfg.itemSize + j < values.length := by omega
    rw [List.getElem_map, List.getElem_range, List.getElem_take, List.getElem_drop,
      Nat.add_assoc, cells _ here, gains _ here]

/-- The backing store is erased unless its region ends with the chip; what is written reads back
where it is erased or only gains bits; and a range reads back in one call if it is shorter than
64 KiB. -/
theorem flashStore_implements (cfg : Config) (chip : NorFlash) :
    (Erases cfg chip ↔ EndsBefore cfg) ∧
    (∀ address length, Inside cfg address length →
      (ReadsBack cfg address length chip ↔ length < 2 ^ 16)) ∧
    (TransfersFit cfg → ∀ address itemCount values, values.length = itemCount * cfg.itemSize →
      Inside cfg address values.length →
      (Writes cfg address itemCount values chip ↔ OnlyGains cfg address values chip)) :=
  ⟨erases_iff chip, fun _ _ inside => readsBack_iff inside,
    fun fits _ _ _ length inside => writes_iff fits length inside⟩

/-- The default chip, with the store in its last block. -/
def lastBlock : Config where
  pageSize := 256
  blockSize := 64 * 1024
  size := 512 * 1024
  addressSize := 3
  pageSize_pos := Nat.two_pow_pos 8
  blockSize_pos := by decide
  addressed := by decide
  writeSize := .eight
  bulkCount := 32
  blockOffset := 7
  blockCount := 1
  size_lt := by decide
  bulkCount_pos := by decide
  inside := by decide

theorem lastBlock_not_erased :
    ¬ ∀ chip : NorFlash, Erases lastBlock chip := by
  intro claim
  have okay := (claim ⟨fun _ => 0, false⟩).1
  have refused : (backingStoreErase lastBlock ⟨fun _ => 0, false⟩).1 = false := rfl
  rw [refused] at okay
  cases okay

end Qmk.FlashStore
