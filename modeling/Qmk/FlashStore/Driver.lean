import Qmk.Lib.NorFlash
import Qmk.WearLeveling.Platform

/-!
# The backing store on an external SPI flash

`wear_leveling_flash_spi.c` over `flash_spi.c`.  The chip answers every command and is never busy
past the time-out, so waiting for it always succeeds.  An array of `backing_store_int_t` is the
list of its bytes.
-/

namespace Qmk.FlashStore

open Qmk.Lib
open Qmk.WearLeveling (WriteSize)

abbrev Byte := BitVec 8

structure Config extends FlashGeometry where
  /-- `BACKING_STORE_WRITE_SIZE`. -/
  writeSize : WriteSize
  /-- `WEAR_LEVELING_EXTERNAL_FLASH_BULK_COUNT`. -/
  bulkCount : Nat
  /-- `WEAR_LEVELING_EXTERNAL_FLASH_BLOCK_OFFSET`. -/
  blockOffset : Nat
  /-- `WEAR_LEVELING_EXTERNAL_FLASH_BLOCK_COUNT`. -/
  blockCount : Nat
  /-- `EXTERNAL_FLASH_SIZE` is a `long`. -/
  size_lt : size < 2 ^ 31
  bulkCount_pos : 0 < bulkCount
  inside : (blockOffset + blockCount) * blockSize ≤ size

inductive FlashStatus
  | success
  | error
  deriving DecidableEq

section Driver

variable (cfg : Config)

abbrev Config.itemSize : Nat := cfg.writeSize.bytes

/-- The length of `spi_transmit` and `spi_receive` is a `uint16_t`. -/
def spiLength (len : Nat) : Nat := len % 2 ^ 16

def flashEraseBlock (addr : Nat) (chip : NorFlash) : FlashStatus × NorFlash :=
  if cfg.size ≤ addr + cfg.blockSize ∨ addr % cfg.blockSize ≠ 0 then (.error, chip)
  else
    (.success, chip.writeEnable.blockErase cfg.toFlashGeometry (addressWire cfg.addressSize addr))

def flashReadRange (addr : Nat) (buf : List Byte) (chip : NorFlash) : FlashStatus × List Byte :=
  let received := chip.read (addressWire cfg.addressSize addr) (spiLength buf.length)
  (.success, received ++ buf.drop received.length)

def writePages : Nat → Nat → List Byte → NorFlash → NorFlash
  | 0, _, _, chip => chip
  | fuel + 1, addr, writeBuf, chip =>
      if writeBuf.length = 0 then chip
      else
        let writeLength := min (cfg.pageSize - addr % cfg.pageSize) writeBuf.length
        writePages fuel (addr + writeLength) (writeBuf.drop writeLength)
          (chip.writeEnable.pageProgram cfg.toFlashGeometry (addressWire cfg.addressSize addr)
            (writeBuf.take (spiLength writeLength)))

def flashWriteRange (addr : Nat) (buf : List Byte) (chip : NorFlash) : FlashStatus × NorFlash :=
  (.success, (writePages cfg buf.length addr buf chip).writeDisable)

def Config.start : Nat := cfg.blockOffset * cfg.blockSize

/-- The loop over the blocks, `left` of which are still to come. -/
def eraseBlocks : Nat → Nat → NorFlash → Bool × NorFlash
  | 0, _, chip => (true, chip)
  | left + 1, i, chip =>
      match flashEraseBlock cfg ((cfg.blockOffset + i) * cfg.blockSize) chip with
      | (.success, chip) => eraseBlocks left (i + 1) chip
      | (.error, chip) => (false, chip)

def backingStoreErase (chip : NorFlash) : Bool × NorFlash :=
  eraseBlocks cfg cfg.blockCount 0 chip

def complement (bytes : List Byte) : List Byte := bytes.map (~~~ ·)

/-- `values` is what the array holds before. -/
def backingStoreReadBulk (address : Nat) (values : List Byte) (chip : NorFlash) :
    Bool × List Byte :=
  match flashReadRange cfg (cfg.start + address) values chip with
  | (.success, values) => (true, complement values)
  | (.error, values) => (false, values)

def writeChunks : Nat → Nat → Nat → List Byte → NorFlash → Bool × NorFlash
  | 0, _, _, _, chip => (false, chip)
  | fuel + 1, offset, itemCount, values, chip =>
      let thisLoop := min itemCount cfg.bulkCount
      let temp := complement (values.take (thisLoop * cfg.itemSize))
      match flashWriteRange cfg offset temp chip with
      | (.error, chip) => (false, chip)
      | (.success, chip) =>
          if 0 < itemCount - thisLoop then
            writeChunks fuel (offset + thisLoop * cfg.itemSize) (itemCount - thisLoop)
              (values.drop (thisLoop * cfg.itemSize)) chip
          else (true, chip)

def backingStoreWriteBulk (address itemCount : Nat) (values : List Byte) (chip : NorFlash) :
    Bool × NorFlash :=
  writeChunks cfg (itemCount + 1) (cfg.start + address) itemCount values chip

end Driver

variable {cfg : Config}

/-! ## Pages and chunks -/

/-- No page transfer needs more than the 16 bits of its length. -/
def TransfersFit (cfg : Config) : Prop :=
  cfg.pageSize < 2 ^ 16 ∨ cfg.bulkCount * cfg.itemSize < 2 ^ 16

theorem spiLength_eq {len : Nat} (short : len < 2 ^ 16) : spiLength len = len :=
  Nat.mod_eq_of_lt short

theorem writePages_eq (fuel : Nat) {addr : Nat} {buf : List Byte} {chip : NorFlash}
    (enough : buf.length ≤ fuel) (inChip : addr + buf.length ≤ cfg.size)
    (fits : cfg.pageSize < 2 ^ 16 ∨ buf.length < 2 ^ 16) :
    (writePages cfg fuel addr buf chip).mem = burn chip.mem addr buf := by
  induction fuel generalizing addr buf chip with
  | zero =>
      have empty : buf = [] := List.length_eq_zero_iff.mp (Nat.le_zero.mp enough)
      subst empty
      rw [writePages, burn_nil]
  | succ fuel ih =>
      rw [writePages]
      split
      · rename_i none
        rw [List.length_eq_zero_iff.mp none, burn_nil]
      · rename_i some
        have inPage := Nat.mod_lt addr cfg.pageSize_pos
        generalize hlength : min (cfg.pageSize - addr % cfg.pageSize) buf.length = writeLength
        have short : spiLength writeLength = writeLength := spiLength_eq (by omega)
        have taken : (buf.take writeLength).length = writeLength := by
          rw [List.length_take]
          omega
        simp only [short]
        rw [ih (by rw [List.length_drop]; omega) (by rw [List.length_drop]; omega)
          (by rw [List.length_drop]; omega),
          NorFlash.pageProgram_eq rfl (by omega) (by rw [taken]; omega)]
        conv_rhs => rw [← List.take_append_drop writeLength buf, burn_append, taken]
        rfl

theorem flashWriteRange_eq {addr : Nat} {buf : List Byte} {chip : NorFlash}
    (inChip : addr + buf.length ≤ cfg.size)
    (fits : cfg.pageSize < 2 ^ 16 ∨ buf.length < 2 ^ 16) :
    flashWriteRange cfg addr buf chip = (.success, ⟨burn chip.mem addr buf, false⟩) := by
  rw [flashWriteRange, NorFlash.writeDisable, writePages_eq _ (Nat.le_refl _) inChip fits]

@[simp] theorem length_complement (bytes : List Byte) :
    (complement bytes).length = bytes.length := by
  rw [complement, List.length_map]

theorem itemSize_pos (cfg : Config) : 0 < cfg.itemSize := by
  rw [Config.itemSize]
  cases cfg.writeSize <;> decide

theorem writeChunks_eq (fits : TransfersFit cfg) (fuel : Nat) {offset itemCount : Nat}
    {values : List Byte} (chip : NorFlash) (enough : itemCount < fuel)
    (length : values.length = itemCount * cfg.itemSize)
    (inChip : offset + values.length ≤ cfg.size) :
    writeChunks cfg fuel offset itemCount values chip =
      (true, ⟨burn chip.mem offset (complement values), false⟩) := by
  induction fuel generalizing offset itemCount values chip with
  | zero => omega
  | succ fuel ih =>
      rw [writeChunks]
      generalize hloop : min itemCount cfg.bulkCount = thisLoop
      have bulk := cfg.bulkCount_pos
      have chunk : thisLoop * cfg.itemSize ≤ itemCount * cfg.itemSize :=
        Nat.mul_le_mul_right _ (by omega)
      have bounded : thisLoop * cfg.itemSize ≤ cfg.bulkCount * cfg.itemSize :=
        Nat.mul_le_mul_right _ (by omega)
      have taken : (complement (values.take (thisLoop * cfg.itemSize))).length =
          thisLoop * cfg.itemSize := by
        rw [length_complement, List.length_take]
        omega
      have short : cfg.pageSize < 2 ^ 16 ∨
          (complement (values.take (thisLoop * cfg.itemSize))).length < 2 ^ 16 := by
        rw [taken]
        exact Or.imp_right (Nat.lt_of_le_of_lt bounded) fits
      have inside : offset + (complement (values.take (thisLoop * cfg.itemSize))).length ≤
          cfg.size := by
        rw [taken]
        omega
      simp only [flashWriteRange_eq inside short]
      split
      · have rest : (itemCount - thisLoop) * cfg.itemSize =
            itemCount * cfg.itemSize - thisLoop * cfg.itemSize := Nat.sub_mul ..
        rw [ih _ (by omega) (by rw [List.length_drop, length, rest])
          (by rw [List.length_drop]; omega)]
        conv_rhs =>
          rw [← List.take_append_drop (thisLoop * cfg.itemSize) values, complement,
            List.map_append, burn_append]
        simp only [complement, List.length_map] at taken ⊢
        rw [taken]
      · have all : thisLoop = itemCount := by omega
        rw [all, ← length, List.take_length]

end Qmk.FlashStore
