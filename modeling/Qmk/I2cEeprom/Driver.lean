import Mathlib.Algebra.Group.Nat.Defs
import Mathlib.Logic.Function.Basic
import Qmk.Lib.Memory

/-!
# The I2C EEPROM driver

`eeprom_write_block` of `eeprom_i2c.c`, and a device that takes a message apart, looks up
the location that the device address and the address bytes name, and writes inside one page.
-/

namespace Qmk.I2cEeprom

open Qmk.Lib

abbrev Byte := BitVec 8

abbrev Memory := Nat → Byte

structure Config where
  /-- `EXTERNAL_EEPROM_BYTE_COUNT`. -/
  byteCount : Nat
  /-- `EXTERNAL_EEPROM_PAGE_SIZE`. -/
  pageSize : Nat
  /-- `EXTERNAL_EEPROM_ADDRESS_SIZE`. -/
  addressSize : Nat
  /-- `EXTERNAL_EEPROM_I2C_ADDRESS`. -/
  i2cAddress : Nat → Nat
  pageSize_pos : 0 < pageSize
  pageSize_le : pageSize ≤ 256
  pageSize_dvd : pageSize ∣ byteCount
  /-- The device address carries the bits that the address bytes leave out. -/
  carries : ∀ a b, a < byteCount → b < byteCount →
    (i2cAddress a = i2cAddress b ↔ a / 256 ^ addressSize = b / 256 ^ addressSize)

section Device

variable (cfg : Config)

def wordAddress (bytes : List Byte) : Nat :=
  bytes.foldl (fun address byte => address * 256 + byte.toNat) 0

/-- The location that a message addresses. -/
def select (device address : Nat) : Option Nat :=
  (List.range cfg.byteCount).find? fun loc =>
    cfg.i2cAddress loc = device ∧ loc % 256 ^ cfg.addressSize = address

/-- The location of the byte `j` of a message to `loc`, inside the page of `loc`. -/
def pageAddress (loc j : Nat) : Nat :=
  loc / cfg.pageSize * cfg.pageSize + (loc % cfg.pageSize + j) % cfg.pageSize

def pageWrite (loc : Nat) : Nat → List Byte → Memory → Memory
  | _, [], memory => memory
  | j, byte :: bytes, memory =>
      pageWrite loc (j + 1) bytes (Function.update memory (pageAddress cfg loc j) byte)

/-- A write message at the device. -/
def receive (device : Nat) (message : List Byte) (memory : Memory) : Memory :=
  match select cfg device (wordAddress (message.take cfg.addressSize)) with
  | none => memory
  | some loc => pageWrite cfg loc 0 (message.drop cfg.addressSize) memory

end Device

section Driver

variable (cfg : Config)

def fillTargetAddress : Nat → Nat → List Byte
  | 0, _ => []
  | size + 1, p => fillTargetAddress size (p / 256) ++ [BitVec.ofNat 8 p]

/-- The loop with the index `uint8_t i`; `none` when the fuel runs out. -/
def copyLoop (readBuf : Nat → Byte) (writeLength : Nat) :
    Nat → BitVec 8 → List Byte → Option (List Byte)
  | 0, _, _ => none
  | fuel + 1, i, packet =>
      if i.toNat < writeLength then
        copyLoop readBuf writeLength fuel (i + 1) (packet ++ [readBuf i.toNat])
      else some packet

/-- `int write_length`. -/
def writeLength (targetAddr len : Nat) : Nat :=
  let untilPageEnd := cfg.pageSize - targetAddr % cfg.pageSize
  if len < untilPageEnd then len else untilPageEnd

/-- The loop over the pages; the device address is that of `addr` all the way. -/
def writeLoop (addr : Nat) : Nat → (Nat → Byte) → Nat → Nat → Memory → Option Memory
  | 0, _, _, _, _ => none
  | fuel + 1, readBuf, targetAddr, len, memory =>
      if 0 < len then
        let count := writeLength cfg targetAddr len
        match copyLoop readBuf count fuel 0 (fillTargetAddress cfg.addressSize targetAddr) with
        | none => none
        | some completePacket =>
            writeLoop addr fuel (fun i => readBuf (count + i)) (targetAddr + count)
              (len - count) (receive cfg (cfg.i2cAddress addr) completePacket memory)
      else some memory

def eepromWriteBlock (fuel : Nat) (buf : Nat → Byte) (addr len : Nat) (memory : Memory) :
    Option Memory :=
  writeLoop cfg addr fuel buf addr len memory

end Driver

variable {cfg : Config}

/-! ## Addresses -/

@[simp] theorem fillTargetAddress_length (size p : Nat) :
    (fillTargetAddress size p).length = size := by
  induction size generalizing p with
  | zero => rfl
  | succ size ih => simp [fillTargetAddress, ih]

theorem wordAddress_fillTargetAddress (size p : Nat) :
    wordAddress (fillTargetAddress size p) = p % 256 ^ size := by
  induction size generalizing p with
  | zero => simp [wordAddress, fillTargetAddress, Nat.mod_one]
  | succ size ih =>
      have hrest : wordAddress (fillTargetAddress (size + 1) p) =
          wordAddress (fillTargetAddress size (p / 256)) * 256 + p % 256 := by
        simp [wordAddress, fillTargetAddress]
      rw [hrest, ih, Nat.pow_succ, Nat.mul_comm (256 ^ size), Nat.mod_mul]
      omega

theorem select_some {device address loc : Nat} (h : select cfg device address = some loc) :
    loc < cfg.byteCount ∧ cfg.i2cAddress loc = device ∧
      loc % 256 ^ cfg.addressSize = address := by
  have hfound := List.find?_some h
  have hmem := List.mem_of_find?_eq_some h
  simp only [decide_eq_true_eq] at hfound
  exact ⟨List.mem_range.mp hmem, hfound⟩

/-- A message with the device address of its target reaches the target. -/
theorem select_own {loc : Nat} (h : loc < cfg.byteCount) :
    select cfg (cfg.i2cAddress loc) (loc % 256 ^ cfg.addressSize) = some loc := by
  cases hselect : select cfg (cfg.i2cAddress loc) (loc % 256 ^ cfg.addressSize) with
  | none =>
      have hnone := List.find?_eq_none.mp hselect loc (List.mem_range.mpr h)
      simp at hnone
  | some other =>
      obtain ⟨hlt, hdevice, hlow⟩ := select_some hselect
      have hhigh := (cfg.carries other loc hlt h).mp hdevice
      rw [← Nat.div_add_mod other (256 ^ cfg.addressSize), hhigh, hlow, Nat.div_add_mod]

theorem select_high {addr address loc : Nat} (haddr : addr < cfg.byteCount)
    (h : select cfg (cfg.i2cAddress addr) address = some loc) :
    loc / 256 ^ cfg.addressSize = addr / 256 ^ cfg.addressSize := by
  obtain ⟨hlt, hdevice, -⟩ := select_some h
  exact (cfg.carries loc addr hlt haddr).mp hdevice

/-! ## Pages -/

theorem pageAddress_eq {loc j : Nat} (h : loc % cfg.pageSize + j < cfg.pageSize) :
    pageAddress cfg loc j = loc + j := by
  rw [pageAddress, Nat.mod_eq_of_lt h, ← Nat.add_assoc, Nat.mul_comm, Nat.div_add_mod]

theorem pageAddress_div (loc j : Nat) : pageAddress cfg loc j / cfg.pageSize = loc / cfg.pageSize := by
  have hlt := Nat.mod_lt (loc % cfg.pageSize + j) cfg.pageSize_pos
  rw [pageAddress, Nat.add_comm, Nat.add_mul_div_right _ _ cfg.pageSize_pos,
    Nat.div_eq_of_lt hlt, Nat.zero_add]

theorem overlay_cons (memory : Memory) (address : Nat) (byte : Byte) (bytes : List Byte) :
    overlay memory address (byte :: bytes) =
      overlay (Function.update memory address byte) (address + 1) bytes := by
  have hone : overlay memory address [byte] = Function.update memory address byte := by
    funext a
    by_cases ha : a = address
    · subst ha
      simp [overlay]
    · rw [Function.update_of_ne ha]
      exact overlay_outside memory [byte] (by simp; omega)
  rw [← hone, ← List.singleton_append, overlay_append]
  rfl

theorem pageWrite_eq {loc : Nat} (bytes : List Byte) (j : Nat) (memory : Memory)
    (h : loc % cfg.pageSize + j + bytes.length ≤ cfg.pageSize) :
    pageWrite cfg loc j bytes memory = overlay memory (loc + j) bytes := by
  induction bytes generalizing j memory with
  | nil => simp [pageWrite]
  | cons byte bytes ih =>
      rw [List.length_cons] at h
      rw [pageWrite, ih (j + 1) _ (by omega), pageAddress_eq (by omega), overlay_cons,
        Nat.add_assoc]

theorem pageWrite_other {loc a : Nat} (bytes : List Byte) (j : Nat) (memory : Memory)
    (h : a / cfg.pageSize ≠ loc / cfg.pageSize) :
    pageWrite cfg loc j bytes memory a = memory a := by
  induction bytes generalizing j memory with
  | nil => rfl
  | cons byte bytes ih =>
      have hne : a ≠ pageAddress cfg loc j := by
        intro heq
        rw [heq, pageAddress_div] at h
        exact h rfl
      rw [pageWrite, ih, Function.update_of_ne hne]

/-! ## Messages -/

theorem copyLoop_eq (readBuf : Nat → Byte) {count : Nat} (hcount : count < 256)
    (fuel : Nat) : ∀ (i remaining : Nat) (packet : List Byte), i + remaining = count →
      copyLoop readBuf count fuel (BitVec.ofNat 8 i) packet =
        if remaining < fuel then some (packet ++ readBlock readBuf i remaining) else none := by
  induction fuel with
  | zero => exact fun _ _ _ _ => rfl
  | succ fuel ih =>
      intro i remaining packet hi
      have htoNat : (BitVec.ofNat 8 i).toNat = i := Nat.mod_eq_of_lt (by omega)
      rw [copyLoop, htoNat]
      cases remaining with
      | zero => rw [if_neg (by omega), if_pos (by omega), readBlock_zero, List.append_nil]
      | succ remaining =>
          have hnext : BitVec.ofNat 8 i + 1 = BitVec.ofNat 8 (i + 1) := by
            rw [BitVec.ofNat_add]
            rfl
          rw [if_pos (by omega), hnext, ih (i + 1) remaining _ (by omega), List.append_assoc,
            Nat.add_comm remaining 1, readBlock_add]
          simp only [Nat.add_comm 1 remaining, Nat.add_lt_add_iff_right]
          rfl

theorem copyLoop_none (readBuf : Nat → Byte) {count : Nat} (hcount : 256 ≤ count)
    (fuel : Nat) (i : BitVec 8) (packet : List Byte) :
    copyLoop readBuf count fuel i packet = none := by
  induction fuel generalizing i packet with
  | zero => rfl
  | succ fuel ih =>
      have hlt := i.isLt
      rw [copyLoop, if_pos (by omega), ih]

end Qmk.I2cEeprom
