import Mathlib.Algebra.Group.Nat.Defs
import Qmk.LegacyEeprom.Driver

/-!
# Words and log entries as numbers

What the shifts and masks of the driver compute, and what the replay loop reads
back from each of the encodings that the driver writes.
-/

namespace Qmk.LegacyEeprom

open Qmk.Lib

/-! ## Words of the buffer -/

private theorem or_shiftLeft_eq_add {low n : Nat} (h : low < 2 ^ n) (high : Nat) :
    low ||| (high <<< n) = low + high * 2 ^ n := by
  rw [Nat.or_comm, ← Nat.shiftLeft_add_eq_or_of_lt h, Nat.shiftLeft_eq]
  omega

theorem loadWord_toNat (buf : Nat → UInt8) (address : Nat) :
    (loadWord buf address).toNat =
      (buf address).toNat + (buf (address + 1)).toNat * 256 := by
  have hlow := (buf address).toNat_lt
  have hhigh := (buf (address + 1)).toNat_lt
  have hshift : (buf (address + 1)).toNat <<< 8 < 2 ^ 16 := by
    rw [Nat.shiftLeft_eq]
    omega
  simp only [loadWord, UInt16.toNat_or, UInt16.toNat_shiftLeft,
    UInt8.toNat_toUInt16, UInt16.reduceToNat, Nat.reduceMod,
    Nat.mod_eq_of_lt hshift]
  exact or_shiftLeft_eq_add hlow _

theorem loadWord_low (buf : Nat → UInt8) (address : Nat) :
    (loadWord buf address).toUInt8 = buf address := by
  apply UInt8.toNat.inj
  have hlow := (buf address).toNat_lt
  rw [UInt16.toNat_toUInt8, loadWord_toNat]
  omega

theorem loadWord_high (buf : Nat → UInt8) (address : Nat) :
    (loadWord buf address >>> 8).toUInt8 = buf (address + 1) := by
  apply UInt8.toNat.inj
  have hlow := (buf address).toNat_lt
  have hhigh := (buf (address + 1)).toNat_lt
  simp only [UInt16.toNat_toUInt8, UInt16.toNat_shiftRight, loadWord_toNat,
    UInt16.reduceToNat, Nat.reduceMod, Nat.shiftRight_eq_div_pow]
  omega

/-- The two bytes of a word, as `storeWord` lays them out. -/
def wordBytes (value : UInt16) : List UInt8 :=
  [value.toUInt8, (value >>> 8).toUInt8]

@[simp] theorem wordBytes_length (value : UInt16) :
    (wordBytes value).length = 2 := rfl

@[simp] theorem wordBytes_loadWord (buf : Nat → UInt8) (address : Nat) :
    wordBytes (loadWord buf address) = [buf address, buf (address + 1)] := by
  rw [wordBytes, loadWord_low, loadWord_high]

theorem storeWord_eq (buf : Nat → UInt8) (address : Nat) (value : UInt16) :
    storeWord buf address value = overlay buf address (wordBytes value) := rfl

theorem word_ext {value other : UInt16}
    (hlow : value.toUInt8 = other.toUInt8)
    (hhigh : (value >>> 8).toUInt8 = (other >>> 8).toUInt8) : value = other := by
  apply UInt16.toNat.inj
  have hvalue := value.toNat_lt
  have hother := other.toNat_lt
  have hlow := congrArg UInt8.toNat hlow
  have hhigh := congrArg UInt8.toNat hhigh
  simp only [UInt16.toNat_toUInt8, UInt16.toNat_shiftRight, UInt16.reduceToNat,
    Nat.reduceMod, Nat.shiftRight_eq_div_pow] at hlow hhigh
  omega

@[simp] theorem loadWord_storeWord (buf : Nat → UInt8) (address : Nat)
    (value : UInt16) : loadWord (storeWord buf address value) address = value := by
  apply word_ext
  · rw [loadWord_low]
    exact overlay_inside buf address (wordBytes value) (i := 0) (by simp)
  · rw [loadWord_high]
    exact overlay_inside buf address (wordBytes value) (i := 1) (by simp)

/-! ## Masks -/

private theorem and_shiftLeft (n m i : Nat) :
    n &&& (m <<< i) = ((n >>> i) &&& m) <<< i := by
  apply Nat.eq_of_testBit_eq
  intro j
  simp only [Nat.testBit_and, Nat.testBit_shiftLeft, Nat.testBit_shiftRight]
  by_cases hij : i ≤ j
  · simp [hij]
  · simp [hij]

private theorem and_mask (n bits i : Nat) :
    n &&& ((2 ^ bits - 1) <<< i) = n / 2 ^ i % 2 ^ bits * 2 ^ i := by
  rw [and_shiftLeft, Nat.and_two_pow_sub_one_eq_mod, Nat.shiftRight_eq_div_pow,
    Nat.shiftLeft_eq]

private theorem and_mask_toNat (e mask : UInt16) (bits i : Nat)
    (hmask : mask.toNat = (2 ^ bits - 1) <<< i) :
    (e &&& mask).toNat = e.toNat / 2 ^ i % 2 ^ bits * 2 ^ i := by
  rw [UInt16.toNat_and, hmask, and_mask]

theorem wordEncoding_iff (e : UInt16) :
    e &&& feeWordEncoding = 0 ↔ e.toNat < 32768 := by
  have he := e.toNat_lt
  rw [← UInt16.toNat_inj, and_mask_toNat e _ 1 15 rfl]
  simp only [UInt16.toNat_zero]
  omega

theorem valueNext_iff (e : UInt16) :
    e &&& feeValueNext = feeValueNext ↔ e.toNat / 8192 % 4 = 3 := by
  rw [← UInt16.toNat_inj, and_mask_toNat e _ 2 13 rfl]
  have hnext : feeValueNext.toNat = 3 * 2 ^ 13 := rfl
  rw [hnext]
  omega

theorem valueReserved_iff (e : UInt16) :
    e &&& feeValueReserved ≠ 0 ↔ e.toNat / 16384 % 2 = 1 := by
  rw [ne_eq, ← UInt16.toNat_inj, and_mask_toNat e _ 1 14 rfl]
  simp only [UInt16.toNat_zero]
  omega

theorem entryAddress_toNat (e : UInt16) :
    ((e &&& 0x1FFF) <<< 1).toNat = e.toNat % 8192 * 2 := by
  have hmask := and_mask_toNat e 0x1FFF 13 0 rfl
  simp only [UInt16.toNat_shiftLeft, hmask, UInt16.reduceToNat,
    Nat.reduceMod, Nat.shiftLeft_eq]
  omega

theorem entryNextAddress_toNat (e : UInt16) :
    (((e &&& 0x1FFF) <<< 1) + feeByteRange).toNat = e.toNat % 8192 * 2 + 128 := by
  have hrange : feeByteRange.toNat = 128 := rfl
  rw [UInt16.toNat_add, entryAddress_toNat, hrange]
  omega

theorem entryEncoded_toNat (e : UInt16) :
    ((e &&& feeValueEncoded) >>> 13).toNat = e.toNat / 8192 % 2 := by
  have hmask := and_mask_toNat e feeValueEncoded 1 13 rfl
  simp only [UInt16.toNat_shiftRight, hmask, UInt16.reduceToNat,
    Nat.reduceMod, Nat.shiftRight_eq_div_pow]
  omega

theorem alignedAddress_toNat (address : UInt16) :
    (address &&& 0xFFFE).toNat = address.toNat / 2 * 2 := by
  have haddress := address.toNat_lt
  have hmask := and_mask_toNat address 0xFFFE 15 1 rfl
  rw [hmask]
  omega

/-! ## What the driver writes -/

theorem byteEntry_toNat {address : UInt16} (h : address.toNat < 128)
    (value : UInt8) :
    ((address <<< 8) ||| value.toUInt16).toNat =
      address.toNat * 256 + value.toNat := by
  have hvalue := value.toNat_lt
  have hshift : address.toNat <<< 8 < 2 ^ 16 := by
    rw [Nat.shiftLeft_eq]
    omega
  simp only [UInt16.toNat_or, UInt16.toNat_shiftLeft, UInt8.toNat_toUInt16,
    UInt16.reduceToNat, Nat.reduceMod, Nat.mod_eq_of_lt hshift]
  rw [Nat.or_comm, or_shiftLeft_eq_add hvalue]
  omega

private theorem wordEntry_toNat {address encoding : UInt16} {high : Nat}
    (h : address.toNat < 16384) (hencoding : encoding.toNat = high <<< 13) :
    ((address >>> 1) ||| encoding).toNat = address.toNat / 2 + high * 8192 := by
  have hlow : address.toNat / 2 < 2 ^ 13 := by omega
  simp only [UInt16.toNat_or, UInt16.toNat_shiftRight, UInt16.reduceToNat,
    Nat.reduceMod, Nat.shiftRight_eq_div_pow, hencoding, Nat.pow_one]
  exact or_shiftLeft_eq_add hlow high

theorem le_one_cases {value : UInt16} (h : value ≤ 1) : value = 0 ∨ value = 1 := by
  have hle : value.toNat ≤ 1 := UInt16.le_iff_toNat_le.mp h
  rcases Nat.le_one_iff_eq_zero_or_eq_one.mp hle with hvalue | hvalue
  · exact .inl (UInt16.toNat.inj hvalue)
  · exact .inr (UInt16.toNat.inj hvalue)

theorem encodedEntry_toNat {address value : UInt16} (h : address.toNat < 16384)
    (hvalue : value ≤ 1) :
    ((address >>> 1) ||| (feeWordEncoding ||| (value <<< 13))).toNat =
      address.toNat / 2 + (4 + value.toNat) * 8192 := by
  refine wordEntry_toNat h ?_
  rcases le_one_cases hvalue with rfl | rfl <;> rfl

theorem nextEntry_toNat {address : UInt16} (h : address.toNat < 16384) :
    ((address >>> 1) ||| (feeWordEncoding ||| feeValueNext)).toNat =
      address.toNat / 2 + 7 * 8192 :=
  wordEntry_toNat h rfl

end Qmk.LegacyEeprom
