import Mathlib.Tactic.Ring
import Qmk.Lib.Memory

/-!
# Write log entries

`write_log_entry_t` and the `LOG_ENTRY_*` macros of `wear_leveling_internal.h`.
The union is modelled by its `raw8` view; `raw16[k]`, `raw32[k]` and `raw64` are
the blocks of two, four and eight bytes of that view, in memory order.
-/

namespace Qmk.WearLeveling

open Qmk.Lib

/-- The `raw8` view of the union. -/
abbrev WriteLogEntry := Nat → UInt8

/-- An object of the union, its first bytes initialised. -/
def makeEntry (raw8 : List Nat) : WriteLogEntry :=
  overlay (fun _ => 0) 0 (raw8.map UInt8.ofNat)

def bitmaskForBitcount (n : Nat) : Nat := (1 <<< n) - 1

/-- The cast `(uint8_t)`. -/
def castU8 (n : Nat) : Nat := n % 256

def logEntryTypeMultibyte : Nat := 0

def logEntryTypeOptimized64 : Nat := 1

def logEntryTypeWord01 : Nat := 2

def logEntryMultibyteMaxBytes : Nat := 5

def logEntryGetType (entry : WriteLogEntry) : Nat :=
  ((entry 0).toNat >>> 6) &&& bitmaskForBitcount 2

def logEntryMultibyteGetAddress (entry : WriteLogEntry) : Nat :=
  (((entry 0).toNat &&& bitmaskForBitcount 3) <<< 16) |||
    ((entry 1).toNat <<< 8) ||| (entry 2).toNat

def logEntryMultibyteGetLength (entry : WriteLogEntry) : Nat :=
  castU8 (((entry 0).toNat >>> 3) &&& bitmaskForBitcount 3)

def logEntryMakeMultibyte (address length : Nat) : WriteLogEntry :=
  makeEntry
    [((logEntryTypeMultibyte &&& bitmaskForBitcount 2) <<< 6) |||
        ((castU8 length &&& bitmaskForBitcount 3) <<< 3) |||
        (castU8 (address >>> 16) &&& bitmaskForBitcount 3),
      castU8 (address >>> 8) &&& bitmaskForBitcount 8,
      castU8 address &&& bitmaskForBitcount 8]

def logEntryOptimized64GetAddress (entry : WriteLogEntry) : Nat :=
  (entry 0).toNat &&& bitmaskForBitcount 6

def logEntryOptimized64GetValue (entry : WriteLogEntry) : UInt8 := entry 1

def logEntryMakeOptimized64 (address : Nat) (value : UInt8) : WriteLogEntry :=
  makeEntry
    [((logEntryTypeOptimized64 &&& bitmaskForBitcount 2) <<< 6) |||
        (castU8 address &&& bitmaskForBitcount 6),
      value.toNat]

def logEntryWord01GetAddress (entry : WriteLogEntry) : Nat :=
  (((entry 0).toNat &&& bitmaskForBitcount 5) <<< 9) |||
    ((entry 1).toNat <<< 1)

def logEntryWord01GetValue (entry : WriteLogEntry) : UInt8 :=
  UInt8.ofNat (castU8 ((entry 0).toNat >>> 5) &&& bitmaskForBitcount 1)

def logEntryMakeWord01 (address value : Nat) : WriteLogEntry :=
  makeEntry
    [((logEntryTypeWord01 &&& bitmaskForBitcount 2) <<< 6) |||
        (((if value ≠ 0 then 1 else 0) &&& bitmaskForBitcount 1) <<< 5) |||
        (castU8 (address >>> 9) &&& bitmaskForBitcount 5),
      castU8 (address >>> 1)]

/-! ## The macros in arithmetic -/

@[simp] theorem bitmaskForBitcount_and (x n : Nat) :
    x &&& bitmaskForBitcount n = x % 2 ^ n := by
  simp [bitmaskForBitcount, Nat.shiftLeft_eq]

private theorem shiftLeft_or_eq_add {high low n : Nat} (h : low < 2 ^ n) :
    (high <<< n) ||| low = high * 2 ^ n + low := by
  rw [← Nat.shiftLeft_add_eq_or_of_lt h, Nat.shiftLeft_eq]

theorem makeEntry_apply (raw8 : List Nat) (i : Nat) (h : i < raw8.length) :
    (makeEntry raw8 i).toNat = raw8[i] % 256 := by
  simp [makeEntry, overlay, h]

theorem logEntryGetType_eq (entry : WriteLogEntry) :
    logEntryGetType entry = (entry 0).toNat / 64 := by
  have h := (entry 0).toNat_lt
  simp only [logEntryGetType, bitmaskForBitcount_and, Nat.shiftRight_eq_div_pow]
  omega

theorem logEntryMultibyteGetAddress_eq (entry : WriteLogEntry) :
    logEntryMultibyteGetAddress entry =
      (entry 0).toNat % 8 * 65536 + (entry 1).toNat * 256 +
        (entry 2).toNat := by
  have h1 := (entry 1).toNat_lt
  have h2 := (entry 2).toNat_lt
  simp only [logEntryMultibyteGetAddress, bitmaskForBitcount_and]
  rw [Nat.or_assoc, shiftLeft_or_eq_add (n := 8) (by omega),
    shiftLeft_or_eq_add (by omega)]
  omega

theorem logEntryMultibyteGetLength_eq (entry : WriteLogEntry) :
    logEntryMultibyteGetLength entry = (entry 0).toNat / 8 % 8 := by
  simp only [logEntryMultibyteGetLength, castU8, bitmaskForBitcount_and,
    Nat.shiftRight_eq_div_pow]
  omega

theorem logEntryOptimized64GetAddress_eq (entry : WriteLogEntry) :
    logEntryOptimized64GetAddress entry = (entry 0).toNat % 64 := by
  simp [logEntryOptimized64GetAddress]

theorem logEntryWord01GetAddress_eq (entry : WriteLogEntry) :
    logEntryWord01GetAddress entry =
      (entry 0).toNat % 32 * 512 + (entry 1).toNat * 2 := by
  have h1 := (entry 1).toNat_lt
  simp only [logEntryWord01GetAddress, bitmaskForBitcount_and]
  rw [shiftLeft_or_eq_add (by rw [Nat.shiftLeft_eq]; omega), Nat.shiftLeft_eq]
  omega

theorem logEntryWord01GetValue_eq (entry : WriteLogEntry) :
    logEntryWord01GetValue entry =
      UInt8.ofNat ((entry 0).toNat / 32 % 2) := by
  simp only [logEntryWord01GetValue, castU8, bitmaskForBitcount_and,
    Nat.shiftRight_eq_div_pow]
  congr 1
  omega

theorem makeMultibyte_zero (address length : Nat) :
    (logEntryMakeMultibyte address length 0).toNat =
      length % 8 * 8 + address / 65536 % 8 := by
  have hlow : address / 65536 % 8 < 2 ^ 3 := Nat.mod_lt _ (by decide)
  have hlength : length % 256 % 2 ^ 3 = length % 8 := by omega
  have haddress : address / 2 ^ 16 % 256 % 2 ^ 3 = address / 65536 % 8 := by
    omega
  have htype : (0 % 2 ^ 2) <<< 6 ||| (length % 8) <<< 3 = (length % 8) <<< 3 := by
    simp
  rw [logEntryMakeMultibyte, makeEntry_apply _ _ (by simp)]
  simp only [List.getElem_cons_zero, bitmaskForBitcount_and, castU8,
    logEntryTypeMultibyte, Nat.shiftRight_eq_div_pow]
  rw [hlength, haddress, htype, shiftLeft_or_eq_add hlow]
  omega

theorem makeMultibyte_one (address length : Nat) :
    (logEntryMakeMultibyte address length 1).toNat = address / 256 % 256 := by
  rw [logEntryMakeMultibyte, makeEntry_apply _ _ (by simp)]
  simp [castU8, Nat.shiftRight_eq_div_pow]

theorem makeMultibyte_two (address length : Nat) :
    (logEntryMakeMultibyte address length 2).toNat = address % 256 := by
  rw [logEntryMakeMultibyte, makeEntry_apply _ _ (by simp)]
  simp [castU8]

theorem makeOptimized64_zero (address : Nat) (value : UInt8) :
    (logEntryMakeOptimized64 address value 0).toNat = 64 + address % 64 := by
  have hlow : address % 64 < 2 ^ 6 := Nat.mod_lt _ (by decide)
  have haddress : address % 256 % 2 ^ 6 = address % 64 := by omega
  rw [logEntryMakeOptimized64, makeEntry_apply _ _ (by simp)]
  simp only [List.getElem_cons_zero, bitmaskForBitcount_and, castU8,
    logEntryTypeOptimized64]
  rw [haddress, shiftLeft_or_eq_add hlow]
  omega

theorem makeOptimized64_one (address : Nat) (value : UInt8) :
    logEntryMakeOptimized64 address value 1 = value := by
  simp [logEntryMakeOptimized64, makeEntry, overlay]

theorem makeWord01_zero (address value : Nat) :
    (logEntryMakeWord01 address value 0).toNat =
      128 + (if value ≠ 0 then 1 else 0) * 32 + address / 512 % 32 := by
  have hlow : address / 512 % 32 < 2 ^ 5 := Nat.mod_lt _ (by decide)
  have haddress : address / 2 ^ 9 % 256 % 2 ^ 5 = address / 512 % 32 := by
    omega
  rw [logEntryMakeWord01, makeEntry_apply _ _ (by simp)]
  simp only [List.getElem_cons_zero, bitmaskForBitcount_and, castU8,
    logEntryTypeWord01, Nat.shiftRight_eq_div_pow]
  rw [haddress, Nat.or_assoc, shiftLeft_or_eq_add hlow]
  by_cases hvalue : value = 0
  · simp only [hvalue, ne_eq, not_true_eq_false, if_false]
    rw [shiftLeft_or_eq_add (by omega)]
    omega
  · simp only [ne_eq, hvalue, not_false_eq_true, if_true]
    rw [shiftLeft_or_eq_add (by omega)]
    omega

theorem makeWord01_one (address value : Nat) :
    (logEntryMakeWord01 address value 1).toNat = address / 2 % 256 := by
  rw [logEntryMakeWord01, makeEntry_apply _ _ (by simp)]
  simp [castU8, Nat.shiftRight_eq_div_pow]

end Qmk.WearLeveling
