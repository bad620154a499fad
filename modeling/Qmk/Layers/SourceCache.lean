import Mathlib.Algebra.Group.Nat.Defs
import Qmk.Lib.Sweep

/-!
# The source-layer cache

The layer that each key was pressed on, cut into bits: the cache has a byte for
each bit of a layer and each eight keys, and the key's bit of that byte.
-/

namespace Qmk.Layers

open Qmk.Lib

/-- `source_layers_cache`, by storage index and bit number. -/
abbrev Cache := Nat → Nat → BitVec 8

def storageMask (entry : Nat) : BitVec 8 := 1#8 <<< (entry % 8)

def Cache.set (cache : Cache) (index bit : Nat) (byte : BitVec 8) : Cache :=
  Function.update cache index (Function.update (cache index) bit byte)

/-- The loop body of `update_source_layers_cache_impl`. -/
def storeBit (layer : BitVec 8) (entry bit : Nat) (cache : Cache) : Cache :=
  let byte := cache (entry / 8) bit
  let ones := if layer &&& (1#8 <<< bit) ≠ 0#8 then 255#8 else 0#8
  cache.set (entry / 8) bit (byte ^^^ ((ones ^^^ byte) &&& storageMask entry))

def updateSourceLayersCacheImpl (bits : Nat) (layer : BitVec 8) (entry : Nat)
    (cache : Cache) : Cache :=
  forRange bits (storeBit layer entry) cache

/-- The loop body of `read_source_layers_cache_impl`. -/
def loadBit (cache : Cache) (entry bit : Nat) (layer : BitVec 8) : BitVec 8 :=
  let set := if cache (entry / 8) bit &&& storageMask entry ≠ 0#8 then 1#8 else 0#8
  layer ||| (set <<< bit)

def readSourceLayersCacheImpl (bits entry : Nat) (cache : Cache) : BitVec 8 :=
  forRange bits (loadBit cache entry) 0#8

/-- The bit of an entry. -/
def entryBit (cache : Cache) (entry bit : Nat) : Bool :=
  (cache (entry / 8) bit).getLsbD (entry % 8)

theorem storageMask_eq_twoPow (entry : Nat) :
    storageMask entry = BitVec.twoPow 8 (entry % 8) := by
  simp [storageMask, BitVec.twoPow]

theorem and_twoPow_ne_zero (byte : BitVec 8) (bit : Nat) :
    byte &&& BitVec.twoPow 8 bit ≠ 0#8 ↔ byte.getLsbD bit = true := by
  rw [BitVec.and_twoPow]
  cases hbit : byte.getLsbD bit with
  | false => simp
  | true =>
      have hlt : bit < 8 := BitVec.lt_of_getLsbD hbit
      simp only [if_true, iff_true]
      intro hzero
      have hone := congrArg (BitVec.getLsbD · bit) hzero
      simp [hlt] at hone

theorem entryBit_storeBit_self (layer : BitVec 8) (entry bit : Nat) (cache : Cache) :
    entryBit (storeBit layer entry bit cache) entry bit = layer.getLsbD bit := by
  have hlt : entry % 8 < 8 := Nat.mod_lt _ (by decide)
  have hmask : (1#8 <<< bit : BitVec 8) = BitVec.twoPow 8 bit := by
    simp [BitVec.twoPow]
  have hones : (if layer &&& (1#8 <<< bit) ≠ 0#8 then 255#8 else 0#8).getLsbD
      (entry % 8) = layer.getLsbD bit := by
    rw [hmask]
    cases hbit : layer.getLsbD bit with
    | false =>
        rw [if_neg fun hne => by simp [(and_twoPow_ne_zero layer bit).mp hne] at hbit]
        simp
    | true =>
        rw [if_pos ((and_twoPow_ne_zero layer bit).mpr hbit)]
        have hall : 255#8 = BitVec.allOnes 8 := rfl
        rw [hall, BitVec.getLsbD_allOnes]
        simpa using hlt
  rw [entryBit, storeBit, Cache.set, Function.update_self, Function.update_self]
  rw [BitVec.getLsbD_xor, BitVec.getLsbD_and, BitVec.getLsbD_xor, hones,
    storageMask_eq_twoPow, BitVec.getLsbD_twoPow]
  cases (cache (entry / 8) bit).getLsbD (entry % 8) <;> simp [hlt]

theorem entryBit_storeBit_of_ne (layer : BitVec 8) {entry other bit number : Nat}
    (h : other ≠ entry ∨ number ≠ bit) (cache : Cache) :
    entryBit (storeBit layer entry bit cache) other number =
      entryBit cache other number := by
  rw [entryBit, storeBit, Cache.set]
  by_cases hindex : other / 8 = entry / 8
  · rw [hindex, Function.update_self]
    by_cases hnumber : number = bit
    · have hother : other ≠ entry := h.resolve_right fun hne => hne hnumber
      have hmod : entry % 8 ≠ other % 8 := by omega
      subst hnumber
      rw [Function.update_self, BitVec.getLsbD_xor, BitVec.getLsbD_and,
        storageMask_eq_twoPow, BitVec.getLsbD_twoPow]
      simp [hmod, entryBit, hindex]
    · rw [Function.update_of_ne hnumber, entryBit, hindex]
  · rw [Function.update_of_ne hindex, entryBit]

theorem entryBit_update (bits : Nat) (layer : BitVec 8) (entry other number : Nat)
    (cache : Cache) :
    entryBit (updateSourceLayersCacheImpl bits layer entry cache) other number =
      if other = entry ∧ number < bits then layer.getLsbD number
      else entryBit cache other number := by
  unfold updateSourceLayersCacheImpl
  induction bits with
  | zero => simp
  | succ bits ih =>
      rw [forRange_succ]
      by_cases hself : other = entry ∧ number = bits
      · obtain ⟨rfl, rfl⟩ := hself
        rw [entryBit_storeBit_self, if_pos ⟨rfl, Nat.lt_succ_self _⟩]
      · rw [entryBit_storeBit_of_ne layer (not_and_or.mp hself), ih]
        have hiff : (other = entry ∧ number < bits) ↔
            (other = entry ∧ number < bits + 1) := by omega
        simp only [hiff]

theorem getLsbD_read {bits : Nat} (hbits : bits ≤ 8) (entry : Nat) (cache : Cache)
    (number : Nat) :
    (readSourceLayersCacheImpl bits entry cache).getLsbD number =
      (decide (number < bits) && entryBit cache entry number) := by
  unfold readSourceLayersCacheImpl
  induction bits with
  | zero => simp
  | succ bits ih =>
      rw [forRange_succ, loadBit, BitVec.getLsbD_or, ih (by omega)]
      have hset : (if cache (entry / 8) bits &&& storageMask entry ≠ 0#8 then 1#8
          else 0#8) = if entryBit cache entry bits = true then 1#8 else 0#8 := by
        refine if_congr ?_ rfl rfl
        rw [storageMask_eq_twoPow]
        exact and_twoPow_ne_zero _ _
      simp only [hset]
      by_cases hlast : number = bits
      · subst hlast
        cases hbit : entryBit cache entry number with
        | false => simp
        | true =>
            simp
            omega
      · cases hbit : entryBit cache entry bits with
        | false =>
            have hiff : number < bits ↔ number < bits + 1 := by omega
            simp [hiff]
        | true =>
            have hiff : number < bits ↔ number < bits + 1 := by omega
            simp [hiff]
            omega

theorem read_update_self {bits : Nat} (hbits : bits ≤ 8) {layer : BitVec 8}
    (hlayer : layer.toNat < 2 ^ bits) (entry : Nat) (cache : Cache) :
    readSourceLayersCacheImpl bits entry
      (updateSourceLayersCacheImpl bits layer entry cache) = layer := by
  refine BitVec.eq_of_getLsbD_eq fun number _ => ?_
  rw [getLsbD_read hbits, entryBit_update]
  by_cases hnumber : number < bits
  · simp [hnumber]
  · have hhigh : layer.getLsbD number = false :=
      Nat.testBit_lt_two_pow (Nat.lt_of_lt_of_le hlayer
        (Nat.pow_le_pow_right Nat.two_pos (Nat.le_of_not_lt hnumber)))
    simp [hnumber, hhigh]

theorem read_update_of_ne {bits : Nat} (hbits : bits ≤ 8) (layer : BitVec 8)
    {entry other : Nat} (h : other ≠ entry) (cache : Cache) :
    readSourceLayersCacheImpl bits other
      (updateSourceLayersCacheImpl bits layer entry cache) =
    readSourceLayersCacheImpl bits other cache := by
  refine BitVec.eq_of_getLsbD_eq fun number _ => ?_
  rw [getLsbD_read hbits, getLsbD_read hbits, entryBit_update,
    if_neg fun hself => h hself.1]

end Qmk.Layers
