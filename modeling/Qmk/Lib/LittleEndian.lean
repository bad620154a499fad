import Mathlib.Algebra.Group.Nat.Defs
import Mathlib.Data.List.Basic

/-!
# Little-endian fields

A number as `width` bytes, the least significant first, and the number that the
bytes at an offset hold.
-/

namespace Qmk.Lib

def leBytes : Nat → Nat → List (BitVec 8)
  | 0, _ => []
  | width + 1, n => BitVec.ofNat 8 n :: leBytes width (n / 256)

def leValue : List (BitVec 8) → Nat
  | [] => 0
  | byte :: bytes => byte.toNat + 256 * leValue bytes

/-- The field of `width` bytes at `offset`. -/
def leField (offset width : Nat) (bytes : List (BitVec 8)) : Nat :=
  leValue ((bytes.drop offset).take width)

@[simp] theorem length_leBytes (width n : Nat) : (leBytes width n).length = width := by
  induction width generalizing n with
  | zero => rfl
  | succ width ih => rw [leBytes, List.length_cons, ih]

theorem leValue_leBytes (width n : Nat) : leValue (leBytes width n) = n % 256 ^ width := by
  induction width generalizing n with
  | zero => rw [leBytes, leValue, Nat.pow_zero, Nat.mod_one]
  | succ width ih =>
      have hmod : n % 256 ^ (width + 1) = n % 256 + 256 * (n / 256 % 256 ^ width) := by
        rw [Nat.pow_succ', Nat.mod_mul]
      rw [leBytes, leValue, ih, BitVec.toNat_ofNat, hmod]

theorem leValue_lt (bytes : List (BitVec 8)) : leValue bytes < 256 ^ bytes.length := by
  induction bytes with
  | nil => exact Nat.one_pos
  | cons byte bytes ih =>
      have hbyte : byte.toNat < 256 := byte.isLt
      rw [leValue, List.length_cons, Nat.pow_succ']
      omega

theorem leField_lt (offset width : Nat) (bytes : List (BitVec 8)) :
    leField offset width bytes < 256 ^ width :=
  Nat.lt_of_lt_of_le (leValue_lt _)
    (Nat.pow_le_pow_right (by decide) (List.length_take_le width _))

theorem leField_leBytes (width n : Nat) (rest : List (BitVec 8)) :
    leField 0 width (leBytes width n ++ rest) = n % 256 ^ width := by
  have htake : (leBytes width n ++ rest).take width = leBytes width n :=
    List.take_left' (length_leBytes width n)
  rw [leField, List.drop_zero, htake, leValue_leBytes]

theorem leField_append {offset : Nat} (width : Nat) {before : List (BitVec 8)}
    (h : before.length ≤ offset) (rest : List (BitVec 8)) :
    leField offset width (before ++ rest) = leField (offset - before.length) width rest := by
  rw [leField, leField, List.drop_append, List.drop_of_length_le h, List.nil_append]

theorem leField_drop (start offset width : Nat) (bytes : List (BitVec 8)) :
    leField offset width (bytes.drop start) = leField (start + offset) width bytes := by
  rw [leField, leField, List.drop_drop]

theorem leField_take {offset width count : Nat} (h : offset + width ≤ count)
    (bytes : List (BitVec 8)) :
    leField offset width (bytes.take count) = leField offset width bytes := by
  rw [leField, leField, List.drop_take, List.take_take, Nat.min_eq_left (by omega)]

end Qmk.Lib
