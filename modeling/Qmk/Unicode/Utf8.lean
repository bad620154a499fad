import Mathlib.Algebra.Group.Nat.Defs
import Mathlib.Data.Nat.Bitwise
import Qmk.Lib.Footprint

/-!
# Decoding UTF-8

`decode_utf8` takes as many bytes as the first of them announces, whatever the others are.
-/

namespace Qmk.Unicode

open Qmk.Lib
open Qmk.Lib.Access

abbrev Byte := BitVec 8

variable {σ : Type}

/-- What is left of a code point, of which a part of a surrogate pair is none. -/
def noSurrogate (codePoint : Nat) : Option Nat :=
  if 0xD800 ≤ codePoint ∧ codePoint ≤ 0xDFFF then none else some codePoint

/-- The code point at `str`, with `none` for `-1`, and where the next one is. -/
def decodeUtf8 (str : Nat) : Access Byte σ (Option Nat × Nat) := do
  let b0 := (← read str).toNat
  if b0 < 0x80 then
    pure (noSurrogate b0, str + 1)
  else if b0 &&& 0xE0 = 0xC0 then
    let b1 := (← read (str + 1)).toNat
    pure (noSurrogate ((b0 &&& 0x1F) <<< 6 ||| (b1 &&& 0x3F)), str + 2)
  else if b0 &&& 0xF0 = 0xE0 then
    let b1 := (← read (str + 1)).toNat
    let b2 := (← read (str + 2)).toNat
    pure (noSurrogate ((b0 &&& 0x0F) <<< 12 ||| (b1 &&& 0x3F) <<< 6 ||| (b2 &&& 0x3F)), str + 3)
  else if b0 &&& 0xF8 = 0xF0 ∧ b0 ≤ 0xF4 then
    let b1 := (← read (str + 1)).toNat
    let b2 := (← read (str + 2)).toNat
    let b3 := (← read (str + 3)).toNat
    pure (noSurrogate ((b0 &&& 0x07) <<< 18 ||| (b1 &&& 0x3F) <<< 12 ||| (b2 &&& 0x3F) <<< 6 |||
      (b3 &&& 0x3F)), str + 4)
  else
    pure (none, str + 1)

/-- How many bytes a first byte announces. -/
def announced (b0 : Byte) : Nat :=
  if b0.toNat < 0x80 then 1
  else if b0.toNat &&& 0xE0 = 0xC0 then 2
  else if b0.toNat &&& 0xF0 = 0xE0 then 3
  else if b0.toNat &&& 0xF8 = 0xF0 ∧ b0.toNat ≤ 0xF4 then 4
  else 1

theorem announced_pos (b0 : Byte) : 0 < announced b0 := by
  unfold announced
  split_ifs <;> decide

/-- The code point at `str`, without the trace. -/
def decodedAt (buffer : Nat → Byte) (str : Nat) : Option Nat :=
  (decodeUtf8 str ⟨buffer, [], ()⟩).1.1

theorem decodeUtf8_run (str : Nat) (s : Traced Byte σ) :
    decodeUtf8 str s =
      ((decodedAt s.buffer str, str + announced (s.buffer str)),
        { s with accessed := (List.range' str (announced (s.buffer str))).reverse ++ s.accessed })
    := by
  unfold decodedAt decodeUtf8 announced
  rw [bind_run, read_run, bind_run, read_run]
  simp only [ite_run, bind_run, read_run, pure_run]
  split_ifs <;> rfl

/-! ## Decoding what was encoded -/

theorem shiftLeft_or {n b : Nat} (a : Nat) (h : b < 2 ^ n) : a <<< n ||| b = a * 2 ^ n + b := by
  rw [← Nat.shiftLeft_add_eq_or_of_lt h, Nat.shiftLeft_eq]

theorem continuation_and (x : Nat) (h : x < 64) : (0x80 + x) &&& 0x3F = x := by
  rw [Nat.and_two_pow_sub_one_eq_mod _ 6]
  omega

variable {buffer : Nat → Byte} {str x y z w : Nat}

theorem decodedAt_eq (buffer : Nat → Byte) (str : Nat) :
    decodedAt buffer str =
      let b0 := (buffer str).toNat
      let b1 := (buffer (str + 1)).toNat
      let b2 := (buffer (str + 2)).toNat
      let b3 := (buffer (str + 3)).toNat
      if b0 < 0x80 then noSurrogate b0
      else if b0 &&& 0xE0 = 0xC0 then noSurrogate ((b0 &&& 0x1F) <<< 6 ||| (b1 &&& 0x3F))
      else if b0 &&& 0xF0 = 0xE0 then
        noSurrogate ((b0 &&& 0x0F) <<< 12 ||| (b1 &&& 0x3F) <<< 6 ||| (b2 &&& 0x3F))
      else if b0 &&& 0xF8 = 0xF0 ∧ b0 ≤ 0xF4 then
        noSurrogate ((b0 &&& 0x07) <<< 18 ||| (b1 &&& 0x3F) <<< 12 ||| (b2 &&& 0x3F) <<< 6 |||
          (b3 &&& 0x3F))
      else none := by
  unfold decodedAt decodeUtf8
  rw [bind_run, read_run]
  simp only [ite_run, bind_run, read_run, pure_run]
  split_ifs <;> rfl

theorem decodedAt_one (h : (buffer str).toNat < 0x80) :
    decodedAt buffer str = noSurrogate (buffer str).toNat ∧ announced (buffer str) = 1 := by
  constructor
  · rw [decodedAt_eq]
    exact if_pos h
  · exact if_pos h

/-- The bytes that no code point begins with. -/
def IsStray (b : Byte) : Prop := 0x80 ≤ b.toNat ∧ b.toNat < 0xC0 ∨ 0xF5 ≤ b.toNat

theorem decodedAt_stray (h : IsStray (buffer str)) :
    decodedAt buffer str = none ∧ announced (buffer str) = 1 := by
  have hlow : ∀ x < 64, ¬0x80 + x < 0x80 ∧ ¬(0x80 + x) &&& 0xE0 = 0xC0 ∧
      ¬(0x80 + x) &&& 0xF0 = 0xE0 ∧ ¬((0x80 + x) &&& 0xF8 = 0xF0 ∧ 0x80 + x ≤ 0xF4) := by
    decide
  have hhigh : ∀ x < 11, ¬0xF5 + x < 0x80 ∧ ¬(0xF5 + x) &&& 0xE0 = 0xC0 ∧
      ¬(0xF5 + x) &&& 0xF0 = 0xE0 ∧ ¬((0xF5 + x) &&& 0xF8 = 0xF0 ∧ 0xF5 + x ≤ 0xF4) := by
    decide
  have hbyte := (buffer str).isLt
  have hnot : ¬(buffer str).toNat < 0x80 ∧ ¬(buffer str).toNat &&& 0xE0 = 0xC0 ∧
      ¬(buffer str).toNat &&& 0xF0 = 0xE0 ∧
      ¬((buffer str).toNat &&& 0xF8 = 0xF0 ∧ (buffer str).toNat ≤ 0xF4) := by
    rcases h with h | h
    · have := hlow ((buffer str).toNat - 0x80) (by omega)
      rwa [Nat.add_sub_cancel' h.1] at this
    · have := hhigh ((buffer str).toNat - 0xF5) (by omega)
      rwa [Nat.add_sub_cancel' h] at this
  obtain ⟨hone, htwo, hthree, hfour⟩ := hnot
  constructor
  · rw [decodedAt_eq]
    dsimp only
    rw [if_neg hone, if_neg htwo, if_neg hthree, if_neg hfour]
  · rw [announced, if_neg hone, if_neg htwo, if_neg hthree, if_neg hfour]

theorem decodedAt_two (h0 : (buffer str).toNat = 0xC0 + x) (hx : x < 32)
    (h1 : (buffer (str + 1)).toNat = 0x80 + y) (hy : y < 64) :
    decodedAt buffer str = noSurrogate (x * 64 + y) ∧ announced (buffer str) = 2 := by
  have hlead : ∀ x < 32,
      ¬0xC0 + x < 0x80 ∧ (0xC0 + x) &&& 0xE0 = 0xC0 ∧ (0xC0 + x) &&& 0x1F = x := by
    decide
  obtain ⟨hone, htwo, hpart⟩ := hlead x hx
  constructor
  · rw [decodedAt_eq]
    dsimp only
    rw [h0, h1, if_neg hone, if_pos htwo, hpart, continuation_and y hy,
      shiftLeft_or (n := 6) x hy]
    rfl
  · rw [announced, h0, if_neg hone, if_pos htwo]

theorem decodedAt_three (h0 : (buffer str).toNat = 0xE0 + x) (hx : x < 16)
    (h1 : (buffer (str + 1)).toNat = 0x80 + y) (hy : y < 64)
    (h2 : (buffer (str + 2)).toNat = 0x80 + z) (hz : z < 64) :
    decodedAt buffer str = noSurrogate (x * 4096 + y * 64 + z) ∧ announced (buffer str) = 3 := by
  have hlead : ∀ x < 16, ¬0xE0 + x < 0x80 ∧ ¬(0xE0 + x) &&& 0xE0 = 0xC0 ∧
      (0xE0 + x) &&& 0xF0 = 0xE0 ∧ (0xE0 + x) &&& 0x0F = x := by
    decide
  obtain ⟨hone, htwo, hthree, hpart⟩ := hlead x hx
  constructor
  · rw [decodedAt_eq]
    dsimp only
    rw [h0, h1, h2, if_neg hone, if_neg htwo, if_pos hthree, hpart, continuation_and y hy,
      continuation_and z hz, Nat.or_assoc, shiftLeft_or (n := 6) y hz,
      shiftLeft_or (n := 12) x (by omega), Nat.add_assoc]
    rfl
  · rw [announced, h0, if_neg hone, if_neg htwo, if_pos hthree]

theorem decodedAt_four (h0 : (buffer str).toNat = 0xF0 + x) (hx : x < 5)
    (h1 : (buffer (str + 1)).toNat = 0x80 + y) (hy : y < 64)
    (h2 : (buffer (str + 2)).toNat = 0x80 + z) (hz : z < 64)
    (h3 : (buffer (str + 3)).toNat = 0x80 + w) (hw : w < 64) :
    decodedAt buffer str = noSurrogate (x * 262144 + y * 4096 + z * 64 + w) ∧
      announced (buffer str) = 4 := by
  have hlead : ∀ x < 5, ¬0xF0 + x < 0x80 ∧ ¬(0xF0 + x) &&& 0xE0 = 0xC0 ∧
      ¬(0xF0 + x) &&& 0xF0 = 0xE0 ∧ ((0xF0 + x) &&& 0xF8 = 0xF0 ∧ 0xF0 + x ≤ 0xF4) ∧
      (0xF0 + x) &&& 0x07 = x := by
    decide
  obtain ⟨hone, htwo, hthree, hfour, hpart⟩ := hlead x hx
  constructor
  · rw [decodedAt_eq]
    dsimp only
    rw [h0, h1, h2, h3, if_neg hone, if_neg htwo, if_neg hthree, if_pos hfour, hpart,
      continuation_and y hy, continuation_and z hz, continuation_and w hw, Nat.or_assoc,
      shiftLeft_or (n := 6) z hw, Nat.or_assoc, shiftLeft_or (n := 12) y (by omega),
      shiftLeft_or (n := 18) x (by omega), Nat.add_assoc, Nat.add_assoc]
    rfl
  · rw [announced, h0, if_neg hone, if_neg htwo, if_neg hthree, if_pos hfour]

end Qmk.Unicode
