import Mathlib.Data.Nat.Bitwise
import Qmk.Lib.Sweep

/-!
# Packing pixels into bytes

An image is a list of pixel values of `b` bits, of which each byte takes up
`8 / b`, the first one in its low bits.
-/

namespace Qmk.Painter

open Qmk.Lib

inductive ImageFormat
  | grayscale
  | palette

/-- The integer nearest to `val * maxval / 255`, which never lies halfway between
two as 255 is odd. -/
def rescaleByte (val maxval : Nat) : Nat :=
  (2 * (val * maxval) + 255) / 510

def ImageFormat.pixel (ncolors : Nat) : ImageFormat → Nat → Nat
  | .grayscale, value => rescaleByte value (ncolors - 1)
  | .palette, value => value &&& (ncolors - 1)

def shifter (ncolors : Nat) : Nat := Nat.log2 ncolors

def pixelsPerByte (ncolors : Nat) : Nat := 8 / shifter ncolors

/-- The body of the inner loop: the pixel `n` of the byte `x`. -/
def packPixel (ncolors : Nat) (pixels : List Nat) (x n byte : Nat) : Nat :=
  let byteOffset := x * pixelsPerByte ncolors + n
  if byteOffset < pixels.length then
    byte ||| (pixels.getD byteOffset 0 <<< (n * shifter ncolors))
  else
    byte

def packByte (ncolors : Nat) (pixels : List Nat) (x : Nat) : Nat :=
  forRange (pixelsPerByte ncolors) (packPixel ncolors pixels x) 0

def expectedByteCount (ncolors count : Nat) : Nat :=
  (count + (pixelsPerByte ncolors - 1)) / pixelsPerByte ncolors

/-- The loops of `convert_image_bytes`, over the values of the pixels. -/
def packPixels (ncolors count : Nat) (pixels : List Nat) : List Nat :=
  (List.range (expectedByteCount ncolors count)).map (packByte ncolors pixels)

def convertImageBytes (format : ImageFormat) (ncolors width height : Nat)
    (imageBytes : List Nat) : List Nat :=
  packPixels ncolors (width * height) (imageBytes.map (format.pixel ncolors))

@[simp] theorem shifter_two_pow (b : Nat) : shifter (2 ^ b) = b :=
  Nat.log2_two_pow

theorem pixelsPerByte_two_pow (b : Nat) : pixelsPerByte (2 ^ b) = 8 / b := by
  rw [pixelsPerByte, shifter_two_pow]

section Pack

variable {b : Nat} {pixels : List Nat}

theorem getD_lt (hpixels : ∀ p ∈ pixels, p < 2 ^ b) (offset : Nat) :
    pixels.getD offset 0 < 2 ^ b := by
  rw [List.getD_eq_getElem?_getD]
  cases hget : pixels[offset]? with
  | none => exact Nat.two_pow_pos b
  | some p => exact hpixels p (List.mem_of_getElem? hget)

theorem packPixel_eq_or (x n byte : Nat) :
    packPixel (2 ^ b) pixels x n byte =
      byte ||| (pixels.getD (x * (8 / b) + n) 0 <<< (n * b)) := by
  simp only [packPixel, shifter_two_pow, pixelsPerByte_two_pow]
  split
  · rfl
  · rename_i hout
    simp [List.getD_eq_getElem?_getD, List.getElem?_eq_none (Nat.le_of_not_lt hout)]

theorem testBit_forRange_packPixel (hb : 0 < b) (hpixels : ∀ p ∈ pixels, p < 2 ^ b)
    (x count i : Nat) :
    (forRange count (packPixel (2 ^ b) pixels x) 0).testBit i =
      (decide (i / b < count) &&
        (pixels.getD (x * (8 / b) + i / b) 0).testBit (i % b)) := by
  induction count with
  | zero => simp
  | succ n ih =>
      rw [forRange_succ, packPixel_eq_or, Nat.testBit_or, ih, Nat.testBit_shiftLeft]
      have hdiv := Nat.div_add_mod i b
      rcases Nat.lt_trichotomy (i / b) n with hlt | heq | hgt
      · have hbelow : ¬ n * b ≤ i := by
          intro hle
          exact absurd ((Nat.le_div_iff_mul_le hb).mpr hle) (by omega)
        simp [hlt, hbelow, Nat.lt_succ_of_lt hlt]
      · have hle : n * b ≤ i := (Nat.le_div_iff_mul_le hb).mp (by omega)
        have hrest : i - n * b = i % b := by
          subst heq
          rw [Nat.mul_comm] at hdiv
          omega
        subst heq
        simp [hle, hrest]
      · have hge : b ≤ i - n * b := by
          have hmul : (n + 1) * b ≤ i := (Nat.le_div_iff_mul_le hb).mp hgt
          rw [Nat.succ_mul] at hmul
          omega
        have hclear : (pixels.getD (x * (8 / b) + n) 0).testBit (i - n * b) = false :=
          Nat.testBit_lt_two_pow
            (Nat.lt_of_lt_of_le (getD_lt hpixels _) (Nat.pow_le_pow_right (by decide) hge))
        have hout : ¬ i / b < n := by omega
        have hout' : ¬ i / b < n + 1 := by omega
        rw [hclear]
        simp [hout, hout']

theorem testBit_packByte (hb : 0 < b) (hpixels : ∀ p ∈ pixels, p < 2 ^ b) (x i : Nat) :
    (packByte (2 ^ b) pixels x).testBit i =
      (decide (i / b < 8 / b) &&
        (pixels.getD (x * (8 / b) + i / b) 0).testBit (i % b)) := by
  rw [packByte, pixelsPerByte_two_pow]
  exact testBit_forRange_packPixel hb hpixels x _ i

theorem packByte_lt (hb : 0 < b) (hpixels : ∀ p ∈ pixels, p < 2 ^ b) (x : Nat) :
    packByte (2 ^ b) pixels x < 2 ^ 8 := by
  apply Nat.lt_pow_two_of_testBit
  intro i hi
  rw [testBit_packByte hb hpixels]
  have hout : ¬ i / b < 8 / b := Nat.not_lt.mpr (Nat.div_le_div_right hi)
  simp [hout]

/-- The pixel `q` of a byte is read back from the bits from `q * b` on. -/
theorem packByte_pixel (hb : 0 < b) (hpixels : ∀ p ∈ pixels, p < 2 ^ b) {q : Nat}
    (hq : q < 8 / b) (x : Nat) :
    packByte (2 ^ b) pixels x / 2 ^ (q * b) % 2 ^ b =
      pixels.getD (x * (8 / b) + q) 0 % 2 ^ b := by
  apply Nat.eq_of_testBit_eq
  intro i
  rw [Nat.testBit_mod_two_pow, Nat.testBit_mod_two_pow, Nat.testBit_div_two_pow,
    testBit_packByte hb hpixels]
  by_cases hi : i < b
  · have hdiv : (i + q * b) / b = q := by
      rw [Nat.add_mul_div_right _ _ hb, Nat.div_eq_of_lt hi, Nat.zero_add]
    have hmod : (i + q * b) % b = i := by
      rw [Nat.add_mul_mod_self_right, Nat.mod_eq_of_lt hi]
    simp [hdiv, hmod, hq]
  · simp [hi]

end Pack

/-! ## The two formats -/

theorem ImageFormat.pixel_lt (format : ImageFormat) (b : Nat) {value : Nat}
    (hvalue : value < 2 ^ 8) : format.pixel (2 ^ b) value < 2 ^ b := by
  have hpow := Nat.two_pow_pos b
  cases format with
  | grayscale =>
      have hscaled : 2 * (value * (2 ^ b - 1)) ≤ 510 * (2 ^ b - 1) := by
        have hmul := Nat.mul_le_mul_right (2 ^ b - 1) (Nat.le_of_lt_succ hvalue)
        omega
      rw [pixel, rescaleByte, Nat.div_lt_iff_lt_mul (by decide)]
      omega
  | palette =>
      have hle : value &&& (2 ^ b - 1) ≤ 2 ^ b - 1 := Nat.and_le_right
      rw [pixel]
      omega

theorem convertImageBytes_palette {b : Nat} {values : List Nat}
    (hvalues : ∀ v ∈ values, v < 2 ^ b) (width height : Nat) :
    convertImageBytes .palette (2 ^ b) width height values =
      packPixels (2 ^ b) (width * height) values := by
  have hmap : values.map (ImageFormat.palette.pixel (2 ^ b)) = values := by
    refine List.map_congr_left (g := id) (fun v hv => ?_) |>.trans (List.map_id values)
    rw [ImageFormat.pixel, Nat.and_two_pow_sub_one_of_lt_two_pow (hvalues v hv), id]
  rw [convertImageBytes, hmap]

end Qmk.Painter
