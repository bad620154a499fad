import Qmk.Painter.Pack

/-!
# Images and their target formats

A frame is an array of colors.  The target format turns every pixel into a gray level
or into the bytes of the panel, each pixel on its own.
-/

namespace Qmk.Painter

structure Rgb where
  r : BitVec 8
  g : BitVec 8
  b : BitVec 8
  deriving DecidableEq

/-- An image in PIL's mode `RGB`. -/
structure Image where
  width : Nat
  height : Nat
  pixel : Nat → Nat → Rgb

namespace Image

/-- The pixels row by row, as `tobytes` has them. -/
def pixels (im : Image) : List Rgb :=
  (List.range (im.width * im.height)).map fun k => im.pixel (k % im.width) (k / im.width)

@[simp] theorem length_pixels (im : Image) : im.pixels.length = im.width * im.height := by
  rw [pixels, List.length_map, List.length_range]

/-- A box whose right and bottom edges lie outside it. -/
structure Box where
  left : Nat
  top : Nat
  right : Nat
  bottom : Nat

def crop (im : Image) (box : Box) : Image where
  width := box.right - box.left
  height := box.bottom - box.top
  pixel x y := im.pixel (box.left + x) (box.top + y)

/-- The absolute difference of a channel. -/
def channelDifference (a b : BitVec 8) : BitVec 8 := if a.toNat < b.toNat then b - a else a - b

/-- `ImageChops.difference`. -/
def difference (im other : Image) : Image where
  width := im.width
  height := im.height
  pixel x y :=
    { r := channelDifference (im.pixel x y).r (other.pixel x y).r
      g := channelDifference (im.pixel x y).g (other.pixel x y).g
      b := channelDifference (im.pixel x y).b (other.pixel x y).b }

def inColumn (im : Image) (x : Nat) : Bool :=
  (List.range im.height).any fun y => im.pixel x y != ⟨0, 0, 0⟩

def inRow (im : Image) (y : Nat) : Bool :=
  (List.range im.width).any fun x => im.pixel x y != ⟨0, 0, 0⟩

def firstIndex (count : Nat) (p : Nat → Bool) : Option Nat := (List.range count).find? p

/-- The box around the pixels that are not black. -/
def getbbox (im : Image) : Option Box :=
  match firstIndex im.width im.inColumn, firstIndex im.height im.inRow,
    firstIndex im.width fun d => im.inColumn (im.width - 1 - d),
    firstIndex im.height fun d => im.inRow (im.height - 1 - d) with
  | some left, some top, some fromRight, some fromBottom =>
      some ⟨left, top, im.width - fromRight, im.height - fromBottom⟩
  | _, _, _, _ => none

/-! ## The box of the differences -/

theorem channelDifference_eq_zero {a b : BitVec 8} (h : channelDifference a b = 0) : a = b := by
  unfold channelDifference at h
  split at h
  · exact (BitVec.sub_eq_iff_eq_add.mp h).trans (BitVec.zero_add a) |>.symm
  · exact (BitVec.sub_eq_iff_eq_add.mp h).trans (BitVec.zero_add b)

theorem difference_eq_black {im other : Image} {x y : Nat}
    (h : (im.difference other).pixel x y = ⟨0, 0, 0⟩) : im.pixel x y = other.pixel x y := by
  unfold difference at h
  obtain ⟨hr, hg, hb⟩ := Rgb.mk.inj h
  have hr := channelDifference_eq_zero hr
  have hg := channelDifference_eq_zero hg
  have hb := channelDifference_eq_zero hb
  cases himage : im.pixel x y
  cases hother : other.pixel x y
  rw [himage, hother] at hr hg hb
  exact Rgb.mk.injEq .. ▸ ⟨hr, hg, hb⟩

theorem firstIndex_some {count i : Nat} {p : Nat → Bool} (h : firstIndex count p = some i) :
    i < count ∧ p i = true ∧ ∀ j < i, p j = false := by
  obtain ⟨hp, hmem, hbefore⟩ := List.find?_range_eq_some.mp h
  exact ⟨List.mem_range.mp hmem, hp, fun j hj => by simpa using hbefore j hj⟩

theorem firstIndex_none {count : Nat} {p : Nat → Bool} (h : firstIndex count p = none) :
    ∀ j < count, p j = false := by
  intro j hj
  have hnone := List.find?_eq_none.mp h j (List.mem_range.mpr hj)
  exact Bool.eq_false_of_not_eq_true hnone

variable {im : Image} {x y : Nat}

theorem black_of_inColumn (hy : y < im.height) (h : im.inColumn x = false) :
    im.pixel x y = ⟨0, 0, 0⟩ := by
  have hnot := List.any_eq_false.mp h y (List.mem_range.mpr hy)
  simpa using hnot

theorem black_of_inRow (hx : x < im.width) (h : im.inRow y = false) :
    im.pixel x y = ⟨0, 0, 0⟩ := by
  have hnot := List.any_eq_false.mp h x (List.mem_range.mpr hx)
  simpa using hnot

def Box.Inside (box : Box) (x y : Nat) : Prop :=
  box.left ≤ x ∧ x < box.right ∧ box.top ≤ y ∧ y < box.bottom

instance (box : Box) (x y : Nat) : Decidable (box.Inside x y) :=
  inferInstanceAs (Decidable (_ ∧ _))

/-- A box of at least one pixel in the image. -/
structure Box.Within (box : Box) (width height : Nat) : Prop where
  horizontal : box.left < box.right
  vertical : box.top < box.bottom
  right_le : box.right ≤ width
  bottom_le : box.bottom ≤ height

theorem getbbox_some {box : Box} (h : im.getbbox = some box) :
    box.Within im.width im.height ∧
      ∀ x < im.width, ∀ y < im.height, ¬ box.Inside x y → im.pixel x y = ⟨0, 0, 0⟩ := by
  unfold getbbox at h
  split at h
  · rename_i left top fromRight fromBottom hleft htop hright hbottom
    obtain rfl := Option.some.inj h
    obtain ⟨hleftLt, hleftIn, hleftBefore⟩ := firstIndex_some hleft
    obtain ⟨htopLt, htopIn, htopBefore⟩ := firstIndex_some htop
    obtain ⟨hrightLt, -, hrightBefore⟩ := firstIndex_some hright
    obtain ⟨hbottomLt, -, hbottomBefore⟩ := firstIndex_some hbottom
    -- a column from the right edge on is black
    have hcolumn : ∀ x < im.width, im.width - fromRight ≤ x → im.inColumn x = false := by
      intro x hx hle
      have hblack := hrightBefore (im.width - 1 - x) (by omega)
      rw [Nat.sub_sub_self (by omega)] at hblack
      exact hblack
    have hrow : ∀ y < im.height, im.height - fromBottom ≤ y → im.inRow y = false := by
      intro y hy hle
      have hblack := hbottomBefore (im.height - 1 - y) (by omega)
      rw [Nat.sub_sub_self (by omega)] at hblack
      exact hblack
    refine ⟨⟨?_, ?_, Nat.sub_le _ _, Nat.sub_le _ _⟩, fun x hx y hy hout => ?_⟩
    · refine Nat.lt_of_not_le fun hle => ?_
      exact Bool.false_ne_true ((hcolumn left hleftLt hle).symm.trans hleftIn)
    · refine Nat.lt_of_not_le fun hle => ?_
      exact Bool.false_ne_true ((hrow top htopLt hle).symm.trans htopIn)
    · by_cases hl : x < left
      · exact black_of_inColumn hy (hleftBefore x hl)
      · by_cases hr : im.width - fromRight ≤ x
        · exact black_of_inColumn hy (hcolumn x hx hr)
        · by_cases ht : y < top
          · exact black_of_inRow hx (htopBefore y ht)
          · by_cases hb : im.height - fromBottom ≤ y
            · exact black_of_inRow hx (hrow y hy hb)
            · exact absurd ⟨Nat.le_of_not_lt hl, Nat.lt_of_not_le hr, Nat.le_of_not_lt ht,
                Nat.lt_of_not_le hb⟩ hout
  · cases h

theorem getbbox_none (h : im.getbbox = none) :
    ∀ x < im.width, ∀ y < im.height, im.pixel x y = ⟨0, 0, 0⟩ := by
  intro x hx y hy
  refine Decidable.byContradiction fun hne => ?_
  have hcolumn : im.inColumn x = true :=
    Bool.eq_true_of_not_eq_false fun h => hne (black_of_inColumn hy h)
  have hrow : im.inRow y = true :=
    Bool.eq_true_of_not_eq_false fun h => hne (black_of_inRow hx h)
  have hmirror : ∀ {count i : Nat} {p : Nat → Bool}, i < count → p i = true →
      (∃ j, firstIndex count p = some j) ∧
        ∃ j, (firstIndex count fun d => p (count - 1 - d)) = some j := by
    intro count i p hi hp
    refine ⟨?_, ?_⟩
    · cases hfirst : firstIndex count p with
      | none => exact absurd (firstIndex_none hfirst i hi) (by rw [hp]; decide)
      | some j => exact ⟨j, rfl⟩
    · cases hfirst : firstIndex count fun d => p (count - 1 - d) with
      | none =>
          have hblack := firstIndex_none hfirst (count - 1 - i) (by omega)
          rw [Nat.sub_sub_self (by omega), hp] at hblack
          cases hblack
      | some j => exact ⟨j, rfl⟩
  obtain ⟨⟨left, hleft⟩, ⟨fromRight, hright⟩⟩ := hmirror hx hcolumn
  obtain ⟨⟨top, htop⟩, ⟨fromBottom, hbottom⟩⟩ := hmirror hy hrow
  unfold getbbox at h
  rw [hleft, htop, hright, hbottom] at h
  cases h

end Image

end Qmk.Painter
