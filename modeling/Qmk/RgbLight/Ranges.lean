import Qmk.Lib.Succeeds
import Qmk.RgbLight.Leds

/-!
# The effect range

Colors are set inside of the effect range, which ends where the LEDs do.
-/

namespace Qmk.RgbLight

open Qmk.Lib Qmk.RgbSplit

variable {o : Options}

/-- The LEDs from `first` to `last` are not clipped. -/
def Unclipped (o : Options) (clipping : BitVec 8) (first last : Nat) : Prop :=
  ∀ i, first ≤ i → i < last → clipping.toNat ≤ o.ledMap i

/-- The effect range is one that `rgblight_set_effect_range` accepts, and is not clipped. -/
structure Ready (o : Options) (ranges : Ranges) : Prop where
  end_eq : ranges.effectEndPos = ranges.effectStartPos + ranges.effectNumLeds
  end_le : ranges.effectEndPos ≤ o.ledCount
  unclipped : Unclipped o ranges.clippingStartPos ranges.effectStartPos ranges.effectEndPos

/-- An effect leaves alone what the mode and the timer depend on. -/
structure Keeps (s next : State) : Prop where
  config : next.config = s.config
  baseMode : next.baseMode = s.baseMode
  timerEnabled : next.timerEnabled = s.timerEnabled
  ranges : next.ranges = s.ranges
  restart : next.animation.restart = s.animation.restart

/-- Nothing else changes than the LEDs and the positions of the animations. -/
structure Plays (s next : State) : Prop extends Keeps s next where
  increment : next.christmasIncrement = s.christmasIncrement
  twinkle : next.ledTwinkleState = s.ledTwinkleState

variable {s next last : State} {color : Color} {i first stop : Nat}

theorem Keeps.refl (s : State) : Keeps s s := ⟨rfl, rfl, rfl, rfl, rfl⟩

theorem Keeps.trans (h : Keeps s next) (hlast : Keeps next last) : Keeps s last where
  config := hlast.config.trans h.config
  baseMode := hlast.baseMode.trans h.baseMode
  timerEnabled := hlast.timerEnabled.trans h.timerEnabled
  ranges := hlast.ranges.trans h.ranges
  restart := hlast.restart.trans h.restart

theorem Keeps.ready (h : Keeps s next) (hready : Ready o s.ranges) : Ready o next.ranges :=
  h.ranges ▸ hready

theorem Plays.refl (s : State) : Plays s s := ⟨.refl s, rfl, rfl⟩

theorem Plays.trans (h : Plays s next) (hlast : Plays next last) : Plays s last where
  toKeeps := h.toKeeps.trans hlast.toKeeps
  increment := hlast.increment.trans h.increment
  twinkle := hlast.twinkle.trans h.twinkle

/-- Only the LEDs change. -/
structure Paints (s next : State) : Prop extends Plays s next where
  animation : next.animation = s.animation

theorem Paints.refl (s : State) : Paints s s := ⟨.refl s, rfl⟩

theorem Paints.trans (h : Paints s next) (hlast : Paints next last) : Paints s last :=
  ⟨h.toPlays.trans hlast.toPlays, hlast.animation.trans h.animation⟩

theorem succeeds_divide {a b : Nat} (h : b ≠ 0) : Succeeds (divide a b) (· = a / b) := by
  rw [divide, if_neg h]
  exact succeeds_ok rfl

theorem succeeds_modulo {a b : Nat} (h : b ≠ 0) : Succeeds (modulo a b) (· = a % b) := by
  rw [modulo, if_neg h]
  exact succeeds_ok rfl

theorem succeeds_lookup {α : Type} {table : List α} {i : Nat} (h : i < table.length) :
    Succeeds (lookup table i) fun entry => table[i]? = some entry := by
  unfold lookup
  rw [List.getElem?_eq_getElem h]
  exact succeeds_ok rfl

theorem succeeds_setColor (color : Color) (hi : i < o.ledCount)
    (hclip : s.ranges.clippingStartPos.toNat ≤ o.ledMap i) :
    Succeeds (setColor o color i s) (Paints s) := by
  have hled : (BitVec.ofNat 8 (o.ledMap i) - s.ranges.clippingStartPos).toNat < o.ledCount := by
    have hmap := o.ledMap_lt i hi
    rw [BitVec.toNat_sub, BitVec.toNat_ofNat]
    omega
  unfold setColor rgblightLedIndex
  rw [if_pos hi]
  change Succeeds (if _ then _ else _) _
  rw [if_pos hled]
  exact succeeds_ok ⟨⟨⟨rfl, rfl, rfl, rfl, rfl⟩, rfl, rfl⟩, rfl⟩

/-- What holds before a round and implies what holds behind it holds behind a counted loop. -/
theorem succeeds_forLeds (Inv : Nat → State → Prop) {body : Nat → State → Except Fault State}
    (hbody : ∀ i, first ≤ i → i < stop → ∀ s, Inv i s → Succeeds (body i s) (Inv (i + 1)))
    (hle : first ≤ stop) (hs : Inv first s) :
    Succeeds (forLeds first stop body s) (Inv stop) := by
  unfold forLeds
  obtain ⟨count, rfl⟩ : ∃ count, stop = first + count := ⟨stop - first, by omega⟩
  rw [Nat.add_sub_cancel_left]
  induction count generalizing first s with
  | zero => exact succeeds_ok hs
  | succ count ih =>
      have hstop : first + (count + 1) = first + 1 + count := by omega
      rw [hstop] at hbody ⊢
      rw [List.range'_succ, List.foldlM_cons]
      apply (hbody first (Nat.le_refl first) (by omega) s hs).bind
      intro next hnext
      exact ih hnext (fun i hi => hbody i (Nat.le_of_succ_le hi)) (Nat.le_add_right _ _)

/-- A counted loop whose rounds only set colors. -/
theorem succeeds_rounds {body : Nat → State → Except Fault State}
    (hbody : ∀ i, first ≤ i → i < stop → ∀ next, Paints s next →
      Succeeds (body i next) (Paints next)) :
    Succeeds (forLeds first stop body s) (Paints s) := by
  apply succeeds_foldlM (Paints s) _ (.refl s)
  intro i hi next hnext
  rw [List.mem_range'_1] at hi
  exact (hbody i hi.1 (by omega) next hnext).imp fun last hlast => hnext.trans hlast

/-- A loop over LEDs that are there and not clipped. -/
theorem succeeds_paint (color : Color) (hstop : stop ≤ o.ledCount)
    (hclip : Unclipped o s.ranges.clippingStartPos first stop) :
    Succeeds (forLeds first stop (setColor o color) s) (Paints s) := by
  apply succeeds_rounds
  intro i hfirst hi next hnext
  rw [← hnext.ranges] at hclip
  exact succeeds_setColor color (Nat.lt_of_lt_of_le hi hstop) (hclip i hfirst hi)

theorem Ready.paint (h : Ready o s.ranges) (color : Color) :
    Succeeds (forLeds s.ranges.effectStartPos s.ranges.effectEndPos (setColor o color) s)
      (Paints s) :=
  succeeds_paint color h.end_le h.unclipped

/-- A color for a place of the effect range. -/
theorem Ready.place (h : Ready o s.ranges) (color : Color) (hi : i < s.ranges.effectNumLeds) :
    Succeeds (setColor o color (i + s.ranges.effectStartPos) s) (Paints s) := by
  have hend := h.end_eq
  have hle := h.end_le
  have hlt : i + s.ranges.effectStartPos < s.ranges.effectEndPos := by omega
  exact succeeds_setColor color (Nat.lt_of_lt_of_le hlt hle)
    (h.unclipped _ (Nat.le_add_left _ _) hlt)

theorem Ready.sethsv (h : Ready o s.ranges) (hsv : Hsv) (hi : i < s.ranges.effectNumLeds) :
    Succeeds (sethsv o hsv (i + s.ranges.effectStartPos) s) (Paints s) :=
  h.place _ hi

theorem Ready.rgblightSet (h : Ready o s.ranges) : Succeeds (rgblightSet o s) (Paints s) := by
  unfold RgbLight.rgblightSet
  split
  · exact succeeds_ok (.refl s)
  · exact h.paint black

/-- A loop that sets colors, with what is done behind it. -/
theorem Ready.loop (h : Ready o s.ranges) {body : Nat → State → Except Fault State}
    (hbody : ∀ i, first ≤ i → i < stop → ∀ next, Paints s next →
      Succeeds (body i next) (Paints next))
    {finish : State → Except Fault State} {P : State → Prop}
    (hfinish : ∀ next, Paints s next → Succeeds (finish next) P) :
    Succeeds (do
      let s ← forLeds first stop body s
      let s ← RgbLight.rgblightSet o s
      finish s) P := by
  apply (succeeds_rounds hbody).bind
  intro next hnext
  apply (Ready.rgblightSet (hnext.ready h)).bind
  exact fun last hlast => hfinish last (hnext.trans hlast)

theorem Ready.rgblightSetrgb (h : Ready o s.ranges) (color : Color) :
    Succeeds (rgblightSetrgb o color s) (Paints s) := by
  unfold RgbLight.rgblightSetrgb
  split
  · apply (h.paint color).bind
    intro next hnext
    apply (Ready.rgblightSet (hnext.ready h)).imp
    exact fun last hlast => hnext.trans hlast
  · exact succeeds_ok (.refl s)

theorem Ready.rgblightSethsvNoeepromOld (h : Ready o s.ranges) (hsv : Hsv) :
    Succeeds (rgblightSethsvNoeepromOld o hsv s) (Paints s) := by
  unfold RgbLight.rgblightSethsvNoeepromOld
  split
  · exact h.rgblightSetrgb _
  · exact succeeds_ok (.refl s)

theorem Ready.rgblightSetrgbAt (h : Ready o s.ranges) (color : Color)
    (hclip : s.config.enable = true → i < o.ledCount →
      s.ranges.clippingStartPos.toNat ≤ o.ledMap i) :
    Succeeds (rgblightSetrgbAt o color i s) (Paints s) := by
  unfold RgbLight.rgblightSetrgbAt
  split
  · exact succeeds_ok (.refl s)
  · next hset =>
      rw [not_or, Bool.not_eq_false, Nat.not_le] at hset
      apply (succeeds_setColor color hset.2 (hclip hset.1 hset.2)).bind
      intro next hnext
      apply (Ready.rgblightSet (hnext.ready h)).imp
      exact fun last hlast => hnext.trans hlast

theorem Ready.rgblightSetrgbRange (h : Ready o s.ranges) (color : Color)
    (hclip : s.config.enable = true → stop ≤ o.ledCount →
      Unclipped o s.ranges.clippingStartPos first stop) :
    Succeeds (rgblightSetrgbRange o color first stop s) (Paints s) := by
  unfold RgbLight.rgblightSetrgbRange
  split
  · exact succeeds_ok (.refl s)
  · next hset =>
      rw [not_or, not_or, Bool.not_eq_false, Nat.not_lt] at hset
      apply (succeeds_paint color hset.2.2 (hclip hset.1 hset.2.2)).bind
      intro next hnext
      apply (Ready.rgblightSet (hnext.ready h)).imp
      exact fun last hlast => hnext.trans hlast

end Qmk.RgbLight
