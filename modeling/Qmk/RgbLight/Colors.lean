import Qmk.RgbLight.Bases
import Qmk.RgbLight.Ranges

/-!
# Setting the color

`rgblight_sethsv_eeprom_helper` finds the base mode of a mode that is on, and a range for a static
gradient.
-/

namespace Qmk.RgbLight

open Qmk.Lib Qmk.RgbSplit

variable {o : Options} {s next : State}

theorem Ready.staticGradient (h : Ready o s.ranges) (hdelta : s.delta / 2 < gradientCount)
    (hsv : Hsv) : Succeeds (staticGradient o hsv s) (Paints s) := by
  unfold RgbLight.staticGradient
  rw [if_pos hdelta]
  apply (succeeds_rounds _).bind
  · intro next hnext
    apply (Ready.rgblightSet (hnext.ready h)).imp
    exact fun last hlast => hnext.trans hlast
  · intro i _ hi next hnext
    rw [← hnext.ranges] at hi
    apply (succeeds_divide (Nat.ne_zero_of_lt hi)).bind
    exact fun part _ => (hnext.ready h).sethsv _ hi

theorem Ready.showHsv (h : Ready o s.ranges)
    (hbase : (modeBaseTable o.build)[s.config.mode]? = some s.baseMode) (hsv : Hsv) :
    Succeeds (showHsv o hsv s) fun shown => Paints s shown.2 := by
  unfold RgbLight.showHsv
  split
  · apply (h.rgblightSetrgb _).bind
    exact fun next hnext => succeeds_ok hnext
  · split
    · exact succeeds_ok (.refl s)
    · exact succeeds_ok (.refl s)
    · exact succeeds_ok (.refl s)
    · next heffect =>
        have hdelta : s.delta < 10 := delta_lt hbase heffect
        have hrange : s.delta / 2 < gradientCount := by
          unfold gradientCount
          omega
        apply (h.staticGradient hrange hsv).bind
        exact fun next hnext => succeeds_ok hnext
    · exact succeeds_ok (.refl s)

/-- The light has another color, and the base mode of its mode. -/
structure Recolored (o : Options) (s next : State) : Prop where
  enable : next.config.enable = s.config.enable
  mode : next.config.mode = s.config.mode
  timerEnabled : next.timerEnabled = s.timerEnabled
  ranges : next.ranges = s.ranges
  animation : next.animation = s.animation
  increment : next.christmasIncrement = s.christmasIncrement
  twinkle : next.ledTwinkleState = s.ledTwinkleState
  based : s.config.enable = true →
    (modeBaseTable o.build)[s.config.mode]? = some next.baseMode
  off : s.config.enable = false → next.baseMode = s.baseMode

theorem Paints.recolored {based : State} (h : Paints based next)
    (hbase : (modeBaseTable o.build)[s.config.mode]? = some based.baseMode)
    (hbased : based = { s with baseMode := based.baseMode }) (hon : s.config.enable = true)
    (hsv : Hsv) (write : Bool) :
    Recolored o s (eeconfigUpdateRgblight write
      { next with config := { next.config with hsv } }) := by
  have hconfig : next.config = s.config := by
    rw [h.config, hbased]
  have hbaseMode : (modeBaseTable o.build)[s.config.mode]? = some next.baseMode := by
    rw [h.baseMode]
    exact hbase
  have hoff : s.config.enable = false → next.baseMode = s.baseMode := by
    rw [hon]
    exact fun hfalse => (Bool.false_ne_true hfalse.symm).elim
  have htimer : next.timerEnabled = s.timerEnabled := by rw [h.timerEnabled, hbased]
  have hranges : next.ranges = s.ranges := by rw [h.ranges, hbased]
  have hanimation : next.animation = s.animation := by rw [h.animation, hbased]
  have hincrement : next.christmasIncrement = s.christmasIncrement := by rw [h.increment, hbased]
  have htwinkle : next.ledTwinkleState = s.ledTwinkleState := by rw [h.twinkle, hbased]
  unfold eeconfigUpdateRgblight
  split <;>
    exact ⟨by rw [hconfig], by rw [hconfig], htimer, hranges, hanimation, hincrement, htwinkle,
      fun _ => hbaseMode, hoff⟩

theorem Ready.rgblightSethsvEepromHelper (h : Ready o s.ranges)
    (hmode : s.config.enable = true →
      ∃ base, (modeBaseTable o.build)[s.config.mode]? = some base) (hsv : Hsv) (write : Bool) :
    Succeeds (rgblightSethsvEepromHelper o hsv write s) (Recolored o s) := by
  unfold RgbLight.rgblightSethsvEepromHelper
  cases hon : s.config.enable with
  | false =>
      exact succeeds_ok ⟨rfl, rfl, rfl, rfl, rfl, rfl, rfl,
        fun htrue => (Bool.false_ne_true (hon.symm.trans htrue)).elim, fun _ => rfl⟩
  | true =>
      rw [if_pos rfl]
      obtain ⟨base, hbase⟩ := hmode hon
      have hlookup : lookup (modeBaseTable o.build) s.config.mode = .ok base := by
        unfold lookup
        rw [hbase]
      rw [hlookup]
      change Succeeds (RgbLight.showHsv o hsv { s with baseMode := base } >>= _) _
      have hready : Ready o ({ s with baseMode := base } : State).ranges := h
      apply (hready.showHsv hbase hsv).bind
      rintro ⟨color, next⟩ hnext
      exact succeeds_ok (Paints.recolored hnext hbase rfl hon color write)

end Qmk.RgbLight
