import Qmk.RgbSplit.Light

/-!
# Modes and tables

The tables that `rgblight.c` reads with the mode, or with its distance from the base mode.  Layers,
Velocikey and the breathing curve computed in floating point are left out.
-/

namespace Qmk.RgbLight

open Qmk.RgbSplit

/-! ## `rgblight_modes.h` -/

/-- The effects with `RGBLIGHT_MODE_<name>`, from the mode `first` on. -/
def modeStarts : Nat → List Effect → List (Effect × Nat)
  | _, [] => []
  | first, effect :: rest => (effect, first) :: modeStarts (first + effect.modes) rest

/-- The effects that the build has, in the order of their modes. -/
def starts (build : Build) : List (Effect × Nat) :=
  modeStarts 1 (.staticLight :: effects.filter build.defined)

/-- `mode_base_table`. -/
def modeBaseTable (build : Build) : List Nat :=
  0 :: (starts build).flatMap fun start => List.replicate start.1.modes start.2

/-- The comparisons of `base_mode` with each `RGBLIGHT_MODE_<name>`. -/
def effectAt (build : Build) (baseMode : Nat) : Option Effect :=
  ((starts build).find? fun start => start.2 = baseMode).map Prod.fst

/-! ## Intervals -/

/-- The length of the table of intervals. -/
def intervalCount : Effect → Nat
  | .breathing => 4
  | .rainbowMood | .rainbowSwirl | .snake | .knight | .twinkle => 3
  | _ => 1

/-- The index that `rgblight_timer_task` reads it at. -/
def intervalIndex (delta : Nat) : Effect → Nat
  | .breathing | .rainbowMood | .knight => delta
  | .rainbowSwirl | .snake => delta / 2
  | .twinkle => delta % 3
  | _ => 0

/-- The length of `RGBLED_GRADIENT_RANGES`. -/
def gradientCount : Nat := 5

/-! ## The breathing curve -/

/-- The curve with `RGBLIGHT_BREATHE_TABLE_SIZE` at 256; the smaller tables are parts of it. -/
def breatheCurve : List Nat :=
  [0x22, 0x23, 0x25, 0x26, 0x28, 0x29, 0x2a, 0x2c, 0x2d, 0x2f, 0x30, 0x32, 0x33, 0x35, 0x36,
    0x38, 0x3a, 0x3b, 0x3d, 0x3e, 0x40, 0x42, 0x43, 0x45, 0x47, 0x49, 0x4a, 0x4c, 0x4e, 0x50,
    0x51, 0x53, 0x55, 0x57, 0x59, 0x5a, 0x5c, 0x5e, 0x60, 0x62, 0x64, 0x66, 0x68, 0x69, 0x6b,
    0x6d, 0x6f, 0x71, 0x73, 0x75, 0x77, 0x79, 0x7b, 0x7d, 0x7f, 0x81, 0x83, 0x85, 0x87, 0x89,
    0x8a, 0x8c, 0x8e, 0x90, 0x92, 0x94, 0x96, 0x98, 0x9a, 0x9c, 0x9e, 0x9f, 0xa1, 0xa3, 0xa5,
    0xa7, 0xa8, 0xaa, 0xac, 0xae, 0xaf, 0xb1, 0xb3, 0xb4, 0xb6, 0xb8, 0xb9, 0xbb, 0xbc, 0xbe,
    0xbf, 0xc1, 0xc2, 0xc3, 0xc5, 0xc6, 0xc7, 0xc9, 0xca, 0xcb, 0xcc, 0xcd, 0xce, 0xd0, 0xd1,
    0xd2, 0xd2, 0xd3, 0xd4, 0xd5, 0xd6, 0xd7, 0xd7, 0xd8, 0xd9, 0xd9, 0xda, 0xda, 0xdb, 0xdb,
    0xdb, 0xdc, 0xdc, 0xdc, 0xdc, 0xdc, 0xdd, 0xdd, 0xdd, 0xdd, 0xdc, 0xdc, 0xdc, 0xdc, 0xdc,
    0xdb, 0xdb, 0xdb, 0xda, 0xda, 0xd9, 0xd9, 0xd8, 0xd7, 0xd7, 0xd6, 0xd5, 0xd4, 0xd3, 0xd2,
    0xd2, 0xd1, 0xd0, 0xce, 0xcd, 0xcc, 0xcb, 0xca, 0xc9, 0xc7, 0xc6, 0xc5, 0xc3, 0xc2, 0xc1,
    0xbf, 0xbe, 0xbc, 0xbb, 0xb9, 0xb8, 0xb6, 0xb4, 0xb3, 0xb1, 0xaf, 0xae, 0xac, 0xaa, 0xa8,
    0xa7, 0xa5, 0xa3, 0xa1, 0x9f, 0x9e, 0x9c, 0x9a, 0x98, 0x96, 0x94, 0x92, 0x90, 0x8e, 0x8c,
    0x8a, 0x89, 0x87, 0x85, 0x83, 0x81, 0x7f, 0x7d, 0x7b, 0x79, 0x77, 0x75, 0x73, 0x71, 0x6f,
    0x6d, 0x6b, 0x69, 0x68, 0x66, 0x64, 0x62, 0x60, 0x5e, 0x5c, 0x5a, 0x59, 0x57, 0x55, 0x53,
    0x51, 0x50, 0x4e, 0x4c, 0x4a, 0x49, 0x47, 0x45, 0x43, 0x42, 0x40, 0x3e, 0x3d, 0x3b, 0x3a,
    0x38, 0x36, 0x35, 0x33, 0x32, 0x30, 0x2f, 0x2d, 0x2c, 0x2a, 0x29, 0x28, 0x26, 0x25, 0x23,
    0x22]

/-- `rgblight_effect_breathe_table` for a `table_scale`. -/
def breatheTable (scale : Nat) : List (BitVec 8) :=
  (List.range (256 / scale)).map fun i => BitVec.ofNat 8 (breatheCurve.getD (i * scale) 0)

/-! ## Options -/

structure Options where
  build : Build
  /-- `RGBLIGHT_LED_COUNT`. -/
  ledCount : Nat
  one_le_ledCount : 1 ≤ ledCount
  ledCount_le : ledCount ≤ 255
  /-- `RGBLIGHT_LED_MAP`, which names LEDs that there are; without it the identity. -/
  ledMap : Nat → Nat
  ledMap_lt : ∀ i < ledCount, ledMap i < ledCount
  limitVal : BitVec 8
  /-- What `eeconfig_update_rgblight_default` writes. -/
  defaults : Config
  /-- `RGBLIGHT_SPLIT`, without `RGBLIGHT_SPLIT_NO_ANIMATION_SYNC`. -/
  split : Bool
  tableScale : Nat
  tableScale_eq : tableScale = 1 ∨ tableScale = 2 ∨ tableScale = 4
  intervals : Effect → Nat → BitVec 16
  gradientRanges : Nat → Nat
  swirlRange : Nat
  snakeLength : Nat
  snakeIncrement : BitVec 8
  knightLength : BitVec 8
  knightIncrement : BitVec 8
  knightOffset : Nat
  /-- `RGBLIGHT_EFFECT_KNIGHT_LED_NUM`, where it is not the length of the effect range. -/
  knightLedNum : Option (BitVec 8)
  christmasStep : Nat
  one_le_christmasStep : 1 ≤ christmasStep
  christmasInterval : BitVec 16
  twinkleLife : Nat
  /-- `(uint16_t)0xFF * RGBLIGHT_EFFECT_TWINKLE_PROBABILITY`. -/
  twinkleProbability : Nat

end Qmk.RgbLight
