import Qmk.RgbLight.Modes

/-!
# LEDs and colors

The functions of `rgblight.c` that set colors.  Each division by a value that is not a literal and
each index into a table or into the LEDs of the driver is checked.
-/

namespace Qmk.RgbLight

open Qmk.RgbSplit

inductive Fault
  | divisionByZero
  | outOfBounds
  deriving DecidableEq

def divide (a b : Nat) : Except Fault Nat := if b = 0 then .error .divisionByZero else .ok (a / b)

def modulo (a b : Nat) : Except Fault Nat := if b = 0 then .error .divisionByZero else .ok (a % b)

def lookup {α : Type} (table : List α) (i : Nat) : Except Fault α :=
  match table[i]? with
  | some entry => .ok entry
  | none => .error .outOfBounds

/-- A color, before `rgblight_hsv_to_rgb` where it is given so. -/
inductive Color
  | rgb (r g b : BitVec 8)
  | hsv (hsv : Hsv)
  deriving DecidableEq

def black : Color := .rgb 0 0 0

/-- `rgblight_ranges_t`. -/
structure Ranges where
  clippingStartPos : BitVec 8
  clippingNumLeds : BitVec 8
  effectStartPos : Nat
  effectEndPos : Nat
  effectNumLeds : Nat
  deriving DecidableEq

/-- `animation_status_t`; the effects read and write the low byte of the union. -/
structure Animation where
  lastTimer : BitVec 16
  delta : Nat
  restart : Bool
  pos : BitVec 8
  deriving DecidableEq

structure TwinkleState where
  hsv : Hsv
  life : Nat
  maxLife : Nat
  deriving DecidableEq

structure State where
  config : Config
  /-- The word of the EEPROM. -/
  eeprom : Config
  initialized : Bool
  isSuspended : Bool
  preSuspendEnabled : Bool
  baseMode : Nat
  timerEnabled : Bool
  ranges : Ranges
  animation : Animation
  snakePos : BitVec 8
  knightLowBound : BitVec 8
  knightHighBound : BitVec 8
  knightIncrement : BitVec 8
  christmasIncrement : BitVec 8
  ledTwinkleState : List TwinkleState
  /-- The LEDs of the driver. -/
  leds : List Color
  deriving DecidableEq

variable (o : Options)

/-- The memory at start-up, and what the EEPROM holds. -/
def State.boot (eeprom : Config) : State where
  config := Config.ofRaw 0
  eeprom
  initialized := false
  isSuspended := false
  preSuspendEnabled := false
  baseMode := 0
  timerEnabled := false
  ranges := ⟨0, BitVec.ofNat 8 o.ledCount, 0, o.ledCount, o.ledCount⟩
  animation := ⟨0, 0, false, 0⟩
  snakePos := 0
  knightLowBound := 0
  knightHighBound := o.knightLength - 1
  knightIncrement := o.knightIncrement
  christmasIncrement := 1
  ledTwinkleState := List.replicate o.ledCount ⟨⟨0, 0, 0⟩, 0, 0⟩
  leds := List.replicate o.ledCount black

def rgblightSetClippingRange (startPos numLeds : BitVec 8) (s : State) : State :=
  { s with ranges := { s.ranges with clippingStartPos := startPos, clippingNumLeds := numLeds } }

def rgblightSetEffectRange (startPos numLeds : Nat) (s : State) : State :=
  if startPos ≥ o.ledCount then s
  else if startPos + numLeds > o.ledCount then s
  else
    { s with ranges := { s.ranges with
        effectStartPos := startPos
        effectEndPos := startPos + numLeds
        effectNumLeds := numLeds } }

/-- `rgblight_led_index`, with its index into the map. -/
def rgblightLedIndex (index : Nat) (s : State) : Except Fault Nat :=
  if index < o.ledCount then
    .ok (BitVec.ofNat 8 (o.ledMap index) - s.ranges.clippingStartPos).toNat
  else .error .outOfBounds

/-- `rgblight_driver.set_color(rgblight_led_index(index), color)`. -/
def setColor (color : Color) (index : Nat) (s : State) : Except Fault State := do
  let led ← rgblightLedIndex o index s
  if led < o.ledCount then .ok { s with leds := s.leds.set led color } else .error .outOfBounds

def limited (hsv : Hsv) : Hsv := if hsv.val > o.limitVal then { hsv with val := o.limitVal } else hsv

def sethsv (hsv : Hsv) (index : Nat) (s : State) : Except Fault State :=
  setColor o (.hsv (limited o hsv)) index s

/-- `for (i = first; i < last; i++) body(i)`. -/
def forLeds (first last : Nat) (body : Nat → State → Except Fault State) (s : State) :
    Except Fault State :=
  (List.range' first (last - first)).foldlM (fun s i => body i s) s

def rgblightSet (s : State) : Except Fault State :=
  if s.config.enable then .ok s
  else forLeds s.ranges.effectStartPos s.ranges.effectEndPos (setColor o black) s

def rgblightSetrgb (color : Color) (s : State) : Except Fault State :=
  if s.config.enable then do
    let s ← forLeds s.ranges.effectStartPos s.ranges.effectEndPos (setColor o color) s
    rgblightSet o s
  else .ok s

def rgblightSetrgbAt (color : Color) (index : Nat) (s : State) : Except Fault State :=
  if s.config.enable = false ∨ index ≥ o.ledCount then .ok s
  else do
    let s ← setColor o color index s
    rgblightSet o s

def rgblightSetrgbRange (color : Color) (start stop : Nat) (s : State) : Except Fault State :=
  if s.config.enable = false ∨ start ≥ stop ∨ stop > o.ledCount then .ok s
  else do
    let s ← forLeds start stop (setColor o color) s
    rgblightSet o s

def rgblightSethsvNoeepromOld (hsv : Hsv) (s : State) : Except Fault State :=
  if s.config.enable then rgblightSetrgb o (.hsv (limited o hsv)) s else .ok s

/-- `mode - base_mode`, which is a byte. -/
def State.delta (s : State) : Nat :=
  (BitVec.ofNat 8 s.config.mode - BitVec.ofNat 8 s.baseMode).toNat

/-- The loop of the static gradients. -/
def staticGradient (hsv : Hsv) (s : State) : Except Fault State :=
  let delta := s.delta
  let range := o.gradientRanges (delta / 2)
  if delta / 2 < gradientCount then do
    let s ← forLeds 0 s.ranges.effectNumLeds
      (fun i s => do
        let hue ← divide (i * range) s.ranges.effectNumLeds
        let hue := BitVec.ofNat 8 hue
        let hue := if delta % 2 = 0 then hsv.hue + hue else hsv.hue - hue
        sethsv o { hsv with hue } (i + s.ranges.effectStartPos) s)
      s
    rgblightSet o s
  else .error .outOfBounds

/-- `eeconfig_update_rgblight`. -/
def eeconfigUpdateRgblight (write : Bool) (s : State) : State :=
  if write then { s with eeprom := s.config } else s

/-- The color that the mode lets through, after it is shown where it does not move. -/
def showHsv (hsv : Hsv) (s : State) : Except Fault (Hsv × State) :=
  if s.config.mode = 1 then do
    let s ← rgblightSetrgb o (.hsv (limited o hsv)) s
    pure (hsv, s)
  else
    match effectAt o.build s.baseMode with
    | some .breathing => pure ({ hsv with val := s.config.hsv.val }, s)
    | some .rainbowMood | some .rainbowSwirl => pure ({ hsv with hue := s.config.hsv.hue }, s)
    | some .staticGradient => do
        let s ← staticGradient o hsv s
        pure (hsv, s)
    | _ => pure (hsv, s)

def rgblightSethsvEepromHelper (hsv : Hsv) (write : Bool) (s : State) : Except Fault State :=
  if s.config.enable then do
    let baseMode ← lookup (modeBaseTable o.build) s.config.mode
    let (hsv, s) ← showHsv o hsv { s with baseMode }
    pure (eeconfigUpdateRgblight write { s with config := { s.config with hsv } })
  else pure s

end Qmk.RgbLight
