import Qmk.RgbLight.Leds

/-!
# Animations

The effects of `rgblight.c`.
-/

namespace Qmk.RgbLight

open Qmk.RgbSplit

variable (o : Options)

def State.setPos (pos : BitVec 8) (s : State) : State :=
  { s with animation := { s.animation with pos } }

def breatheCalc (pos : BitVec 8) : Except Fault (BitVec 8) := do
  let i ← divide pos.toNat o.tableScale
  lookup (breatheTable o.tableScale) i

def rgblightEffectBreathing (s : State) : Except Fault State := do
  let val ← breatheCalc o s.animation.pos
  let s ← rgblightSethsvNoeepromOld o { s.config.hsv with val } s
  pure (s.setPos (s.animation.pos + 1))

def rgblightEffectRainbowMood (s : State) : Except Fault State := do
  let s ← rgblightSethsvNoeepromOld o { s.config.hsv with hue := s.animation.pos } s
  pure (s.setPos (s.animation.pos + 1))

def rgblightEffectRainbowSwirl (s : State) : Except Fault State := do
  let s ← forLeds 0 s.ranges.effectNumLeds
    (fun i s => do
      let part ← divide o.swirlRange s.ranges.effectNumLeds
      let hue := BitVec.ofNat 8 (part * i) + s.animation.pos
      sethsv o { s.config.hsv with hue } (i + s.ranges.effectStartPos) s)
    s
  let s ← rgblightSet o s
  pure (s.setPos (if s.animation.delta % 2 = 1 then s.animation.pos + 1 else s.animation.pos - 1))

/-- A place behind the last LED is taken from the first one on. -/
def snakeWrap (k : BitVec 8) : Except Fault (BitVec 8) :=
  if k.toInt > o.ledCount then do
    let rest ← modulo k.toNat o.ledCount
    pure (BitVec.ofNat 8 rest)
  else pure k

/-- The LED `i` of the snake, for its segment `j`. -/
def snakeSegment (increment : BitVec 8) (i j : Nat) (s : State) : Except Fault State := do
  let k ← snakeWrap o (s.snakePos + BitVec.ofNat 8 j * increment)
  let k := if k.toInt < 0 then k + BitVec.ofNat 8 s.ranges.effectNumLeds else k
  if k.toInt = i then do
    let val ← divide (s.config.hsv.val.toNat * (o.snakeLength - j)) o.snakeLength
    sethsv o { s.config.hsv with val := BitVec.ofNat 8 val } (i + s.ranges.effectStartPos) s
  else pure s

/-- The place of the last LED of the range, which is a byte. -/
def State.lastPos (s : State) : BitVec 8 := BitVec.ofNat 8 s.ranges.effectNumLeds - 1

def snakeRestart (forward : Bool) (s : State) : State :=
  if o.split ∧ s.animation.pos = 0 then
    { s.setPos 1 with snakePos := if forward then s.lastPos else 0 }
  else s

/-- The restart signal is kept for the other half only. -/
def signalPos (pos : BitVec 8) (s : State) : State := if o.split then s.setPos pos else s

def snakeAdvance (forward : Bool) (s : State) : Except Fault State :=
  if forward then
    if s.snakePos < o.snakeIncrement then
      pure (signalPos o 0 { s with snakePos := s.lastPos })
    else
      pure (signalPos o 1 { s with snakePos := s.snakePos - o.snakeIncrement })
  else do
    let pos ← modulo (s.snakePos.toNat + o.snakeIncrement.toNat) s.ranges.effectNumLeds
    pure (signalPos o (BitVec.ofNat 8 pos) { s with snakePos := BitVec.ofNat 8 pos })

def rgblightEffectSnake (s : State) : Except Fault State := do
  let forward : Bool := s.animation.delta % 2 = 0
  let increment : BitVec 8 := if forward then 1 else -1
  let s := snakeRestart o forward s
  let s ← forLeds 0 s.ranges.effectNumLeds
    (fun i s => do
      let s ← setColor o black (i + s.ranges.effectStartPos) s
      forLeds 0 o.snakeLength (snakeSegment o increment i) s)
    s
  let s ← rgblightSet o s
  snakeAdvance o forward s

/-- `RGBLIGHT_EFFECT_KNIGHT_LED_NUM`. -/
def knightLedNum (s : State) : Nat :=
  match o.knightLedNum with
  | some num => num.toNat
  | none => s.ranges.effectNumLeds

def knightRestart (s : State) : State :=
  if o.split ∧ s.animation.pos = 0 then
    { s.setPos 1 with
      knightLowBound := 0
      knightHighBound := o.knightLength - 1
      knightIncrement := 1 }
  else s

/-- The LED for the place `i` of the knight. -/
def knightLed (i : Nat) (s : State) : Except Fault State := do
  let cur ← modulo (i + o.knightOffset) s.ranges.effectNumLeds
  let cur := cur + s.ranges.effectStartPos
  if s.knightLowBound.toInt ≤ i ∧ i ≤ s.knightHighBound.toInt then
    sethsv o s.config.hsv cur s
  else setColor o black cur s

def knightAdvance (s : State) : State :=
  let s := { s with
    knightLowBound := s.knightLowBound + s.knightIncrement
    knightHighBound := s.knightHighBound + s.knightIncrement }
  if s.knightHighBound.toInt ≤ 0 ∨ s.knightLowBound.toInt ≥ (knightLedNum o s : Int) - 1 then
    let s := { s with knightIncrement := -s.knightIncrement }
    if s.knightIncrement = 1 then signalPos o 0 s else s
  else s

def rgblightEffectKnight (s : State) : Except Fault State := do
  let s := knightRestart o s
  let s ← forLeds s.ranges.effectStartPos s.ranges.effectEndPos (setColor o black) s
  let s ← forLeds 0 (knightLedNum o s) (knightLed o) s
  let s ← rgblightSet o s
  pure (knightAdvance o s)

def cubed (x : Nat) : Nat := x * x * x

/-- The hue between green and red; the products have 32 bits. -/
def christmasHue (pos : BitVec 8) : Except Fault (BitVec 8) := do
  let xa := cubed pos.toNat
  let rest := cubed (32 - pos.setWidth 32).toNat
  let hue ← divide (85 * xa % 4294967296) ((xa + rest) % 4294967296)
  pure (BitVec.ofNat 8 hue)

def rgblightEffectChristmas (s : State) : Except Fault State := do
  let pos := s.animation.pos
  let hue ← christmasHue pos
  let dark : Int := if hue.toNat < 42 then hue.toNat else 85 - hue.toNat
  let val := 255 - BitVec.ofInt 8 ((3 * dark).tdiv 2)
  let s ← forLeds 0 s.ranges.effectNumLeds
    (fun i s => do
      let stripe ← divide i o.christmasStep
      let stripeHue := if stripe % 2 = 1 then hue else 85 - hue
      sethsv o ⟨stripeHue, s.config.hsv.sat, val⟩ (i + s.ranges.effectStartPos) s)
    s
  let s ← rgblightSet o s
  let increment := if pos = 0 then 1 else if pos = 32 then -1 else s.christmasIncrement
  pure ({ s with christmasIncrement := increment }.setPos (pos + increment))

def rgblightEffectRgbtest (s : State) : Except Fault State := do
  let pos := s.animation.pos
  let val := s.config.hsv.val
  let channel (bit : Nat) : BitVec 8 := if pos.getLsbD bit then val else 0
  let s ← rgblightSetrgb o (.rgb (channel 0) (channel 1) (channel 2)) s
  pure (s.setPos (BitVec.ofNat 8 ((pos.toNat + 1) % 8)))

def rgblightEffectAlternating (s : State) : Except Fault State := do
  let first := s.animation.pos ≠ 0
  let s ← forLeds 0 s.ranges.effectNumLeds
    (fun i s =>
      let lit := decide (i < s.ranges.effectNumLeds / 2) == decide first
      let hsv := if lit then s.config.hsv else { s.config.hsv with val := 0 }
      sethsv o hsv (i + s.ranges.effectStartPos) s)
    s
  let s ← rgblightSet o s
  pure (s.setPos (BitVec.ofNat 8 ((s.animation.pos.toNat + 1) % 2)))

section Twinkle

/-- `frac`, which returns a byte. -/
def frac (n d : BitVec 8) : Except Fault (BitVec 8) := do
  let part ← divide (255 * n.toNat) d.toNat
  pure (BitVec.ofNat 8 part)

def scale (v : Nat) (factor : BitVec 8) : BitVec 8 := BitVec.ofNat 8 (v * factor.toNat / 256)

def twinkleTrigger (s : State) : BitVec 8 :=
  scale o.twinkleProbability (127 + BitVec.ofNat 8 (s.config.hsv.val.toNat / 2))

/-- The color of an LED that lights up. -/
def twinkleColor (randomColor : Bool) (rand : Nat → Nat) (sat : BitVec 8) (hsv : Hsv) :
    Except Fault Hsv :=
  if randomColor then do
    let half := sat.toNat / 2
    let rest ← modulo (rand 2) half
    pure ⟨BitVec.ofNat 8 (rand 1 % 255), BitVec.ofNat 8 (rest + half), 0⟩
  else pure { hsv with val := 0 }

/-- What the effect does with the state of one LED; `rand` are the random numbers drawn for it. -/
def twinkleLed (bottom top : BitVec 8) (restart randomColor : Bool) (rand : Nat → Nat) (s : State)
    (t : TwinkleState) : Except Fault TwinkleState := do
  let t :=
    if randomColor then t
    else { t with hsv := { t.hsv with hue := s.config.hsv.hue, sat := s.config.hsv.sat } }
  if restart then pure { t with life := 0, hsv := { t.hsv with val := 0 } }
  else if t.life ≠ 0 then do
    let life := t.life - 1
    let age ← frac (BitVec.ofNat 8 life) (BitVec.ofNat 8 t.maxLife)
    let bright ← breatheCalc o age
    let unscaled ← frac (bright - bottom) (top - bottom)
    pure { t with life, hsv := { t.hsv with val := scale s.config.hsv.val.toNat unscaled } }
  else if rand 0 % 255 < (twinkleTrigger o s).toNat then do
    let hsv ← twinkleColor randomColor rand s.config.hsv.sat t.hsv
    let maxLife := max 20 (min o.twinkleLife s.config.hsv.val.toNat)
    pure ⟨hsv, maxLife, maxLife⟩
  else pure t

def rgblightEffectTwinkle (rand : Nat → Nat → Nat) (s : State) : Except Fault State := do
  let randomColor : Bool := s.animation.delta / 3 ≠ 0
  let restart : Bool := s.animation.pos = 0
  let bottom ← breatheCalc o 0
  let top ← breatheCalc o 127
  let s ← forLeds 0 s.ranges.effectNumLeds
    (fun i s => do
      let t ← lookup s.ledTwinkleState i
      let t ← twinkleLed o bottom top restart randomColor (rand i) s t
      let s := { s with ledTwinkleState := s.ledTwinkleState.set i t }
      sethsv o t.hsv (i + s.ranges.effectStartPos) s)
    (s.setPos 1)
  rgblightSet o s

end Twinkle

end Qmk.RgbLight
