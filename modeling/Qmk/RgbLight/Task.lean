import Qmk.RgbLight.Effects

/-!
# The task and the calls

`rgblight_task` and the functions of `rgblight.h` that change the light.
-/

namespace Qmk.RgbLight

open Qmk.RgbSplit

variable (o : Options)

/-! ## The timer -/

def rgblightTimerEnable (now : BitVec 16) (s : State) : State :=
  { s with
    timerEnabled := s.timerEnabled || !isStaticEffect o.build s.config.mode
    animation := { s.animation with lastTimer := now } }

def rgblightTimerDisable (s : State) : State := { s with timerEnabled := false }

def rgblightTimerToggle (now : BitVec 16) (s : State) : State :=
  if s.timerEnabled then rgblightTimerDisable s else rgblightTimerEnable o now s

/-- The interval of an effect. -/
def intervalTime (delta : Nat) : Option Effect → Except Fault (BitVec 16)
  | none | some .staticLight | some .staticGradient => .ok 2000
  | some .christmas => .ok o.christmasInterval
  | some .alternating => .ok 500
  | some effect =>
      if intervalIndex delta effect < intervalCount effect then
        .ok (o.intervals effect (intervalIndex delta effect))
      else .error .outOfBounds

def runEffect (rand : Nat → Nat → Nat) : Option Effect → State → Except Fault State
  | none | some .staticLight | some .staticGradient => .ok
  | some .breathing => rgblightEffectBreathing o
  | some .rainbowMood => rgblightEffectRainbowMood o
  | some .rainbowSwirl => rgblightEffectRainbowSwirl o
  | some .snake => rgblightEffectSnake o
  | some .knight => rgblightEffectKnight o
  | some .christmas => rgblightEffectChristmas o
  | some .rgbTest => rgblightEffectRgbtest o
  | some .alternating => rgblightEffectAlternating o
  | some .twinkle => rgblightEffectTwinkle o rand

/-- A mode that was set since restarts the animation. -/
def restarted (now : BitVec 16) (s : State) : State :=
  if s.animation.restart then
    { s with animation := { s.animation with restart := false, lastTimer := now, pos := 0 } }
  else s

/-- The state in which `rgblight_timer_task` looks at the timer. -/
def awaiting (now : BitVec 16) (s : State) : State :=
  restarted now { s with animation := { s.animation with delta := s.delta } }

def timerExpired (now : BitVec 16) (s : State) : Bool :=
  (now - s.animation.lastTimer).toNat < 32767

def rgblightTimerTask (now : BitVec 16) (rand : Nat → Nat → Nat) (s : State) :
    Except Fault State :=
  if s.timerEnabled then do
    let effect := effectAt o.build s.baseMode
    let interval ← intervalTime o s.delta effect
    let s := awaiting now s
    if timerExpired now s then
      let lastTimer := s.animation.lastTimer + interval
      runEffect o rand effect { s with animation := { s.animation with lastTimer } }
    else pure s
  else pure s

/-! ## Modes -/

/-- The part of `rgblight_mode_eeprom_helper` before the color is set. -/
def selectMode (now : BitVec 16) (mode : Nat) (write : Bool) (s : State) : State :=
  let s := { s with config := { s.config with mode := o.build.clampMode mode } }
  let s := eeconfigUpdateRgblight write s
  let s :=
    if isStaticEffect o.build s.config.mode then rgblightTimerDisable s
    else rgblightTimerEnable o now s
  { s with animation := { s.animation with restart := true } }

def rgblightModeEepromHelper (now : BitVec 16) (mode : Nat) (write : Bool) (s : State) :
    Except Fault State :=
  if s.config.enable then
    let s := selectMode o now mode write s
    rgblightSethsvEepromHelper o s.config.hsv false s
  else pure s

def rgblightEnable (now : BitVec 16) (write : Bool) (s : State) : Except Fault State :=
  rgblightModeEepromHelper o now s.config.mode write
    { s with config := { s.config with enable := true } }

def rgblightDisable (write : Bool) (s : State) : Except Fault State :=
  let s := { s with config := { s.config with enable := false } }
  rgblightSet o (rgblightTimerDisable (eeconfigUpdateRgblight write s))

def checkConfig (config : Config) : Config :=
  { config with
    mode := o.build.clampMode config.mode
    hsv := limited o config.hsv }

/-- The end of `rgblight_init` and of `rgblight_reload_from_eeprom`. -/
def rgblightResume (now : BitVec 16) (s : State) : Except Fault State :=
  if s.config.enable then rgblightModeEepromHelper o now s.config.mode false s else pure s

def rgblightReloadFromEeprom (now : BitVec 16) (s : State) : Except Fault State :=
  rgblightResume o now { s with config := checkConfig o s.eeprom }

def rgblightInit (now : BitVec 16) (s : State) : Except Fault State :=
  if s.initialized then pure s
  else do
    let s := { s with eeprom := if s.eeprom.mode = 0 then o.defaults else s.eeprom }
    let s := { s with config := checkConfig o s.eeprom }
    let s ← rgblightResume o now (rgblightTimerDisable s)
    pure { s with initialized := true }

def rgblightSuspend (s : State) : Except Fault State :=
  let s := rgblightTimerDisable s
  if s.isSuspended then pure s
  else
    rgblightDisable o false { s with isSuspended := true, preSuspendEnabled := s.config.enable }

/-- The light is on again if it was on before. -/
def restoreEnabled (now : BitVec 16) (s : State) : Except Fault State :=
  if s.preSuspendEnabled then rgblightEnable o now false s else pure s

def rgblightWakeup (now : BitVec 16) (s : State) : Except Fault State := do
  let s ← restoreEnabled o now { s with isSuspended := false }
  pure (rgblightTimerEnable o now s)

def rgblightShowSolidColor (now : BitVec 16) (color : Color) (s : State) : Except Fault State := do
  let s ← rgblightEnable o now true s
  let s ← rgblightModeEepromHelper o now 1 true s
  rgblightSetrgb o color s

def rgblightUpdateQword (now : BitVec 16) (raw : BitVec 64) (s : State) : Except Fault State :=
  let s := { s with config := Config.ofRaw raw }
  if s.config.enable then rgblightModeEepromHelper o now s.config.mode false s
  else rgblightSet o (rgblightTimerDisable s)

/-! ## Colors and speed -/

inductive Channel
  | hue
  | sat
  | val
  deriving DecidableEq

/-- The `rgblight_increase_<channel>_helper` and `rgblight_decrease_<channel>_helper`. -/
def stepped (channel : Channel) (up : Bool) (hsv : Hsv) : Hsv :=
  match channel with
  | .hue =>
      { hsv with hue := if up then hsv.hue + o.build.hueStep else hsv.hue - o.build.hueStep }
  | .sat =>
      { hsv with
        sat := if up then qadd8 hsv.sat o.build.satStep else qsub8 hsv.sat o.build.satStep }
  | .val =>
      { hsv with
        val := if up then qadd8 hsv.val o.build.valStep else qsub8 hsv.val o.build.valStep }

def steppedSpeed (up : Bool) (speed : BitVec 8) : BitVec 8 :=
  if up then if speed < 3 then speed + 1 else speed
  else if speed > 0 then speed - 1 else speed

def rgblightSetSpeedEepromHelper (speed : BitVec 8) (write : Bool) (s : State) : State :=
  eeconfigUpdateRgblight write { s with config := { s.config with speed } }

/-! ## The other half of a split keyboard -/

def updateMode (now : BitVec 16) (changed : Bool) (config : Config) (write : Bool) (s : State) :
    Except Fault State :=
  if changed then
    if config.enable then
      rgblightModeEepromHelper o now config.mode write
        { s with config := { s.config with enable := true } }
    else rgblightDisable o false s
  else pure s

def updateHsvs (changed : Bool) (hsv : Hsv) (write : Bool) (s : State) : Except Fault State :=
  if changed then rgblightSethsvEepromHelper o hsv write s else pure s

def updateTimer (now : BitVec 16) (changed timerEnabled : Bool) (s : State) : State :=
  if changed then
    if timerEnabled then rgblightTimerEnable o now s else rgblightTimerDisable s
  else s

def updateTick (tick : Bool) (s : State) : State :=
  if o.split ∧ tick then { s with animation := { s.animation with restart := true } } else s

def rgblightUpdateSync (now : BitVec 16) (changed : ChangeFlags) (tick : Bool) (config : Config)
    (timerEnabled write : Bool) (s : State) : Except Fault State := do
  let s ← updateMode o now changed.mode config write s
  let s ← updateHsvs o changed.hsvs config.hsv write s
  pure (updateTick o tick (updateTimer o now changed.timer timerEnabled s))

/-! ## Calls -/

/-- The calls; `write` is false for those that leave the EEPROM alone. -/
inductive Call
  | init
  | enable (write : Bool)
  | disable (write : Bool)
  | toggle (write : Bool)
  | mode (mode : Nat) (write : Bool)
  | increase
  | decrease
  | step (write : Bool)
  | stepReverse (write : Bool)
  | sethsv (hsv : Hsv) (write : Bool)
  | stepColor (channel : Channel) (up write : Bool)
  | setSpeed (speed : BitVec 8) (write : Bool)
  | stepSpeed (up write : Bool)
  | reloadFromEeprom
  | setrgb (r g b : BitVec 8)
  | setrgbAt (r g b : BitVec 8) (index : Nat)
  | sethsvAt (hsv : Hsv) (index : Nat)
  | setrgbRange (r g b : BitVec 8) (start stop : Nat)
  | sethsvRange (hsv : Hsv) (start stop : Nat)
  | setEffectRange (startPos numLeds : Nat)
  | setClippingRange (startPos numLeds : BitVec 8)
  | set
  | timerEnable
  | timerDisable
  | timerToggle
  | suspend
  | wakeup
  | showSolidColor (r g b : BitVec 8)
  | updateQword (raw : BitVec 64)
  | updateSync (changed : ChangeFlags) (tick : Bool) (config : Config) (timerEnabled write : Bool)
  | task (rand : Nat → Nat → Nat)

def step (s : State) : BitVec 16 × Call → Except Fault State
  | (now, .init) => rgblightInit o now s
  | (now, .enable write) => rgblightEnable o now write s
  | (_, .disable write) => rgblightDisable o write s
  | (now, .toggle write) =>
      if s.config.enable then rgblightDisable o write s else rgblightEnable o now write s
  | (now, .mode mode write) => rgblightModeEepromHelper o now mode write s
  | (now, .increase) =>
      let mode := if s.config.mode < o.build.modes then s.config.mode + 1 else 0
      rgblightModeEepromHelper o now mode true s
  | (now, .decrease) =>
      let mode := if s.config.mode > 1 then s.config.mode - 1 else 0
      rgblightModeEepromHelper o now mode true s
  | (now, .step write) =>
      let mode := (s.config.mode + 1) % 256
      rgblightModeEepromHelper o now (if mode > o.build.modes then 1 else mode) write s
  | (now, .stepReverse write) =>
      let mode := (s.config.mode + 255) % 256
      rgblightModeEepromHelper o now (if mode < 1 then o.build.modes else mode) write s
  | (_, .sethsv hsv write) => rgblightSethsvEepromHelper o hsv write s
  | (_, .stepColor channel up write) =>
      rgblightSethsvEepromHelper o (stepped o channel up s.config.hsv) write s
  | (_, .setSpeed speed write) => .ok (rgblightSetSpeedEepromHelper speed write s)
  | (_, .stepSpeed up write) =>
      .ok (rgblightSetSpeedEepromHelper (steppedSpeed up s.config.speed) write s)
  | (now, .reloadFromEeprom) => rgblightReloadFromEeprom o now s
  | (_, .setrgb r g b) => rgblightSetrgb o (.rgb r g b) s
  | (_, .setrgbAt r g b index) => rgblightSetrgbAt o (.rgb r g b) index s
  | (_, .sethsvAt hsv index) => rgblightSetrgbAt o (.hsv (limited o hsv)) index s
  | (_, .setrgbRange r g b start stop) => rgblightSetrgbRange o (.rgb r g b) start stop s
  | (_, .sethsvRange hsv start stop) =>
      rgblightSetrgbRange o (.hsv (limited o hsv)) start stop s
  | (_, .setEffectRange startPos numLeds) => .ok (rgblightSetEffectRange o startPos numLeds s)
  | (_, .setClippingRange startPos numLeds) => .ok (rgblightSetClippingRange startPos numLeds s)
  | (_, .set) => rgblightSet o s
  | (now, .timerEnable) => .ok (rgblightTimerEnable o now s)
  | (_, .timerDisable) => .ok (rgblightTimerDisable s)
  | (now, .timerToggle) => .ok (rgblightTimerToggle o now s)
  | (_, .suspend) => rgblightSuspend o s
  | (now, .wakeup) => rgblightWakeup o now s
  | (now, .showSolidColor r g b) => rgblightShowSolidColor o now (.rgb r g b) s
  | (now, .updateQword raw) => rgblightUpdateQword o now raw s
  | (now, .updateSync changed tick config timerEnabled write) =>
      rgblightUpdateSync o now changed tick config timerEnabled write s
  | (now, .task rand) => rgblightTimerTask o now rand s

end Qmk.RgbLight
