import Qmk.Lib.Run

/-!
# RGB Light on one half

The operations of `rgblight.c` on the configuration and the status that the halves of a split
keyboard exchange.  What goes to the LEDs and to the EEPROM is left out.
-/

namespace Qmk.RgbSplit

/-! ## Modes -/

inductive Effect
  | staticLight
  | breathing
  | rainbowMood
  | rainbowSwirl
  | snake
  | knight
  | christmas
  | staticGradient
  | rgbTest
  | alternating
  | twinkle
  deriving DecidableEq

/-- The modes of an effect in `rgblight_modes.h`. -/
def Effect.modes : Effect → Nat
  | .staticLight => 1
  | .breathing => 4
  | .rainbowMood => 3
  | .rainbowSwirl => 6
  | .snake => 6
  | .knight => 3
  | .christmas => 1
  | .staticGradient => 10
  | .rgbTest => 1
  | .alternating => 1
  | .twinkle => 6

def Effect.isStatic : Effect → Bool
  | .staticLight | .staticGradient => true
  | _ => false

structure Build where
  /-- Whether `RGBLIGHT_EFFECT_<name>` is defined. -/
  defined : Effect → Bool
  hueStep : BitVec 8
  satStep : BitVec 8
  valStep : BitVec 8
  /-- The bits of `rgblight_layer_mask_t`. -/
  layerBits : Nat
  /-- `FORCED_SYNC_THROTTLE_MS`. -/
  forcedSyncThrottleMs : BitVec 32

def effects : List Effect :=
  [.breathing, .rainbowMood, .rainbowSwirl, .snake, .knight, .christmas, .staticGradient, .rgbTest,
    .alternating, .twinkle]

/-- The effects of the modes from `RGBLIGHT_MODE_STATIC_LIGHT` on. -/
def Build.modeTable (build : Build) : List Effect :=
  .staticLight :: (effects.filter build.defined).flatMap fun effect =>
    List.replicate effect.modes effect

/-- `RGBLIGHT_MODES`. -/
def Build.modes (build : Build) : Nat := build.modeTable.length

/-- The effect with the base mode of `mode_base_table`; mode 0 is none. -/
def Build.effect (build : Build) (mode : Nat) : Option Effect :=
  if mode = 0 then none else build.modeTable[mode - 1]?

/-! ## The state of a half -/

structure Hsv where
  hue : BitVec 8
  sat : BitVec 8
  val : BitVec 8
  deriving DecidableEq

/-- `rgblight_config_t`, less the bit of Velocikey. -/
structure Config where
  enable : Bool
  /-- A bit field of 6 bits. -/
  mode : Nat
  hsv : Hsv
  speed : BitVec 8
  deriving DecidableEq

def Config.ofRaw (raw : BitVec 64) : Config where
  enable := raw.getLsbD 0
  mode := (raw.extractLsb' 2 6).toNat
  hsv := ⟨raw.extractLsb' 8 8, raw.extractLsb' 16 8, raw.extractLsb' 24 8⟩
  speed := raw.extractLsb' 32 8

/-- The bits of `change_flags`, less the one that the animation sets. -/
structure ChangeFlags where
  mode : Bool
  hsvs : Bool
  timer : Bool
  layers : Bool
  deriving DecidableEq

def ChangeFlags.none : ChangeFlags := ⟨false, false, false, false⟩

structure Status (build : Build) where
  timerEnabled : Bool
  changeFlags : ChangeFlags
  enabledLayerMask : BitVec build.layerBits

/-- `rgblight_config` and `rgblight_status`, and the block that carries both. -/
structure SyncInfo (build : Build) where
  config : Config
  status : Status build

variable {build : Build}

namespace SyncInfo

def setFlags (s : SyncInfo build) (changeFlags : ChangeFlags) : SyncInfo build :=
  { s with status := { s.status with changeFlags } }

def changeMode (s : SyncInfo build) : SyncInfo build :=
  s.setFlags { s.status.changeFlags with mode := true }

def changeHsvs (s : SyncInfo build) : SyncInfo build :=
  s.setFlags { s.status.changeFlags with hsvs := true }

def changeTimer (s : SyncInfo build) : SyncInfo build :=
  s.setFlags { s.status.changeFlags with timer := true }

def changeLayers (s : SyncInfo build) : SyncInfo build :=
  s.setFlags { s.status.changeFlags with layers := true }

end SyncInfo

/-! ## `rgblight_sethsv_eeprom_helper` and `rgblight_mode_eeprom_helper` -/

/-- What the mode lets through of a new color. -/
def Build.admitted (build : Build) (mode : Nat) (old new : Hsv) : Hsv :=
  match build.effect mode with
  | some .breathing => { new with val := old.val }
  | some .rainbowMood | some .rainbowSwirl => { new with hue := old.hue }
  | _ => new

def rgblightSethsv (hsv : Hsv) (s : SyncInfo build) : SyncInfo build :=
  if s.config.enable = true then
    let s := if s.config.hsv ≠ hsv then s.changeHsvs else s
    { s with config := { s.config with hsv := build.admitted s.config.mode s.config.hsv hsv } }
  else s

def isStaticEffect (build : Build) (mode : Nat) : Bool :=
  match build.effect mode with
  | some effect => effect.isStatic
  | none => false

def rgblightTimerEnable (s : SyncInfo build) : SyncInfo build :=
  let s :=
    if isStaticEffect build s.config.mode = true then s
    else { s with status := { s.status with timerEnabled := true } }
  s.changeTimer

def rgblightTimerDisable (s : SyncInfo build) : SyncInfo build :=
  { s with status := { s.status with timerEnabled := false } }.changeTimer

def Build.clampMode (build : Build) (mode : Nat) : Nat :=
  if mode < 1 then 1 else if build.modes < mode then build.modes else mode

def rgblightMode (mode : Nat) (s : SyncInfo build) : SyncInfo build :=
  if s.config.enable = true then
    let s := { s with config := { s.config with mode := build.clampMode mode } }.changeMode
    let s :=
      if isStaticEffect build s.config.mode = true then rgblightTimerDisable s
      else rgblightTimerEnable s
    rgblightSethsv s.config.hsv s
  else s

/-! ## The operations -/

def rgblightEnable (s : SyncInfo build) : SyncInfo build :=
  rgblightMode s.config.mode { s with config := { s.config with enable := true } }

def rgblightDisable (s : SyncInfo build) : SyncInfo build :=
  (rgblightTimerDisable { s with config := { s.config with enable := false } }).changeMode

def rgblightToggle (s : SyncInfo build) : SyncInfo build :=
  if s.config.enable = true then rgblightDisable s else rgblightEnable s

def rgblightIncrease (s : SyncInfo build) : SyncInfo build :=
  rgblightMode (if s.config.mode < build.modes then s.config.mode + 1 else 0) s

def rgblightDecrease (s : SyncInfo build) : SyncInfo build :=
  rgblightMode (if 1 < s.config.mode then s.config.mode - 1 else 0) s

def rgblightStep (s : SyncInfo build) : SyncInfo build :=
  rgblightMode (if build.modes < s.config.mode + 1 then 1 else s.config.mode + 1) s

/-- `uint8_t mode` is 255 below mode 0. -/
def rgblightStepReverse (s : SyncInfo build) : SyncInfo build :=
  let mode := if s.config.mode = 0 then 255 else s.config.mode - 1
  rgblightMode (if mode < 1 then build.modes else mode) s

def qadd8 (a b : BitVec 8) : BitVec 8 :=
  if 255 < a.toNat + b.toNat then 255 else a + b

def qsub8 (a b : BitVec 8) : BitVec 8 :=
  if a.toNat < b.toNat then 0 else a - b

def rgblightIncreaseHue (s : SyncInfo build) : SyncInfo build :=
  rgblightSethsv { s.config.hsv with hue := s.config.hsv.hue + build.hueStep } s

def rgblightDecreaseHue (s : SyncInfo build) : SyncInfo build :=
  rgblightSethsv { s.config.hsv with hue := s.config.hsv.hue - build.hueStep } s

def rgblightIncreaseSat (s : SyncInfo build) : SyncInfo build :=
  rgblightSethsv { s.config.hsv with sat := qadd8 s.config.hsv.sat build.satStep } s

def rgblightDecreaseSat (s : SyncInfo build) : SyncInfo build :=
  rgblightSethsv { s.config.hsv with sat := qsub8 s.config.hsv.sat build.satStep } s

def rgblightIncreaseVal (s : SyncInfo build) : SyncInfo build :=
  rgblightSethsv { s.config.hsv with val := qadd8 s.config.hsv.val build.valStep } s

def rgblightDecreaseVal (s : SyncInfo build) : SyncInfo build :=
  rgblightSethsv { s.config.hsv with val := qsub8 s.config.hsv.val build.valStep } s

def rgblightIncreaseSpeed (s : SyncInfo build) : SyncInfo build :=
  if s.config.speed < 3 then { s with config := { s.config with speed := s.config.speed + 1 } }
  else s

def rgblightDecreaseSpeed (s : SyncInfo build) : SyncInfo build :=
  if 0 < s.config.speed then { s with config := { s.config with speed := s.config.speed - 1 } }
  else s

def rgblightUpdateQword (qword : BitVec 64) (s : SyncInfo build) : SyncInfo build :=
  let s := { s.changeMode.changeHsvs with config := Config.ofRaw qword }
  if (Config.ofRaw qword).enable = true then rgblightMode s.config.mode s
  else rgblightTimerDisable s

def rgblightSetLayerState (layer : Nat) (enabled : Bool) (s : SyncInfo build) : SyncInfo build :=
  let mask : BitVec build.layerBits := BitVec.ofNat build.layerBits 1 <<< layer
  let enabledLayerMask :=
    if enabled = true then s.status.enabledLayerMask ||| mask
    else s.status.enabledLayerMask &&& ~~~ mask
  { s with status := { s.status with enabledLayerMask } }.changeLayers

inductive Operation
  | enable
  | disable
  | toggle
  | mode (next : Nat)
  | increase
  | decrease
  | step
  | stepReverse
  | sethsv (hsv : Hsv)
  | increaseHue
  | decreaseHue
  | increaseSat
  | decreaseSat
  | increaseVal
  | decreaseVal
  | increaseSpeed
  | decreaseSpeed
  | updateQword (qword : BitVec 64)
  | setLayerState (layer : Nat) (enabled : Bool)

def Operation.apply : Operation → SyncInfo build → SyncInfo build
  | .enable => rgblightEnable
  | .disable => rgblightDisable
  | .toggle => rgblightToggle
  | .mode next => rgblightMode next
  | .increase => rgblightIncrease
  | .decrease => rgblightDecrease
  | .step => rgblightStep
  | .stepReverse => rgblightStepReverse
  | .sethsv hsv => rgblightSethsv hsv
  | .increaseHue => rgblightIncreaseHue
  | .decreaseHue => rgblightDecreaseHue
  | .increaseSat => rgblightIncreaseSat
  | .decreaseSat => rgblightDecreaseSat
  | .increaseVal => rgblightIncreaseVal
  | .decreaseVal => rgblightDecreaseVal
  | .increaseSpeed => rgblightIncreaseSpeed
  | .decreaseSpeed => rgblightDecreaseSpeed
  | .updateQword qword => rgblightUpdateQword qword
  | .setLayerState layer enabled => rgblightSetLayerState layer enabled

/-! ## What an operation flags -/

/-- Whatever changes is flagged, and no flag is lost. -/
structure Flagged (s s' : SyncInfo build) : Prop where
  mode : s'.status.changeFlags.mode = false → s.status.changeFlags.mode = false ∧
    s'.config.enable = s.config.enable ∧ s'.config.mode = s.config.mode
  hsvs : s'.status.changeFlags.hsvs = false →
    s.status.changeFlags.hsvs = false ∧ s'.config.hsv = s.config.hsv
  layers : s'.status.changeFlags.layers = false →
    s.status.changeFlags.layers = false ∧ s'.status.enabledLayerMask = s.status.enabledLayerMask

/-- A mode that is on is one of the table. -/
def ModeValid (s : SyncInfo build) : Prop :=
  s.config.enable = true → 1 ≤ s.config.mode ∧ s.config.mode ≤ build.modes

theorem one_le_modes (build : Build) : 1 ≤ build.modes := by
  simp [Build.modes, Build.modeTable]

theorem clampMode_valid (mode : Nat) :
    1 ≤ build.clampMode mode ∧ build.clampMode mode ≤ build.modes := by
  have some := one_le_modes build
  unfold Build.clampMode
  split
  · omega
  · split <;> omega

theorem clampMode_of_valid {mode : Nat} (low : 1 ≤ mode) (high : mode ≤ build.modes) :
    build.clampMode mode = mode := by
  rw [Build.clampMode, if_neg (by omega), if_neg (by omega)]

@[simp] theorem admitted_self (mode : Nat) (hsv : Hsv) : build.admitted mode hsv hsv = hsv := by
  unfold Build.admitted
  split <;> rfl

namespace Flagged

variable {s s' s'' : SyncInfo build}

theorem refl (s : SyncInfo build) : Flagged s s :=
  ⟨fun h => ⟨h, rfl, rfl⟩, fun h => ⟨h, rfl⟩, fun h => ⟨h, rfl⟩⟩

theorem trans (first : Flagged s s') (second : Flagged s' s'') : Flagged s s'' where
  mode h := by
    obtain ⟨unflagged, enable, mode⟩ := second.mode h
    obtain ⟨unflagged', enable', mode'⟩ := first.mode unflagged
    exact ⟨unflagged', enable.trans enable', mode.trans mode'⟩
  hsvs h := by
    obtain ⟨unflagged, hsv⟩ := second.hsvs h
    obtain ⟨unflagged', hsv'⟩ := first.hsvs unflagged
    exact ⟨unflagged', hsv.trans hsv'⟩
  layers h := by
    obtain ⟨unflagged, mask⟩ := second.layers h
    obtain ⟨unflagged', mask'⟩ := first.layers unflagged
    exact ⟨unflagged', mask.trans mask'⟩

end Flagged

/-- `rgblight_sethsv_eeprom_helper` flags a new color and takes what the mode lets through. -/
theorem rgblightSethsv_cases (hsv : Hsv) (s : SyncInfo build) :
    (rgblightSethsv hsv s).config =
        { s.config with hsv :=
            if s.config.enable = true then build.admitted s.config.mode s.config.hsv hsv
            else s.config.hsv } ∧
      (rgblightSethsv hsv s).status.enabledLayerMask = s.status.enabledLayerMask ∧
      (rgblightSethsv hsv s).status.changeFlags.mode = s.status.changeFlags.mode ∧
      Flagged s (rgblightSethsv hsv s) := by
  unfold rgblightSethsv
  split
  · by_cases same : s.config.hsv = hsv
    · rw [if_neg (not_not_intro same)]
      refine ⟨rfl, rfl, rfl, ⟨fun h => ⟨h, rfl, rfl⟩, fun h => ⟨h, ?_⟩, fun h => ⟨h, rfl⟩⟩⟩
      simp [same]
    · rw [if_pos same]
      exact ⟨rfl, rfl, rfl,
        ⟨fun h => ⟨h, rfl, rfl⟩, fun h => Bool.noConfusion h, fun h => ⟨h, rfl⟩⟩⟩
  · exact ⟨rfl, rfl, rfl, .refl s⟩

/-- The timer functions leave everything alone that the halves have to agree on. -/
theorem timer_cases (s : SyncInfo build) :
    ((rgblightTimerDisable s).config = s.config ∧
      (rgblightTimerDisable s).status.enabledLayerMask = s.status.enabledLayerMask ∧
      (rgblightTimerDisable s).status.changeFlags.mode = s.status.changeFlags.mode ∧
      Flagged s (rgblightTimerDisable s)) ∧
    ((rgblightTimerEnable s).config = s.config ∧
      (rgblightTimerEnable s).status.enabledLayerMask = s.status.enabledLayerMask ∧
      (rgblightTimerEnable s).status.changeFlags.mode = s.status.changeFlags.mode ∧
      Flagged s (rgblightTimerEnable s)) := by
  constructor
  · exact ⟨rfl, rfl, rfl, ⟨fun h => ⟨h, rfl, rfl⟩, fun h => ⟨h, rfl⟩, fun h => ⟨h, rfl⟩⟩⟩
  · unfold rgblightTimerEnable
    split <;>
      exact ⟨rfl, rfl, rfl, ⟨fun h => ⟨h, rfl, rfl⟩, fun h => ⟨h, rfl⟩, fun h => ⟨h, rfl⟩⟩⟩

/-- `rgblight_mode_eeprom_helper` on a half that is on. -/
theorem rgblightMode_on {s : SyncInfo build} (on : s.config.enable = true) (mode : Nat) :
    (rgblightMode mode s).config = { s.config with mode := build.clampMode mode } ∧
      (rgblightMode mode s).status.enabledLayerMask = s.status.enabledLayerMask ∧
      (rgblightMode mode s).status.changeFlags.mode = true ∧
      Flagged s (rgblightMode mode s) := by
  rw [rgblightMode, if_pos on]
  generalize hset : { s with config := { s.config with mode := build.clampMode mode } }.changeMode
    = set
  have flags : Flagged s set := by
    subst hset
    exact ⟨fun h => Bool.noConfusion h, fun h => ⟨h, rfl⟩, fun h => ⟨h, rfl⟩⟩
  have config : set.config = { s.config with mode := build.clampMode mode } := by
    subst hset
    rfl
  have status : set.status.enabledLayerMask = s.status.enabledLayerMask ∧
      set.status.changeFlags.mode = true := by
    subst hset
    exact ⟨rfl, rfl⟩
  have timed : ∃ timed, (if isStaticEffect build set.config.mode = true then
        rgblightTimerDisable set else rgblightTimerEnable set) = timed ∧
      timed.config = set.config ∧
      timed.status.enabledLayerMask = set.status.enabledLayerMask ∧
      timed.status.changeFlags.mode = set.status.changeFlags.mode ∧ Flagged set timed := by
    split
    · exact ⟨_, rfl, (timer_cases set).1⟩
    · exact ⟨_, rfl, (timer_cases set).2⟩
  obtain ⟨timed, htimed, timedConfig, timedMask, timedFlag, timedFlags⟩ := timed
  simp only [htimed]
  obtain ⟨last, mask, flag, lastFlags⟩ := rgblightSethsv_cases timed.config.hsv timed
  refine ⟨?_, mask.trans (timedMask.trans status.1), flag.trans (timedFlag.trans status.2),
    (flags.trans timedFlags).trans lastFlags⟩
  rw [last, admitted_self, ite_self, timedConfig, config]

theorem rgblightMode_off {s : SyncInfo build} (off : s.config.enable ≠ true) (mode : Nat) :
    rgblightMode mode s = s := by
  rw [rgblightMode, if_neg off]

/-! ## What every operation does -/

/-- An operation flags what it changes, and the mode stays one of the table. -/
structure Sound (s s' : SyncInfo build) : Prop where
  flagged : Flagged s s'
  valid : ModeValid s → ModeValid s'

namespace Sound

variable {s : SyncInfo build}

theorem sethsv (hsv : Hsv) (s : SyncInfo build) : Sound s (rgblightSethsv hsv s) := by
  obtain ⟨config, -, -, flagged⟩ := rgblightSethsv_cases hsv s
  refine ⟨flagged, fun valid => ?_⟩
  rw [ModeValid, config]
  exact valid

theorem mode (next : Nat) (s : SyncInfo build) : Sound s (rgblightMode next s) := by
  by_cases on : s.config.enable = true
  · obtain ⟨config, -, -, flagged⟩ := rgblightMode_on on next
    refine ⟨flagged, fun _ _ => ?_⟩
    rw [config]
    exact clampMode_valid next
  · rw [rgblightMode_off on]
    exact ⟨.refl s, id⟩

theorem enable (s : SyncInfo build) : Sound s (rgblightEnable s) := by
  obtain ⟨config, -, flag, flagged⟩ := rgblightMode_on
    (s := { s with config := { s.config with enable := true } }) rfl s.config.mode
  refine ⟨⟨fun h => ?_, flagged.hsvs, flagged.layers⟩, fun _ _ => ?_⟩
  · exact absurd (flag.symm.trans h) (by decide)
  · rw [rgblightEnable, config]
    exact clampMode_valid s.config.mode

theorem disable (s : SyncInfo build) : Sound s (rgblightDisable s) :=
  ⟨⟨fun h => Bool.noConfusion h, fun h => ⟨h, rfl⟩, fun h => ⟨h, rfl⟩⟩,
    fun _ on => Bool.noConfusion on⟩

theorem speed {speed : BitVec 8} :
    Sound s { s with config := { s.config with speed } } :=
  ⟨⟨fun h => ⟨h, rfl, rfl⟩, fun h => ⟨h, rfl⟩, fun h => ⟨h, rfl⟩⟩, id⟩

theorem updateQword (qword : BitVec 64) (s : SyncInfo build) :
    Sound s (rgblightUpdateQword qword s) := by
  unfold rgblightUpdateQword
  -- both flags are set before the color changes, and stay set
  have enable : (Config.ofRaw qword).enable =
      { s.changeMode.changeHsvs with config := Config.ofRaw qword }.config.enable := rfl
  rw [enable]
  generalize hset : { s.changeMode.changeHsvs with config := Config.ofRaw qword } = set
  have flags : Flagged s set := by
    subst hset
    exact ⟨fun h => Bool.noConfusion h, fun h => Bool.noConfusion h, fun h => ⟨h, rfl⟩⟩
  simp only
  split
  · rename_i on
    obtain ⟨config, -, -, flagged⟩ := rgblightMode_on on set.config.mode
    refine ⟨flags.trans flagged, fun _ _ => ?_⟩
    rw [config]
    exact clampMode_valid set.config.mode
  · rename_i off
    exact ⟨flags.trans (timer_cases set).1.2.2.2, fun _ on => absurd on off⟩

theorem setLayerState (layer : Nat) (enabled : Bool) (s : SyncInfo build) :
    Sound s (rgblightSetLayerState layer enabled s) :=
  ⟨⟨fun h => ⟨h, rfl, rfl⟩, fun h => ⟨h, rfl⟩, fun h => Bool.noConfusion h⟩, id⟩

end Sound

theorem apply_sound (operation : Operation) (s : SyncInfo build) :
    Sound s (operation.apply s) := by
  cases operation with
  | enable => exact .enable s
  | disable => exact .disable s
  | toggle =>
      rw [Operation.apply, rgblightToggle]
      split
      · exact .disable s
      · exact .enable s
  | mode next => exact .mode next s
  | increase => exact .mode _ s
  | decrease => exact .mode _ s
  | step => exact .mode _ s
  | stepReverse => exact .mode _ s
  | sethsv hsv => exact .sethsv hsv s
  | increaseHue => exact .sethsv _ s
  | decreaseHue => exact .sethsv _ s
  | increaseSat => exact .sethsv _ s
  | decreaseSat => exact .sethsv _ s
  | increaseVal => exact .sethsv _ s
  | decreaseVal => exact .sethsv _ s
  | increaseSpeed =>
      rw [Operation.apply, rgblightIncreaseSpeed]
      split
      · exact .speed
      · exact ⟨.refl s, id⟩
  | decreaseSpeed =>
      rw [Operation.apply, rgblightDecreaseSpeed]
      split
      · exact .speed
      · exact ⟨.refl s, id⟩
  | updateQword qword => exact .updateQword qword s
  | setLayerState layer enabled => exact .setLayerState layer enabled s

end Qmk.RgbSplit
