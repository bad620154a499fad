import Qmk.Lib.Run
import Qmk.RgbLight.Safety

/-!
# Runs of the light

Every call and every tick succeeds, as long as the steps stay clear of the divisions and the tables
that `rgblight.c` does not guard.
-/

namespace Qmk.RgbLight

open Qmk.Lib Qmk.RgbSplit

/-- A call that fails leaves the state as it is. -/
def advance (o : Options) (s : State) (input : BitVec 16 × Call) : State :=
  (step o s input).toOption.getD s

/-- The call divides by zero nowhere, and stays inside of the LEDs and the tables. -/
def InBounds (o : Options) (s : State) (input : BitVec 16 × Call) : Prop :=
  ∃ next, step o s input = .ok next

/-- The step stays clear of what is not guarded. -/
def Avoids (o : Options) (s : State) : BitVec 16 × Call → Prop
  -- The driver gets the index of an LED less the start of the clipping range, as a byte.
  | (_, .setClippingRange startPos _) =>
      Unclipped o startPos s.ranges.effectStartPos s.ranges.effectEndPos
  | (_, .setEffectRange startPos numLeds) =>
      startPos < o.ledCount → startPos + numLeds ≤ o.ledCount →
        Unclipped o s.ranges.clippingStartPos startPos (startPos + numLeds)
  | (_, .setrgbAt _ _ _ index) | (_, .sethsvAt _ index) =>
      s.config.enable = true → index < o.ledCount →
        s.ranges.clippingStartPos.toNat ≤ o.ledMap index
  | (_, .setrgbRange _ _ _ start stop) | (_, .sethsvRange _ start stop) =>
      s.config.enable = true → stop ≤ o.ledCount →
        Unclipped o s.ranges.clippingStartPos start stop
  -- A light that is off keeps its base mode while its mode changes.
  | (_, .reloadFromEeprom) =>
      s.eeprom.enable = false → s.timerEnabled = true →
        Timed o.build s.baseMode (checkConfig o s.eeprom).mode
  | (_, .timerEnable) => s.config.enable = false → s.timerEnabled = true ∨ TimerReady o s
  | (_, .timerToggle) => s.config.enable = false → s.timerEnabled = true ∨ TimerReady o s
  | (_, .wakeup) => s.preSuspendEnabled = false → s.config.enable = false → TimerReady o s
  | (_, .updateSync changed _ config timerEnabled _) =>
      changed.timer = true → timerEnabled = true →
        (if changed.mode then config.enable else s.config.enable) = false → TimerReady o s
  | (now, .task rand) =>
      s.timerEnabled = true → timerExpired now (awaiting now s) = true → Divides o rand s
  | _ => True

variable {o : Options} {s : State} {now : BitVec 16}

/-- The parts of the state that `awaiting` leaves alone. -/
theorem awaiting_eq (now : BitVec 16) (s : State) :
    (awaiting now s).config = s.config ∧ (awaiting now s).baseMode = s.baseMode ∧
      (awaiting now s).ranges = s.ranges ∧
      (awaiting now s).ledTwinkleState = s.ledTwinkleState ∧
      (awaiting now s).animation.delta = s.delta := by
  unfold awaiting restarted
  dsimp only
  split <;> exact ⟨rfl, rfl, rfl, rfl, rfl⟩

/-- An animation that is past its start did not restart. -/
theorem restart_of_awaiting (now : BitVec 16) (s : State)
    (hpos : (awaiting now s).animation.pos ≠ 0) :
    s.animation.restart = false ∧ s.animation.pos ≠ 0 := by
  cases hrestart : s.animation.restart with
  | false =>
      rw [awaiting, restarted, hrestart, if_neg Bool.false_ne_true] at hpos
      exact ⟨rfl, hpos⟩
  | true =>
      rw [awaiting, restarted, hrestart, if_pos rfl] at hpos
      exact (hpos rfl).elim

theorem Divides.of_awaiting {rand : Nat → Nat → Nat} {next : State} (h : Divides o rand s)
    (hconfig : next.config = s.config) (hbase : next.baseMode = s.baseMode)
    (hranges : next.ranges = s.ranges) (htwinkle : next.ledTwinkleState = s.ledTwinkleState)
    (hstarted : next.animation.pos ≠ 0 → s.animation.restart = false ∧ s.animation.pos ≠ 0) :
    Divides o rand next := by
  have hdelta : next.delta = s.delta := by rw [State.delta, hconfig, hbase, State.delta]
  constructor
  · rw [hbase, hdelta, hranges]
    exact h.snake
  · rw [hbase, knightLedNum, hranges]
    exact h.knight
  · intro heffect hrandom _ hpos
    rw [hbase] at heffect
    rw [hdelta] at hrandom
    unfold Chosen twinkleTrigger
    rw [hconfig, hranges, htwinkle]
    exact h.twinkle heffect hrandom (hstarted hpos).1 (hstarted hpos).2

theorem Inv.rgblightTimerTask (h : Inv o s) {rand : Nat → Nat → Nat}
    (hdivides : s.timerEnabled = true → timerExpired now (RgbLight.awaiting now s) = true →
      Divides o rand s) : Safe o (rgblightTimerTask o now rand s) := by
  unfold RgbLight.rgblightTimerTask
  cases htimer : s.timerEnabled with
  | false => exact succeeds_ok h
  | true =>
      rw [if_pos rfl]
      apply (succeeds_intervalTime (h.timed htimer)).bind
      intro interval _
      obtain ⟨hconfig, hbase, hranges, htwinkle, hdelta⟩ := awaiting_eq now s
      have hawaiting : Inv o (RgbLight.awaiting now s) := h.awaiting
      have hrestart := awaiting_restart now s
      have hstarted := restart_of_awaiting now s
      have hdivides := hdivides htimer
      generalize RgbLight.awaiting now s = waiting at *
      dsimp only
      cases hexpired : timerExpired now waiting with
      | false => exact succeeds_ok hawaiting
      | true =>
          have hdue : Divides o rand waiting :=
            (hdivides hexpired).of_awaiting hconfig hbase hranges htwinkle hstarted
          rw [if_pos rfl, ← hbase]
          have hkept : waiting.animation.delta = waiting.delta := by
            rw [hdelta, State.delta, State.delta, hconfig, hbase]
          have hset : ∀ lastTimer, Inv o
              { waiting with animation := { waiting.animation with lastTimer } } :=
            fun _ => hawaiting.frame rfl rfl rfl rfl rfl rfl rfl rfl rfl
          exact (hset (waiting.animation.lastTimer + interval)).runEffect hrestart hkept
            ⟨hdue.snake, hdue.knight, hdue.twinkle⟩

/-! ## The other calls -/

theorem Inv.startable (h : Inv o s)
    (htimed : s.config.enable = false → s.timerEnabled = true ∨ TimerReady o s) :
    s.timerEnabled = true ∨ TimerReady o s := by
  cases hon : s.config.enable with
  | false => exact htimed hon
  | true => exact .inr (h.timerReady hon)

theorem Inv.of_ranges (h : Inv o s) {ranges : Ranges} (hready : Ready o ranges) :
    Inv o { s with ranges } where
  ready := hready
  increment := h.increment
  alive := ⟨h.alive.length_eq, h.alive.life⟩
  based := h.based
  timed := h.timed
  christmas := h.christmas

theorem Inv.rgblightSetEffectRange (h : Inv o s) {startPos numLeds : Nat}
    (hclip : startPos < o.ledCount → startPos + numLeds ≤ o.ledCount →
      Unclipped o s.ranges.clippingStartPos startPos (startPos + numLeds)) :
    Inv o (rgblightSetEffectRange o startPos numLeds s) := by
  unfold RgbLight.rgblightSetEffectRange
  split
  · exact h
  · next hstart =>
      split
      · exact h
      · next hstop =>
          rw [Nat.not_le] at hstart
          rw [Nat.not_lt] at hstop
          exact h.of_ranges ⟨rfl, hstop, hclip hstart hstop⟩

theorem Inv.rgblightSetClippingRange (h : Inv o s) {startPos : BitVec 8}
    (hclip : Unclipped o startPos s.ranges.effectStartPos s.ranges.effectEndPos)
    (numLeds : BitVec 8) : Inv o (rgblightSetClippingRange startPos numLeds s) :=
  h.of_ranges ⟨h.ready.end_eq, h.ready.end_le, hclip⟩

theorem Inv.rgblightSetSpeedEepromHelper (h : Inv o s) (speed : BitVec 8) (write : Bool) :
    Inv o (rgblightSetSpeedEepromHelper speed write s) := by
  unfold RgbLight.rgblightSetSpeedEepromHelper eeconfigUpdateRgblight
  split <;> exact h.frame rfl rfl rfl rfl rfl rfl rfl rfl rfl

theorem Inv.rgblightReloadFromEeprom (h : Inv o s)
    (htimed : s.eeprom.enable = false → s.timerEnabled = true →
      Timed o.build s.baseMode (checkConfig o s.eeprom).mode) :
    Safe o (rgblightReloadFromEeprom o now s) :=
  h.rgblightResume (checkConfig o s.eeprom) s.timerEnabled htimed

theorem Inv.rgblightTimerToggle (h : Inv o s)
    (htimed : s.config.enable = false → s.timerEnabled = true ∨ TimerReady o s) :
    Inv o (rgblightTimerToggle o now s) := by
  unfold RgbLight.rgblightTimerToggle
  split
  · exact h.rgblightTimerDisable
  · exact h.rgblightTimerEnable (h.startable htimed)

theorem Inv.toggled (h : Inv o s) (write : Bool) :
    Safe o (if s.config.enable then RgbLight.rgblightDisable o write s
      else RgbLight.rgblightEnable o now write s) := by
  split
  · exact (h.rgblightDisable write).imp fun _ hnext => hnext.1
  · exact (h.toStable.rgblightEnable write).imp fun _ hnext => hnext.1

/-- What one call preserves. -/
theorem Inv.step (h : Inv o s) (input : BitVec 16 × Call) (havoids : Avoids o s input) :
    Safe o (step o s input) := by
  obtain ⟨now, call⟩ := input
  cases call with
  | init => exact h.rgblightInit
  | enable write => exact (h.toStable.rgblightEnable write).imp fun _ hnext => hnext.1
  | disable write => exact (h.rgblightDisable write).imp fun _ hnext => hnext.1
  | toggle write => exact h.toggled write
  | mode mode write => exact h.rgblightModeEepromHelper mode write
  | increase => exact h.rgblightModeEepromHelper _ true
  | decrease => exact h.rgblightModeEepromHelper _ true
  | step write => exact h.rgblightModeEepromHelper _ write
  | stepReverse write => exact h.rgblightModeEepromHelper _ write
  | sethsv hsv write =>
      exact (h.rgblightSethsvEepromHelper hsv write).imp fun _ hnext => hnext.1
  | stepColor channel up write =>
      exact (h.rgblightSethsvEepromHelper _ write).imp fun _ hnext => hnext.1
  | setSpeed speed write => exact succeeds_ok (h.rgblightSetSpeedEepromHelper speed write)
  | stepSpeed up write => exact succeeds_ok (h.rgblightSetSpeedEepromHelper _ write)
  | reloadFromEeprom => exact h.rgblightReloadFromEeprom havoids
  | setrgb r g b => exact h.painted (h.ready.rgblightSetrgb _)
  | setrgbAt r g b index => exact h.painted (h.ready.rgblightSetrgbAt _ havoids)
  | sethsvAt hsv index => exact h.painted (h.ready.rgblightSetrgbAt _ havoids)
  | setrgbRange r g b start stop => exact h.painted (h.ready.rgblightSetrgbRange _ havoids)
  | sethsvRange hsv start stop => exact h.painted (h.ready.rgblightSetrgbRange _ havoids)
  | setEffectRange startPos numLeds => exact succeeds_ok (h.rgblightSetEffectRange havoids)
  | setClippingRange startPos numLeds =>
      exact succeeds_ok (h.rgblightSetClippingRange havoids numLeds)
  | set => exact h.painted h.ready.rgblightSet
  | timerEnable => exact succeeds_ok (h.rgblightTimerEnable (h.startable havoids))
  | timerDisable => exact succeeds_ok h.rgblightTimerDisable
  | timerToggle => exact succeeds_ok (h.rgblightTimerToggle havoids)
  | suspend => exact h.rgblightSuspend
  | wakeup => exact h.rgblightWakeup havoids
  | showSolidColor r g b => exact h.rgblightShowSolidColor (.rgb r g b)
  | updateQword raw => exact h.rgblightUpdateQword raw
  | updateSync changed tick config timerEnabled write =>
      exact h.rgblightUpdateSync havoids tick write
  | task rand => exact h.rgblightTimerTask havoids

theorem Inv.inBounds (h : Inv o s) (input : BitVec 16 × Call) (havoids : Avoids o s input) :
    InBounds o s input := by
  obtain ⟨next, hstep, _⟩ := h.step input havoids
  exact ⟨next, hstep⟩

theorem Inv.advance (h : Inv o s) (input : BitVec 16 × Call) (havoids : Avoids o s input) :
    Inv o (advance o s input) := by
  obtain ⟨next, hstep, hnext⟩ := h.step input havoids
  rw [RgbLight.advance, hstep]
  exact hnext

/-! ## Runs -/

/-- Four LEDs, with the snake as the only effect that moves. -/
def snakeOptions : Options where
  build := ⟨fun effect => effect = .snake, 8, 17, 17, 8, 100⟩
  ledCount := 4
  one_le_ledCount := Nat.le_add_left 1 3
  ledCount_le := Nat.le_add_right 4 251
  ledMap := id
  ledMap_lt := fun _ hi => hi
  limitVal := 255
  defaults := ⟨true, 1, ⟨0, 255, 255⟩, 0⟩
  split := false
  tableScale := 1
  tableScale_eq := .inl rfl
  intervals := fun _ i => [100, 50, 20].getD i 0
  gradientRanges := fun i => [255, 170, 127, 85, 64].getD i 0
  swirlRange := 255
  snakeLength := 4
  snakeIncrement := 1
  knightLength := 3
  knightIncrement := 1
  knightOffset := 0
  knightLedNum := none
  christmasStep := 2
  one_le_christmasStep := Nat.le_succ 1
  christmasInterval := 40
  twinkleLife := 200
  twinkleProbability := 2

/-- The second mode of the snake runs the other way. -/
def snakeBackwards : Config := ⟨true, 3, ⟨0, 255, 255⟩, 0⟩

end Qmk.RgbLight
