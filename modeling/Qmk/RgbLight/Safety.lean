import Qmk.RgbLight.Colors
import Qmk.RgbLight.Playing
import Qmk.RgbLight.Task

/-!
# What keeps the light safe

The invariant, and what the functions of `rgblight.c` need to keep it.
-/

namespace Qmk.RgbLight

open Qmk.Lib Qmk.RgbSplit

/-! ## The invariant -/

/-- What holds of the light whether its base mode is known or not. -/
structure Stable (o : Options) (s : State) : Prop where
  ready : Ready o s.ranges
  increment : s.christmasIncrement = 1 ∨ s.christmasIncrement = -1
  alive : Alive o s

structure Inv (o : Options) (s : State) : Prop extends Stable o s where
  /-- A light that is on has the base mode of its mode. -/
  based : s.config.enable = true →
    (modeBaseTable o.build)[s.config.mode]? = some s.baseMode
  timed : s.timerEnabled = true → Timed o.build s.baseMode s.config.mode
  christmas : s.animation.restart = false → effectAt o.build s.baseMode = some .christmas →
    s.animation.pos.toNat ≤ 32

variable {o : Options} {s next : State} {now : BitVec 16}

theorem inv_boot (eeprom : Config) : Inv o (.boot o eeprom) where
  ready := ⟨(Nat.zero_add _).symm, Nat.le_refl _, fun i _ _ => Nat.zero_le _⟩
  increment := .inl rfl
  alive := by
    constructor
    · exact List.length_replicate
    · intro t ht hlife
      rw [List.eq_of_mem_replicate ht] at hlife
      exact (hlife rfl).elim
  based := fun hon => (Bool.false_ne_true hon).elim
  timed := fun htimer => (Bool.false_ne_true htimer).elim
  christmas := fun _ _ => Nat.zero_le 32

/-- Where the timer starts, the interval is one of its table. -/
def TimerReady (o : Options) (s : State) : Prop :=
  isStaticEffect o.build s.config.mode = false → Timed o.build s.baseMode s.config.mode

theorem Inv.timerReady (h : Inv o s) (hon : s.config.enable = true) : TimerReady o s :=
  fun _ => timed_of_base (h.based hon)

/-- The invariant depends on a part of the state only. -/
theorem Inv.frame (h : Inv o s) (henable : next.config.enable = s.config.enable)
    (hmode : next.config.mode = s.config.mode) (hbase : next.baseMode = s.baseMode)
    (htimer : next.timerEnabled = s.timerEnabled) (hranges : next.ranges = s.ranges)
    (hrestart : next.animation.restart = s.animation.restart)
    (hpos : next.animation.pos = s.animation.pos)
    (hincrement : next.christmasIncrement = s.christmasIncrement)
    (htwinkle : next.ledTwinkleState = s.ledTwinkleState) : Inv o next where
  ready := hranges ▸ h.ready
  increment := hincrement ▸ h.increment
  alive := ⟨htwinkle ▸ h.alive.length_eq, htwinkle ▸ h.alive.life⟩
  based := by
    rw [henable, hmode, hbase]
    exact h.based
  timed := by
    rw [htimer, hmode, hbase]
    exact h.timed
  christmas := by
    rw [hrestart, hpos, hbase]
    exact h.christmas

theorem Inv.paints (h : Inv o s) (hpaints : Paints s next) : Inv o next :=
  h.frame (by rw [hpaints.config]) (by rw [hpaints.config]) hpaints.baseMode
    hpaints.timerEnabled hpaints.ranges (by rw [hpaints.animation]) (by rw [hpaints.animation])
    hpaints.increment hpaints.twinkle

/-- A step that succeeds and keeps the invariant. -/
abbrev Safe (o : Options) (m : Except Fault State) : Prop := Succeeds m (Inv o)

theorem Inv.painted (h : Inv o s) {m : Except Fault State} (hm : Succeeds m (Paints s)) :
    Safe o m := hm.imp fun _ hpaints => h.paints hpaints

/-! ## Colors and modes -/

theorem Inv.rgblightSethsvEepromHelper (h : Inv o s) (hsv : Hsv) (write : Bool) :
    Succeeds (rgblightSethsvEepromHelper o hsv write s) fun next =>
      Inv o next ∧ next.config.enable = s.config.enable ∧ next.config.mode = s.config.mode ∧
        next.baseMode = s.baseMode := by
  apply (h.ready.rgblightSethsvEepromHelper (fun hon => ⟨_, h.based hon⟩) hsv write).imp
  intro next hnext
  have hbase : next.baseMode = s.baseMode := by
    cases hon : s.config.enable with
    | false => exact hnext.off hon
    | true => exact Option.some.inj ((hnext.based hon).symm.trans (h.based hon))
  exact ⟨h.frame hnext.enable hnext.mode hbase hnext.timerEnabled hnext.ranges
    (by rw [hnext.animation]) (by rw [hnext.animation]) hnext.increment hnext.twinkle,
    hnext.enable, hnext.mode, hbase⟩

/-- The light with another mode. -/
structure Selected (o : Options) (mode : Nat) (s next : State) : Prop where
  enable : next.config.enable = s.config.enable
  mode_eq : next.config.mode = o.build.clampMode mode
  ranges : next.ranges = s.ranges
  restart : next.animation.restart = true
  increment : next.christmasIncrement = s.christmasIncrement
  twinkle : next.ledTwinkleState = s.ledTwinkleState

theorem selectMode_selected (mode : Nat) (write : Bool) (s : State) :
    Selected o mode s (selectMode o now mode write s) := by
  unfold selectMode eeconfigUpdateRgblight
  dsimp only
  split <;> split <;> exact ⟨rfl, rfl, rfl, rfl, rfl, rfl⟩

/-- A mode that is set restarts the animation, so its position does not matter. -/
theorem Stable.rgblightModeEepromHelper (h : Stable o s) (hon : s.config.enable = true)
    (mode : Nat) (write : Bool) :
    Succeeds (rgblightModeEepromHelper o now mode write s) fun next =>
      Inv o next ∧ next.config.enable = true := by
  have hselected : Selected o mode s (selectMode o now mode write s) :=
    selectMode_selected mode write s
  unfold RgbLight.rgblightModeEepromHelper
  rw [if_pos hon]
  dsimp only
  generalize selectMode o now mode write s = selected at hselected ⊢
  have hbase : selected.config.enable = true →
      ∃ base, (modeBaseTable o.build)[selected.config.mode]? = some base := by
    intro _
    rw [hselected.mode_eq]
    exact exists_base (clampMode_valid mode).2
  have hready : Ready o selected.ranges := hselected.ranges ▸ h.ready
  apply (hready.rgblightSethsvEepromHelper hbase selected.config.hsv false).imp
  intro next hnext
  have hnextOn : next.config.enable = true :=
    hnext.enable.trans (hselected.enable.trans hon)
  have hbased : (modeBaseTable o.build)[next.config.mode]? = some next.baseMode := by
    rw [hnext.mode]
    exact hnext.based (hselected.enable.trans hon)
  refine ⟨⟨⟨?_, ?_, ?_⟩, fun _ => hbased, fun _ => timed_of_base hbased, ?_⟩, hnextOn⟩
  · exact hnext.ranges ▸ hready
  · rw [hnext.increment, hselected.increment]
    exact h.increment
  · constructor
    · rw [hnext.twinkle, hselected.twinkle]
      exact h.alive.length_eq
    · rw [hnext.twinkle, hselected.twinkle]
      exact h.alive.life
  · intro hrestart
    rw [hnext.animation, hselected.restart] at hrestart
    cases hrestart

theorem Inv.rgblightModeEepromHelper (h : Inv o s) (mode : Nat) (write : Bool) :
    Safe o (rgblightModeEepromHelper o now mode write s) := by
  cases hon : s.config.enable with
  | false =>
      unfold RgbLight.rgblightModeEepromHelper
      rw [if_neg (by simp [hon])]
      exact succeeds_ok h
  | true => exact (h.toStable.rgblightModeEepromHelper hon mode write).imp fun _ hnext => hnext.1

theorem Stable.rgblightEnable (h : Stable o s) (write : Bool) :
    Succeeds (rgblightEnable o now write s) fun next => Inv o next ∧ next.config.enable = true := by
  unfold RgbLight.rgblightEnable
  apply Stable.rgblightModeEepromHelper _ rfl
  exact ⟨h.ready, h.increment, ⟨h.alive.length_eq, h.alive.life⟩⟩

/-- A light that is off may keep its mode and its timer. -/
theorem Inv.of_off (h : Inv o s) (hoff : next.config.enable = false)
    (htimed : next.timerEnabled = true → Timed o.build s.baseMode next.config.mode)
    (hbase : next.baseMode = s.baseMode) (hranges : next.ranges = s.ranges)
    (hanimation : next.animation = s.animation)
    (hincrement : next.christmasIncrement = s.christmasIncrement)
    (htwinkle : next.ledTwinkleState = s.ledTwinkleState) : Inv o next where
  ready := hranges ▸ h.ready
  increment := hincrement ▸ h.increment
  alive := ⟨htwinkle ▸ h.alive.length_eq, htwinkle ▸ h.alive.life⟩
  based := fun hon => (Bool.false_ne_true (hoff.symm.trans hon)).elim
  timed := by
    rw [hbase]
    exact htimed
  christmas := by
    rw [hanimation, hbase]
    exact h.christmas

theorem Inv.rgblightDisable (h : Inv o s) (write : Bool) :
    Succeeds (rgblightDisable o write s) fun next =>
      Inv o next ∧ next.config.enable = false ∧ next.config.mode = s.config.mode ∧
        next.baseMode = s.baseMode := by
  unfold RgbLight.rgblightDisable eeconfigUpdateRgblight
  dsimp only
  generalize hdisabled : RgbLight.rgblightTimerDisable (if write then _ else _) = disabled
  have hoff : disabled.config = { s.config with enable := false } ∧ disabled.timerEnabled = false ∧
      disabled.baseMode = s.baseMode ∧ disabled.ranges = s.ranges ∧
      disabled.animation = s.animation ∧ disabled.christmasIncrement = s.christmasIncrement ∧
      disabled.ledTwinkleState = s.ledTwinkleState := by
    rw [← hdisabled]
    cases write <;> exact ⟨rfl, rfl, rfl, rfl, rfl, rfl, rfl⟩
  obtain ⟨hconfig, htimer, hbase, hranges, hanimation, hincrement, htwinkle⟩ := hoff
  have hinv : Inv o disabled := by
    apply h.of_off (by rw [hconfig]) _ hbase hranges hanimation hincrement htwinkle
    rw [htimer]
    exact fun htrue => (Bool.false_ne_true htrue).elim
  apply hinv.ready.rgblightSet.imp
  intro next hnext
  exact ⟨hinv.paints hnext, by rw [hnext.config, hconfig], by rw [hnext.config, hconfig],
    hnext.baseMode.trans hbase⟩

/-- The light is taken up in the mode of a configuration that was read. -/
theorem Inv.rgblightResume (h : Inv o s) (config : Config) (timerEnabled : Bool)
    (htimed : config.enable = false → timerEnabled = true →
      Timed o.build s.baseMode config.mode) :
    Safe o (rgblightResume o now { s with config, timerEnabled }) := by
  unfold RgbLight.rgblightResume
  cases hon : config.enable with
  | true =>
      apply (Stable.rgblightModeEepromHelper _ hon _ _).imp fun _ hnext => hnext.1
      exact ⟨h.ready, h.increment, ⟨h.alive.length_eq, h.alive.life⟩⟩
  | false => exact succeeds_ok (h.of_off hon (htimed hon) rfl rfl rfl rfl rfl)

theorem Inv.rgblightInit (h : Inv o s) : Safe o (rgblightInit o now s) := by
  unfold RgbLight.rgblightInit
  split
  · exact succeeds_ok h
  · have hread : Inv o { s with eeprom := if s.eeprom.mode = 0 then o.defaults else s.eeprom } :=
      h.frame rfl rfl rfl rfl rfl rfl rfl rfl rfl
    apply (hread.rgblightResume _ false fun _ hfalse => (Bool.false_ne_true hfalse).elim).bind
    exact fun next hnext => succeeds_ok (hnext.frame rfl rfl rfl rfl rfl rfl rfl rfl rfl)

theorem Inv.rgblightTimerEnable (h : Inv o s) (htimed : s.timerEnabled = true ∨ TimerReady o s) :
    Inv o (rgblightTimerEnable o now s) where
  ready := h.ready
  increment := h.increment
  alive := ⟨h.alive.length_eq, h.alive.life⟩
  based := h.based
  timed := by
    intro hon
    cases htimer : s.timerEnabled with
    | true => exact h.timed htimer
    | false =>
        have hready : TimerReady o s := by
          rw [htimer] at htimed
          exact htimed.resolve_left Bool.false_ne_true
        apply hready
        simpa [RgbLight.rgblightTimerEnable, htimer] using hon
  christmas := h.christmas

theorem Inv.rgblightTimerDisable (h : Inv o s) : Inv o (rgblightTimerDisable s) where
  ready := h.ready
  increment := h.increment
  alive := ⟨h.alive.length_eq, h.alive.life⟩
  based := h.based
  timed := fun hfalse => (Bool.false_ne_true hfalse).elim
  christmas := h.christmas

theorem Inv.rgblightSuspend (h : Inv o s) : Safe o (rgblightSuspend o s) := by
  unfold RgbLight.rgblightSuspend
  dsimp only
  split
  · exact succeeds_ok h.rgblightTimerDisable
  · apply (Inv.rgblightDisable _ false).imp fun _ hnext => hnext.1
    exact h.rgblightTimerDisable.frame rfl rfl rfl rfl rfl rfl rfl rfl rfl

theorem Inv.restoreEnabled (h : Inv o s)
    (htimed : s.preSuspendEnabled = false → s.config.enable = false → TimerReady o s) :
    Succeeds (restoreEnabled o now s) fun next => Inv o next ∧ TimerReady o next := by
  unfold RgbLight.restoreEnabled
  cases hon : s.preSuspendEnabled with
  | true =>
      apply (h.toStable.rgblightEnable false).imp
      exact fun next hnext => ⟨hnext.1, hnext.1.timerReady hnext.2⟩
  | false =>
      refine succeeds_ok ⟨h, ?_⟩
      cases henable : s.config.enable with
      | true => exact h.timerReady henable
      | false => exact htimed hon henable

theorem Inv.rgblightWakeup (h : Inv o s)
    (htimed : s.preSuspendEnabled = false → s.config.enable = false → TimerReady o s) :
    Safe o (rgblightWakeup o now s) := by
  have hawake : Inv o { s with isSuspended := false } :=
    h.frame rfl rfl rfl rfl rfl rfl rfl rfl rfl
  apply (hawake.restoreEnabled htimed).bind
  exact fun next hnext => succeeds_ok (hnext.1.rgblightTimerEnable (.inr hnext.2))

theorem Inv.rgblightShowSolidColor (h : Inv o s) (color : Color) :
    Safe o (rgblightShowSolidColor o now color s) := by
  unfold RgbLight.rgblightShowSolidColor
  apply (h.toStable.rgblightEnable true).bind
  intro enabled henabled
  apply (henabled.1.rgblightModeEepromHelper 1 true).bind
  exact fun next hnext => hnext.painted (hnext.ready.rgblightSetrgb color)

theorem Inv.rgblightUpdateQword (h : Inv o s) (raw : BitVec 64) :
    Safe o (rgblightUpdateQword o now raw s) := by
  unfold RgbLight.rgblightUpdateQword
  dsimp only
  cases hon : (Config.ofRaw raw).enable with
  | true =>
      apply (Stable.rgblightModeEepromHelper _ hon _ _).imp fun _ hnext => hnext.1
      exact ⟨h.ready, h.increment, ⟨h.alive.length_eq, h.alive.life⟩⟩
  | false =>
      have hinv : Inv o (RgbLight.rgblightTimerDisable { s with config := Config.ofRaw raw }) :=
        h.of_off hon (fun hfalse => (Bool.false_ne_true hfalse).elim) rfl rfl rfl rfl rfl
      exact hinv.painted hinv.ready.rgblightSet

/-! ## The other half -/

theorem Inv.updateMode (h : Inv o s) (changed : Bool) (config : Config) (write : Bool) :
    Succeeds (updateMode o now changed config write s) fun next =>
      Inv o next ∧ next.config.enable = (if changed then config.enable else s.config.enable) ∧
        (next.config.enable = false →
          next.config.mode = s.config.mode ∧ next.baseMode = s.baseMode) := by
  unfold RgbLight.updateMode
  cases changed with
  | false => exact succeeds_ok ⟨h, rfl, fun _ => ⟨rfl, rfl⟩⟩
  | true =>
      rw [if_pos rfl, if_pos rfl]
      cases hon : config.enable with
      | true =>
          rw [if_pos rfl]
          have hset : Stable o { s with config := { s.config with enable := true } } :=
            ⟨h.ready, h.increment, ⟨h.alive.length_eq, h.alive.life⟩⟩
          apply (hset.rgblightModeEepromHelper rfl _ _).imp
          intro next hnext
          refine ⟨hnext.1, hnext.2, fun hoff => ?_⟩
          exact (Bool.false_ne_true (hoff.symm.trans hnext.2)).elim
      | false =>
          apply (h.rgblightDisable false).imp
          exact fun next hnext => ⟨hnext.1, hnext.2.1, fun _ => hnext.2.2⟩

theorem Inv.updateHsvs (h : Inv o s) (changed : Bool) (hsv : Hsv) (write : Bool) :
    Succeeds (updateHsvs o changed hsv write s) fun next =>
      Inv o next ∧ next.config.enable = s.config.enable ∧ next.config.mode = s.config.mode ∧
        next.baseMode = s.baseMode := by
  unfold RgbLight.updateHsvs
  cases changed with
  | false => exact succeeds_ok ⟨h, rfl, rfl, rfl⟩
  | true => exact h.rgblightSethsvEepromHelper hsv write

theorem Inv.updateTick (h : Inv o s) (tick : Bool) : Inv o (updateTick o tick s) := by
  unfold RgbLight.updateTick
  split
  · exact ⟨⟨h.ready, h.increment, ⟨h.alive.length_eq, h.alive.life⟩⟩, h.based, h.timed,
      fun hfalse => (Bool.false_ne_true hfalse.symm).elim⟩
  · exact h

theorem Inv.rgblightUpdateSync (h : Inv o s) {changed : ChangeFlags} {config : Config}
    {timerEnabled : Bool}
    (htimed : changed.timer = true → timerEnabled = true →
      (if changed.mode then config.enable else s.config.enable) = false → TimerReady o s)
    (tick write : Bool) :
    Safe o (rgblightUpdateSync o now changed tick config timerEnabled write s) := by
  apply (h.updateMode changed.mode config write).bind
  rintro moded ⟨hmoded, henable, hoff⟩
  apply (hmoded.updateHsvs changed.hsvs config.hsv write).bind
  rintro next ⟨hnext, hnextEnable, hnextMode, hnextBase⟩
  apply succeeds_ok
  apply Inv.updateTick
  unfold updateTimer
  cases htimer : changed.timer with
  | false => exact hnext
  | true =>
      cases hstart : timerEnabled with
      | false => exact hnext.rgblightTimerDisable
      | true =>
          apply hnext.rgblightTimerEnable
          right
          cases hon : next.config.enable with
          | true => exact hnext.timerReady hon
          | false =>
              have hmodedOff : moded.config.enable = false := hnextEnable.symm.trans hon
              have hready := htimed htimer hstart (henable.symm.trans hmodedOff)
              unfold TimerReady
              rw [hnextMode, hnextBase, (hoff hmodedOff).1, (hoff hmodedOff).2]
              exact hready

/-! ## The task -/

theorem succeeds_intervalTime {baseMode mode : Nat} (h : Timed o.build baseMode mode) :
    Succeeds (intervalTime o (BitVec.ofNat 8 mode - BitVec.ofNat 8 baseMode).toNat
      (effectAt o.build baseMode)) fun _ => True := by
  cases heffect : effectAt o.build baseMode with
  | none => exact succeeds_ok trivial
  | some effect =>
      have hindex := h effect heffect
      unfold intervalTime
      cases effect <;> first
        | exact succeeds_ok trivial
        | (dsimp only; rw [if_pos hindex]; exact succeeds_ok trivial)

/-- The effect that is due finds nothing to divide by zero. -/
structure Divides (o : Options) (rand : Nat → Nat → Nat) (s : State) : Prop where
  /-- The snake that runs the other way takes its position modulo the length of the range. -/
  snake : effectAt o.build s.baseMode = some .snake → s.delta % 2 ≠ 0 →
    s.ranges.effectNumLeds ≠ 0
  /-- So does the knight with each of its places. -/
  knight : effectAt o.build s.baseMode = some .knight → knightLedNum o s ≠ 0 →
    s.ranges.effectNumLeds ≠ 0
  /-- A random saturation is taken modulo half of the saturation. -/
  twinkle : effectAt o.build s.baseMode = some .twinkle → s.delta / 3 ≠ 0 →
    s.animation.restart = false → s.animation.pos ≠ 0 →
      ∀ i < s.ranges.effectNumLeds, ∀ t, s.ledTwinkleState[i]? = some t →
        Chosen o (rand i) s t → 2 ≤ s.config.hsv.sat.toNat

theorem Inv.keeps (h : Inv o s) (hkeeps : Keeps s next)
    (hincrement : next.christmasIncrement = 1 ∨ next.christmasIncrement = -1)
    (halive : Alive o next)
    (hchristmas : effectAt o.build s.baseMode = some .christmas →
      next.animation.pos.toNat ≤ 32) : Inv o next where
  ready := hkeeps.ready h.ready
  increment := hincrement
  alive := halive
  based := by
    rw [hkeeps.config, hkeeps.baseMode]
    exact h.based
  timed := by
    rw [hkeeps.timerEnabled, hkeeps.config, hkeeps.baseMode]
    exact h.timed
  christmas := by
    rw [hkeeps.baseMode]
    exact fun _ => hchristmas

theorem Inv.played (h : Inv o s) {effect : Option Effect}
    (heffect : effectAt o.build s.baseMode = effect) (hother : effect ≠ some .christmas)
    {m : Except Fault State} (hm : Succeeds m (Plays s)) : Safe o m := by
  apply hm.imp
  intro next hnext
  apply h.keeps hnext.toKeeps (hnext.increment ▸ h.increment) (hnext.alive h.alive)
  exact fun hchristmas => (hother (heffect.symm.trans hchristmas)).elim

theorem Inv.runEffect (h : Inv o s) {rand : Nat → Nat → Nat}
    (hrestart : s.animation.restart = false) (hdelta : s.animation.delta = s.delta)
    (hdivides : Divides o rand s) :
    Safe o (runEffect o rand (effectAt o.build s.baseMode) s) := by
  cases heffect : effectAt o.build s.baseMode with
  | none => exact succeeds_ok h
  | some effect =>
      cases effect with
      | staticLight => exact succeeds_ok h
      | staticGradient => exact succeeds_ok h
      | breathing => exact h.played heffect (by decide) h.ready.breathing
      | rainbowMood => exact h.played heffect (by decide) h.ready.rainbowMood
      | rainbowSwirl => exact h.played heffect (by decide) h.ready.rainbowSwirl
      | rgbTest => exact h.played heffect (by decide) h.ready.rgbtest
      | alternating => exact h.played heffect (by decide) h.ready.alternating
      | snake =>
          apply h.played heffect (by decide) (h.ready.snake _)
          rw [hdelta]
          exact hdivides.snake heffect
      | knight => exact h.played heffect (by decide) (h.ready.knight (hdivides.knight heffect))
      | christmas =>
          have hpos := h.christmas hrestart heffect
          apply (h.ready.christmas hpos h.increment).imp
          rintro next ⟨hkeeps, hincrement, hnextPos, htwinkle⟩
          apply h.keeps hkeeps hincrement _ fun _ => hnextPos
          exact ⟨htwinkle ▸ h.alive.length_eq, htwinkle ▸ h.alive.life⟩
      | twinkle =>
          have hsat := hdivides.twinkle heffect
          rw [← hdelta] at hsat
          apply (h.ready.twinkle h.alive fun hrandom => hsat hrandom hrestart).imp
          intro next hnext
          apply h.keeps hnext.toKeeps (hnext.increment ▸ h.increment) hnext.alive
          intro hchristmas
          cases heffect.symm.trans hchristmas

theorem Inv.awaiting (h : Inv o s) : Inv o (awaiting now s) := by
  have hinv : Inv o { s with animation := { s.animation with delta := s.delta } } :=
    h.frame rfl rfl rfl rfl rfl rfl rfl rfl rfl
  unfold RgbLight.awaiting restarted
  dsimp only
  split
  · exact ⟨⟨h.ready, h.increment, ⟨h.alive.length_eq, h.alive.life⟩⟩, h.based, h.timed,
      fun _ _ => Nat.zero_le 32⟩
  · exact hinv

theorem awaiting_restart (now : BitVec 16) (s : State) :
    (RgbLight.awaiting now s).animation.restart = false := by
  unfold RgbLight.awaiting restarted
  dsimp only
  split
  · rfl
  · next hrestart => simpa using hrestart

end Qmk.RgbLight
