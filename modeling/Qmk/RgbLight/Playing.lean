import Qmk.RgbLight.Effects
import Qmk.RgbLight.Ranges

/-!
# Running the animations

Each effect divides by values that are not zero, or that are not zero where a condition holds.
-/

namespace Qmk.RgbLight

open Qmk.Lib Qmk.RgbSplit

variable {o : Options} {s next : State}

/-! ## The breathing curve -/

theorem succeeds_breatheCalc (pos : BitVec 8) :
    Succeeds (breatheCalc o pos) fun _ => True := by
  have hpos := pos.isLt
  have hscale : o.tableScale ≠ 0 ∧ pos.toNat / o.tableScale < 256 / o.tableScale := by
    rcases o.tableScale_eq with h | h | h <;> rw [h] <;> omega
  apply (succeeds_divide hscale.1).bind
  rintro i rfl
  apply (succeeds_lookup _).imp
  · exact fun _ _ => trivial
  · rw [breatheTable, List.length_map, List.length_range]
    exact hscale.2

/-- The curve starts lower than it is in the middle. -/
theorem breatheCalc_bottom_top :
    ∃ bottom top, breatheCalc o 0 = .ok bottom ∧ breatheCalc o 127 = .ok top ∧
      top - bottom ≠ 0 := by
  unfold breatheCalc
  rcases o.tableScale_eq with h | h | h <;> rw [h]
  · exact ⟨0x22, 0xdd, rfl, rfl, by decide⟩
  · exact ⟨0x22, 0xdd, rfl, rfl, by decide⟩
  · exact ⟨0x22, 0xdc, rfl, rfl, by decide⟩

theorem succeeds_frac {n d : BitVec 8} (h : d ≠ 0) : Succeeds (frac n d) fun _ => True := by
  have hd : d.toNat ≠ 0 := fun hzero => h (BitVec.eq_of_toNat_eq hzero)
  apply (succeeds_divide hd).bind
  exact fun _ _ => succeeds_ok trivial

/-! ## The effects without conditions -/

theorem plays_setPos (pos : BitVec 8) (s : State) : Plays s (s.setPos pos) :=
  ⟨⟨rfl, rfl, rfl, rfl, rfl⟩, rfl, rfl⟩

theorem Ready.breathing (h : Ready o s.ranges) :
    Succeeds (rgblightEffectBreathing o s) (Plays s) := by
  apply (succeeds_breatheCalc s.animation.pos).bind
  intro val _
  apply (h.rgblightSethsvNoeepromOld _).bind
  exact fun next hnext => succeeds_ok (hnext.toPlays.trans (plays_setPos _ next))

theorem Ready.rainbowMood (h : Ready o s.ranges) :
    Succeeds (rgblightEffectRainbowMood o s) (Plays s) := by
  apply (h.rgblightSethsvNoeepromOld _).bind
  exact fun next hnext => succeeds_ok (hnext.toPlays.trans (plays_setPos _ next))

theorem Ready.rainbowSwirl (h : Ready o s.ranges) :
    Succeeds (rgblightEffectRainbowSwirl o s) (Plays s) := by
  apply h.loop
  · intro i _ hi next hnext
    rw [← hnext.ranges] at hi
    apply (succeeds_divide (Nat.ne_zero_of_lt hi)).bind
    exact fun part _ => (hnext.ready h).sethsv _ hi
  · exact fun next hnext => succeeds_ok (hnext.toPlays.trans (plays_setPos _ next))

theorem Ready.rgbtest (h : Ready o s.ranges) :
    Succeeds (rgblightEffectRgbtest o s) (Plays s) := by
  apply (h.rgblightSetrgb _).bind
  exact fun next hnext => succeeds_ok (hnext.toPlays.trans (plays_setPos _ next))

theorem Ready.alternating (h : Ready o s.ranges) :
    Succeeds (rgblightEffectAlternating o s) (Plays s) := by
  apply h.loop
  · intro i _ hi next hnext
    rw [← hnext.ranges] at hi
    exact (hnext.ready h).sethsv _ hi
  · exact fun next hnext => succeeds_ok (hnext.toPlays.trans (plays_setPos _ next))

/-! ## Snake and knight -/

theorem succeeds_snakeWrap (k : BitVec 8) : Succeeds (snakeWrap o k) fun _ => True := by
  unfold snakeWrap
  split
  · apply (succeeds_modulo (Nat.ne_zero_of_lt o.one_le_ledCount)).bind
    exact fun _ _ => succeeds_ok trivial
  · exact succeeds_ok trivial

theorem Ready.snakeSegment (h : Ready o s.ranges) {increment : BitVec 8} {i j : Nat}
    (hi : i < s.ranges.effectNumLeds) (hj : j < o.snakeLength) :
    Succeeds (snakeSegment o increment i j s) (Paints s) := by
  apply (succeeds_snakeWrap _).bind
  intro k _
  dsimp only
  generalize (if k.toInt < 0 then k + BitVec.ofNat 8 s.ranges.effectNumLeds else k) = place
  split
  · apply (succeeds_divide (Nat.ne_zero_of_lt hj)).bind
    exact fun val _ => h.sethsv _ hi
  · exact succeeds_ok (.refl s)

theorem plays_signalPos (pos : BitVec 8) (s : State) : Plays s (signalPos o pos s) := by
  unfold signalPos
  split
  · exact plays_setPos pos s
  · exact .refl s

theorem plays_snakePos (pos : BitVec 8) (s : State) : Plays s { s with snakePos := pos } :=
  ⟨⟨rfl, rfl, rfl, rfl, rfl⟩, rfl, rfl⟩

theorem plays_snakeRestart (forward : Bool) (s : State) : Plays s (snakeRestart o forward s) := by
  unfold snakeRestart
  split
  · exact ⟨⟨rfl, rfl, rfl, rfl, rfl⟩, rfl, rfl⟩
  · exact .refl s

theorem succeeds_snakeAdvance {forward : Bool}
    (hleds : forward = false → s.ranges.effectNumLeds ≠ 0) :
    Succeeds (snakeAdvance o forward s) (Plays s) := by
  unfold snakeAdvance
  cases forward with
  | true =>
      rw [if_pos rfl]
      split <;> exact succeeds_ok ((plays_snakePos _ s).trans (plays_signalPos _ _))
  | false =>
      apply (succeeds_modulo (hleds rfl)).bind
      exact fun pos _ => succeeds_ok ((plays_snakePos _ s).trans (plays_signalPos _ _))

/-- The snake that runs the other way needs an LED. -/
theorem Ready.snake (h : Ready o s.ranges)
    (hleds : s.animation.delta % 2 ≠ 0 → s.ranges.effectNumLeds ≠ 0) :
    Succeeds (rgblightEffectSnake o s) (Plays s) := by
  have hrestart := plays_snakeRestart (o := o) (decide (s.animation.delta % 2 = 0)) s
  unfold rgblightEffectSnake
  dsimp only
  generalize snakeRestart o (decide (s.animation.delta % 2 = 0)) s = restarted at hrestart ⊢
  apply Ready.loop (hrestart.ready h)
  · intro i _ hi next hnext
    rw [← hnext.ranges] at hi
    have hready := hnext.ready (hrestart.ready h)
    apply (hready.place black hi).bind
    intro cleared hcleared
    apply (succeeds_rounds _).imp fun last hlast => hcleared.trans hlast
    intro j _ hj last hlast
    rw [← hcleared.ranges, ← hlast.ranges] at hi
    exact (hlast.ready (hcleared.ready hready)).snakeSegment hi hj
  · intro next hnext
    have hnum : next.ranges.effectNumLeds = s.ranges.effectNumLeds := by
      rw [hnext.ranges, hrestart.ranges]
    apply (succeeds_snakeAdvance _).imp fun last hlast =>
      (hrestart.trans hnext.toPlays).trans hlast
    intro hbackward
    rw [hnum]
    exact hleds (by simpa using hbackward)

theorem plays_knightRestart (s : State) : Plays s (knightRestart o s) := by
  unfold knightRestart
  split
  · exact ⟨⟨rfl, rfl, rfl, rfl, rfl⟩, rfl, rfl⟩
  · exact .refl s

theorem plays_knightAdvance (s : State) : Plays s (knightAdvance o s) := by
  unfold knightAdvance signalPos State.setPos
  dsimp only
  split
  · split
    · split <;> exact ⟨⟨rfl, rfl, rfl, rfl, rfl⟩, rfl, rfl⟩
    · exact ⟨⟨rfl, rfl, rfl, rfl, rfl⟩, rfl, rfl⟩
  · exact ⟨⟨rfl, rfl, rfl, rfl, rfl⟩, rfl, rfl⟩

theorem Ready.knightLed (h : Ready o s.ranges) (hleds : s.ranges.effectNumLeds ≠ 0) (i : Nat) :
    Succeeds (knightLed o i s) (Paints s) := by
  apply (succeeds_modulo hleds).bind
  rintro cur rfl
  have hcur : (i + o.knightOffset) % s.ranges.effectNumLeds < s.ranges.effectNumLeds :=
    Nat.mod_lt _ (Nat.pos_of_ne_zero hleds)
  dsimp only
  split
  · exact h.sethsv _ hcur
  · exact h.place _ hcur

/-- The knight needs an LED wherever it has a place. -/
theorem Ready.knight (h : Ready o s.ranges)
    (hleds : knightLedNum o s ≠ 0 → s.ranges.effectNumLeds ≠ 0) :
    Succeeds (rgblightEffectKnight o s) (Plays s) := by
  have hrestart := plays_knightRestart (o := o) s
  unfold rgblightEffectKnight
  dsimp only
  generalize knightRestart o s = restarted at hrestart ⊢
  apply (Ready.paint (hrestart.ready h) black).bind
  intro cleared hcleared
  have hplays := hrestart.trans hcleared.toPlays
  have hnum : knightLedNum o cleared = knightLedNum o s := by
    unfold knightLedNum
    rw [hplays.ranges]
  apply Ready.loop (hplays.ready h)
  · intro i _ hi next hnext
    apply (hnext.ready (hplays.ready h)).knightLed
    rw [hnext.ranges, hplays.ranges]
    apply hleds
    rw [← hnum]
    exact Nat.ne_zero_of_lt hi
  · intro next hnext
    exact succeeds_ok ((hplays.trans hnext.toPlays).trans (plays_knightAdvance next))

/-! ## Christmas and twinkle -/

/-- Up to the last position the divisor is not zero. -/
theorem succeeds_christmasHue {pos : BitVec 8} (hpos : pos.toNat ≤ 32) :
    Succeeds (christmasHue pos) fun _ => True := by
  have hdivisor : ∀ p < 33, (cubed p + cubed (32 - p)) % 4294967296 ≠ 0 := by decide
  have hrest : (32 - pos.setWidth 32).toNat = 32 - pos.toNat := by
    have hstart : (32 : BitVec 32).toNat = 32 := rfl
    rw [BitVec.toNat_sub, BitVec.toNat_setWidth, hstart]
    omega
  unfold christmasHue
  rw [hrest]
  apply (succeeds_divide (hdivisor pos.toNat (Nat.lt_succ_of_le hpos))).bind
  exact fun _ _ => succeeds_ok trivial

theorem christmas_pos {pos increment : BitVec 8} (hpos : pos.toNat ≤ 32)
    (hincrement : increment = 1 ∨ increment = -1) :
    let next := if pos = 0 then 1 else if pos = 32 then -1 else increment
    (next = 1 ∨ next = -1) ∧ (pos + next).toNat ≤ 32 := by
  have hup : (pos + 1).toNat = (pos.toNat + 1) % 256 := BitVec.toNat_add pos 1
  have hdown : (pos + -1).toNat = (pos.toNat + 255) % 256 := BitVec.toNat_add pos (-1)
  dsimp only
  split
  · next hzero =>
      have hstart : pos.toNat = 0 := by
        rw [hzero]
        rfl
      exact ⟨.inl rfl, by omega⟩
  · next hzero =>
      have hpositive : pos.toNat ≠ 0 := fun heq => hzero (BitVec.eq_of_toNat_eq heq)
      split
      · next hlast =>
          have hend : pos.toNat = 32 := by
            rw [hlast]
            rfl
          exact ⟨.inr rfl, by omega⟩
      · next hlast =>
          have hbelow : pos.toNat ≠ 32 := fun heq => hlast (BitVec.eq_of_toNat_eq heq)
          rcases hincrement with rfl | rfl
          · exact ⟨.inl rfl, by omega⟩
          · exact ⟨.inr rfl, by omega⟩

theorem Ready.christmas (h : Ready o s.ranges) (hpos : s.animation.pos.toNat ≤ 32)
    (hincrement : s.christmasIncrement = 1 ∨ s.christmasIncrement = -1) :
    Succeeds (rgblightEffectChristmas o s) fun next => Keeps s next ∧
      (next.christmasIncrement = 1 ∨ next.christmasIncrement = -1) ∧
      next.animation.pos.toNat ≤ 32 ∧ next.ledTwinkleState = s.ledTwinkleState := by
  apply (succeeds_christmasHue hpos).bind
  intro hue _
  apply h.loop
  · intro i _ hi next hnext
    rw [← hnext.ranges] at hi
    apply (succeeds_divide (Nat.ne_zero_of_lt o.one_le_christmasStep)).bind
    exact fun stripe _ => (hnext.ready h).sethsv _ hi
  · intro next hnext
    have hnextPos := christmas_pos hpos hincrement
    rw [← hnext.increment] at hnextPos
    exact succeeds_ok ⟨hnext.toKeeps.trans ⟨rfl, rfl, rfl, rfl, rfl⟩, hnextPos.1, hnextPos.2,
      hnext.twinkle⟩

/-- Each LED has a state, and one that is on has a life to go through. -/
structure Alive (o : Options) (s : State) : Prop where
  length_eq : s.ledTwinkleState.length = o.ledCount
  life : ∀ t ∈ s.ledTwinkleState, t.life ≠ 0 → t.maxLife ≠ 0 ∧ t.maxLife ≤ 255

theorem Plays.alive (h : Plays s next) (halive : Alive o s) : Alive o next := by
  constructor
  · rw [h.twinkle]
    exact halive.length_eq
  · rw [h.twinkle]
    exact halive.life

theorem succeeds_twinkleColor {randomColor : Bool} {rand : Nat → Nat} {sat : BitVec 8} {hsv : Hsv}
    (hsat : randomColor = true → 2 ≤ sat.toNat) :
    Succeeds (twinkleColor randomColor rand sat hsv) fun _ => True := by
  unfold twinkleColor
  split
  · next hrandom =>
      have hhalf : sat.toNat / 2 ≠ 0 := by
        have hsat := hsat hrandom
        omega
      apply (succeeds_modulo hhalf).bind
      exact fun _ _ => succeeds_ok trivial
  · exact succeeds_ok trivial

/-- An LED is chosen to light up. -/
def Chosen (o : Options) (rand : Nat → Nat) (s : State) (t : TwinkleState) : Prop :=
  t.life = 0 ∧ rand 0 % 255 < (twinkleTrigger o s).toNat

theorem succeeds_twinkleLed {bottom top : BitVec 8} (hcurve : top - bottom ≠ 0)
    {restart randomColor : Bool} {rand : Nat → Nat} {t : TwinkleState}
    (hlife : t.life ≠ 0 → t.maxLife ≠ 0 ∧ t.maxLife ≤ 255)
    (hsat : randomColor = true → restart = false → Chosen o rand s t →
      2 ≤ s.config.hsv.sat.toNat) :
    Succeeds (twinkleLed o bottom top restart randomColor rand s t) fun next =>
      next.life ≠ 0 → next.maxLife ≠ 0 ∧ next.maxLife ≤ 255 := by
  have hval := s.config.hsv.val.isLt
  unfold twinkleLed
  dsimp only
  generalize htinted : (if randomColor then t
    else { t with hsv := { t.hsv with hue := s.config.hsv.hue, sat := s.config.hsv.sat } }) = tinted
  have hsame : tinted.life = t.life ∧ tinted.maxLife = t.maxLife := by
    rw [← htinted]
    split <;> exact ⟨rfl, rfl⟩
  rw [← hsame.1, ← hsame.2] at hlife
  cases restart with
  | true => exact succeeds_ok fun hzero => (hzero rfl).elim
  | false =>
      rw [if_neg Bool.false_ne_true]
      split
      · next hon =>
          obtain ⟨hpositive, hbyte⟩ := hlife hon
          have hmax : BitVec.ofNat 8 tinted.maxLife ≠ 0 := by
            intro hzero
            have hnat : (BitVec.ofNat 8 tinted.maxLife).toNat = 0 := by rw [hzero]; rfl
            rw [BitVec.toNat_ofNat] at hnat
            omega
          apply (succeeds_frac hmax).bind
          intro age _
          apply (succeeds_breatheCalc age).bind
          intro bright _
          apply (succeeds_frac hcurve).bind
          exact fun unscaled _ => succeeds_ok fun _ => ⟨hpositive, hbyte⟩
      · next hoff =>
          split
          · next hchosen =>
              have hdark : t.life = 0 := hsame.1 ▸ Decidable.not_not.mp hoff
              have hmax : max 20 (min o.twinkleLife s.config.hsv.val.toNat) ≠ 0 ∧
                  max 20 (min o.twinkleLife s.config.hsv.val.toNat) ≤ 255 := by
                omega
              apply (succeeds_twinkleColor fun hrandom => hsat hrandom rfl ⟨hdark, hchosen⟩).bind
              exact fun hsv _ => succeeds_ok fun _ => hmax
          · exact succeeds_ok hlife

/-- The LEDs of the range up to `i` have been gone through. -/
structure Twinkled (o : Options) (s : State) (i : Nat) (next : State) : Prop
    extends Keeps s next where
  increment : next.christmasIncrement = s.christmasIncrement
  alive : Alive o next
  rest : ∀ j, i ≤ j → next.ledTwinkleState[j]? = s.ledTwinkleState[j]?

theorem Alive.set (h : Alive o s) {t : TwinkleState}
    (ht : t.life ≠ 0 → t.maxLife ≠ 0 ∧ t.maxLife ≤ 255) (i : Nat) :
    Alive o { s with ledTwinkleState := s.ledTwinkleState.set i t } := by
  constructor
  · rw [List.length_set]
    exact h.length_eq
  · intro other hother
    rcases List.mem_or_eq_of_mem_set hother with hold | rfl
    · exact h.life other hold
    · exact ht

theorem Twinkled.round (h : Ready o s.ranges) {i : Nat} (hnext : Twinkled o s i next)
    (hi : i < s.ranges.effectNumLeds) {bottom top : BitVec 8} (hcurve : top - bottom ≠ 0)
    {restart randomColor : Bool} {rand : Nat → Nat}
    (hsat : randomColor = true → restart = false → ∀ t, s.ledTwinkleState[i]? = some t →
      Chosen o rand s t → 2 ≤ s.config.hsv.sat.toNat) :
    Succeeds (do
      let t ← lookup next.ledTwinkleState i
      let t ← twinkleLed o bottom top restart randomColor rand next t
      sethsv o t.hsv (i + next.ranges.effectStartPos)
        { next with ledTwinkleState := next.ledTwinkleState.set i t }) (Twinkled o s (i + 1)) := by
  have hend := h.end_eq
  have hle := h.end_le
  have hready : Ready o next.ranges := hnext.ready h
  have hlength : i < next.ledTwinkleState.length := by
    rw [hnext.alive.length_eq]
    omega
  apply (succeeds_lookup hlength).bind
  intro t ht
  have hlife := hnext.alive.life t (List.mem_of_getElem? ht)
  have hchosen : Chosen o rand next t → Chosen o rand s t := by
    unfold Chosen twinkleTrigger
    rw [hnext.config]
    exact id
  apply (succeeds_twinkleLed hcurve hlife _).bind
  · intro lit hlit
    rw [← hnext.ranges] at hi
    let stored : State := { next with ledTwinkleState := next.ledTwinkleState.set i lit }
    have hstored : Keeps next stored := ⟨rfl, rfl, rfl, rfl, rfl⟩
    apply (Ready.sethsv (hstored.ready hready) lit.hsv hi).imp
    intro last hlast
    refine ⟨(hnext.toKeeps.trans hstored).trans hlast.toKeeps,
      hlast.increment.trans hnext.increment,
      hlast.toPlays.alive (hnext.alive.set hlit i), ?_⟩
    intro j hj
    rw [hlast.twinkle, List.getElem?_set_ne (Nat.ne_of_lt hj)]
    exact hnext.rest j (Nat.le_of_succ_le hj)
  · intro hrandom hrestart ht'
    rw [hnext.config]
    exact hsat hrandom hrestart t ((hnext.rest i (Nat.le_refl i)).symm.trans ht) (hchosen ht')

/-- Random colors need some saturation wherever an LED lights up. -/
theorem Ready.twinkle (h : Ready o s.ranges) (halive : Alive o s) {rand : Nat → Nat → Nat}
    (hsat : s.animation.delta / 3 ≠ 0 → s.animation.pos ≠ 0 →
      ∀ i < s.ranges.effectNumLeds, ∀ t, s.ledTwinkleState[i]? = some t →
        Chosen o (rand i) s t → 2 ≤ s.config.hsv.sat.toNat) :
    Succeeds (rgblightEffectTwinkle o rand s) (Twinkled o s s.ranges.effectNumLeds) := by
  obtain ⟨bottom, top, hbottom, htop, hcurve⟩ := breatheCalc_bottom_top (o := o)
  have hstart : Twinkled o s 0 (s.setPos 1) :=
    ⟨⟨rfl, rfl, rfl, rfl, rfl⟩, rfl, ⟨halive.length_eq, halive.life⟩, fun _ _ => rfl⟩
  unfold rgblightEffectTwinkle
  rw [hbottom, htop]
  apply (succeeds_forLeds (Twinkled o s) _ (Nat.zero_le _) hstart).bind
  · intro next hnext
    apply (Ready.rgblightSet (hnext.ready h)).imp
    exact fun last hlast => ⟨hnext.toKeeps.trans hlast.toKeeps,
      hlast.increment.trans hnext.increment, hlast.toPlays.alive hnext.alive,
      fun j hj => by rw [hlast.twinkle, hnext.rest j hj]⟩
  · intro i _ hi next hnext
    apply hnext.round h hi hcurve
    intro hrandom hrestart
    exact hsat (by simpa using hrandom) (by simpa using hrestart) i hi

end Qmk.RgbLight
