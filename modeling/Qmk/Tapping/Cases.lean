import Mathlib.Tactic.SplitIfs
import Qmk.Tapping.Engine

/-!
# What `process_tapping` can do

The tapping key is absent, unsettled, tapped or released.  One relation lists
the outcomes of `process_tapping` with what is known in each of them; the
invariants are proved from it and never unfold the engine.
-/

namespace Qmk.Tapping

variable {σ : Type}

@[simp] theorem KeyRecord.setCount_event (record : KeyRecord) (count : Nat) :
    (record.setCount count).event = record.event := rfl

@[simp] theorem KeyRecord.setCount_count (record : KeyRecord) (count : Nat) :
    (record.setCount count).tap.count = count := rfl

@[simp] theorem KeyRecord.setInterrupted_event (record : KeyRecord) :
    record.setInterrupted.event = record.event := rfl

@[simp] theorem KeyRecord.setInterrupted_count (record : KeyRecord) :
    record.setInterrupted.tap.count = record.tap.count := rfl

/-- Pressed, and neither tap nor hold yet. -/
structure KeyRecord.Unsettled (tappingKey : KeyRecord) : Prop where
  isEvent : tappingKey.event.isEvent = true
  pressed : tappingKey.event.pressed = true
  count_eq : tappingKey.tap.count = 0

/-- Pressed, and handed over as a tap. -/
structure KeyRecord.Tapped (tappingKey : KeyRecord) : Prop where
  isEvent : tappingKey.event.isEvent = true
  pressed : tappingKey.event.pressed = true
  count_pos : 0 < tappingKey.tap.count

structure KeyRecord.Released (tappingKey : KeyRecord) : Prop where
  isEvent : tappingKey.event.isEvent = true
  released : tappingKey.event.pressed = false

theorem KeyRecord.unsettled_iff (tappingKey : KeyRecord) :
    tappingKey.Unsettled ↔ tappingKey.event.isEvent = true ∧
      tappingKey.event.pressed = true ∧ tappingKey.tap.count = 0 :=
  ⟨fun h => ⟨h.1, h.2, h.3⟩, fun h => ⟨h.1, h.2.1, h.2.2⟩⟩

theorem KeyRecord.tapped_iff (tappingKey : KeyRecord) :
    tappingKey.Tapped ↔ tappingKey.event.isEvent = true ∧
      tappingKey.event.pressed = true ∧ 0 < tappingKey.tap.count :=
  ⟨fun h => ⟨h.1, h.2, h.3⟩, fun h => ⟨h.1, h.2.1, h.2.2⟩⟩

theorem KeyRecord.released_iff (tappingKey : KeyRecord) :
    tappingKey.Released ↔ tappingKey.event.isEvent = true ∧
      tappingKey.event.pressed = false :=
  ⟨fun h => ⟨h.1, h.2⟩, fun h => ⟨h.1, h.2⟩⟩

instance (tappingKey : KeyRecord) : Decidable tappingKey.Unsettled :=
  decidable_of_iff _ tappingKey.unsettled_iff.symm

instance (tappingKey : KeyRecord) : Decidable tappingKey.Tapped :=
  decidable_of_iff _ tappingKey.tapped_iff.symm

instance (tappingKey : KeyRecord) : Decidable tappingKey.Released :=
  decidable_of_iff _ tappingKey.released_iff.symm

abbrev State.Unsettled (s : State σ) : Prop := s.tappingKey.Unsettled

abbrev State.Tapped (s : State σ) : Prop := s.tappingKey.Tapped

abbrev State.Released (s : State σ) : Prop := s.tappingKey.Released

namespace KeyRecord

variable {tappingKey : KeyRecord}

theorem Tapped.not_unsettled (h : tappingKey.Tapped) :
    ¬ tappingKey.Unsettled := by
  intro hunsettled
  have hcount := hunsettled.count_eq
  have hpos := h.count_pos
  omega

theorem Released.not_unsettled (h : tappingKey.Released) :
    ¬ tappingKey.Unsettled := by
  intro hunsettled
  have hpressed := hunsettled.pressed
  rw [h.released] at hpressed
  exact absurd hpressed (by simp)

theorem Released.not_tapped (h : tappingKey.Released) :
    ¬ tappingKey.Tapped := by
  intro htapped
  have hpressed := htapped.pressed
  rw [h.released] at hpressed
  exact absurd hpressed (by simp)

theorem zero_not_unsettled : ¬ KeyRecord.zero.Unsettled := by decide

theorem zero_not_tapped : ¬ KeyRecord.zero.Tapped := by decide

theorem zero_not_released : ¬ KeyRecord.zero.Released := by decide

theorem setInterrupted_unsettled :
    tappingKey.setInterrupted.Unsettled ↔ tappingKey.Unsettled := by
  simp [unsettled_iff]

theorem setInterrupted_tapped :
    tappingKey.setInterrupted.Tapped ↔ tappingKey.Tapped := by
  simp [tapped_iff]

end KeyRecord

/-- The record of a sequential tap. -/
def sequentialTap (keyp : KeyRecord) (tap : Tap) : KeyRecord :=
  if tap.count < 15 then { keyp with tap := { tap with count := tap.count + 1 } }
  else { keyp with tap := tap }

section Cases

variable (cb : Callbacks σ)

/-- The press repeats the last tap. -/
def quickRepeat (s : State σ) (event : KeyEvent) : Bool :=
  withinQuickTapTerm cb s event && !s.tappingKey.tap.interrupted &&
    0 < s.tappingKey.tap.count

variable {cb} in
theorem quickRepeat_count {s : State σ} {event : KeyEvent}
    (h : quickRepeat cb s event = true) : 0 < s.tappingKey.tap.count := by
  rw [quickRepeat, Bool.and_eq_true, decide_eq_true_eq] at h
  exact h.2

inductive Outcome (keyp : KeyRecord) (s : State σ) : Result σ → Prop
  /-- A tick that settles nothing. -/
  | ignored (htick : keyp.event.isEvent = false)
      (hwithin : s.Unsettled ∨ s.Released →
        withinTappingTerm cb s keyp.event = true) :
      Outcome keyp s (true, keyp, s)
  | handed (hevent : keyp.event.isEvent = true) (hmode : ¬ s.Unsettled)
      (hother : s.Tapped → keyp.event.key = s.tappingKey.event.key →
        keyp.event.pressed = true)
      (hfresh : s.Released → withinTappingTerm cb s keyp.event = true)
      (hregular : keyp.event.pressed = true → cb.isTapRecord s.host keyp = false) :
      Outcome keyp s (handOver cb keyp s)
  /-- A release of a key that was pressed before the tapping key. -/
  | bypassed (hevent : keyp.event.isEvent = true) (hmode : s.Unsettled)
      (hother : keyp.event.key ≠ s.tappingKey.event.key)
      (hreleased : keyp.event.pressed = false)
      (htyped : waitingBufferTyped s.waitingBuffer keyp.event = false)
      (hwithin : withinTappingTerm cb s keyp.event = true) :
      Outcome keyp s (handOver cb keyp s)
  | interrupted (hevent : keyp.event.isEvent = true) (hmode : s.Released)
      (hother : keyp.event.key ≠ s.tappingKey.event.key)
      (hpressed : keyp.event.pressed = true)
      (hwithin : withinTappingTerm cb s keyp.event = true)
      (hregular : cb.isTapRecord s.host keyp = false) :
      Outcome keyp s
        (handOver cb keyp { s with tappingKey := s.tappingKey.setInterrupted })
  | startedIdle (hevent : keyp.event.isEvent = true)
      (hmode : s.tappingKey.event.isEvent = false)
      (hpressed : keyp.event.pressed = true)
      (htap : cb.isTapRecord s.host keyp = true) :
      Outcome keyp s
        (startTapping cb keyp
          { s with host := cb.processRecordTapHint s.host keyp })
  | startedTapped (hevent : keyp.event.isEvent = true) (hmode : s.Tapped)
      (hpressed : keyp.event.pressed = true)
      (htap : cb.isTapRecord s.host keyp = true) :
      Outcome keyp s (startTapping cb keyp (releaseLastTap cb keyp.event s))
  | startedReleased (hevent : keyp.event.isEvent = true) (hmode : s.Released)
      (hpressed : keyp.event.pressed = true)
      (hwithin : withinTappingTerm cb s keyp.event = true)
      (hother : keyp.event.key ≠ s.tappingKey.event.key)
      (htap : cb.isTapRecord s.host keyp = true) :
      Outcome keyp s (startTapping cb keyp s)
  /-- The same key again, but not as a sequential tap. -/
  | restarted (hevent : keyp.event.isEvent = true) (hmode : s.Released)
      (hpressed : keyp.event.pressed = true)
      (hwithin : withinTappingTerm cb s keyp.event = true)
      (hown : keyp.event.key = s.tappingKey.event.key)
      (hquick : quickRepeat cb s keyp.event = false) :
      Outcome keyp s (true, keyp, { s with tappingKey := keyp })
  | sequential (hevent : keyp.event.isEvent = true) (hmode : s.Released)
      (hown : keyp.event.key = s.tappingKey.event.key)
      (hpressed : keyp.event.pressed = true)
      (hwithin : withinTappingTerm cb s keyp.event = true)
      (hquick : quickRepeat cb s keyp.event = true) :
      Outcome keyp s
        (true,
          (processRecord cb (sequentialTap keyp s.tappingKey.tap) s).1,
          { (processRecord cb (sequentialTap keyp s.tappingKey.tap) s).2 with
            tappingKey :=
              (processRecord cb (sequentialTap keyp s.tappingKey.tap) s).1 })
  | firstTap (hevent : keyp.event.isEvent = true) (hmode : s.Unsettled)
      (hown : keyp.event.key = s.tappingKey.event.key)
      (hreleased : keyp.event.pressed = false)
      (hwithin : withinTappingTerm cb s keyp.event = true) :
      Outcome keyp s
        (false,
          { keyp with
            tap := (processRecord cb (s.tappingKey.setCount 1) s).1.tap },
          { (processRecord cb (s.tappingKey.setCount 1) s).2 with
            tappingKey := (processRecord cb (s.tappingKey.setCount 1) s).1 })
  /-- An event that waits for the tapping key to settle. -/
  | retained (hevent : keyp.event.isEvent = true) (hmode : s.Unsettled)
      {tappingKey : KeyRecord}
      (hsame : tappingKey = s.tappingKey ∨
        tappingKey = s.tappingKey.setInterrupted)
      (hother : keyp.event.key = s.tappingKey.event.key →
        keyp.event.pressed = true)
      (hwithin : withinTappingTerm cb s keyp.event = true) :
      Outcome keyp s (false, keyp, { s with tappingKey := tappingKey })
  | tapReleased (hevent : keyp.event.isEvent = true) (hmode : s.Tapped)
      (hown : keyp.event.key = s.tappingKey.event.key)
      (hreleased : keyp.event.pressed = false) (within : Bool)
      (hwithin : withinTappingTerm cb s keyp.event = within) :
      Outcome keyp s
        (true,
          (processRecord cb { keyp with tap := s.tappingKey.tap } s).1,
          { (processRecord cb { keyp with tap := s.tappingKey.tap } s).2 with
            tappingKey :=
              if within then
                (processRecord cb { keyp with tap := s.tappingKey.tap } s).1
              else .zero })
  /-- The tapping key is settled as held early: permissive hold. -/
  | interfered (hevent : keyp.event.isEvent = true) (hmode : s.Unsettled)
      (hother : keyp.event.key ≠ s.tappingKey.event.key)
      (hreleased : keyp.event.pressed = false)
      (htyped : waitingBufferTyped s.waitingBuffer keyp.event = true)
      (hwithin : withinTappingTerm cb s keyp.event = true)
      (hpermissive : cb.getPermissiveHold s.host s.tappingKey = true) :
      Outcome keyp s
        (false, keyp,
          { (processRecord cb s.tappingKey s).2 with tappingKey := .zero })
  /-- The tapping key is settled as held. -/
  | timedOut (hmode : s.Unsettled)
      (hafter : withinTappingTerm cb s keyp.event = false) :
      Outcome keyp s
        (false, keyp,
          { (processRecord cb s.tappingKey s).2 with tappingKey := .zero })
  | expired (hmode : s.Released)
      (hafter : withinTappingTerm cb s keyp.event = false) :
      Outcome keyp s (false, keyp, { s with tappingKey := .zero })

theorem processReset_cases (keyp : KeyRecord) {s : State σ}
    (hmode : s.tappingKey.event.isEvent = false) :
    Outcome cb keyp s (processReset cb keyp s) := by
  have hnot : ¬ s.Unsettled ∧ ¬ s.Tapped ∧ ¬ s.Released :=
    ⟨fun h => by simp [h.isEvent] at hmode, fun h => by simp [h.isEvent] at hmode,
      fun h => by simp [h.isEvent] at hmode⟩
  unfold processReset
  dsimp only
  split_ifs with htick hstart
  · exact .ignored (by simpa using htick)
      fun h => (h.elim hnot.1 hnot.2.2).elim
  · rw [Bool.and_eq_true] at hstart
    exact .startedIdle (by simpa using htick) hmode hstart.1 hstart.2
  · exact .handed (by simpa using htick) hnot.1
      (fun h => (hnot.2.1 h).elim) (fun h => (hnot.2.2 h).elim)
      fun hpressed => by simpa [hpressed] using hstart

theorem processUnsettled_cases (keyp : KeyRecord) {s : State σ}
    (hmode : s.Unsettled) (hevent : keyp.event.isEvent = true)
    (hwithin : withinTappingTerm cb s keyp.event = true) :
    Outcome cb keyp s (processUnsettled cb keyp s) := by
  unfold processUnsettled
  dsimp only
  by_cases hown : (decide (keyp.event.key = s.tappingKey.event.key) &&
      !keyp.event.pressed) = true
  · rw [if_pos hown]
    simp only [Bool.and_eq_true, decide_eq_true_eq, Bool.not_eq_true'] at hown
    exact .firstTap hevent hmode hown.1 hown.2 hwithin
  · rw [if_neg hown]
    have hother : keyp.event.key = s.tappingKey.event.key →
        keyp.event.pressed = true := fun hkey => by simpa [hkey] using hown
    split_ifs with hnested hbypass hretain hpressed
    · simp only [Bool.and_eq_true, Bool.not_eq_true'] at hnested
      refine .interfered hevent hmode (fun hkey => ?_) hnested.1.1 hnested.1.2
        hwithin hnested.2
      exact absurd (hother hkey) (by simp [hnested.1.1])
    · exact .retained hevent hmode (.inl rfl) hother hwithin
    · simp only [Bool.and_eq_true, Bool.not_eq_true'] at hbypass
      refine .bypassed hevent hmode (fun hkey => ?_) hbypass.1 hbypass.2 hwithin
      exact absurd (hother hkey) (by simp [hbypass.1])
    · exact .retained hevent hmode (.inr rfl) hother hwithin
    · exact .retained hevent hmode (.inl rfl) hother hwithin

theorem processTapped_cases (within : Bool) (keyp : KeyRecord) {s : State σ}
    (hmode : s.Tapped) (hevent : keyp.event.isEvent = true)
    (hwithin : withinTappingTerm cb s keyp.event = within) :
    Outcome cb keyp s (processTapped cb within keyp s) := by
  unfold processTapped
  dsimp only
  by_cases hown : (decide (keyp.event.key = s.tappingKey.event.key) &&
      !keyp.event.pressed) = true
  · rw [if_pos hown]
    simp only [Bool.and_eq_true, decide_eq_true_eq, Bool.not_eq_true'] at hown
    exact .tapReleased hevent hmode hown.1 hown.2 within hwithin
  · rw [if_neg hown]
    split_ifs with hstart
    · rw [Bool.and_eq_true] at hstart
      exact .startedTapped hevent hmode hstart.2 hstart.1
    · refine .handed hevent hmode.not_unsettled (fun _ hkey => ?_)
        (fun h => (h.not_tapped hmode).elim) fun hpressed => ?_
      · simpa [hkey] using hown
      · simpa [hpressed] using hstart

theorem processPressed_cases (keyp : KeyRecord) {s : State σ}
    (hevent : s.tappingKey.event.isEvent = true)
    (hpressed : s.tappingKey.event.pressed = true) :
    Outcome cb keyp s (processPressed cb keyp s) := by
  have hnot : ¬ s.Released := fun h => by simp [h.released] at hpressed
  unfold processPressed
  split_ifs with hwithin htick hcount hcount htick
  · exact .ignored (by simpa using htick) fun _ => hwithin
  · exact processUnsettled_cases cb keyp ⟨hevent, hpressed, hcount⟩
      (by simpa using htick) hwithin
  · exact processTapped_cases cb true keyp
      ⟨hevent, hpressed, Nat.pos_of_ne_zero hcount⟩ (by simpa using htick) hwithin
  · exact .timedOut ⟨hevent, hpressed, hcount⟩ (by simpa using hwithin)
  · have htapped : s.Tapped := ⟨hevent, hpressed, Nat.pos_of_ne_zero hcount⟩
    exact .ignored (by simpa using htick)
      fun h => (h.elim htapped.not_unsettled hnot).elim
  · exact processTapped_cases cb false keyp
      ⟨hevent, hpressed, Nat.pos_of_ne_zero hcount⟩ (by simpa using htick)
      (by simpa using hwithin)

theorem processReleased_cases (keyp : KeyRecord) {s : State σ}
    (hmode : s.Released) : Outcome cb keyp s (processReleased cb keyp s) := by
  unfold processReleased
  dsimp only
  by_cases hwithin : withinTappingTerm cb s keyp.event = true
  · rw [if_pos hwithin]
    by_cases hevent : keyp.event.isEvent = true
    · rw [if_neg (by simp [hevent])]
      by_cases hpressed : keyp.event.pressed = true
      · rw [if_pos hpressed]
        by_cases hown : keyp.event.key = s.tappingKey.event.key
        · rw [if_pos hown]
          by_cases hquick : (withinQuickTapTerm cb s keyp.event &&
              !s.tappingKey.tap.interrupted &&
              decide (0 < s.tappingKey.tap.count)) = true
          · rw [if_pos hquick]
            exact .sequential hevent hmode hown hpressed hwithin hquick
          · rw [if_neg hquick]
            exact .restarted hevent hmode hpressed hwithin hown
              (Bool.eq_false_iff.mpr hquick)
        · rw [if_neg hown]
          split_ifs with htap
          · exact .startedReleased hevent hmode hpressed hwithin hown htap
          · exact .interrupted hevent hmode hown hpressed hwithin
              (by simpa using htap)
      · rw [if_neg hpressed]
        exact .handed hevent hmode.not_unsettled
          (fun h => (hmode.not_tapped h).elim) (fun _ => hwithin)
          (absurd · hpressed)
    · rw [if_pos (by simpa using hevent)]
      exact .ignored (by simpa using hevent) fun _ => hwithin
  · rw [if_neg hwithin]
    exact .expired hmode (by simpa using hwithin)

theorem processTapping_cases (keyp : KeyRecord) (s : State σ) :
    Outcome cb keyp s (processTapping cb keyp s) := by
  unfold processTapping
  split_ifs with hevent hpressed
  · exact processReset_cases cb keyp (by simpa using hevent)
  · exact processPressed_cases cb keyp (by simpa using hevent) hpressed
  · exact processReleased_cases cb keyp
      ⟨by simpa using hevent, by simpa using hpressed⟩

/-! ## The scan of the buffer -/

/-- A release that the scan looks for. -/
structure TapRelease (s : State σ) (candidate : KeyRecord) : Prop where
  isEvent : candidate.event.isEvent = true
  own : candidate.event.key = s.tappingKey.event.key
  released : candidate.event.pressed = false
  within : withinTappingTerm cb s candidate.event = true

theorem tapRelease_iff (s : State σ) (candidate : KeyRecord) :
    TapRelease cb s candidate ↔
      ((candidate.event.isEvent = true ∧
        candidate.event.key = s.tappingKey.event.key) ∧
        candidate.event.pressed = false) ∧
        withinTappingTerm cb s candidate.event = true :=
  ⟨fun h => ⟨⟨⟨h.isEvent, h.own⟩, h.released⟩, h.within⟩,
    fun h => ⟨h.1.1.1, h.1.1.2, h.1.2, h.2⟩⟩

instance (s : State σ) (candidate : KeyRecord) :
    Decidable (TapRelease cb s candidate) :=
  decidable_of_iff _ (tapRelease_iff cb s candidate).symm

/-- A buffer in which the first release that the scan looks for is marked. -/
inductive Marked (s : State σ) : List KeyRecord → List KeyRecord → Prop
  | here {candidate : KeyRecord} (rest : List KeyRecord)
      (hfound : TapRelease cb s candidate) :
      Marked s (candidate :: rest) (candidate.setCount 1 :: rest)
  | there {record : KeyRecord} {buffer marked : List KeyRecord}
      (hskip : ¬ TapRelease cb s record) (hrest : Marked s buffer marked) :
      Marked s (record :: buffer) (record :: marked)

theorem markTap_cons (s : State σ) (candidate : KeyRecord)
    (rest : List KeyRecord) :
    markTap cb s (candidate :: rest) =
      if TapRelease cb s candidate then some (candidate.setCount 1 :: rest)
      else (markTap cb s rest).map (candidate :: ·) := by
  simp only [tapRelease_iff, markTap, Bool.and_eq_true, decide_eq_true_eq,
    Bool.not_eq_true']

theorem markTap_marked {s : State σ} {buffer marked : List KeyRecord}
    (h : markTap cb s buffer = some marked) : Marked cb s buffer marked := by
  induction buffer generalizing marked with
  | nil => simp [markTap] at h
  | cons candidate rest ih =>
      rw [markTap_cons] at h
      split_ifs at h with hfound
      · obtain rfl := Option.some.inj h
        exact .here rest hfound
      · obtain ⟨after, hafter, rfl⟩ := Option.map_eq_some_iff.mp h
        exact .there hfound (ih hafter)

theorem markTap_none {s : State σ} {buffer : List KeyRecord}
    (h : markTap cb s buffer = none) :
    ∀ record ∈ buffer, ¬ TapRelease cb s record := by
  induction buffer with
  | nil => simp
  | cons candidate rest ih =>
      rw [markTap_cons] at h
      split_ifs at h with hfound
      intro record hrecord
      rcases List.mem_cons.mp hrecord with rfl | hrecord
      · exact hfound
      · exact ih (by simpa using h) record hrecord

/-- The new tapping key stays unsettled, or its release is in the buffer. -/
theorem startTapping_cases {keyp : KeyRecord} (s : State σ)
    (hcount : keyp.tap.count = 0) (hpressed : keyp.event.pressed = true) :
    (startTapping cb keyp s = (true, keyp, { s with tappingKey := keyp }) ∧
      ∀ record ∈ s.waitingBuffer,
        ¬ TapRelease cb { s with tappingKey := keyp } record) ∨
    ∃ buffer, Marked cb { s with tappingKey := keyp } s.waitingBuffer buffer ∧
      startTapping cb keyp s =
        (true, keyp,
          { (processRecord cb (keyp.setCount 1)
              { s with
                tappingKey := keyp.setCount 1
                waitingBuffer := buffer }).2 with
            tappingKey := (cb.processRecord s.host (keyp.setCount 1)).2 }) := by
  unfold startTapping waitingBufferScanTap
  rw [if_neg (by simp [hcount, hpressed])]
  cases hmark : markTap cb { s with tappingKey := keyp } s.waitingBuffer with
  | none => exact .inl ⟨rfl, markTap_none cb hmark⟩
  | some buffer =>
      refine .inr ⟨buffer, markTap_marked cb hmark, ?_⟩
      dsimp only
      rfl

end Cases

end Qmk.Tapping
