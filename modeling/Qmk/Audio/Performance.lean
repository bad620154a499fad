import Qmk.Audio.Standing

/-!
# A run of the tone stack

The stack runs beside the requests it should sound.
-/

namespace Qmk.Audio

open Qmk.Lib

structure Performance where
  state : State
  requests : List Request
  time : Nat
  /-- The time of the last update. -/
  updated : Nat

def Performance.initial (cfg : Config) (start : Nat) : Performance :=
  ⟨.initial cfg, [], start, start⟩

variable (cfg : Config)

/-- The request that the melody makes. -/
def Advance.request (now : Nat) : Advance → Option Request
  | .plays pitch duration => some ⟨pitch.natAbs, now, duration⟩
  | _ => none

/-- The request that a call makes of the stack as it finds it. -/
def request (s : State) : Nat × Call → Option Request
  | (now, .playNote pitch duration) => some ⟨pitch.natAbs, now, duration⟩
  | (now, .playTone pitch) => some ⟨pitch.natAbs, now, 0xffff⟩
  | (now, .updateState) => (advanceMelody cfg now s).2.request now
  | _ => none

def Requests.accept (requests : List Request) : Option Request → List Request
  | none => requests
  | some r => if cfg.enable then play cfg.stackSize r requests else requests

namespace Performance

/-- The requests that an update goes over, or those after a call that plays. -/
def heard (p : Performance) (input : Nat × Call) : List Request :=
  Requests.accept cfg p.requests (request cfg p.state input)

/-- The requests after a call. -/
def after (p : Performance) : Nat × Call → List Request
  | (_, .stopTone pitch) => Requests.stop pitch.natAbs p.requests
  | (_, .stopAll) => []
  | (now, .playMelody (first :: _) _) =>
      Requests.accept cfg []
        (some ⟨first.pitch.natAbs, now, audioDurationToMs cfg first.duration⟩)
  | (_, .playMelody [] _) => if cfg.enable then p.requests else []
  | (now, .updateState) =>
      if MelodyOver now p.state then []
      else Requests.expire now (p.heard cfg (now, .updateState))
  | input => p.heard cfg input

def step (p : Performance) (input : Nat × Call) : Performance where
  state := (Audio.step cfg p.state input).toOption.getD p.state
  requests := p.after cfg input
  time := input.1
  updated := if input.2 = .updateState then input.1 else p.updated

/-- The call stops everything: `audio_stop_all`, or the update after the last note. -/
def StopsAll (p : Performance) (input : Nat × Call) : Prop :=
  input.2 = .stopAll ∨ input.2 = .updateState ∧ MelodyOver input.1 p.state

/-- Times do not decrease, updates are at most a second apart and the length of a melody has
sixteen bits. -/
structure OnTime (p : Performance) (input : Nat × Call) : Prop where
  later : p.time ≤ input.1
  soon : input.2 = .updateState → input.1 ≤ p.updated + 1000
  count : ∀ notes repeated, input.2 = .playMelody notes repeated → notes.length ≤ 65535

end Performance

/-- The stack sounds these requests. -/
structure Exact (s : State) (time : Nat) (requests : List Request) : Prop where
  pitches : (s.tones.take s.activeTones).map Tone.pitch = requests.map Request.pitch
  active : s.activeTones = requests.length
  active_le : s.activeTones ≤ cfg.stackSize
  empty : s.tones.drop s.activeTones = List.replicate (cfg.stackSize - s.activeTones) noTone
  ordered : Requests.Ordered time requests
  playing : s.playingNote = true ↔ 0 < s.activeTones
  running : s.driverRunning = true ↔ 0 < s.activeTones

namespace Performance

/-- The call meets no division by zero, the stack sounds what is requested after it, and no melody
plays after everything was stopped. -/
def Correct (p : Performance) (input : Nat × Call) : Prop :=
  ∃ s, Audio.step cfg p.state input = .ok s ∧ Exact cfg s input.1 (p.after cfg input) ∧
    (p.StopsAll input → s.playingMelody = false)

/-- The step stays clear of what the stack gets wrong. -/
structure Avoids (p : Performance) (input : Nat × Call) : Prop where
  /-- A request for the pitch on the top is not recorded, so it must not change the end. -/
  renews : cfg.enable = true → ∀ r ∈ request cfg p.state input, ∀ top ∈ p.requests.getLast?,
    top.pitch = r.pitch → top.SameEnd r
  /-- Where nothing sounds, `audio_stop_all` returns before it stops a melody. -/
  stops : p.StopsAll input → p.state.playingMelody = true → p.requests ≠ []
  /-- The loop of the update skips the tone behind one that it stops. -/
  expires : input.2 = .updateState → ¬MelodyOver input.1 p.state →
    Apart input.1 (p.heard cfg input)
  /-- The default rate of the multiplexing is zero. -/
  divides : input.2 = .updateState → ¬MelodyOver input.1 p.state → p.heard cfg input ≠ [] →
    cfg.divides = false

structure Inv (p : Performance) : Prop where
  stands : ∃ content, Holds cfg p.state content ∧
    List.Forall₂ (Stands p.updated) content p.requests
  ordered : Requests.Ordered p.time p.requests
  melody : InMelody p.state
  updated_le : p.updated ≤ p.time

variable {cfg} {p : Performance} {s : State} {now : Nat}

theorem inv_initial (start : Nat) : Inv cfg (.initial cfg start) where
  stands := ⟨[], holds_initial, .nil⟩
  ordered := ⟨List.nodup_nil, .nil, by simp [initial]⟩
  melody := by
    intro hplaying
    cases hplaying
  updated_le := Nat.le_refl start

theorem Inv.length_le (h : Inv cfg p) : p.requests.length ≤ cfg.stackSize := by
  obtain ⟨content, hholds, hstands⟩ := h.stands
  rw [← hstands.length_eq]
  exact hholds.length_le

theorem Inv.exact (h : Inv cfg p) : Exact cfg p.state p.time p.requests := by
  obtain ⟨content, hholds, hstands⟩ := h.stands
  have hflag : (!content.isEmpty) = true ↔ 0 < p.state.activeTones := by
    rw [hholds.active_eq]
    cases content <;> simp
  constructor
  · rw [hholds.tones_eq, hholds.active_eq, List.take_left]
    exact pitches_eq hstands
  · rw [hholds.active_eq, hstands.length_eq]
  · rw [hholds.active_eq]
    exact hholds.length_le
  · rw [hholds.tones_eq, hholds.active_eq, List.drop_left]
  · exact h.ordered
  · rw [hholds.playing, hflag]
  · rw [hholds.running, hflag]

theorem Inv.audioPlayNote (h : Inv cfg p) (hle : p.time ≤ now) (pitch : Int) (duration : Nat)
    (hrenews : cfg.enable = true → ∀ top ∈ p.requests.getLast?, top.pitch = pitch.natAbs →
      top.SameEnd ⟨pitch.natAbs, now, duration⟩) :
    Inv cfg ⟨audioPlayNote cfg now pitch duration p.state,
      Requests.accept cfg p.requests (some ⟨pitch.natAbs, now, duration⟩), now, p.updated⟩ := by
  have hmelody : InMelody (Audio.audioPlayNote cfg now pitch duration p.state) :=
    (audioPlayNote_sameMelody now pitch duration p.state).inMelody h.melody
  have hupdated : p.updated ≤ now := Nat.le_trans h.updated_le hle
  obtain ⟨content, hholds, hstands⟩ := h.stands
  cases henable : cfg.enable with
  | false =>
      have hsame : Audio.audioPlayNote cfg now pitch duration p.state = p.state := by
        simp [Audio.audioPlayNote, henable]
      rw [hsame]
      simp only [Requests.accept, henable]
      exact ⟨⟨content, hholds, hstands⟩, h.ordered.later hle, h.melody, hupdated⟩
  | true =>
      simp only [Requests.accept, henable, if_true]
      refine ⟨⟨_, hholds.audioPlayNote henable now pitch duration, ?_⟩, ?_, hmelody, hupdated⟩
      · exact stands_play (r := ⟨pitch.natAbs, now, duration⟩) hstands h.ordered h.length_le hle
          hupdated (hrenews henable)
      · exact h.ordered.play cfg.stackSize hle rfl

theorem Inv.audioStopTone (h : Inv cfg p) (hle : p.time ≤ now) (pitch : Int) :
    Inv cfg ⟨audioStopTone cfg pitch p.state, Requests.stop pitch.natAbs p.requests, now,
      p.updated⟩ := by
  obtain ⟨content, hholds, hstands⟩ := h.stands
  exact ⟨⟨_, hholds.audioStopTone pitch, stands_stop hstands _⟩,
    (h.ordered.sublist List.filter_sublist).later hle,
    (audioStopTone_sameMelody pitch p.state).inMelody h.melody, Nat.le_trans h.updated_le hle⟩

theorem Inv.later (h : Inv cfg p) (hle : p.time ≤ now) :
    Inv cfg ⟨p.state, p.requests, now, p.updated⟩ :=
  ⟨h.stands, h.ordered.later hle, h.melody, Nat.le_trans h.updated_le hle⟩

/-- The state may differ where the slots and the place in the melody do not. -/
theorem Inv.frame (h : Inv cfg p) (hholds : ∀ content, Holds cfg p.state content →
    Holds cfg s content) (hmelody : InMelody s) :
    Inv cfg ⟨s, p.requests, p.time, p.updated⟩ := by
  obtain ⟨content, hcontent, hstands⟩ := h.stands
  exact ⟨⟨content, hholds content hcontent, hstands⟩, h.ordered, hmelody, h.updated_le⟩

theorem inv_of_silent (hholds : Holds cfg s []) (hmelody : InMelody s) {updated : Nat}
    (hle : updated ≤ now) : Inv cfg ⟨s, [], now, updated⟩ :=
  ⟨⟨[], hholds, .nil⟩, ⟨List.nodup_nil, .nil, by simp⟩, hmelody, hle⟩

theorem Inv.audioStopAll (h : Inv cfg p) (hle : p.time ≤ now) :
    Inv cfg ⟨audioStopAll cfg p.state, [], now, p.updated⟩ := by
  obtain ⟨content, hholds, -⟩ := h.stands
  exact inv_of_silent hholds.audioStopAll h.melody.audioStopAll (Nat.le_trans h.updated_le hle)

/-- A melody ends with the last of the sound; where there is none it goes on. -/
theorem audioStopAll_playingMelody {content : List Tone} (hholds : Holds cfg s content)
    (hsounds : s.playingMelody = true → content ≠ []) :
    (Audio.audioStopAll cfg s).playingMelody = false := by
  unfold Audio.audioStopAll
  cases hstopped : s.audioDriverStopped with
  | true =>
      have hempty : content = [] := List.isEmpty_iff.mp (hholds.stopped.symm.trans hstopped)
      rw [if_pos rfl]
      cases hplaying : s.playingMelody with
      | true => exact (hsounds hplaying hempty).elim
      | false => rfl
  | false => rfl

theorem Inv.audioPlayMelody (h : Inv cfg p) (hle : p.time ≤ now) {notes : List Note}
    (hcount : notes.length ≤ 65535) (repeated : Bool) :
    Inv cfg ⟨audioPlayMelody cfg now notes repeated p.state,
      p.after cfg (now, .playMelody notes repeated), now, p.updated⟩ := by
  unfold Audio.audioPlayMelody
  cases henable : cfg.enable with
  | false =>
      have hafter : p.after cfg (now, .playMelody notes repeated) = [] := by
        cases notes <;> simp [after, henable, Requests.accept]
      rw [hafter]
      exact h.audioStopAll hle
  | true =>
      cases notes with
      | nil =>
          simp only [after, henable]
          exact h.later hle
      | cons first rest =>
          obtain ⟨content, hholds, -⟩ := h.stands
          have hcanceled := hholds.cancel
          dsimp only
          generalize (if p.state.playingNote then Audio.audioStopAll cfg p.state else p.state) =
            canceled at hcanceled ⊢
          have hstarted : Inv cfg ⟨{ canceled with
              playingMelody := true
              noteResting := false
              notes := first :: rest
              notesRepeat := repeated
              currentNote := 0 }, [], now, p.updated⟩ := by
            apply inv_of_silent _ _ (Nat.le_trans h.updated_le hle)
            · exact hcanceled.frame rfl rfl rfl rfl rfl
            · exact fun _ => ⟨Nat.succ_pos rest.length, hcount⟩
          have hplayed := hstarted.audioPlayNote (Nat.le_refl now) first.pitch
            (audioDurationToMs cfg first.duration) (by simp)
          exact hplayed.frame (fun _ hholds => hholds.frame rfl rfl rfl rfl rfl) hplayed.melody

/-- The part of the update for the tones. -/
theorem Inv.updateTones (h : Inv cfg p) (hle : p.time ≤ now) (hsoon : now ≤ p.updated + 1000)
    (hapart : Apart now p.requests) (hsafe : p.requests ≠ [] → cfg.divides = false)
    (goto : Bool) :
    ∃ result, (updateTones cfg now goto p.state).map reportChange = .ok result ∧
      Inv cfg ⟨result.1, Requests.expire now p.requests, now, now⟩ := by
  obtain ⟨content, hholds, hstands⟩ := h.stands
  have hdivides : content ≠ [] → cfg.divides = false := by
    intro hne
    apply hsafe
    rintro hnil
    exact hne (List.length_eq_zero_iff.mp (hstands.length_eq.trans (by rw [hnil]; rfl)))
  have hpast : ∀ r ∈ p.requests, r.started ≤ now :=
    fun r hr => Nat.le_trans (h.ordered.past r hr) hle
  obtain ⟨result, hresult, hmelody, hswept⟩ := hholds.updateTones now goto hdivides
  refine ⟨reportChange result, by rw [hresult]; rfl, ?_⟩
  exact ⟨⟨_, hswept.reportChange, stands_sweep hstands hpast hsoon hapart⟩,
    (h.ordered.sublist List.filter_sublist).later hle,
    ((reportChange_sameMelody result).trans hmelody).inMelody h.melody, Nat.le_refl now⟩

theorem Inv.content_eq_nil_iff (h : Inv cfg p) {content : List Tone}
    (hholds : Holds cfg p.state content) : content = [] ↔ p.requests = [] := by
  rw [← List.length_eq_zero_iff, ← List.length_eq_zero_iff, ← hholds.active_eq, h.exact.active]

/-- The update after the last note of a melody. -/
theorem Inv.endMelody (h : Inv cfg p) (hover : MelodyOver now p.state)
    (hsounds : p.state.playingMelody = true → p.requests ≠ []) :
    Inv cfg ⟨Audio.audioStopAll cfg (advanceMelody cfg now p.state).1, [], now, now⟩ ∧
      (Audio.audioStopAll cfg (advanceMelody cfg now p.state).1).playingMelody = false := by
  obtain ⟨content, hholds, -⟩ := h.stands
  have hadvanced : Holds cfg (advanceMelody cfg now p.state).1 content := hholds.advanceMelody
  have hsilent : (Audio.audioStopAll cfg (advanceMelody cfg now p.state).1).playingMelody = false :=
    audioStopAll_playingMelody hadvanced fun _ hnil =>
      hsounds hover.1 ((h.content_eq_nil_iff hholds).mp hnil)
  refine ⟨inv_of_silent hadvanced.audioStopAll ?_ (Nat.le_refl now), hsilent⟩
  intro hplaying
  rw [hsilent] at hplaying
  cases hplaying

theorem Inv.audioUpdateState (h : Inv cfg p) (hontime : OnTime p (now, .updateState))
    (havoids : Avoids cfg p (now, .updateState)) :
    ∃ result, audioUpdateState cfg now p.state = .ok result ∧
      Inv cfg ⟨result.1, p.after cfg (now, .updateState), now, now⟩ ∧
      (MelodyOver now p.state → result.1.playingMelody = false) := by
  have hle : p.time ≤ now := hontime.later
  have hsoon : now ≤ p.updated + 1000 := hontime.soon rfl
  unfold Audio.audioUpdateState
  by_cases hidle : p.state.playingNote = false ∧ p.state.playingMelody = false
  · obtain ⟨content, hholds, -⟩ := h.stands
    obtain rfl := hholds.playing_eq_false_iff.mp hidle.1
    have hnone : p.requests = [] := (h.content_eq_nil_iff hholds).mp rfl
    have hafter : p.after cfg (now, .updateState) = [] := by
      simp [after, heard, request, Advance.request, advanceMelody, hidle.2, hnone,
        Requests.accept, Requests.expire]
    rw [if_pos hidle, hafter]
    exact ⟨_, rfl, inv_of_silent hholds h.melody (Nat.le_refl now), fun _ => hidle.2⟩
  rw [if_neg hidle]
  by_cases hover : MelodyOver now p.state
  · have hends : (advanceMelody cfg now p.state).2 = .ends :=
      (advanceMelody_ends_iff h.melody).mpr hover
    have hended := h.endMelody hover (havoids.stops (.inr ⟨rfl, hover⟩))
    have hafter : p.after cfg (now, .updateState) = [] := if_pos hover
    rw [hafter]
    generalize advanceMelody cfg now p.state = advanced at hends hended ⊢
    obtain ⟨next, advance⟩ := advanced
    obtain rfl : advance = .ends := hends
    exact ⟨_, rfl, hended.1, fun _ => hended.2⟩
  · have hends : (advanceMelody cfg now p.state).2 ≠ .ends :=
      mt (advanceMelody_ends_iff h.melody).mp hover
    have hafter : p.after cfg (now, .updateState) =
        Requests.expire now (p.heard cfg (now, .updateState)) := if_neg hover
    have hheard : p.heard cfg (now, .updateState) =
        Requests.accept cfg p.requests ((advanceMelody cfg now p.state).2.request now) := rfl
    have hapart := havoids.expires rfl hover
    have hdivides := havoids.divides rfl hover
    have hrenews : cfg.enable = true → ∀ r ∈ (advanceMelody cfg now p.state).2.request now,
        ∀ top ∈ p.requests.getLast?, top.pitch = r.pitch → top.SameEnd r := havoids.renews
    have hadvanced : Inv cfg ⟨(advanceMelody cfg now p.state).1, p.requests, p.time, p.updated⟩ :=
      h.frame (fun _ hholds => hholds.advanceMelody) (h.melody.advanceMelody hover)
    rw [hheard] at hapart hdivides
    rw [hafter, hheard]
    generalize advanceMelody cfg now p.state = advanced at hends hadvanced hapart hdivides hrenews ⊢
    obtain ⟨next, advance⟩ := advanced
    cases advance with
    | ends => exact (hends rfl).elim
    | waits =>
        obtain ⟨result, hresult, hinv⟩ := hadvanced.updateTones hle hsoon hapart hdivides false
        exact ⟨result, hresult, hinv, fun hstop => (hover hstop).elim⟩
    | plays pitch duration =>
        have hplayed := hadvanced.audioPlayNote hle pitch duration
          (fun henable => hrenews henable _ rfl)
        obtain ⟨result, hresult, hinv⟩ :=
          hplayed.updateTones (Nat.le_refl now) hsoon hapart hdivides true
        exact ⟨result, hresult, hinv, fun hstop => (hover hstop).elim⟩

/-- One call, with what it has to keep clear of, keeps the invariant and is correct. -/
theorem Inv.step (h : Inv cfg p) {input : Nat × Call} (hontime : OnTime p input)
    (havoids : Avoids cfg p input) : Inv cfg (p.step cfg input) ∧ Correct cfg p input := by
  suffices hcall : ∃ s, Audio.step cfg p.state input = .ok s ∧
      Inv cfg ⟨s, p.after cfg input, input.1,
        if input.2 = .updateState then input.1 else p.updated⟩ ∧
      (p.StopsAll input → s.playingMelody = false) by
    obtain ⟨s, hs, hinv, hmelody⟩ := hcall
    refine ⟨?_, s, hs, hinv.exact, hmelody⟩
    unfold Performance.step
    rw [hs]
    exact hinv
  obtain ⟨now, call⟩ := input
  have hle : p.time ≤ now := hontime.later
  cases call with
  | playNote pitch duration =>
      refine ⟨_, rfl, ?_, by simp [StopsAll]⟩
      exact h.audioPlayNote hle pitch duration fun henable => havoids.renews henable _ rfl
  | playTone pitch =>
      refine ⟨_, rfl, ?_, by simp [StopsAll]⟩
      exact h.audioPlayNote hle pitch 0xffff fun henable => havoids.renews henable _ rfl
  | stopTone pitch => exact ⟨_, rfl, h.audioStopTone hle pitch, by simp [StopsAll]⟩
  | stopAll =>
      refine ⟨_, rfl, h.audioStopAll hle, fun hstop => ?_⟩
      obtain ⟨content, hholds, -⟩ := h.stands
      apply audioStopAll_playingMelody hholds
      exact fun hplaying hnil =>
        havoids.stops hstop hplaying ((h.content_eq_nil_iff hholds).mp hnil)
  | playMelody notes repeated =>
      refine ⟨_, rfl, ?_, by simp [StopsAll]⟩
      exact h.audioPlayMelody hle (hontime.count notes repeated rfl) repeated
  | updateState =>
      obtain ⟨result, hresult, hinv, hmelody⟩ := h.audioUpdateState hontime havoids
      refine ⟨result.1, by rw [Audio.step, hresult]; rfl, hinv, ?_⟩
      rintro (hstop | ⟨-, hover⟩)
      · cases hstop
      · exact hmelody hover

/-- The calls of a run that stay clear of the faults of the stack are all correct. -/
theorem correct_of_avoids (start : Nat) (inputs : List (Nat × Call))
    (h : Meets (step cfg) (fun p input => OnTime p input ∧ Avoids cfg p input)
      (.initial cfg start) inputs) :
    Meets (step cfg) (Correct cfg) (.initial cfg start) inputs := by
  apply h.imp_of_invariant (Inv cfg) _ _ (inv_initial start)
  · exact fun p input hinv hcond => (hinv.step hcond.1 hcond.2).1
  · exact fun p input hinv hcond => (hinv.step hcond.1 hcond.2).2

/-- The defaults of the firmware. -/
def defaultConfig : Config where
  enable := true
  stackSize := 8
  one_le_stackSize := by decide
  stackSize_le := by decide
  tempo := 120
  tempo_pos := by decide
  multiplexing := false
  multiplexingRate := 0
  maxSimultaneousTones := 3
  vibrato := false

/-- A note runs out in an update. -/
theorem oneNote_correct : Meets (step defaultConfig) (Correct defaultConfig)
    (.initial defaultConfig 0) [(0, .playNote 1 10), (10, .updateState)] := by
  apply correct_of_avoids
  refine ⟨⟨⟨by decide, by decide, ?_⟩, ?_, ?_, ?_, fun _ _ _ => rfl⟩,
    ⟨⟨by decide, by decide, ?_⟩, ?_, ?_, ?_, fun _ _ _ => rfl⟩, trivial⟩
  · intro notes repeated heq
    cases heq
  · intro _ r _ top htop
    cases htop
  · intro _ hplaying
    cases hplaying
  · intro heq
    cases heq
  · intro notes repeated heq
    cases heq
  · intro _ r hr
    cases hr
  · intro _ hplaying
    cases hplaying
  · exact fun _ _ => List.isChain_singleton _

/-- Two notes that run out in one update: the tone of the second stays. -/
def twoNotes : List (Nat × Call) :=
  [(0, .playNote 1 10), (0, .playNote 2 10), (10, .updateState)]

theorem twoNotes_not_correct :
    ¬∀ inputs, Meets (step defaultConfig) OnTime (.initial defaultConfig 0) inputs →
      Meets (step defaultConfig) (Correct defaultConfig) (.initial defaultConfig 0) inputs := by
  intro h
  have hontime : Meets (step defaultConfig) OnTime (.initial defaultConfig 0) twoNotes := by
    refine ⟨⟨by decide, by decide, ?_⟩, ⟨by decide, by decide, ?_⟩, ⟨by decide, by decide, ?_⟩,
      trivial⟩
    all_goals
      intro notes repeated heq
      cases heq
  obtain ⟨-, -, ⟨s, hstep, hexact, -⟩, -⟩ := h twoNotes hontime
  have hsounds : (Audio.step defaultConfig
      (run (step defaultConfig) (.initial defaultConfig 0) (twoNotes.take 2)).state
      (10, .updateState)).toOption.map State.activeTones = some 1 := by decide
  have hafter : ((run (step defaultConfig) (.initial defaultConfig 0) (twoNotes.take 2)).after
      defaultConfig (10, .updateState)).length = 0 := by decide
  have hactive : s.activeTones = 0 := hexact.active.trans hafter
  have hsome : (Except.ok s : Except Fault State).toOption.map State.activeTones = some 1 :=
    hstep ▸ hsounds
  rw [Except.toOption, Option.map_some, hactive] at hsome
  cases hsome

end Performance

end Qmk.Audio
