import Qmk.Lib.Run
import Qmk.Lib.Trace
import Qmk.Sequencer.Machine

/-!
# Notes that sound

Each note that an attack switched on is switched off by the release of the same track, as
long as that finds the step and the note of the track as the attack found them, and the
sequencer is neither switched off nor started anew in between.
-/

namespace Qmk.Sequencer

open Qmk.Lib

/-- How often the note has been switched on and not yet off. -/
def sounding : List Event → Note → Nat
  | [], _ => 0
  | .noteOn note :: past, n => sounding past n + if note = n then 1 else 0
  | .noteOff note :: past, n => sounding past n - if note = n then 1 else 0
  | _ :: past, n => sounding past n

/-- A note that is switched off sounds, and none sounds when the step ends or the
sequencer is switched off. -/
def Allowed (past : List Event) : Event → Prop
  | .noteOn _ => True
  | .noteOff note => 0 < sounding past note
  | .stepEnds => ∀ note, sounding past note = 0
  | .switchedOff => ∀ note, sounding past note = 0

/-- How many tracks have been attacked and wait for their release. -/
def pending (s : State) : Nat :=
  if s.enabled = true then
    match s.phase with
    | .attack => s.currentTrack
    | .release => s.currentTrack + 1
    | .pause => 0
  else 0

/-- No track that waits for its release has sent a note. -/
def Silent (s : State) : Prop :=
  ∀ track < pending s, s.attacked track = none

/-- The release that is due sends the note of the attack, and the sequencer is switched
off or started anew only where no release of a note is outstanding. -/
def Matched (cfg : Config) (s : State) : Input → Prop
  | .task now => s.enabled = true → s.phase = .release → releaseDue cfg now s →
      noteOf cfg s s.currentTrack = s.attacked s.currentTrack
  | .on _ => Silent s
  | .off => Silent s
  | .toggle _ => Silent s
  | _ => True

/-! ## The invariant -/

/-- How many of the tracks that wait for their release have sent the note. -/
def waiting (attacked : Nat → Option Note) (count : Nat) (note : Note) : Nat :=
  (List.range count).countP fun track => attacked track = some note

/-- The next step begins with the first track. -/
def Rewound (s : State) : Prop := s.phase = .pause → s.currentTrack = 0

structure Inv (s : State) : Prop where
  allowed : Always Allowed s.trace
  sounding : ∀ note, sounding s.trace note = waiting s.attacked (pending s) note
  rewound : Rewound s

theorem waiting_succ (attacked : Nat → Option Note) (count : Nat) (note : Note) :
    waiting attacked (count + 1) note =
      waiting attacked count note + if attacked count = some note then 1 else 0 := by
  simp [waiting, List.range_succ, List.countP_append, List.countP_cons]

theorem waiting_update (attacked : Nat → Option Note) (count : Nat) (sent : Option Note)
    (note : Note) :
    waiting (Function.update attacked count sent) count note = waiting attacked count note := by
  refine List.countP_congr fun track htrack => ?_
  rw [Function.update_of_ne (Nat.ne_of_lt (List.mem_range.mp htrack))]

theorem Silent.waiting_eq_zero {s : State} (h : Silent s) (note : Note) :
    waiting s.attacked (pending s) note = 0 := by
  refine List.countP_eq_zero.mpr fun track htrack => ?_
  simp [h track (List.mem_range.mp htrack)]

theorem inv_initial : Inv State.initial where
  allowed := Always.nil
  sounding _ := rfl
  rewound _ := rfl

theorem Inv.congr {s s' : State} (h : Inv s) (htrace : s'.trace = s.trace)
    (hattacked : s'.attacked = s.attacked) (hpending : pending s' = pending s)
    (hrewound : Rewound s') : Inv s' where
  allowed := htrace ▸ h.allowed
  sounding note := by rw [htrace, hattacked, hpending, h.sounding]
  rewound := hrewound

theorem Inv.leave {s s' : State} (h : Inv s) (hsilent : Silent s) {event : Event}
    (hevent : event = .stepEnds ∨ event = .switchedOff) (htrace : s'.trace = event :: s.trace)
    (hpending : pending s' = 0) (hrewound : Rewound s') : Inv s' := by
  have hnone (note : Note) : Sequencer.sounding s.trace note = 0 :=
    (h.sounding note).trans (hsilent.waiting_eq_zero note)
  refine ⟨?_, fun note => ?_, hrewound⟩
  · rw [htrace, Always.cons_iff]
    rcases hevent with rfl | rfl <;> exact ⟨h.allowed, hnone⟩
  · rw [htrace, hpending]
    rcases hevent with rfl | rfl <;> exact hnone note

theorem sequencerOn_inv {s : State} (h : Inv s) (hsilent : Silent s) (now : BitVec 16) :
    Inv (sequencerOn now s) :=
  h.leave hsilent (.inl rfl) rfl rfl fun _ => rfl

theorem sequencerOff_inv {s : State} (h : Inv s) (hsilent : Silent s) :
    Inv (sequencerOff s) :=
  h.leave hsilent (.inr rfl) rfl rfl h.rewound

theorem Inv.noteOn {s s' : State} (h : Inv s) (hbefore : pending s = s.currentTrack)
    (note : Option Note) (htrace : s'.trace = (processMidiBasicNoteon note s).trace)
    (hattacked : s'.attacked = (processMidiBasicNoteon note s).attacked)
    (hafter : pending s' = s.currentTrack + 1) (hrewound : Rewound s') : Inv s' := by
  have hwaiting (n : Note) : waiting s'.attacked (pending s') n =
      Sequencer.sounding s.trace n + if note = some n then 1 else 0 := by
    rw [hattacked, hafter, waiting_succ, h.sounding, hbefore]
    simp only [processMidiBasicNoteon, waiting_update, Function.update_self]
  refine ⟨?_, fun n => ?_, hrewound⟩
  · rw [htrace]
    cases note with
    | none => exact h.allowed
    | some note => exact Always.cons_iff.mpr ⟨h.allowed, trivial⟩
  · rw [hwaiting, htrace]
    cases note <;> simp [processMidiBasicNoteon, Sequencer.sounding]

/-- The release of the track attacked last takes it away, with its note. -/
theorem Inv.noteOff {s s' : State} (h : Inv s) (hbefore : pending s = s.currentTrack + 1)
    (htrace : s'.trace = (processMidiBasicNoteoff (s.attacked s.currentTrack) s).trace)
    (hattacked : s'.attacked = s.attacked) (hafter : pending s' = s.currentTrack)
    (hrewound : Rewound s') : Inv s' := by
  have hwaiting (n : Note) : Sequencer.sounding s.trace n =
      waiting s'.attacked (pending s') n +
        if s.attacked s.currentTrack = some n then 1 else 0 := by
    rw [h.sounding, hbefore, waiting_succ, hattacked, hafter]
  cases hnote : s.attacked s.currentTrack with
  | none =>
      have hsame : s'.trace = s.trace := by rw [htrace, hnote]; rfl
      refine ⟨hsame ▸ h.allowed, fun n => ?_, hrewound⟩
      rw [hsame, hwaiting, hnote]
      simp
  | some note =>
      have hoff : s'.trace = .noteOff note :: s.trace := by rw [htrace, hnote]; rfl
      refine ⟨?_, fun n => ?_, hrewound⟩
      · rw [hoff, Always.cons_iff]
        refine ⟨h.allowed, ?_⟩
        rw [Allowed, hwaiting, hnote, if_pos rfl]
        omega
      · rw [hoff, Sequencer.sounding, hwaiting, hnote]
        simp

theorem rewound_of_ne {s : State} (h : s.phase ≠ .pause) : Rewound s :=
  fun hpause => absurd hpause h

theorem sequencerPhaseAttack_inv {cfg : Config} {s : State} (h : Inv s)
    (henabled : s.enabled = true) (hphase : s.phase = .attack) (now : BitVec 16) :
    Inv (sequencerPhaseAttack cfg now s) := by
  unfold sequencerPhaseAttack
  generalize hstarted : (if s.currentTrack = 0 then { s with timer := now } else s) = started
  have hsame : started.enabled = true ∧ started.phase = .attack ∧ Inv started := by
    subst hstarted
    split
    · exact ⟨henabled, hphase, h.congr rfl rfl rfl h.rewound⟩
    · exact ⟨henabled, hphase, h⟩
  obtain ⟨henabled, hphase, h⟩ := hsame
  have hbefore : pending started = started.currentTrack := by
    simp [pending, henabled, hphase]
  have hattack : started.phase ≠ .pause := by simp [hphase]
  dsimp only
  split
  · exact h
  · split
    · refine h.noteOn hbefore (noteOf cfg started started.currentTrack) rfl rfl ?_ (rewound_of_ne hattack)
      simp [pending, processMidiBasicNoteon, henabled, hphase]
    · refine h.noteOn hbefore (noteOf cfg started started.currentTrack) rfl rfl ?_ (rewound_of_ne nofun)
      simp [pending, processMidiBasicNoteon, henabled]

theorem sequencerPhaseRelease_inv {cfg : Config} {s : State} (h : Inv s)
    (henabled : s.enabled = true) (hphase : s.phase = .release) {now : BitVec 16}
    (hmatched : releaseDue cfg now s → noteOf cfg s s.currentTrack = s.attacked s.currentTrack) :
    Inv (sequencerPhaseRelease cfg now s) := by
  have hbefore : pending s = s.currentTrack + 1 := by
    simp [pending, henabled, hphase]
  have hrelease : s.phase ≠ .pause := by simp [hphase]
  unfold sequencerPhaseRelease
  split
  · exact h
  · rename_i hdue
    rw [hmatched (Decidable.not_not.mp hdue)]
    dsimp only
    split
    · rename_i hpos
      have hpos : 0 < s.currentTrack := hpos
      refine h.noteOff hbefore rfl rfl ?_ (rewound_of_ne hrelease)
      simp only [pending, processMidiBasicNoteoff, henabled, hphase, if_true]
      omega
    · rename_i hlast
      have hlast : s.currentTrack = 0 := Nat.eq_zero_of_not_pos hlast
      refine h.noteOff hbefore rfl rfl ?_ fun _ => hlast
      simp [pending, processMidiBasicNoteoff, henabled, hlast]

theorem sequencerPhasePause_inv {cfg : Config} {s : State} (h : Inv s)
    (hphase : s.phase = .pause) (now : BitVec 16) : Inv (sequencerPhasePause cfg now s) := by
  have hbefore : pending s = 0 := by simp [pending, hphase]
  have hsilent : Silent s := fun track htrack => by
    rw [hbefore] at htrack
    contradiction
  unfold sequencerPhasePause
  split
  · exact h
  · refine h.leave hsilent (.inl rfl) rfl ?_ (rewound_of_ne nofun)
    simp [pending, h.rewound hphase]

theorem sequencerPhasePause_enabled (cfg : Config) (now : BitVec 16) (s : State) :
    (sequencerPhasePause cfg now s).enabled = s.enabled := by
  unfold sequencerPhasePause
  split <;> rfl

theorem sequencerPhasePause_phase (cfg : Config) (now : BitVec 16) {s : State}
    (h : s.phase = .pause) : (sequencerPhasePause cfg now s).phase ≠ .release := by
  unfold sequencerPhasePause
  split <;> simp [h]

theorem sequencerPhaseRelease_phase (cfg : Config) (now : BitVec 16) {s : State}
    (h : s.phase = .release) : (sequencerPhaseRelease cfg now s).phase ≠ .attack := by
  unfold sequencerPhaseRelease
  split
  · simp [h]
  · dsimp only
    split <;> simp [processMidiBasicNoteoff, h]

theorem sequencerTask_inv {cfg : Config} {s : State} (h : Inv s) {now : BitVec 16}
    (hmatched : Matched cfg s (.task now)) : Inv (sequencerTask cfg now s) := by
  unfold sequencerTask
  by_cases henabled : s.enabled = true
  · rw [if_neg (by simp [henabled])]
    dsimp only
    cases hphase : s.phase with
    | attack =>
        simp only [hphase, reduceCtorEq, if_false, if_true]
        exact sequencerPhaseAttack_inv h henabled hphase now
    | release =>
        have hattack := sequencerPhaseRelease_phase cfg now hphase
        simp only [hphase, reduceCtorEq, if_false, if_true, hattack]
        exact sequencerPhaseRelease_inv h henabled hphase (hmatched henabled hphase)
    | pause =>
        have hrelease := sequencerPhasePause_phase cfg now hphase
        have hpaused : Inv (sequencerPhasePause cfg now s) :=
          sequencerPhasePause_inv h hphase now
        simp only [if_false, if_true, hrelease]
        split
        · rename_i hattack
          have hon := (sequencerPhasePause_enabled cfg now s).trans henabled
          exact sequencerPhaseAttack_inv hpaused hon hattack now
        · exact hpaused
  · rw [if_pos (Bool.not_eq_true _ ▸ henabled)]
    exact h

/-! ## Configuration functions -/

/-- The state of the phases and the trace are as they were. -/
structure Untouched (s s' : State) : Prop where
  enabled : s'.enabled = s.enabled
  phase : s'.phase = s.phase
  currentTrack : s'.currentTrack = s.currentTrack
  attacked : s'.attacked = s.attacked
  trace : s'.trace = s.trace

theorem Untouched.refl (s : State) : Untouched s s := ⟨rfl, rfl, rfl, rfl, rfl⟩

theorem Untouched.pending {s s' : State} (h : Untouched s s') : pending s' = pending s := by
  simp only [Sequencer.pending, h.enabled, h.phase, h.currentTrack]

theorem Untouched.inv {s s' : State} (h : Untouched s s') (hs : Inv s) : Inv s' := by
  refine hs.congr h.trace h.attacked h.pending fun hpause => ?_
  rw [h.currentTrack]
  exact hs.rewound (h.phase.symm.trans hpause)

theorem sequencerSetTrackNotes_untouched (cfg : Config) (trackNotes : Nat → BitVec 16)
    (s : State) : Untouched s (sequencerSetTrackNotes cfg trackNotes s) :=
  ⟨rfl, rfl, rfl, rfl, rfl⟩

theorem sequencerSetStep_untouched (cfg : Config) (step : Nat) (value : Bool) (s : State) :
    Untouched s (sequencerSetStep cfg step value s) := by
  unfold sequencerSetStep
  split <;> exact ⟨rfl, rfl, rfl, rfl, rfl⟩

theorem sequencerSetAllSteps_untouched (cfg : Config) (value : Bool) (s : State) :
    Untouched s (sequencerSetAllSteps cfg value s) := by
  unfold sequencerSetAllSteps
  generalize cfg.steps = n
  induction n with
  | zero => exact .refl s
  | succ n ih =>
      rw [forRange_succ]
      exact ⟨ih.enabled, ih.phase, ih.currentTrack, ih.attacked, ih.trace⟩

/-- Configuration functions that leave the steps and the notes of the tracks alone. -/
structure Retuned (s s' : State) : Prop extends Untouched s s' where
  steps : s'.steps = s.steps
  trackNotes : s'.trackNotes = s.trackNotes
  currentStep : s'.currentStep = s.currentStep

theorem sequencerSetTrackActivation_retuned (track : Nat) (value : Bool) (s : State) :
    Retuned s (sequencerSetTrackActivation track value s) := by
  unfold sequencerSetTrackActivation
  split <;> exact ⟨⟨rfl, rfl, rfl, rfl, rfl⟩, rfl, rfl, rfl⟩

theorem sequencerToggleSingleActiveTrack_retuned (track : Nat) (s : State) :
    Retuned s (sequencerToggleSingleActiveTrack track s) := by
  unfold sequencerToggleSingleActiveTrack
  split <;> exact ⟨⟨rfl, rfl, rfl, rfl, rfl⟩, rfl, rfl, rfl⟩

theorem sequencerSetTempo_retuned (tempo : BitVec 8) (s : State) :
    Retuned s (sequencerSetTempo tempo s) := by
  unfold sequencerSetTempo
  by_cases h : tempo = 0
  · rw [if_neg (not_not_intro h)]
    exact ⟨.refl s, rfl, rfl, rfl⟩
  · rw [if_pos h]
    exact ⟨⟨rfl, rfl, rfl, rfl, rfl⟩, rfl, rfl, rfl⟩

theorem sequencerIncreaseTempo_retuned (s : State) :
    Retuned s (sequencerIncreaseTempo s) := by
  unfold sequencerIncreaseTempo
  split
  · exact sequencerSetTempo_retuned _ s
  · exact ⟨.refl s, rfl, rfl, rfl⟩

theorem sequencerSetResolution_retuned (resolution : Int) (s : State) :
    Retuned s (sequencerSetResolution resolution s) := by
  unfold sequencerSetResolution
  split <;> exact ⟨⟨rfl, rfl, rfl, rfl, rfl⟩, rfl, rfl, rfl⟩

/-! ## Runs -/

theorem Inv.step {cfg : Config} {s : State} (h : Inv s) (input : Input)
    (hmatched : Matched cfg s input) : Inv (Sequencer.step cfg s input) := by
  cases input with
  | task now => exact sequencerTask_inv h hmatched
  | on now => exact sequencerOn_inv h hmatched now
  | off => exact sequencerOff_inv h hmatched
  | toggle now =>
      simp only [Sequencer.step, sequencerToggle]
      split
      · exact sequencerOff_inv h hmatched
      · exact sequencerOn_inv h hmatched now
  | setTrackNotes trackNotes => exact (sequencerSetTrackNotes_untouched cfg trackNotes s).inv h
  | setTrackActivation track value =>
      exact (sequencerSetTrackActivation_retuned track value s).inv h
  | toggleTrackActivation track => exact (sequencerSetTrackActivation_retuned track _ s).inv h
  | toggleSingleActiveTrack track => exact (sequencerToggleSingleActiveTrack_retuned track s).inv h
  | setStep step value => exact (sequencerSetStep_untouched cfg step value s).inv h
  | toggleStep step => exact (sequencerSetStep_untouched cfg step _ s).inv h
  | setAllSteps value => exact (sequencerSetAllSteps_untouched cfg value s).inv h
  | setTempo tempo => exact (sequencerSetTempo_retuned tempo s).inv h
  | increaseTempo => exact (sequencerIncreaseTempo_retuned s).inv h
  | decreaseTempo => exact (sequencerSetTempo_retuned _ s).inv h
  | setResolution resolution => exact (sequencerSetResolution_retuned resolution s).inv h
  | increaseResolution => exact (sequencerSetResolution_retuned _ s).inv h
  | decreaseResolution => exact (sequencerSetResolution_retuned _ s).inv h

/-- In a run where releases match attacks, a note is switched off only while it sounds,
and none sounds any more when its step ends or the sequencer is switched off. -/
theorem sequencer_notes (cfg : Config) {inputs : List Input}
    (h : Meets (step cfg) (Matched cfg) State.initial inputs) :
    Always Allowed (run (step cfg) State.initial inputs).trace :=
  (h.preserves Inv (fun _ input hs hmatched => hs.step input hmatched) inv_initial).allowed

def oneTrack : Config where
  steps := 16
  tracks := 1
  trackThrottle := 3
  phaseReleaseTimeout := 30
  octave := 0
  transpose := 0
  toneMin := 0

/-- The track of the first step is attacked and released, then the sequencer goes off. -/
def playedOut : List Input :=
  [.setTrackActivation 0 true, .setStep 0 true, .on 0, .task 0, .task 30, .off]

theorem playedOut_meets : Meets (step oneTrack) (Matched oneTrack) State.initial playedOut := by
  refine ⟨trivial, trivial, ?_, ?_, ?_, ?_, trivial⟩
  · exact fun _ hpending => absurd hpending (Nat.not_lt_zero _)
  · intro _ hphase
    exact absurd hphase (by decide)
  · intro _ _ _
    decide
  · exact fun _ hpending => absurd hpending (Nat.not_lt_zero _)

theorem playedOut_allowed :
    Always Allowed (run (step oneTrack) State.initial playedOut).trace :=
  sequencer_notes oneTrack playedOut_meets

/-- The sequencer goes off before the track is released. -/
def cutOff : List Input :=
  [.setTrackActivation 0 true, .setStep 0 true, .on 0, .task 0, .off]

theorem cutOff_not_allowed :
    ¬Always Allowed (run (step oneTrack) State.initial cutOff).trace := by
  intro h
  have hnone : ∀ note, sounding [.noteOn 0, .stepEnds] note = 0 := (Always.cons_iff.mp h).2
  exact absurd (hnone 0) (by decide)

/-! ## Calls between two steps -/

/-- The functions that change what a release sends, or that leave the step, are called
only while no track waits for its release. -/
def Between (s : State) : Input → Prop
  | .on _ => pending s = 0
  | .off => pending s = 0
  | .toggle _ => pending s = 0
  | .setTrackNotes _ => pending s = 0
  | .setStep _ _ => pending s = 0
  | .toggleStep _ => pending s = 0
  | .setAllSteps _ => pending s = 0
  | _ => True

/-- Each track that waits for its release has sent what it would send now. -/
def Fixed (cfg : Config) (s : State) : Prop :=
  ∀ track < pending s, s.attacked track = noteOf cfg s track

theorem fixed_of_pending {cfg : Config} {s : State} (h : pending s = 0) : Fixed cfg s :=
  fun track htrack => absurd (h ▸ htrack) (Nat.not_lt_zero track)

theorem Fixed.matched {cfg : Config} {s : State} (h : Fixed cfg s) {input : Input}
    (hbetween : Between s input) : Matched cfg s input := by
  have hsilent (hnone : pending s = 0) : Silent s := fun track htrack =>
    absurd (hnone ▸ htrack) (Nat.not_lt_zero track)
  cases input with
  | task now =>
      intro henabled hphase _
      exact (h _ (by simp [pending, henabled, hphase])).symm
  | on => exact hsilent hbetween
  | off => exact hsilent hbetween
  | toggle => exact hsilent hbetween
  | _ => trivial

theorem noteOf_congr (cfg : Config) {s s' : State} (hsteps : s'.steps = s.steps)
    (hnotes : s'.trackNotes = s.trackNotes) (hstep : s'.currentStep = s.currentStep)
    (track : Nat) : noteOf cfg s' track = noteOf cfg s track := by
  simp only [noteOf, isSequencerStepOnForTrack, decide_eq_true_eq, hsteps, hnotes, hstep]

theorem Retuned.fixed {cfg : Config} {s s' : State} (hs : Retuned s s') (h : Fixed cfg s) :
    Fixed cfg s' := by
  intro track htrack
  rw [hs.toUntouched.pending] at htrack
  rw [hs.attacked, h track htrack, noteOf_congr cfg hs.steps hs.trackNotes hs.currentStep]

theorem Fixed.noteOn {cfg : Config} {s s' : State} (h : Fixed cfg s)
    (hbefore : pending s = s.currentTrack)
    (hattacked : s'.attacked =
      (processMidiBasicNoteon (noteOf cfg s s.currentTrack) s).attacked)
    (hnote : ∀ track, noteOf cfg s' track = noteOf cfg s track)
    (hafter : pending s' = s.currentTrack + 1) : Fixed cfg s' := by
  intro track htrack
  rw [hattacked, hnote]
  simp only [processMidiBasicNoteon]
  by_cases hcurrent : track = s.currentTrack
  · rw [hcurrent, Function.update_self]
  · rw [Function.update_of_ne hcurrent]
    exact h track (by omega)

theorem sequencerPhaseAttack_fixed {cfg : Config} {s : State} (h : Fixed cfg s)
    (henabled : s.enabled = true) (hphase : s.phase = .attack) (now : BitVec 16) :
    Fixed cfg (sequencerPhaseAttack cfg now s) := by
  unfold sequencerPhaseAttack
  generalize hstarted : (if s.currentTrack = 0 then { s with timer := now } else s) = started
  have hsame : started.enabled = true ∧ started.phase = .attack ∧ Fixed cfg started := by
    subst hstarted
    split
    · exact ⟨henabled, hphase, h⟩
    · exact ⟨henabled, hphase, h⟩
  obtain ⟨henabled, hphase, h⟩ := hsame
  have hbefore : pending started = started.currentTrack := by
    simp [pending, henabled, hphase]
  dsimp only
  split
  · exact h
  · split
    · refine h.noteOn hbefore rfl (fun track => noteOf_congr cfg rfl rfl rfl track) ?_
      simp [pending, processMidiBasicNoteon, henabled, hphase]
    · refine h.noteOn hbefore rfl (fun track => noteOf_congr cfg rfl rfl rfl track) ?_
      simp [pending, processMidiBasicNoteon, henabled]

theorem sequencerPhaseRelease_fixed {cfg : Config} {s : State} (h : Fixed cfg s)
    (henabled : s.enabled = true) (hphase : s.phase = .release) (now : BitVec 16) :
    Fixed cfg (sequencerPhaseRelease cfg now s) := by
  have hbefore : pending s = s.currentTrack + 1 := by
    simp [pending, henabled, hphase]
  have hkeep (s' : State) (hattacked : s'.attacked = s.attacked)
      (hnote : ∀ track, noteOf cfg s' track = noteOf cfg s track)
      (hafter : pending s' ≤ s.currentTrack) : Fixed cfg s' := by
    intro track htrack
    rw [hattacked, hnote]
    exact h track (by omega)
  unfold sequencerPhaseRelease
  split
  · exact h
  · dsimp only
    split
    · rename_i hpos
      have hpos : 0 < s.currentTrack := hpos
      refine hkeep _ rfl (fun track => noteOf_congr cfg rfl rfl rfl track) ?_
      simp only [pending, processMidiBasicNoteoff, henabled, hphase, if_true]
      omega
    · refine hkeep _ rfl (fun track => noteOf_congr cfg rfl rfl rfl track) ?_
      simp [pending, processMidiBasicNoteoff, henabled]

theorem sequencerTask_fixed {cfg : Config} {s : State} (h : Inv s) (hfixed : Fixed cfg s)
    (now : BitVec 16) : Fixed cfg (sequencerTask cfg now s) := by
  unfold sequencerTask
  by_cases henabled : s.enabled = true
  · rw [if_neg (by simp [henabled])]
    dsimp only
    cases hphase : s.phase with
    | attack =>
        simp only [hphase, reduceCtorEq, if_false, if_true]
        exact sequencerPhaseAttack_fixed hfixed henabled hphase now
    | release =>
        have hattack := sequencerPhaseRelease_phase cfg now hphase
        simp only [hphase, reduceCtorEq, if_false, if_true, hattack]
        exact sequencerPhaseRelease_fixed hfixed henabled hphase now
    | pause =>
        have hrelease := sequencerPhasePause_phase cfg now hphase
        have hnone : pending (sequencerPhasePause cfg now s) = 0 := by
          unfold sequencerPhasePause
          split <;> simp [pending, hphase, h.rewound hphase]
        have hpaused : Fixed cfg (sequencerPhasePause cfg now s) := fixed_of_pending hnone
        simp only [if_false, if_true, hrelease]
        split
        · rename_i hattack
          have hon := (sequencerPhasePause_enabled cfg now s).trans henabled
          exact sequencerPhaseAttack_fixed hpaused hon hattack now
        · exact hpaused
  · rw [if_pos (Bool.not_eq_true _ ▸ henabled)]
    exact hfixed

theorem Fixed.step {cfg : Config} {s : State} (h : Fixed cfg s) (hs : Inv s) {input : Input}
    (hbetween : Between s input) : Fixed cfg (Sequencer.step cfg s input) := by
  cases input with
  | task now => exact sequencerTask_fixed hs h now
  | on now => exact fixed_of_pending rfl
  | off => exact fixed_of_pending rfl
  | toggle now =>
      simp only [Sequencer.step, sequencerToggle]
      split <;> exact fixed_of_pending rfl
  | setTrackNotes trackNotes =>
      exact fixed_of_pending ((sequencerSetTrackNotes_untouched cfg _ s).pending.trans hbetween)
  | setTrackActivation track value => exact (sequencerSetTrackActivation_retuned track value s).fixed h
  | toggleTrackActivation track => exact (sequencerSetTrackActivation_retuned track _ s).fixed h
  | toggleSingleActiveTrack track => exact (sequencerToggleSingleActiveTrack_retuned track s).fixed h
  | setStep step value =>
      exact fixed_of_pending ((sequencerSetStep_untouched cfg step value s).pending.trans hbetween)
  | toggleStep step =>
      exact fixed_of_pending ((sequencerSetStep_untouched cfg step _ s).pending.trans hbetween)
  | setAllSteps value =>
      exact fixed_of_pending ((sequencerSetAllSteps_untouched cfg value s).pending.trans hbetween)
  | setTempo tempo => exact (sequencerSetTempo_retuned tempo s).fixed h
  | increaseTempo => exact (sequencerIncreaseTempo_retuned s).fixed h
  | decreaseTempo => exact (sequencerSetTempo_retuned _ s).fixed h
  | setResolution resolution => exact (sequencerSetResolution_retuned resolution s).fixed h
  | increaseResolution => exact (sequencerSetResolution_retuned _ s).fixed h
  | decreaseResolution => exact (sequencerSetResolution_retuned _ s).fixed h

/-- Tempo, resolution and the selection of tracks may change at any time; releases match
attacks as long as steps, notes and the sequencer itself are switched between two steps. -/
theorem matched_of_between (cfg : Config) {inputs : List Input}
    (h : Meets (step cfg) Between State.initial inputs) :
    Meets (step cfg) (Matched cfg) State.initial inputs :=
  h.imp_of_invariant (fun s => Inv s ∧ Fixed cfg s)
    (fun _ input hs hbetween =>
      ⟨hs.1.step input (hs.2.matched hbetween), hs.2.step hs.1 hbetween⟩)
    (fun _ _ hs hbetween => hs.2.matched hbetween)
    ⟨inv_initial, fixed_of_pending rfl⟩

end Qmk.Sequencer
