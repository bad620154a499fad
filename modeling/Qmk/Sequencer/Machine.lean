import Mathlib.Algebra.Group.Nat.Defs
import Mathlib.Logic.Function.Basic
import Qmk.Lib.Sweep

/-!
# The step sequencer

The configuration functions of `sequencer.c`, and the task that walks through the tracks
of a step: first attack, then release, one track at a call.
-/

namespace Qmk.Sequencer

open Qmk.Lib

structure Config where
  /-- `SEQUENCER_STEPS`. -/
  steps : Nat
  /-- `SEQUENCER_TRACKS`. -/
  tracks : Nat
  /-- `SEQUENCER_TRACK_THROTTLE`. -/
  trackThrottle : Nat
  /-- `SEQUENCER_PHASE_RELEASE_TIMEOUT`. -/
  phaseReleaseTimeout : Nat
  /-- `midi_config.octave`. -/
  octave : Nat
  /-- `midi_config.transpose`. -/
  transpose : Int
  /-- `MIDI_TONE_MIN`. -/
  toneMin : Nat

abbrev Note := BitVec 8

def midiComputeNote (cfg : Config) (keycode : BitVec 16) : Note :=
  BitVec.ofInt 8 (12 * cfg.octave + (keycode.toNat - cfg.toneMin) + cfg.transpose)

inductive Phase
  | attack
  | release
  | pause
  deriving DecidableEq

inductive Event
  | noteOn (note : Note)
  | noteOff (note : Note)
  /-- The sequencer leaves the step. -/
  | stepEnds
  | switchedOff
  deriving DecidableEq

/-- `sequencer_config` and `sequencer_internal_state`. -/
structure State where
  enabled : Bool
  steps : Nat → BitVec 8
  trackNotes : Nat → BitVec 16
  tempo : BitVec 8
  resolution : Nat
  activeTracks : BitVec 8
  currentTrack : Nat
  currentStep : Nat
  timer : BitVec 16
  phase : Phase
  /-- The note that the last attack of each track sent. -/
  attacked : Nat → Option Note
  /-- Last event first. -/
  trace : List Event

def State.initial : State where
  enabled := false
  steps _ := 0
  trackNotes _ := 0
  tempo := 60
  resolution := 2
  activeTracks := 0
  currentTrack := 0
  currentStep := 0
  timer := 0
  phase := .attack
  attacked _ := none
  trace := []

def sequencerResolutions : Nat := 9

/-! ## Configuration functions -/

def sequencerOn (now : BitVec 16) (s : State) : State :=
  { s with
    enabled := true
    currentTrack := 0
    currentStep := 0
    timer := now
    phase := .attack
    trace := .stepEnds :: s.trace }

def sequencerOff (s : State) : State :=
  { s with enabled := false, currentStep := 0, trace := .switchedOff :: s.trace }

def sequencerToggle (now : BitVec 16) (s : State) : State :=
  if s.enabled = true then sequencerOff s else sequencerOn now s

def sequencerSetTrackNotes (cfg : Config) (trackNotes : Nat → BitVec 16) (s : State) : State :=
  { s with trackNotes := fun i => if i < cfg.tracks then trackNotes i else s.trackNotes i }

def isSequencerTrackActive (track : Nat) (s : State) : Bool :=
  s.activeTracks.getLsbD track

def sequencerSetTrackActivation (track : Nat) (value : Bool) (s : State) : State :=
  if value = true then
    { s with activeTracks := s.activeTracks ||| (1#32 <<< track).setWidth 8 }
  else { s with activeTracks := s.activeTracks &&& ~~~((1#32 <<< track).setWidth 8) }

def sequencerToggleTrackActivation (track : Nat) (s : State) : State :=
  sequencerSetTrackActivation track (!isSequencerTrackActive track s) s

def sequencerToggleSingleActiveTrack (track : Nat) (s : State) : State :=
  if isSequencerTrackActive track s = true then { s with activeTracks := 0 }
  else { s with activeTracks := (1#32 <<< track).setWidth 8 }

def isSequencerStepOn (cfg : Config) (step : Nat) (s : State) : Bool :=
  step < cfg.steps ∧ s.steps step &&& s.activeTracks ≠ 0#8

def isSequencerStepOnForTrack (cfg : Config) (step track : Nat) (s : State) : Bool :=
  step < cfg.steps ∧ (s.steps step).getLsbD track = true

/-- `steps[step]` with the active tracks switched on or off. -/
def writeStep (value : Bool) (s : State) (step : Nat) : State :=
  { s with
    steps := Function.update s.steps step
      (if value = true then s.steps step ||| s.activeTracks
        else s.steps step &&& ~~~s.activeTracks) }

def sequencerSetStep (cfg : Config) (step : Nat) (value : Bool) (s : State) : State :=
  if step < cfg.steps then writeStep value s step else s

def sequencerToggleStep (cfg : Config) (step : Nat) (s : State) : State :=
  sequencerSetStep cfg step (!isSequencerStepOn cfg step s) s

def sequencerSetAllSteps (cfg : Config) (value : Bool) (s : State) : State :=
  forRange cfg.steps (fun step s => writeStep value s step) s

def sequencerSetTempo (tempo : BitVec 8) (s : State) : State :=
  if tempo ≠ 0 then { s with tempo } else s

def sequencerIncreaseTempo (s : State) : State :=
  if s.tempo.toNat < 255 then sequencerSetTempo (s.tempo + 1) s else s

def sequencerDecreaseTempo (s : State) : State :=
  sequencerSetTempo (s.tempo - 1) s

def sequencerSetResolution (resolution : Int) (s : State) : State :=
  if 0 ≤ resolution ∧ resolution < sequencerResolutions then
    { s with resolution := resolution.toNat }
  else s

def sequencerIncreaseResolution (s : State) : State :=
  sequencerSetResolution (s.resolution + 1) s

def sequencerDecreaseResolution (s : State) : State :=
  sequencerSetResolution (s.resolution - 1) s

/-! ## The task -/

def getBeatDuration (tempo : BitVec 8) : Nat :=
  60000 / (if tempo = 0 then 60 else tempo.toNat)

def getStepDuration (tempo : BitVec 8) (resolution : Nat) : Nat :=
  let binarySteps := 2 * 2 ^ (resolution / 2)
  let binaryStepDuration := getBeatDuration tempo * 4 / binarySteps % 2 ^ 16
  if resolution % 2 = 0 then binaryStepDuration else 2 * binaryStepDuration / 3

/-- `timer_elapsed(sequencer_internal_state.timer)`. -/
def State.elapsed (now : BitVec 16) (s : State) : Nat := (now - s.timer).toNat

/-- What the track sends in the current step. -/
def noteOf (cfg : Config) (s : State) (track : Nat) : Option Note :=
  if isSequencerStepOnForTrack cfg s.currentStep track s = true then
    some (midiComputeNote cfg (s.trackNotes track))
  else none

def processMidiBasicNoteon (note : Option Note) (s : State) : State :=
  { s with
    attacked := Function.update s.attacked s.currentTrack note
    trace := (note.map .noteOn).toList ++ s.trace }

def processMidiBasicNoteoff (note : Option Note) (s : State) : State :=
  { s with trace := (note.map .noteOff).toList ++ s.trace }

def sequencerPhaseAttack (cfg : Config) (now : BitVec 16) (s : State) : State :=
  let s := if s.currentTrack = 0 then { s with timer := now } else s
  if s.elapsed now < s.currentTrack * cfg.trackThrottle then s
  else
    let s := processMidiBasicNoteon (noteOf cfg s s.currentTrack) s
    if s.currentTrack < cfg.tracks - 1 then { s with currentTrack := s.currentTrack + 1 }
    else { s with phase := .release }

/-- The release of the current track is due. -/
def releaseDue (cfg : Config) (now : BitVec 16) (s : State) : Prop :=
  cfg.phaseReleaseTimeout + s.currentTrack * cfg.trackThrottle ≤ s.elapsed now

instance (cfg : Config) (now : BitVec 16) (s : State) : Decidable (releaseDue cfg now s) :=
  inferInstanceAs (Decidable (_ ≤ _))

def sequencerPhaseRelease (cfg : Config) (now : BitVec 16) (s : State) : State :=
  if ¬releaseDue cfg now s then s
  else
    let s := processMidiBasicNoteoff (noteOf cfg s s.currentTrack) s
    if 0 < s.currentTrack then { s with currentTrack := s.currentTrack - 1 }
    else { s with phase := .pause }

def sequencerPhasePause (cfg : Config) (now : BitVec 16) (s : State) : State :=
  if s.elapsed now < getStepDuration s.tempo s.resolution then s
  else
    { s with
      currentStep := (s.currentStep + 1) % cfg.steps
      phase := .attack
      trace := .stepEnds :: s.trace }

def sequencerTask (cfg : Config) (now : BitVec 16) (s : State) : State :=
  if s.enabled = false then s
  else
    let s := if s.phase = .pause then sequencerPhasePause cfg now s else s
    let s := if s.phase = .release then sequencerPhaseRelease cfg now s else s
    if s.phase = .attack then sequencerPhaseAttack cfg now s else s

/-! ## Calls -/

inductive Input
  | task (now : BitVec 16)
  | on (now : BitVec 16)
  | off
  | toggle (now : BitVec 16)
  | setTrackNotes (trackNotes : Nat → BitVec 16)
  | setTrackActivation (track : Nat) (value : Bool)
  | toggleTrackActivation (track : Nat)
  | toggleSingleActiveTrack (track : Nat)
  | setStep (step : Nat) (value : Bool)
  | toggleStep (step : Nat)
  | setAllSteps (value : Bool)
  | setTempo (tempo : BitVec 8)
  | increaseTempo
  | decreaseTempo
  | setResolution (resolution : Int)
  | increaseResolution
  | decreaseResolution

def step (cfg : Config) (s : State) : Input → State
  | .task now => sequencerTask cfg now s
  | .on now => sequencerOn now s
  | .off => sequencerOff s
  | .toggle now => sequencerToggle now s
  | .setTrackNotes trackNotes => sequencerSetTrackNotes cfg trackNotes s
  | .setTrackActivation track value => sequencerSetTrackActivation track value s
  | .toggleTrackActivation track => sequencerToggleTrackActivation track s
  | .toggleSingleActiveTrack track => sequencerToggleSingleActiveTrack track s
  | .setStep step value => sequencerSetStep cfg step value s
  | .toggleStep step => sequencerToggleStep cfg step s
  | .setAllSteps value => sequencerSetAllSteps cfg value s
  | .setTempo tempo => sequencerSetTempo tempo s
  | .increaseTempo => sequencerIncreaseTempo s
  | .decreaseTempo => sequencerDecreaseTempo s
  | .setResolution resolution => sequencerSetResolution resolution s
  | .increaseResolution => sequencerIncreaseResolution s
  | .decreaseResolution => sequencerDecreaseResolution s

end Qmk.Sequencer
