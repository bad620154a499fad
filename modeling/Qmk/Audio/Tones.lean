import Qmk.Lib.Run
import Qmk.Lib.Shift

/-!
# The tone stack

The tones, the melody player and the update of `audio.c` after `audio_init`.  Pitches are
compared with zero and for equality only.  Time is counted in milliseconds; the code sees
sixteen bits of it.
-/

namespace Qmk.Audio

open Qmk.Lib

structure Config where
  /-- `audio_config.enable`. -/
  enable : Bool
  /-- `AUDIO_TONE_STACKSIZE`, which the eight bits of `active_tones` can go one beyond. -/
  stackSize : Nat
  one_le_stackSize : 1 ≤ stackSize
  stackSize_le : stackSize ≤ 254
  /-- `note_tempo`, at least 10 by its setters. -/
  tempo : Nat
  tempo_pos : 0 < tempo
  /-- `AUDIO_ENABLE_TONE_MULTIPLEXING`, `tone_multiplexing_rate` and
  `AUDIO_MAX_SIMULTANEOUS_TONES`. -/
  multiplexing : Bool
  multiplexingRate : Nat
  maxSimultaneousTones : Nat
  /-- `vibrato || glissando`. -/
  vibrato : Bool

/-- `musical_tone_t`. -/
structure Tone where
  timeStarted : BitVec 16
  pitch : Int
  duration : Nat
  deriving DecidableEq

/-- What an empty slot holds. -/
def noTone : Tone := ⟨0, -1, 0⟩

/-- A note of a song: its pitch and its duration in 1/64 of a beat. -/
structure Note where
  pitch : Int
  duration : Nat
  deriving DecidableEq

structure State where
  activeTones : Nat
  tones : List Tone
  playingMelody : Bool
  playingNote : Bool
  stateChanged : Bool
  notes : List Note
  notesRepeat : Bool
  melodyCurrentNoteDuration : Nat
  currentNote : Nat
  noteResting : Bool
  lastTimestamp : BitVec 16
  multiplexingIndexShift : Nat
  audioDriverStopped : Bool
  /-- `audio_driver_start` has been called, and `audio_driver_stop` not since. -/
  driverRunning : Bool
  deriving DecidableEq

inductive Fault
  | divisionByZero
  deriving DecidableEq

variable (cfg : Config)

def State.initial : State where
  activeTones := 0
  tones := List.replicate cfg.stackSize noTone
  playingMelody := false
  playingNote := false
  stateChanged := false
  notes := []
  notesRepeat := false
  melodyCurrentNoteDuration := 0
  currentNote := 0
  noteResting := false
  lastTimestamp := 0
  multiplexingIndexShift := 0
  audioDriverStopped := true
  driverRunning := false

def timerRead (now : Nat) : BitVec 16 := BitVec.ofNat 16 now

def timerElapsed (now : Nat) (last : BitVec 16) : Nat := (timerRead now - last).toNat

def audioDurationToMs (duration : Nat) : Nat := duration * 1875 / (cfg.tempo * 2) % 65536

def audioDriverStop (s : State) : State := { s with driverRunning := false }

def audioDriverStart (s : State) : State := { s with driverRunning := true }

def audioStopAll (s : State) : State :=
  if s.audioDriverStopped then s
  else
    let s := audioDriverStop { s with activeTones := 0 }
    { s with
      playingMelody := false
      playingNote := false
      melodyCurrentNoteDuration := 0
      tones := List.replicate cfg.stackSize noTone
      audioDriverStopped := true }

/-- The loops over the stack go from the top down. -/
def findTone (tones : List Tone) (pitch : Int) : Nat → Option Nat
  | 0 => none
  | i + 1 => if (tones.getD i noTone).pitch = pitch then some i else findTone tones pitch i

def audioStopTone (pitch : Int) (s : State) : State :=
  let pitch : Int := pitch.natAbs
  if s.playingNote then
    match findTone s.tones pitch cfg.stackSize with
    | none => s
    | some i =>
        let tones := (shiftDown noTone (cfg.stackSize - 1 - i) i s.tones).set
          (cfg.stackSize - 1) noTone
        let active := (s.activeTones + 255) % 256
        let s := { s with
          tones
          stateChanged := true
          activeTones := active
          multiplexingIndexShift :=
            if cfg.multiplexing && s.multiplexingIndexShift ≥ active then 0
            else s.multiplexingIndexShift }
        if active = 0 then
          { audioDriverStop s with audioDriverStopped := true, playingNote := false }
        else s
  else s

def audioPlayNote (now : Nat) (pitch : Int) (duration : Nat) (s : State) : State :=
  if cfg.enable then
    let pitch : Int := pitch.natAbs
    let tone : Tone := ⟨timerRead now, pitch, duration⟩
    match findTone s.tones pitch s.activeTones with
    | some i => { s with tones := shiftUp noTone tone (s.activeTones - 1 - i) i s.tones }
    | none =>
        let active := (s.activeTones + 1) % 256
        let (active, tones) :=
          if active > cfg.stackSize then
            (cfg.stackSize, shiftDown noTone (cfg.stackSize - 1) 0 s.tones)
          else (active, s.tones)
        let s := { s with
          activeTones := active
          tones := tones.set (active - 1) tone
          stateChanged := true
          playingNote := true }
        if s.audioDriverStopped then { audioDriverStart s with audioDriverStopped := false } else s
  else s

def audioPlayTone (now : Nat) (pitch : Int) (s : State) : State :=
  audioPlayNote cfg now pitch 0xffff s

def audioPlayMelody (now : Nat) (notes : List Note) (repeated : Bool) (s : State) : State :=
  if cfg.enable then
    match notes with
    | [] => s
    | first :: _ =>
        let s := if s.playingNote then audioStopAll cfg s else s
        let s := { s with
          playingMelody := true
          noteResting := false
          notes
          notesRepeat := repeated
          currentNote := 0 }
        let s := audioPlayNote cfg now first.pitch (audioDurationToMs cfg first.duration) s
        { s with
          lastTimestamp := timerRead now
          melodyCurrentNoteDuration := audioDurationToMs cfg first.duration }
  else audioStopAll cfg s

/-- `(*notes_pointer)[i]`. -/
def State.noteAt (s : State) (i : Nat) : Note := s.notes.getD i ⟨0, 0⟩

/-- The notes that were missed completely are skipped, up to the last one. -/
def skipMissed (s : State) : Nat → Nat → Nat → Nat → Nat × Nat × Nat
  | 0, delta, current, duration => (delta, current, duration)
  | fuel + 1, delta, current, duration =>
      if delta > duration ∧ current < s.notes.length - 1 then
        skipMissed s fuel (delta - duration) (current + 1)
          (audioDurationToMs cfg (s.noteAt (current + 1)).duration)
      else (delta, current, duration)

/-- What the melody does in an update: nothing yet, its end, or a note. -/
inductive Advance
  | waits
  | ends
  | plays (pitch : Int) (duration : Nat)
  deriving DecidableEq

/-- The note after the current one, at the index `next`. -/
def nextNote (delta previous next : Nat) (s : State) : State × Advance :=
  if ¬s.noteResting ∧ (s.noteAt previous).pitch = (s.noteAt next).pitch then
    ({ s with
      noteResting := true
      currentNote := previous
      melodyCurrentNoteDuration := audioDurationToMs cfg 2 },
      .plays 0 (audioDurationToMs cfg 2))
  else
    let (delta, current, duration) :=
      skipMissed cfg s s.notes.length delta next (audioDurationToMs cfg (s.noteAt next).duration)
    let duration := if delta < duration then duration - delta else 1
    ({ s with
      noteResting := false
      currentNote := current
      melodyCurrentNoteDuration := duration },
      .plays (s.noteAt current).pitch duration)

/-- The melody part of `audio_update_state`, up to the call that plays its note. -/
def advanceMelody (now : Nat) (s : State) : State × Advance :=
  if s.playingMelody ∧ s.melodyCurrentNoteDuration ≤ timerElapsed now s.lastTimestamp then
    let delta := timerElapsed now s.lastTimestamp - s.melodyCurrentNoteDuration
    let previous := s.currentNote
    let next := (previous + 1) % 65536
    let s := { s with lastTimestamp := timerRead now, currentNote := next }
    if next ≥ s.notes.length then
      if s.notesRepeat then nextNote cfg delta previous 0 s else (s, .ends)
    else nextNote cfg delta previous next s
  else (s, .waits)

/-- The tone has no playtime left. -/
def expired (now : Nat) (tone : Tone) : Bool :=
  tone.duration ≠ 0xffff && tone.duration ≠ 0 &&
    decide (tone.duration ≤ timerElapsed now tone.timeStarted)

/-- The loop of `audio_update_state` that stops tones; it has one round for each tone that was
active, and those it stops shorten it. -/
def housekeeping (now : Nat) : Nat → Nat → State → State
  | 0, _, s => s
  | rounds + 1, i, s =>
      if i < s.activeTones then
        let tone := s.tones.getD i noTone
        housekeeping now rounds (i + 1)
          (if expired now tone then audioStopTone cfg tone.pitch s else s)
      else s

/-- The part of `audio_update_state` for the tones that play. -/
def updateTones (now : Nat) (goto : Bool) (s : State) : Except Fault (State × Bool) :=
  if s.playingNote then
    let rounds := s.activeTones
    if cfg.multiplexing then
      if cfg.multiplexingRate = 0 ∨ min cfg.maxSimultaneousTones s.activeTones = 0 then
        .error .divisionByZero
      else
        let shift := (timerRead now).toNat / cfg.multiplexingRate %
          min cfg.maxSimultaneousTones s.activeTones
        .ok (housekeeping cfg now rounds 0 { s with multiplexingIndexShift := shift }, true)
    else .ok (housekeeping cfg now rounds 0 s, goto || cfg.vibrato)
  else .ok (s, goto)

/-- The end of `audio_update_state`: a change of state makes the hardware update. -/
def reportChange (result : State × Bool) : State × Bool :=
  if result.1.stateChanged then ({ result.1 with stateChanged := false }, true) else result

def audioUpdateState (now : Nat) (s : State) : Except Fault (State × Bool) :=
  if s.playingNote = false ∧ s.playingMelody = false then .ok (s, false)
  else
    match advanceMelody cfg now s with
    | (s, .waits) => (updateTones cfg now false s).map reportChange
    | (s, .ends) => .ok (audioStopAll cfg s, false)
    | (s, .plays pitch duration) =>
        (updateTones cfg now true (audioPlayNote cfg now pitch duration s)).map reportChange

inductive Call
  | playNote (pitch : Int) (duration : Nat)
  | playTone (pitch : Int)
  | stopTone (pitch : Int)
  | stopAll
  | playMelody (notes : List Note) (repeated : Bool)
  | updateState
  deriving DecidableEq

def step (s : State) : Nat × Call → Except Fault State
  | (now, .playNote pitch duration) => .ok (audioPlayNote cfg now pitch duration s)
  | (now, .playTone pitch) => .ok (audioPlayTone cfg now pitch s)
  | (_, .stopTone pitch) => .ok (audioStopTone cfg pitch s)
  | (_, .stopAll) => .ok (audioStopAll cfg s)
  | (now, .playMelody notes repeated) => .ok (audioPlayMelody cfg now notes repeated s)
  | (now, .updateState) => (audioUpdateState cfg now s).map Prod.fst

end Qmk.Audio
