import Qmk.Lib.Run

/-!
# The music-mode recorder

The keys and the task of `process_music.c`: sixteen places for notes, a count, a position and
three flags.
-/

namespace Qmk.Music

structure Config where
  /-- `AUDIO_ENABLE`, and `MIDI_ENABLE` with `MIDI_BASIC`. -/
  audio : Bool
  midi : Bool
  matrixRows : Nat
  /-- `SCALE`. -/
  scale : Nat → Int
  /-- `music_map`, where `MUSIC_MAP` is defined. -/
  musicMap : Option (Nat → Nat → Nat)
  musicStartingNote : Nat
  musicOffset : Nat
  /-- `music_mask`. -/
  musicMask : Nat → Bool

structure State where
  musicActivated : Bool := false
  midiActivated : Bool := false
  musicMode : Nat := 3
  recording : Bool := false
  recorded : Bool := false
  playing : Bool := false
  sequence : List Nat := List.replicate 16 0
  count : Nat := 0
  position : Nat := 0
  timer : BitVec 16 := 0
  interval : BitVec 16 := 100
  deriving DecidableEq

inductive Fault
  /-- An access to `music_sequence` outside its sixteen notes. -/
  | outOfBounds
  | moduloByZero
  deriving DecidableEq

inductive Output
  | audioNoteOn (note : Nat)
  | audioNoteOff (note : Nat)
  | audioAllNotesOff
  | midiNoteOn (note : Nat)
  | midiNoteOff (note : Nat)
  | midiAllNotesOff
  deriving DecidableEq

def kcDown : Nat := 0x51
def kcUp : Nat := 0x52
def kcLeftCtrl : Nat := 0xE0
def kcLeftAlt : Nat := 0xE2
def kcLeftGui : Nat := 0xE3
def qkMidiOn : Nat := 0x7100
def qkMidiOff : Nat := 0x7101
def qkMidiToggle : Nat := 0x7102
def qkMusicOn : Nat := 0x7490
def qkMusicOff : Nat := 0x7491
def qkMusicToggle : Nat := 0x7492
def qkMusicModeNext : Nat := 0x7493

variable (cfg : Config)

def musicNoteon (note : Nat) (s : State) : List Output :=
  (if cfg.audio && s.musicActivated then [.audioNoteOn note] else []) ++
    (if cfg.midi && s.midiActivated then [.midiNoteOn note] else [])

def musicNoteoff (note : Nat) (s : State) : List Output :=
  (if cfg.audio && s.musicActivated then [.audioNoteOff note] else []) ++
    (if cfg.midi && s.midiActivated then [.midiNoteOff note] else [])

def musicAllNotesOff (s : State) : List Output :=
  (if cfg.audio && s.musicActivated then [.audioAllNotesOff] else []) ++
    (if cfg.midi && s.midiActivated then [.midiAllNotesOff] else [])

def musicOn (s : State) : State × List Output := ({ s with musicActivated := true }, [])

def musicOff (s : State) : State × List Output :=
  ({ s with musicActivated := false }, musicAllNotesOff cfg s)

def midiOn (s : State) : State × List Output := ({ s with midiActivated := true }, [])

def midiOff (s : State) : State × List Output :=
  ({ s with midiActivated := false }, if cfg.midi then [.midiAllNotesOff] else [])

def musicModeCycle (s : State) : State × List Output :=
  ({ s with musicMode := (s.musicMode + 1) % 4 }, musicAllNotesOff cfg s)

/-- The keys that `process_music` handles whether the music mode is on or not. -/
def modeKey (keycode : Nat) (s : State) : Option (State × List Output) :=
  if keycode = qkMusicOn then some (musicOn s)
  else if keycode = qkMusicOff then some (musicOff cfg s)
  else if keycode = qkMusicToggle then
    some (if s.musicActivated then musicOff cfg s else musicOn s)
  else if keycode = qkMidiOn then some (midiOn s)
  else if keycode = qkMidiOff then some (midiOff cfg s)
  else if keycode = qkMidiToggle then some (if s.midiActivated then midiOff cfg s else midiOn s)
  else if keycode = qkMusicModeNext then some (musicModeCycle cfg s)
  else none

/-- The keys of the recorder; the key that plays is a note until something is recorded. -/
def recorderKey (keycode : Nat) (s : State) : Option (State × List Output) :=
  if keycode = kcLeftCtrl then
    some ({ s with recording := true, recorded := false, playing := false, count := 0 },
      musicAllNotesOff cfg s)
  else if keycode = kcLeftAlt then
    some ({ s with
      recorded := if s.recording then true else s.recorded
      recording := false
      playing := false }, musicAllNotesOff cfg s)
  else if keycode = kcLeftGui ∧ s.recorded then
    some ({ s with recording := false, playing := true, position := 0, timer := 0 },
      musicAllNotesOff cfg s)
  else if keycode = kcUp then some ({ s with interval := s.interval - 10 }, [])
  else if keycode = kcDown then some ({ s with interval := s.interval + 10 }, [])
  else none

/-- The note of a key, kept in eight bits. -/
def noteOf (row col : Nat) (s : State) : Nat :=
  let note : Int :=
    match cfg.musicMap with
    | some map =>
        if s.musicMode = 0 then cfg.musicStartingNote + cfg.musicOffset + 36 + map row col
        else
          cfg.musicStartingNote + cfg.musicOffset + 36 + cfg.scale (map row col % 7) +
            (map row col / 7 : Nat) * 12
    | none =>
        match s.musicMode with
        | 0 => cfg.musicStartingNote + col + cfg.musicOffset - 3 + 12 * (cfg.matrixRows - row)
        | 1 => cfg.musicStartingNote + col + cfg.musicOffset + 32 + 5 * (cfg.matrixRows - row)
        | 2 => cfg.musicStartingNote + col + cfg.musicOffset + 32 + 7 * (cfg.matrixRows - row)
        | 3 =>
            cfg.musicStartingNote + cfg.scale (col + cfg.musicOffset) - 3 +
              12 * (cfg.matrixRows - row)
        | _ => cfg.musicStartingNote
  (note % 256).toNat

/-- What a step does besides the state: the notes it sends and the places it reads. -/
structure Effect where
  continues : Bool := true
  outputs : List Output := []
  reads : List Int := []
  deriving DecidableEq

/-- A key that is a note: pressed while recording, it is written down. -/
def noteKey (keycode row col : Nat) (pressed : Bool) (s : State) : Except Fault (State × Effect) :=
  let note := noteOf cfg row col s
  let continues := !cfg.musicMask keycode
  if pressed then
    let outputs := musicNoteon cfg note s
    if s.recording then
      if s.count < s.sequence.length then
        .ok ({ s with sequence := s.sequence.set s.count note, count := (s.count + 1) % 256 },
          { continues, outputs })
      else .error .outOfBounds
    else .ok (s, { continues, outputs })
  else .ok (s, { continues, outputs := musicNoteoff cfg note s })

def processMusic (keycode row col : Nat) (pressed : Bool) (s : State) :
    Except Fault (State × Effect) :=
  match if pressed then modeKey cfg keycode s else none with
  | some (s, outputs) => .ok (s, { continues := false, outputs })
  | none =>
      if s.musicActivated || s.midiActivated then
        match if pressed then recorderKey cfg keycode s else none with
        | some (s, outputs) => .ok (s, { continues := false, outputs })
        | none => noteKey cfg keycode row col pressed s
      else .ok (s, {})

/-- `music_sequence[i]`, for an index that C computes as an `int`. -/
def readSequence (s : State) (i : Int) : Except Fault Nat :=
  if 0 ≤ i ∧ i < s.sequence.length then .ok (s.sequence.getD i.toNat 0) else .error .outOfBounds

/-- Is it time for the next note of the playback? -/
def due (now : BitVec 16) (s : State) : Bool :=
  s.playing && (s.timer = 0 || s.interval.toNat < (now - s.timer).toNat)

def previousPlace (s : State) : Int :=
  let position : Int := s.position
  if position - 1 < 0 then position - 1 + s.count else position - 1

def musicTask (now : BitVec 16) (s : State) : Except Fault (State × Effect) :=
  if due now s then
    match readSequence s (previousPlace s), readSequence s s.position with
    | .ok prevNote, .ok nextNote =>
        if s.count = 0 then .error .moduloByZero
        else
          .ok ({ s with timer := now, position := (s.position + 1) % s.count },
            { outputs := musicNoteoff cfg prevNote s ++ musicNoteon cfg nextNote s
              reads := [previousPlace s, s.position] })
    | .error fault, _ => .error fault
    | _, .error fault => .error fault
  else .ok (s, {})

inductive Event
  | key (keycode row col : Nat) (pressed : Bool)
  | task (now : BitVec 16)
  deriving DecidableEq

def step (s : State) : Event → Except Fault (State × Effect)
  | .key keycode row col pressed => processMusic cfg keycode row col pressed s
  | .task now => musicTask cfg now s

/-- The state after the step; a fault leaves none, and the old one stands in for it. -/
def next (s : State) (event : Event) : State :=
  match step cfg s event with
  | .ok (s', _) => s'
  | .error _ => s

end Qmk.Music
