import Mathlib.Algebra.Group.Nat.Defs
import Mathlib.Logic.Function.Basic
import Qmk.Lib.Run

/-!
# MIDI keys

`process_midi` with its note keys, which remember what they sound, and the keys that change
the octave, the transposition, the velocity and the channel meanwhile.
-/

namespace Qmk.Midi

open Qmk.Lib

/-! ## Keycodes -/

def midiToneMin : Nat := 0x7103
def midiToneMax : Nat := 0x714A
def midiOctaveMin : Nat := 0x714B
def midiOctaveMax : Nat := 0x7154
def qkMidiOctaveDown : Nat := 0x7155
def qkMidiOctaveUp : Nat := 0x7156
def midiTransposeMin : Nat := 0x7157
def qkMidiTranspose0 : Nat := 0x715D
def midiTransposeMax : Nat := 0x7163
def qkMidiTransposeDown : Nat := 0x7164
def qkMidiTransposeUp : Nat := 0x7165
def midiVelocityMin : Nat := 0x7166
def midiVelocityMax : Nat := 0x7170
def qkMidiVelocityDown : Nat := 0x7171
def qkMidiVelocityUp : Nat := 0x7172
def midiChannelMin : Nat := 0x7173
def midiChannelMax : Nat := 0x7182
def qkMidiChannelDown : Nat := 0x7183
def qkMidiChannelUp : Nat := 0x7184
def qkMidiAllNotesOff : Nat := 0x7185
def qkMidiSustain : Nat := 0x7186
def qkMidiPortamento : Nat := 0x7187
def qkMidiSostenuto : Nat := 0x7188
def qkMidiSoft : Nat := 0x7189
def qkMidiLegato : Nat := 0x718A
def qkMidiModulation : Nat := 0x718B
def qkMidiModulationSpeedDown : Nat := 0x718C
def qkMidiModulationSpeedUp : Nat := 0x718D
def qkMidiPitchBendDown : Nat := 0x718E
def qkMidiPitchBendUp : Nat := 0x718F

/-! ## State -/

/-- `midi_config_t`, with the widths of its fields. -/
structure MidiConfig where
  octave : BitVec 4
  transpose : BitVec 4
  velocity : BitVec 7
  channel : BitVec 4
  modulationInterval : BitVec 4

def midiInvalidNote : BitVec 8 := 0xFF

structure State where
  midiConfig : MidiConfig
  midiModulationStep : Int
  toneStatus : Nat → BitVec 8

/-- `midi_init`. -/
def State.initial : State where
  midiConfig := ⟨4, 0, 127, 0, 8⟩
  midiModulationStep := 0
  toneStatus _ := midiInvalidNote

/-- The calls that send no notes. -/
inductive Control
  | cc (channel : BitVec 4) (num val : Nat)
  | pitchbend (channel : BitVec 4) (amount : Int)

inductive Call
  | noteOn (channel : BitVec 4) (note : BitVec 8) (velocity : BitVec 7)
  | noteOff (channel : BitVec 4) (note : BitVec 8) (velocity : BitVec 7)
  | control (call : Control)

/-! ## Keys -/

/-- `12 * octave + (keycode - MIDI_TONE_MIN) + transpose`, in eight bits. -/
def midiComputeNote (c : MidiConfig) (tone : Nat) : BitVec 8 :=
  BitVec.ofInt 8 (12 * (c.octave.toNat : Int) + tone + c.transpose.toInt)

/-- The note keys. -/
def processTone (tone : Nat) (pressed : Bool) (s : State) : List Call × State :=
  let channel := s.midiConfig.channel
  let velocity := s.midiConfig.velocity
  if pressed = true then
    if s.toneStatus tone = midiInvalidNote then
      let note := midiComputeNote s.midiConfig tone
      ([.noteOn channel note velocity],
        { s with toneStatus := Function.update s.toneStatus tone note })
    else ([], s)
  else
    let note := s.toneStatus tone
    (if note ≠ midiInvalidNote then [.noteOff channel note velocity] else [],
      { s with toneStatus := Function.update s.toneStatus tone midiInvalidNote })

def computeVelocity (setting : Nat) : BitVec 7 :=
  BitVec.ofNat 7 (setting * (128 / (midiVelocityMax - midiVelocityMin)) % 256)

def octaveKey (keycode : Nat) (c : MidiConfig) : MidiConfig :=
  if keycode = qkMidiOctaveDown then
    if 0 < c.octave.toNat then { c with octave := c.octave - 1 } else c
  else if keycode = qkMidiOctaveUp then
    if c.octave.toNat < midiOctaveMax - midiOctaveMin then { c with octave := c.octave + 1 }
    else c
  else { c with octave := BitVec.ofNat 4 (keycode - midiOctaveMin) }

/-- `MIDI_TRANSPOSE_MIN - QK_MIDI_TRANSPOSE_0` and the like. -/
def transposeOf (keycode : Nat) : Int := (keycode : Int) - qkMidiTranspose0

def transposeKey (keycode : Nat) (c : MidiConfig) : MidiConfig :=
  if keycode = qkMidiTransposeDown then
    if transposeOf midiTransposeMin < c.transpose.toInt then
      { c with transpose := c.transpose - 1 }
    else c
  else if keycode = qkMidiTransposeUp then
    if c.transpose.toInt < transposeOf midiTransposeMax then
      let raised := c.transpose + 1
      if 0 < c.transpose.toInt ∧ raised.toInt < 0 then { c with transpose := raised - 1 }
      else { c with transpose := raised }
    else c
  else { c with transpose := BitVec.ofInt 4 (transposeOf keycode) }

def velocityKey (keycode : Nat) (c : MidiConfig) : MidiConfig :=
  if keycode = qkMidiVelocityDown then
    if c.velocity.toNat = 0 then c
    else if c.velocity.toNat = 127 then { c with velocity := c.velocity - 10 }
    else if 12 < c.velocity.toNat then { c with velocity := c.velocity - 13 }
    else { c with velocity := 0 }
  else if keycode = qkMidiVelocityUp then
    if c.velocity.toNat < 115 then { c with velocity := c.velocity + 13 }
    else { c with velocity := 127 }
  else { c with velocity := computeVelocity (keycode - midiVelocityMin) }

def channelKey (keycode : Nat) (c : MidiConfig) : MidiConfig :=
  if keycode = qkMidiChannelDown then { c with channel := c.channel - 1 }
  else if keycode = qkMidiChannelUp then { c with channel := c.channel + 1 }
  else { c with channel := BitVec.ofNat 4 (keycode - midiChannelMin) }

def modulationSpeedKey (keycode : Nat) (c : MidiConfig) : MidiConfig :=
  if keycode = qkMidiModulationSpeedDown then
    let raised := c.modulationInterval + 1
    { c with modulationInterval := if raised = 0 then raised - 1 else raised }
  else if 0 < c.modulationInterval.toNat then
    { c with modulationInterval := c.modulationInterval - 1 }
  else c

/-- The keys that act on a press only, by what they do to the configuration. -/
def configKey (keycode : Nat) : Option (MidiConfig → MidiConfig) :=
  if midiOctaveMin ≤ keycode ∧ keycode ≤ qkMidiOctaveUp then some (octaveKey keycode)
  else if midiTransposeMin ≤ keycode ∧ keycode ≤ qkMidiTransposeUp then
    some (transposeKey keycode)
  else if midiVelocityMin ≤ keycode ∧ keycode ≤ qkMidiVelocityUp then
    some (velocityKey keycode)
  else if midiChannelMin ≤ keycode ∧ keycode ≤ qkMidiChannelUp then some (channelKey keycode)
  else if qkMidiModulationSpeedDown ≤ keycode ∧ keycode ≤ qkMidiModulationSpeedUp then
    some (modulationSpeedKey keycode)
  else none

/-- The pedals `0x40` to `0x44`, from sustain to legato. -/
def pedal (keycode : Nat) : Option Nat :=
  if qkMidiSustain ≤ keycode ∧ keycode ≤ qkMidiLegato then
    some (0x40 + (keycode - qkMidiSustain))
  else none

/-- The other keys send control messages. -/
def controlKey (keycode : Nat) (pressed : Bool) (channel : BitVec 4) : Option (List Control) :=
  match pedal keycode with
  | some num => some [.cc channel num (if pressed = true then 127 else 0)]
  | none =>
      if keycode = qkMidiAllNotesOff then
        some (if pressed = true then [.cc channel 0x7B 0] else [])
      else if keycode = qkMidiPitchBendDown then
        some [.pitchbend channel (if pressed = true then -0x2000 else 0)]
      else if keycode = qkMidiPitchBendUp then
        some [.pitchbend channel (if pressed = true then 0x1fff else 0)]
      else none

/-- Whether the keycode is to be processed any further, the calls, and the state. -/
def processMidi (keycode : Nat) (pressed : Bool) (s : State) : Bool × List Call × State :=
  if midiToneMin ≤ keycode ∧ keycode ≤ midiToneMax then
    (false, processTone (keycode - midiToneMin) pressed s)
  else
    match configKey keycode with
    | some change =>
        (false, [], if pressed = true then { s with midiConfig := change s.midiConfig } else s)
    | none =>
        if keycode = qkMidiModulation then
          (false, [], { s with midiModulationStep := if pressed = true then 1 else -1 })
        else
          match controlKey keycode pressed s.midiConfig.channel with
          | some calls => (false, calls.map .control, s)
          | none => (true, [], s)

/-! ## Runs -/

structure Event where
  keycode : Nat
  pressed : Bool

/-- The number of the note key. -/
def Event.tone (e : Event) : Option Nat :=
  if midiToneMin ≤ e.keycode ∧ e.keycode ≤ midiToneMax then some (e.keycode - midiToneMin)
  else none

def Call.asNoteOn : Call → Option (BitVec 4 × BitVec 8)
  | .noteOn channel note _ => some (channel, note)
  | _ => none

def Call.asNoteOff : Call → Option (BitVec 4 × BitVec 8)
  | .noteOff channel note _ => some (channel, note)
  | _ => none

/-- The state, and the note that each note key has sounded since it went down. -/
structure Player where
  state : State
  sounding : Nat → Option (BitVec 4 × BitVec 8)

def Player.initial : Player := ⟨.initial, fun _ => none⟩

def Player.calls (p : Player) (e : Event) : List Call :=
  (processMidi e.keycode e.pressed p.state).2.1

def sounds (p : Player) (e : Event) (tone : Nat) : Option (BitVec 4 × BitVec 8) :=
  if e.pressed = true then ((p.calls e).findSome? Call.asNoteOn).or (p.sounding tone) else none

def step (p : Player) (e : Event) : Player where
  state := (processMidi e.keycode e.pressed p.state).2.2
  sounding :=
    match e.tone with
    | some tone => Function.update p.sounding tone (sounds p e tone)
    | none => p.sounding

/-- What is claimed of an event: it sounds a note only for a note key that sounds none, and
sends the one note-off that belongs to the note of a key that goes up. -/
structure NotesMatch (p : Player) (e : Event) : Prop where
  on : ∀ note ∈ (p.calls e).filterMap Call.asNoteOn,
    e.pressed = true ∧ ∃ tone, e.tone = some tone ∧ p.sounding tone = none
  off : (p.calls e).filterMap Call.asNoteOff =
    if e.pressed = true then [] else (e.tone.bind p.sounding).toList

/-- The note is not one below the range, and a note goes off on the channel it is on. -/
def Allowed (p : Player) (e : Event) : Prop :=
  ∀ tone, e.tone = some tone →
    let c := p.state.midiConfig
    if e.pressed = true then
      p.sounding tone = none → 12 * (c.octave.toNat : Int) + tone + c.transpose.toInt ≠ -1
    else ∀ note, p.sounding tone = some note → note.1 = c.channel

/-! ## The configuration -/

structure MidiConfig.Valid (c : MidiConfig) : Prop where
  octave : c.octave.toNat ≤ 9
  transpose : -6 ≤ c.transpose.toInt ∧ c.transpose.toInt ≤ 6

theorem octave_down (octave : BitVec 4) (h : octave.toNat ≤ 9) (hpos : 0 < octave.toNat) :
    (octave - 1).toNat ≤ 9 := by
  revert octave
  decide

theorem octave_up (octave : BitVec 4) (h : octave.toNat < 9) : (octave + 1).toNat ≤ 9 := by
  revert octave
  decide

theorem transpose_down (transpose : BitVec 4) (h : -6 < transpose.toInt)
    (hle : transpose.toInt ≤ 6) :
    -6 ≤ (transpose - 1).toInt ∧ (transpose - 1).toInt ≤ 6 := by
  revert transpose
  decide

theorem transpose_up (transpose : BitVec 4) (h : -6 ≤ transpose.toInt)
    (hlt : transpose.toInt < 6) :
    -6 ≤ (transpose + 1).toInt ∧ (transpose + 1).toInt ≤ 6 ∧
      ¬(0 < transpose.toInt ∧ (transpose + 1).toInt < 0) := by
  revert transpose
  decide

theorem octaveKey_valid {keycode : Nat} {c : MidiConfig}
    (hkey : midiOctaveMin ≤ keycode ∧ keycode ≤ qkMidiOctaveUp) (h : c.Valid) :
    (octaveKey keycode c).Valid := by
  unfold octaveKey
  split
  · split
    · rename_i hpos
      exact ⟨octave_down _ h.octave hpos, h.transpose⟩
    · exact h
  · split
    · split
      · rename_i hlt
        exact ⟨octave_up _ hlt, h.transpose⟩
      · exact h
    · rename_i hdown hup
      refine ⟨?_, h.transpose⟩
      simp only [midiOctaveMin, qkMidiOctaveUp, qkMidiOctaveDown, BitVec.toNat_ofNat] at *
      omega

theorem transposeKey_valid {keycode : Nat} {c : MidiConfig}
    (hkey : midiTransposeMin ≤ keycode ∧ keycode ≤ qkMidiTransposeUp) (h : c.Valid) :
    (transposeKey keycode c).Valid := by
  have hmin : transposeOf midiTransposeMin = -6 := by decide
  have hmax : transposeOf midiTransposeMax = 6 := by decide
  unfold transposeKey
  split
  · split
    · rename_i hlt
      exact ⟨h.octave, transpose_down _ (hmin ▸ hlt) h.transpose.2⟩
    · exact h
  · split
    · split
      · rename_i hlt
        obtain ⟨hlow, hhigh, hsign⟩ := transpose_up _ h.transpose.1 (hmax ▸ hlt)
        rw [if_neg hsign]
        exact ⟨h.octave, hlow, hhigh⟩
      · exact h
    · rename_i hdown hup
      refine ⟨h.octave, ?_⟩
      simp only [midiTransposeMin, qkMidiTransposeUp, qkMidiTransposeDown, transposeOf,
        qkMidiTranspose0, BitVec.toInt_ofInt, Int.bmod_def] at *
      omega

theorem configKey_valid {keycode : Nat} {c : MidiConfig} {change : MidiConfig → MidiConfig}
    (hchange : configKey keycode = some change) (h : c.Valid) : (change c).Valid := by
  unfold configKey at hchange
  split at hchange
  · rename_i hkey
    cases hchange
    exact octaveKey_valid hkey h
  · split at hchange
    · rename_i hkey
      cases hchange
      exact transposeKey_valid hkey h
    · split at hchange
      · cases hchange
        unfold velocityKey
        repeat' split
        all_goals exact ⟨h.octave, h.transpose⟩
      · split at hchange
        · cases hchange
          unfold channelKey
          repeat' split
          all_goals exact ⟨h.octave, h.transpose⟩
        · split at hchange
          · cases hchange
            unfold modulationSpeedKey
            repeat' split
            all_goals exact ⟨h.octave, h.transpose⟩
          · contradiction

/-! ## Notes -/

theorem tone_le {e : Event} {tone : Nat} (h : e.tone = some tone) : tone ≤ 71 := by
  unfold Event.tone at h
  split at h
  · rename_i hrange
    have htone := Option.some.inj h
    simp only [midiToneMin, midiToneMax] at hrange htone
    omega
  · contradiction

theorem midiComputeNote_valid {c : MidiConfig} {tone : Nat} (h : c.Valid) (htone : tone ≤ 71)
    (hnote : 12 * (c.octave.toNat : Int) + tone + c.transpose.toInt ≠ -1) :
    midiComputeNote c tone ≠ midiInvalidNote := by
  intro heq
  have hoctave := h.octave
  obtain ⟨hlow, hhigh⟩ := h.transpose
  have hmark : midiInvalidNote.toNat = 255 := rfl
  have hnat := congrArg BitVec.toNat heq
  rw [hmark, midiComputeNote, BitVec.toNat_ofInt] at hnat
  omega

theorem processMidi_tone {e : Event} {tone : Nat} (h : e.tone = some tone) (s : State) :
    processMidi e.keycode e.pressed s = (false, processTone tone e.pressed s) := by
  unfold Event.tone at h
  split at h
  · rename_i hrange
    rw [processMidi, if_pos hrange, Option.some.inj h]
  · contradiction

theorem processMidi_other {e : Event} (h : e.tone = none) {s : State}
    (hvalid : s.midiConfig.Valid) :
    let done := (processMidi e.keycode e.pressed s).2
    (∃ calls : List Control, done.1 = calls.map .control) ∧
      done.2.toneStatus = s.toneStatus ∧ done.2.midiConfig.Valid := by
  have hrange : ¬(midiToneMin ≤ e.keycode ∧ e.keycode ≤ midiToneMax) := by
    intro hrange
    rw [Event.tone, if_pos hrange] at h
    contradiction
  rw [processMidi, if_neg hrange]
  split
  · rename_i change hchange
    refine ⟨⟨[], rfl⟩, ?_⟩
    dsimp only
    split
    · exact ⟨rfl, configKey_valid hchange hvalid⟩
    · exact ⟨rfl, hvalid⟩
  · split
    · exact ⟨⟨[], rfl⟩, rfl, hvalid⟩
    · split
      · rename_i calls _
        exact ⟨⟨calls, rfl⟩, rfl, hvalid⟩
      · exact ⟨⟨[], rfl⟩, rfl, hvalid⟩

structure Inv (p : Player) : Prop where
  config : p.state.midiConfig.Valid
  silent : ∀ tone, p.sounding tone = none → p.state.toneStatus tone = midiInvalidNote
  sounding : ∀ tone note, p.sounding tone = some note →
    p.state.toneStatus tone = note.2 ∧ note.2 ≠ midiInvalidNote

theorem Inv.initial : Inv .initial where
  config := ⟨by decide, by decide⟩
  silent _ _ := rfl
  sounding := nofun

theorem processTone_press {s : State} (tone : Nat) :
    processTone tone true s =
      if s.toneStatus tone = midiInvalidNote then
        ([.noteOn s.midiConfig.channel (midiComputeNote s.midiConfig tone) s.midiConfig.velocity],
          { s with toneStatus :=
              Function.update s.toneStatus tone (midiComputeNote s.midiConfig tone) })
      else ([], s) := rfl

theorem calls_tone {p : Player} {e : Event} {tone : Nat} (h : e.tone = some tone) :
    p.calls e = (processTone tone e.pressed p.state).1 := by
  rw [Player.calls, processMidi_tone h]

theorem step_tone {p : Player} {e : Event} {tone : Nat} (h : e.tone = some tone) :
    step p e = ⟨(processTone tone e.pressed p.state).2,
      Function.update p.sounding tone (sounds p e tone)⟩ := by
  rw [step, processMidi_tone h, h]

theorem step_other {p : Player} {e : Event} (h : e.tone = none) :
    step p e = ⟨(processMidi e.keycode e.pressed p.state).2.2, p.sounding⟩ := by
  rw [step, h]

/-- A note key and its entry in the table are given a new note, or none. -/
theorem Inv.update {p : Player} (h : Inv p) {s : State} {tone : Nat}
    {note : Option (BitVec 4 × BitVec 8)} {status : BitVec 8} (hconfig : s.midiConfig.Valid)
    (htable : s.toneStatus = Function.update p.state.toneStatus tone status)
    (hstatus : ∀ n, note = some n → status = n.2 ∧ n.2 ≠ midiInvalidNote)
    (hsilent : note = none → status = midiInvalidNote) :
    Inv ⟨s, Function.update p.sounding tone note⟩ where
  config := hconfig
  silent other hother := by
    by_cases heq : other = tone
    · subst heq
      simp only [Function.update_self] at hother
      rw [htable, Function.update_self, hsilent hother]
    · simp only [Function.update_of_ne heq] at hother
      rw [htable, Function.update_of_ne heq, h.silent other hother]
  sounding other n hother := by
    by_cases heq : other = tone
    · subst heq
      simp only [Function.update_self] at hother
      rw [htable, Function.update_self]
      exact hstatus n hother
    · simp only [Function.update_of_ne heq] at hother
      rw [htable, Function.update_of_ne heq]
      exact h.sounding other n hother

theorem processTone_press_silent {s : State} {tone : Nat}
    (h : s.toneStatus tone = midiInvalidNote) :
    processTone tone true s =
      ([.noteOn s.midiConfig.channel (midiComputeNote s.midiConfig tone) s.midiConfig.velocity],
        { s with toneStatus :=
            Function.update s.toneStatus tone (midiComputeNote s.midiConfig tone) }) := by
  rw [processTone_press, if_pos h]

theorem processTone_press_sounding {s : State} {tone : Nat}
    (h : s.toneStatus tone ≠ midiInvalidNote) : processTone tone true s = ([], s) := by
  rw [processTone_press, if_neg h]

theorem processTone_release (s : State) (tone : Nat) :
    processTone tone false s =
      (if s.toneStatus tone ≠ midiInvalidNote then
          [.noteOff s.midiConfig.channel (s.toneStatus tone) s.midiConfig.velocity] else [],
        { s with toneStatus := Function.update s.toneStatus tone midiInvalidNote }) := rfl

theorem step_inv {p : Player} {e : Event} (h : Inv p) (hallowed : Allowed p e) :
    Inv (step p e) := by
  cases htone : e.tone with
  | none =>
      obtain ⟨-, htable, hconfig⟩ := processMidi_other htone h.config
      rw [step_other htone]
      exact ⟨hconfig, fun tone hnone => htable ▸ h.silent tone hnone,
        fun tone note hsome => htable ▸ h.sounding tone note hsome⟩
  | some tone =>
      have hcond := hallowed tone htone
      rw [step_tone htone, sounds, calls_tone htone]
      cases hpressed : e.pressed with
      | true =>
          rw [hpressed] at hcond
          cases hsounding : p.sounding tone with
          | none =>
              rw [processTone_press_silent (h.silent tone hsounding)]
              have hnote := midiComputeNote_valid h.config (tone_le htone) (hcond hsounding)
              refine h.update h.config rfl ?_ ?_
              · rintro n heq
                cases heq
                exact ⟨rfl, hnote⟩
              · intro hnone
                contradiction
          | some note =>
              obtain ⟨hstatus, hnote⟩ := h.sounding tone note hsounding
              have hne : p.state.toneStatus tone ≠ midiInvalidNote := hstatus ▸ hnote
              rw [processTone_press_sounding hne]
              refine h.update h.config (Function.update_eq_self tone _).symm ?_ ?_
              · rintro n heq
                cases heq
                exact ⟨hstatus, hnote⟩
              · intro hnone
                contradiction
      | false =>
          rw [processTone_release]
          exact h.update h.config rfl nofun fun _ => rfl

theorem step_notesMatch {p : Player} {e : Event} (h : Inv p) (hallowed : Allowed p e) :
    NotesMatch p e := by
  cases htone : e.tone with
  | none =>
      obtain ⟨⟨calls, hcalls⟩, -⟩ := processMidi_other htone h.config
      have hcontrol : p.calls e = calls.map .control := hcalls
      have hnone {f : Call → Option (BitVec 4 × BitVec 8)} (hf : ∀ c, f (.control c) = none) :
          (p.calls e).filterMap f = [] := by
        rw [hcontrol, List.filterMap_eq_nil_iff]
        intro call hcall
        obtain ⟨c, -, rfl⟩ := List.mem_map.mp hcall
        exact hf c
      constructor
      · rw [hnone fun _ => rfl]
        nofun
      · rw [hnone fun _ => rfl, htone]
        split <;> rfl
  | some tone =>
      have hcond := hallowed tone htone
      cases hsounding : p.sounding tone with
      | none =>
          have hsilent := h.silent tone hsounding
          constructor
          · intro note hnote
            rw [calls_tone htone] at hnote
            cases hpressed : e.pressed with
            | true => exact ⟨rfl, tone, htone, hsounding⟩
            | false =>
                rw [hpressed, processTone_release, if_neg (by simp [hsilent])] at hnote
                contradiction
          · rw [calls_tone htone, htone]
            cases e.pressed with
            | true =>
                rw [processTone_press_silent hsilent]
                rfl
            | false =>
                rw [processTone_release, if_neg (by simp [hsilent])]
                simp [hsounding]
      | some note =>
          obtain ⟨hstatus, hvalid⟩ := h.sounding tone note hsounding
          have hne : p.state.toneStatus tone ≠ midiInvalidNote := hstatus ▸ hvalid
          constructor
          · intro other hother
            rw [calls_tone htone] at hother
            cases hpressed : e.pressed with
            | true =>
                rw [hpressed, processTone_press_sounding hne] at hother
                contradiction
            | false =>
                rw [hpressed, processTone_release, if_pos hne] at hother
                contradiction
          · rw [calls_tone htone, htone]
            cases hpressed : e.pressed with
            | true =>
                rw [processTone_press_sounding hne]
                rfl
            | false =>
                rw [hpressed] at hcond
                have hchannel := hcond note hsounding
                rw [processTone_release, if_pos hne, hstatus, ← hchannel]
                simp [hsounding, Call.asNoteOff]

/-- Every note-on gets its note-off, in a run in which no note is one below the range and
the channel does not change while a note sounds. -/
theorem midi_notesMatch {events : List Event} (h : Meets step Allowed .initial events) :
    Meets step NotesMatch .initial events :=
  h.imp_of_invariant Inv (fun _ _ => step_inv) (fun _ _ => step_notesMatch) .initial

theorem allowed_of_tone {p : Player} {e : Event} {tone : Nat} (htone : e.tone = some tone)
    (hpress : e.pressed = true → 12 * (p.state.midiConfig.octave.toNat : Int) + tone +
      p.state.midiConfig.transpose.toInt ≠ -1)
    (hrelease : e.pressed = false → ∀ note, p.sounding tone = some note →
      note.1 = p.state.midiConfig.channel) : Allowed p e := by
  intro other hother
  cases htone.symm.trans hother
  cases hpressed : e.pressed with
  | true => exact fun _ => hpress hpressed
  | false => exact hrelease hpressed

/-- The octave changes while the note sounds. -/
theorem octave_changed :
    Meets step NotesMatch .initial
      [⟨midiToneMin, true⟩, ⟨qkMidiOctaveUp, true⟩, ⟨midiToneMin, false⟩] := by
  have hpressed : Allowed .initial ⟨midiToneMin, true⟩ :=
    allowed_of_tone (by decide : _ = some 0) (fun _ => by decide) nofun
  have hoctave : Allowed (step .initial ⟨midiToneMin, true⟩) ⟨qkMidiOctaveUp, true⟩ :=
    fun _ htone => nomatch htone
  refine midi_notesMatch ⟨hpressed, hoctave, ?_, trivial⟩
  refine allowed_of_tone (by decide : _ = some 0) nofun fun _ note hnote => ?_
  have hsounding : note = (0, 48) := Option.some.inj (hnote.symm.trans (by decide))
  rw [hsounding]
  decide

/-- The channel changes while a note sounds, and the note `-1` is taken for the empty
mark. -/
theorem notes_unmatched :
    ¬Meets step NotesMatch .initial
        [⟨midiToneMin, true⟩, ⟨qkMidiChannelUp, true⟩, ⟨midiToneMin, false⟩] ∧
      ¬Meets step NotesMatch .initial
        [⟨midiOctaveMin, true⟩, ⟨qkMidiTransposeDown, true⟩, ⟨midiToneMin, true⟩,
          ⟨midiToneMin, false⟩] :=
  ⟨fun h => absurd h.2.2.1.off (by decide),
    fun h => absurd h.2.2.2.1.off (by decide)⟩

end Qmk.Midi
