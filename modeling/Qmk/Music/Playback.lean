import Mathlib.Data.List.Basic
import Mathlib.Tactic.SplitIfs
import Qmk.Lib.Buffer
import Qmk.Music.Recorder

/-!
# Recording and playing back

The notes recorded since the last start, beside the memory of the recorder.  The recorder stays
inside its memory exactly under the condition of `staysInBounds_iff`.
-/

namespace Qmk.Music

open Qmk.Lib

variable (cfg : Config)

/-- The recorder, with the notes recorded since the last start. -/
structure Recorder where
  state : State
  notes : List Nat

def Recorder.initial : Recorder := ⟨{}, []⟩

/-- The press reaches the keys of the recorder. -/
def reaches (keycode : Nat) (s : State) : Prop :=
  modeKey cfg keycode s = none ∧ (s.musicActivated || s.midiActivated) = true

instance (keycode : Nat) (s : State) : Decidable (reaches cfg keycode s) :=
  inferInstanceAs (Decidable (_ ∧ _))

/-- The press starts a recording. -/
def startsRecording (keycode : Nat) (s : State) : Prop :=
  reaches cfg keycode s ∧ keycode = kcLeftCtrl

instance (keycode : Nat) (s : State) : Decidable (startsRecording cfg keycode s) :=
  inferInstanceAs (Decidable (_ ∧ _))

/-- The press is a note that is recorded. -/
def recordsNote (keycode : Nat) (s : State) : Prop :=
  reaches cfg keycode s ∧ recorderKey cfg keycode s = none ∧ s.recording = true

instance (keycode : Nat) (s : State) : Decidable (recordsNote cfg keycode s) :=
  inferInstanceAs (Decidable (_ ∧ _))

def notesStep (r : Recorder) : Event → List Nat
  | .key keycode row col true =>
      if startsRecording cfg keycode r.state then []
      else if recordsNote cfg keycode r.state then r.notes ++ [noteOf cfg row col r.state]
      else r.notes
  | _ => r.notes

def recorderStep (r : Recorder) (event : Event) : Recorder :=
  ⟨next cfg r.state event, notesStep cfg r event⟩

/-- The step has no fault: no place outside the sixteen is accessed and nothing is divided by
zero.  What it plays back is among the notes recorded. -/
def InBounds (r : Recorder) (event : Event) : Prop :=
  ∃ state effect, step cfg r.state event = .ok (state, effect) ∧
    ∀ i ∈ effect.reads, 0 ≤ i ∧ i < r.notes.length

/-- A note is recorded only while there is room for it, and a playback has notes to play. -/
def HasRoom (r : Recorder) : Event → Prop
  | .key keycode _ _ pressed =>
      pressed = true → recordsNote cfg keycode r.state → r.notes.length < 16
  | .task now => due now r.state = true → r.notes ≠ []

variable {cfg}

/-- The memory holds the notes, and nothing is recorded during a playback. -/
structure Holds (r : Recorder) : Prop where
  length_eq : r.state.sequence.length = 16
  count_eq : r.state.count = r.notes.length
  count_le : r.state.count ≤ 16
  notes_eq : r.notes = r.state.sequence.take r.state.count
  not_both : r.state.playing = true → r.state.recording = false
  position_le : r.state.playing = true → r.state.position = 0 ∨ r.state.position < r.state.count

theorem holds_initial : Holds .initial where
  length_eq := rfl
  count_eq := rfl
  count_le := Nat.zero_le _
  notes_eq := rfl
  not_both := by simp [Recorder.initial]
  position_le := by simp [Recorder.initial]

section Keys

variable {s s' : State} {keycode row col : Nat} {outputs : List Output}

/-- The mode keys leave the recorder alone. -/
theorem modeKey_recorder (h : modeKey cfg keycode s = some (s', outputs)) :
    s'.recording = s.recording ∧ s'.playing = s.playing ∧ s'.sequence = s.sequence ∧
      s'.count = s.count ∧ s'.position = s.position := by
  simp only [modeKey, musicOn, musicOff, midiOn, midiOff, musicModeCycle] at h
  split_ifs at h <;> cases h <;> exact ⟨rfl, rfl, rfl, rfl, rfl⟩

theorem Holds.of_modeKey {notes : List Nat} (hs : Holds ⟨s, notes⟩)
    (h : modeKey cfg keycode s = some (s', outputs)) : Holds ⟨s', notes⟩ := by
  obtain ⟨hrecording, hplaying, hsequence, hcount, hposition⟩ := modeKey_recorder h
  obtain ⟨hlength, heq, hle, hnotes, hboth, hpos⟩ := hs
  constructor <;> dsimp only at *
  · rwa [hsequence]
  · rwa [hcount]
  · rwa [hcount]
  · rwa [hsequence, hcount]
  · rwa [hplaying, hrecording]
  · rwa [hplaying, hposition, hcount]

/-- A recorder key ends the recording or the playback, or starts one of the two afresh. -/
theorem Holds.of_recorderKey {notes : List Nat} (hs : Holds ⟨s, notes⟩)
    (h : recorderKey cfg keycode s = some (s', outputs)) :
    Holds ⟨s', if keycode = kcLeftCtrl then [] else notes⟩ := by
  obtain ⟨hlength, heq, hle, hnotes, hboth, hpos⟩ := hs
  simp only [recorderKey] at h
  by_cases hstart : keycode = kcLeftCtrl
  · rw [if_pos hstart] at h
    cases h
    rw [if_pos hstart]
    exact ⟨hlength, rfl, Nat.zero_le _, rfl, by simp, by simp⟩
  · rw [if_neg hstart] at h
    rw [if_neg hstart]
    split_ifs at h with hstop hrecording hplay hup hdown
    all_goals cases h
    · exact ⟨hlength, heq, hle, hnotes, by simp, by simp⟩
    · exact ⟨hlength, heq, hle, hnotes, by simp, by simp⟩
    · exact ⟨hlength, heq, hle, hnotes, fun _ => rfl, fun _ => .inl rfl⟩
    · exact ⟨hlength, heq, hle, hnotes, hboth, hpos⟩
    · exact ⟨hlength, heq, hle, hnotes, hboth, hpos⟩

/-- A note that is recorded while there is room becomes the last of the notes. -/
theorem Holds.record {notes : List Nat} (hs : Holds ⟨s, notes⟩) (hrecording : s.recording = true)
    (hroom : s.count < 16) (note : Nat) :
    Holds ⟨{ s with
      sequence := s.sequence.set s.count note
      count := (s.count + 1) % 256 }, notes ++ [note]⟩ := by
  obtain ⟨hlength, heq, hle, hnotes, hboth, hpos⟩ := hs
  have hplaying : s.playing = false := by
    cases hplaying : s.playing with
    | false => rfl
    | true => exact absurd (hboth hplaying) (by simp [hrecording])
  have hmod : (s.count + 1) % 256 = s.count + 1 := Nat.mod_eq_of_lt (by omega)
  constructor
  · simpa using hlength
  · dsimp only at heq ⊢
    rw [hmod, heq, List.length_append, List.length_singleton]
  · dsimp only
    omega
  · have hn : s.count < s.sequence.length := by
      dsimp only at hlength
      omega
    dsimp only at hnotes ⊢
    rw [hmod, take_set_succ note hn, ← hnotes]
  · simp [hplaying]
  · simp [hplaying]

/-- What a press does: a mode key, nothing, a key of the recorder or a note. -/
theorem processMusic_cases (cfg : Config) (keycode row col : Nat) (s : State) :
    (∃ state outputs, modeKey cfg keycode s = some (state, outputs) ∧
      processMusic cfg keycode row col true s = .ok (state, { continues := false, outputs })) ∨
    (¬reaches cfg keycode s ∧ processMusic cfg keycode row col true s = .ok (s, {})) ∨
    (reaches cfg keycode s ∧ ∃ state outputs, recorderKey cfg keycode s = some (state, outputs) ∧
      processMusic cfg keycode row col true s = .ok (state, { continues := false, outputs })) ∨
    (reaches cfg keycode s ∧ recorderKey cfg keycode s = none ∧
      processMusic cfg keycode row col true s = noteKey cfg keycode row col true s) := by
  unfold processMusic
  cases hmode : modeKey cfg keycode s with
  | some result => exact .inl ⟨_, _, rfl, rfl⟩
  | none =>
      by_cases hactive : (s.musicActivated || s.midiActivated) = true
      · have hreaches : reaches cfg keycode s := ⟨hmode, hactive⟩
        simp only [if_true, if_pos hactive]
        cases hkey : recorderKey cfg keycode s with
        | some result => exact .inr (.inr (.inl ⟨hreaches, _, _, rfl, rfl⟩))
        | none => exact .inr (.inr (.inr ⟨hreaches, rfl, rfl⟩))
      · simp only [if_true, if_neg hactive]
        exact .inr (.inl ⟨fun h => hactive h.2, trivial⟩)

theorem processMusic_released (cfg : Config) (keycode row col : Nat) (s : State) :
    ∃ effect, processMusic cfg keycode row col false s = .ok (s, effect) ∧ effect.reads = [] := by
  simp only [processMusic, noteKey, Bool.false_eq_true, if_false]
  split <;> exact ⟨_, rfl, rfl⟩

theorem notesStep_press (r : Recorder) :
    notesStep cfg r (.key keycode row col true) =
      if startsRecording cfg keycode r.state then []
      else if recordsNote cfg keycode r.state then r.notes ++ [noteOf cfg row col r.state]
      else r.notes := rfl

/-- While there is room, a press stays in bounds. -/
theorem Holds.press {r : Recorder} (h : Holds r) (hroom : HasRoom cfg r (.key keycode row col true)) :
    ∃ state effect, processMusic cfg keycode row col true r.state = .ok (state, effect) ∧
      effect.reads = [] ∧ Holds ⟨state, notesStep cfg r (.key keycode row col true)⟩ := by
  rw [notesStep_press]
  rcases processMusic_cases cfg keycode row col r.state with
    ⟨state, outputs, hmode, hstep⟩ | ⟨hnot, hstep⟩ | ⟨hreaches, state, outputs, hkey, hstep⟩ |
    ⟨hreaches, hkey, hstep⟩
  · have hnot : ¬reaches cfg keycode r.state := fun hreaches => by simp [hreaches.1] at hmode
    rw [if_neg (fun hstart => hnot hstart.1), if_neg (fun hrecord => hnot hrecord.1)]
    exact ⟨state, _, hstep, rfl, h.of_modeKey hmode⟩
  · rw [if_neg (fun hstart => hnot hstart.1), if_neg (fun hrecord => hnot hrecord.1)]
    exact ⟨r.state, _, hstep, rfl, h⟩
  · have hnot : ¬recordsNote cfg keycode r.state := fun hrecord => by simp [hrecord.2.1] at hkey
    refine ⟨state, _, hstep, rfl, ?_⟩
    have hholds := h.of_recorderKey hkey
    by_cases hstart : keycode = kcLeftCtrl
    · rw [if_pos ⟨hreaches, hstart⟩]
      rwa [if_pos hstart] at hholds
    · rw [if_neg (fun hs => hstart hs.2), if_neg hnot]
      rwa [if_neg hstart] at hholds
  · have hstart : ¬startsRecording cfg keycode r.state := by
      rintro ⟨-, rfl⟩
      simp [recorderKey] at hkey
    rw [if_neg hstart, hstep]
    by_cases hrecording : r.state.recording = true
    · have hrecords : recordsNote cfg keycode r.state := ⟨hreaches, hkey, hrecording⟩
      have hlt : r.state.count < 16 := by
        rw [h.count_eq]
        exact hroom rfl hrecords
      have hplace : r.state.count < r.state.sequence.length := by
        rw [h.length_eq]
        exact hlt
      rw [if_pos hrecords]
      simp only [noteKey, if_true, if_pos hrecording, if_pos hplace]
      exact ⟨_, _, rfl, rfl, h.record hrecording hlt _⟩
    · rw [if_neg (fun hrecord => hrecording hrecord.2.2)]
      simp only [noteKey, if_true, if_neg hrecording]
      exact ⟨_, _, rfl, rfl, h⟩

/-- The seventeenth note is written outside the memory. -/
theorem Holds.press_full {r : Recorder} (h : Holds r) (hrecords : recordsNote cfg keycode r.state)
    (hfull : 16 ≤ r.notes.length) :
    processMusic cfg keycode row col true r.state = .error .outOfBounds := by
  obtain ⟨⟨hmode, hactive⟩, hkey, hrecording⟩ := hrecords
  have hplace : ¬r.state.count < r.state.sequence.length := by
    rw [h.length_eq, h.count_eq]
    omega
  simp only [processMusic, noteKey, hmode, hkey, if_true, if_pos hactive, if_pos hrecording,
    if_neg hplace]

end Keys

section Playing

variable {r : Recorder} {now : BitVec 16}

theorem readSequence_ok {s : State} {i : Int} (hnonneg : 0 ≤ i) (hlt : i < s.sequence.length) :
    ∃ note, readSequence s i = .ok note := ⟨_, if_pos ⟨hnonneg, hlt⟩⟩

/-- With a note recorded, the playback reads the notes only and goes round among them. -/
theorem Holds.task (h : Holds r) (hroom : HasRoom cfg r (.task now)) :
    ∃ state effect, musicTask cfg now r.state = .ok (state, effect) ∧
      (∀ i ∈ effect.reads, 0 ≤ i ∧ i < r.notes.length) ∧ Holds ⟨state, r.notes⟩ := by
  unfold musicTask
  by_cases hdue : due now r.state = true
  · have hplaying : r.state.playing = true := by
      simp only [due, Bool.and_eq_true] at hdue
      exact hdue.1
    have hpos : 0 < r.notes.length := List.length_pos_iff.mpr (hroom hdue)
    have hcount := h.count_eq
    have hle := h.count_le
    have hlength := h.length_eq
    have hposition := h.position_le hplaying
    have hnext : (0 : Int) ≤ r.state.position ∧ (r.state.position : Int) < r.notes.length := by
      omega
    have hprev : 0 ≤ previousPlace r.state ∧ previousPlace r.state < r.notes.length := by
      unfold previousPlace
      dsimp only
      split <;> omega
    obtain ⟨prevNote, hprevNote⟩ := readSequence_ok (s := r.state) hprev.1 (by omega)
    obtain ⟨nextNote, hnextNote⟩ := readSequence_ok (s := r.state) hnext.1 (by omega)
    have hne : r.state.count ≠ 0 := by omega
    simp only [if_pos hdue, hprevNote, hnextNote, if_neg hne]
    refine ⟨_, _, rfl, ?_, h.length_eq, h.count_eq, h.count_le, h.notes_eq, h.not_both, ?_⟩
    · intro i hi
      simp only [List.mem_cons, List.not_mem_nil, or_false] at hi
      rcases hi with rfl | rfl
      · exact hprev
      · exact hnext
    · exact fun _ => .inr (Nat.mod_lt _ (by omega))
  · rw [if_neg hdue]
    exact ⟨_, _, rfl, by simp, h⟩

/-- A playback of no notes reads the place before the first. -/
theorem Holds.task_empty (h : Holds r) (hdue : due now r.state = true) (hempty : r.notes = []) :
    musicTask cfg now r.state = .error .outOfBounds := by
  have hplaying : r.state.playing = true := by
    simp only [due, Bool.and_eq_true] at hdue
    exact hdue.1
  have hcount : r.state.count = 0 := by simp [h.count_eq, hempty]
  have hposition := h.position_le hplaying
  have hprev : previousPlace r.state = -1 := by
    unfold previousPlace
    dsimp only
    split <;> omega
  have hread : readSequence r.state (previousPlace r.state) = .error .outOfBounds := by
    rw [hprev]
    rfl
  unfold musicTask
  rw [if_pos hdue, hread]

end Playing

section Runs

variable {r : Recorder}

theorem Holds.step_of_hasRoom (h : Holds r) {event : Event} (hroom : HasRoom cfg r event) :
    ∃ state effect, step cfg r.state event = .ok (state, effect) ∧
      (∀ i ∈ effect.reads, 0 ≤ i ∧ i < r.notes.length) ∧
      Holds ⟨state, notesStep cfg r event⟩ := by
  cases event with
  | task now => exact h.task hroom
  | key keycode row col pressed =>
      cases pressed with
      | true =>
          obtain ⟨state, effect, hstep, hreads, hholds⟩ := h.press hroom
          exact ⟨state, effect, hstep, by simp [hreads], hholds⟩
      | false =>
          obtain ⟨effect, hstep, hreads⟩ := processMusic_released cfg keycode row col r.state
          exact ⟨r.state, effect, hstep, by simp [hreads], h⟩

/-- A step stays in bounds exactly when there is room for what it does. -/
theorem Holds.inBounds_iff (h : Holds r) (event : Event) :
    InBounds cfg r event ↔ HasRoom cfg r event := by
  constructor
  · rintro ⟨state, effect, hstep, -⟩
    cases event with
    | task now =>
        intro hdue hempty
        have hfault : step cfg r.state (.task now) = .error .outOfBounds :=
          h.task_empty hdue hempty
        simp [hfault] at hstep
    | key keycode row col pressed =>
        rintro rfl hrecords
        by_contra hfull
        have hfault : step cfg r.state (.key keycode row col true) = .error .outOfBounds :=
          h.press_full hrecords (by omega)
        simp [hfault] at hstep
  · intro hroom
    obtain ⟨state, effect, hstep, hreads, -⟩ := h.step_of_hasRoom hroom
    exact ⟨state, effect, hstep, hreads⟩

theorem Holds.step (h : Holds r) {event : Event} (hroom : HasRoom cfg r event) :
    Holds (recorderStep cfg r event) := by
  obtain ⟨state, effect, hstep, -, hholds⟩ := h.step_of_hasRoom hroom
  have hnext : next cfg r.state event = state := by simp only [next, hstep]
  rwa [recorderStep, hnext]

end Runs

/-- Over every run of key events and task calls: no access leaves the memory, no playback reads
past the notes recorded and nothing is divided by zero, if and only if no recording goes beyond
sixteen notes and no note of an empty recording comes due. -/
theorem staysInBounds_iff (cfg : Config) (events : List Event) :
    Meets (recorderStep cfg) (InBounds cfg) .initial events ↔
      Meets (recorderStep cfg) (HasRoom cfg) .initial events := by
  constructor
  · intro h
    apply h.imp_of_invariant Holds _ _ holds_initial
    · exact fun r event hholds hin => hholds.step ((hholds.inBounds_iff event).mp hin)
    · exact fun r event hholds hin => (hholds.inBounds_iff event).mp hin
  · intro h
    apply h.imp_of_invariant Holds _ _ holds_initial
    · exact fun r event hholds hroom => hholds.step hroom
    · exact fun r event hholds hroom => (hholds.inBounds_iff event).mpr hroom

def plainBoard : Config where
  audio := true
  midi := false
  matrixRows := 4
  scale := fun _ => 0
  musicMap := none
  musicStartingNote := 12
  musicOffset := 7
  musicMask := fun keycode => keycode < 0xFF

/-- A recording that is stopped before its first note can still be played. -/
theorem emptyRecording_not_inBounds :
    ¬Meets (recorderStep plainBoard) (InBounds plainBoard) .initial
      [.key qkMusicOn 0 0 true, .key kcLeftCtrl 0 0 true, .key kcLeftAlt 0 0 true,
        .key kcLeftGui 0 0 true, .task 1] := by
  rintro ⟨-, -, -, -, ⟨state, effect, hstep, -⟩, -⟩
  have hfault : musicTask plainBoard 1
      { musicActivated := true, recorded := true, playing := true } = .error .outOfBounds := rfl
  cases hstep.symm.trans hfault

end Qmk.Music
