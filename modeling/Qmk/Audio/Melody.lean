import Mathlib.Tactic.SplitIfs
import Qmk.Audio.Slots

/-!
# The melody player

What an update does to the place in the melody.
-/

namespace Qmk.Audio

/-- The last note of a melody that does not repeat is over. -/
def MelodyOver (now : Nat) (s : State) : Prop :=
  s.playingMelody = true ∧ s.notesRepeat = false ∧ s.notes.length ≤ s.currentNote + 1 ∧
    s.melodyCurrentNoteDuration ≤ timerElapsed now s.lastTimestamp

instance (now : Nat) (s : State) : Decidable (MelodyOver now s) :=
  inferInstanceAs (Decidable (_ ∧ _))

/-- The place is in the melody, whose length has sixteen bits. -/
def InMelody (s : State) : Prop :=
  s.playingMelody = true → s.currentNote < s.notes.length ∧ s.notes.length ≤ 65535

/-- Both states are at the same place of the same melody. -/
structure SameMelody (next s : State) : Prop where
  playing : next.playingMelody = s.playingMelody
  notes : next.notes = s.notes
  place : next.currentNote = s.currentNote

variable {cfg : Config} {s next : State} {content : List Tone} {now : Nat}

theorem SameMelody.refl (s : State) : SameMelody s s := ⟨rfl, rfl, rfl⟩

theorem SameMelody.trans {last : State} (h : SameMelody last next) (hs : SameMelody next s) :
    SameMelody last s :=
  ⟨h.playing.trans hs.playing, h.notes.trans hs.notes, h.place.trans hs.place⟩

theorem SameMelody.inMelody (h : SameMelody next s) (hs : InMelody s) : InMelody next := by
  intro hplaying
  rw [h.notes, h.place]
  exact hs (h.playing.symm.trans hplaying)

theorem audioStopTone_sameMelody (pitch : Int) (s : State) :
    SameMelody (audioStopTone cfg pitch s) s := by
  unfold audioStopTone audioDriverStop
  dsimp only
  split
  · split
    · exact .refl s
    · split <;> exact ⟨rfl, rfl, rfl⟩
  · exact .refl s

theorem audioPlayNote_sameMelody (now : Nat) (pitch : Int) (duration : Nat) (s : State) :
    SameMelody (audioPlayNote cfg now pitch duration s) s := by
  unfold audioPlayNote audioDriverStart
  dsimp only
  split
  · split
    · exact ⟨rfl, rfl, rfl⟩
    · split <;> exact ⟨rfl, rfl, rfl⟩
  · exact .refl s

theorem InMelody.audioStopAll (h : InMelody s) : InMelody (audioStopAll cfg s) := by
  unfold Audio.audioStopAll
  split
  · exact h
  · intro hplaying
    cases hplaying

section Advance

variable {delta current previous place : Nat}

theorem skipMissed_lt (fuel : Nat) {duration : Nat} (h : current < s.notes.length) :
    (skipMissed cfg s fuel delta current duration).2.1 < s.notes.length := by
  induction fuel generalizing delta current duration with
  | zero => exact h
  | succ fuel ih =>
      rw [skipMissed]
      split
      · exact ih (by omega)
      · exact h

theorem InMelody.nextNote (h : previous < s.notes.length) (hplace : place < s.notes.length)
    (hlength : s.notes.length ≤ 65535) : InMelody (nextNote cfg delta previous place s).1 := by
  unfold Audio.nextNote
  split
  · exact fun _ => ⟨h, hlength⟩
  · exact fun _ => ⟨skipMissed_lt _ hplace, hlength⟩

theorem nextNote_ne_ends : (nextNote cfg delta previous place s).2 ≠ .ends := by
  unfold nextNote
  split <;> simp

theorem Holds.nextNote (h : Holds cfg s content) :
    Holds cfg (nextNote cfg delta previous place s).1 content := by
  unfold Audio.nextNote
  split <;> exact h.frame rfl rfl rfl rfl rfl

/-- The place stays in the melody until its last note is over. -/
theorem InMelody.advanceMelody (h : InMelody s) (hover : ¬MelodyOver now s) :
    InMelody (advanceMelody cfg now s).1 := by
  unfold Audio.advanceMelody
  by_cases hdue : s.playingMelody ∧ s.melodyCurrentNoteDuration ≤ timerElapsed now s.lastTimestamp
  · obtain ⟨hplace, hlength⟩ := h hdue.1
    have hwrap : (s.currentNote + 1) % 65536 = s.currentNote + 1 := by omega
    rw [if_pos hdue]
    dsimp only
    rw [hwrap]
    split_ifs with hend hrepeat
    · exact InMelody.nextNote hplace (Nat.zero_lt_of_lt hplace) hlength
    · exact (hover ⟨hdue.1, by simpa using hrepeat, hend, hdue.2⟩).elim
    · exact InMelody.nextNote hplace (Nat.not_le.mp hend) hlength
  · rw [if_neg hdue]
    exact h

/-- The update ends the melody after its last note, and at no other time. -/
theorem advanceMelody_ends_iff (h : InMelody s) :
    (advanceMelody cfg now s).2 = .ends ↔ MelodyOver now s := by
  unfold advanceMelody
  by_cases hdue : s.playingMelody ∧ s.melodyCurrentNoteDuration ≤ timerElapsed now s.lastTimestamp
  · obtain ⟨hplace, hlength⟩ := h hdue.1
    have hwrap : (s.currentNote + 1) % 65536 = s.currentNote + 1 := by omega
    rw [if_pos hdue]
    dsimp only
    rw [hwrap]
    split_ifs with hend hrepeat
    · simp [nextNote_ne_ends, MelodyOver, hrepeat]
    · simp [MelodyOver, hrepeat, hend, hdue]
    · simp [nextNote_ne_ends, MelodyOver, hend]
  · rw [if_neg hdue]
    simp only [reduceCtorEq, false_iff]
    exact fun hover => hdue ⟨hover.1, hover.2.2.2⟩

theorem Holds.advanceMelody (h : Holds cfg s content) :
    Holds cfg (advanceMelody cfg now s).1 content := by
  unfold Audio.advanceMelody
  dsimp only
  split_ifs
  · exact Holds.nextNote (h.frame rfl rfl rfl rfl rfl)
  · exact h.frame rfl rfl rfl rfl rfl
  · exact Holds.nextNote (h.frame rfl rfl rfl rfl rfl)
  · exact h

end Advance

end Qmk.Audio
