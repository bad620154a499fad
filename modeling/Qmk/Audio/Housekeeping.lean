import Mathlib.Data.List.Chain
import Qmk.Audio.Melody

/-!
# Tones that run out

The loop of the update over the stack skips the tone behind one it stops.
-/

namespace Qmk.Audio

/-- What the loop leaves. -/
def sweep (now : Nat) : List Tone → List Tone
  | [] => []
  | [tone] => if expired now tone then [] else [tone]
  | tone :: next :: rest =>
      if expired now tone then next :: sweep now rest else tone :: sweep now (next :: rest)

variable {cfg : Config} {s : State} {content : List Tone} {now : Nat}

theorem sweep_keep {tone : Tone} (hkeep : expired now tone = false) (rest : List Tone) :
    sweep now (tone :: rest) = tone :: sweep now rest := by
  cases rest with
  | nil => simp [sweep, hkeep]
  | cons next rest => simp [sweep, hkeep]

/-- The loop misses nothing exactly where no two neighbours have run out. -/
theorem sweep_eq_filter_iff (now : Nat) (content : List Tone) :
    sweep now content = content.filter (fun tone => !expired now tone) ↔
      content.IsChain fun first second => ¬(expired now first ∧ expired now second) := by
  induction content using sweep.induct now with
  | case1 => simp [sweep]
  | case2 tone hover => simp [sweep, hover]
  | case3 tone hkeep => simp [sweep, hkeep]
  | case4 tone next rest hover ih =>
      rw [sweep, if_pos hover, List.filter_cons_of_neg (by simp [hover]),
        List.isChain_cons_cons]
      cases hnext : expired now next with
      | true =>
          rw [List.filter_cons_of_neg (by simp [hnext])]
          have hmissed : next :: sweep now rest ≠ rest.filter (fun tone => !expired now tone) := by
            intro heq
            have hmem : next ∈ rest.filter (fun tone => !expired now tone) :=
              heq ▸ List.mem_cons_self
            simp [hnext] at hmem
          simp [hmissed, hover]
      | false =>
          rw [List.filter_cons_of_pos (by simp [hnext]), List.cons.injEq, ih, List.isChain_cons]
          simp [hnext]
  | case5 tone next rest hkeep ih =>
      have hfalse : expired now tone = false := by simpa using hkeep
      rw [sweep, if_neg hkeep, List.filter_cons_of_pos (by simp [hfalse]), List.cons.injEq, ih,
        List.isChain_cons_cons]
      simp [hfalse]

theorem housekeeping_of_le {i : Nat} (rounds : Nat) (hi : s.activeTones ≤ i) :
    housekeeping cfg now rounds i s = s := by
  cases rounds with
  | zero => rfl
  | succ rounds => rw [housekeeping, if_neg (Nat.not_lt.mpr hi)]

/-- The loop leaves what it has passed and sweeps the rest. -/
theorem Holds.housekeeping {passed rest : List Tone} (h : Holds cfg s (passed ++ rest))
    {rounds : Nat} (hrounds : rest.length ≤ rounds) :
    Holds cfg (housekeeping cfg now rounds passed.length s) (passed ++ sweep now rest) := by
  induction rounds generalizing s passed rest with
  | zero =>
      obtain rfl := List.length_eq_zero_iff.mp (Nat.le_zero.mp hrounds)
      exact h
  | succ rounds ih =>
      cases rest with
      | nil =>
          rw [housekeeping_of_le _ (by simp [h.active_eq])]
          exact h
      | cons tone rest =>
          have hlt : passed.length < s.activeTones := by simp [h.active_eq]
          have htone : s.tones.getD passed.length noTone = tone := by simp [h.tones_eq]
          rw [List.length_cons] at hrounds
          rw [Audio.housekeeping, if_pos hlt, htone]
          dsimp only
          cases hover : expired now tone with
          | false =>
              rw [sweep_keep hover, List.append_cons passed tone (sweep now rest)]
              rw [List.append_cons] at h
              have hnext := ih h (Nat.le_of_succ_le_succ hrounds)
              rw [List.length_append, List.length_singleton] at hnext
              simpa using hnext
          | true =>
              have hnonneg : 0 ≤ tone.pitch := h.nonneg tone (by simp)
              have hstopped := h.audioStopTone tone.pitch
              rw [Int.natAbs_of_nonneg hnonneg, without_middle h.distinct] at hstopped
              cases rest with
              | nil =>
                  have hlast : (Audio.audioStopTone cfg tone.pitch s).activeTones ≤
                      passed.length + 1 := by
                    rw [hstopped.active_eq, List.append_nil]
                    exact Nat.le_succ _
                  rw [if_pos rfl, housekeeping_of_le _ hlast]
                  simpa [sweep, hover] using hstopped
              | cons next rest =>
                  rw [List.append_cons] at hstopped
                  rw [List.length_cons] at hrounds
                  have hrest : rest.length ≤ rounds := by omega
                  have hnext := ih hstopped hrest
                  rw [List.length_append, List.length_singleton] at hnext
                  simpa [sweep, hover] using hnext

theorem Holds.housekeeping_all (h : Holds cfg s content) {rounds : Nat}
    (hrounds : content.length ≤ rounds) :
    Holds cfg (Audio.housekeeping cfg now rounds 0 s) (sweep now content) := by
  have hpassed : Holds cfg s ([] ++ content) := h
  exact hpassed.housekeeping hrounds

theorem housekeeping_sameMelody (rounds i : Nat) (s : State) :
    SameMelody (housekeeping cfg now rounds i s) s := by
  induction rounds generalizing s i with
  | zero => exact .refl s
  | succ rounds ih =>
      rw [housekeeping]
      split
      · apply (ih (i + 1) _).trans
        split
        · exact audioStopTone_sameMelody _ s
        · exact .refl s
      · exact .refl s

/-- Multiplexing divides by its rate, and by the number of tones that take part. -/
def Config.divides (cfg : Config) : Bool :=
  cfg.multiplexing && (cfg.multiplexingRate == 0 || cfg.maxSimultaneousTones == 0)

theorem Holds.updateTones (h : Holds cfg s content) (now : Nat) (goto : Bool)
    (hsafe : content ≠ [] → cfg.divides = false) :
    ∃ result, updateTones cfg now goto s = .ok result ∧ SameMelody result.1 s ∧
      Holds cfg result.1 (sweep now content) := by
  have hrounds : content.length ≤ s.activeTones := Nat.le_of_eq h.active_eq.symm
  unfold Audio.updateTones
  cases hplaying : s.playingNote with
  | false =>
      obtain rfl := h.playing_eq_false_iff.mp hplaying
      exact ⟨(s, goto), rfl, .refl s, h⟩
  | true =>
      have hne : content ≠ [] := by
        intro hnil
        rw [h.playing_eq_false_iff.mpr hnil] at hplaying
        cases hplaying
      have hactive : s.activeTones ≠ 0 := by
        rw [h.active_eq]
        exact fun hzero => hne (List.length_eq_zero_iff.mp hzero)
      cases hmultiplexing : cfg.multiplexing with
      | false =>
          exact ⟨_, rfl, housekeeping_sameMelody _ _ s, h.housekeeping_all hrounds⟩
      | true =>
          have hdivides := hsafe hne
          simp only [Config.divides, hmultiplexing, Bool.true_and, Bool.or_eq_false_iff,
            beq_eq_false_iff_ne] at hdivides
          have hok : ¬(cfg.multiplexingRate = 0 ∨ min cfg.maxSimultaneousTones s.activeTones = 0) := by
            omega
          dsimp only
          rw [if_pos rfl, if_pos rfl, if_neg hok]
          refine ⟨_, rfl, (housekeeping_sameMelody _ _ _).trans ⟨rfl, rfl, rfl⟩, ?_⟩
          apply Holds.housekeeping_all _ hrounds
          exact h.frame rfl rfl hplaying.symm rfl rfl

theorem reportChange_sameMelody (result : State × Bool) :
    SameMelody (reportChange result).1 result.1 := by
  unfold reportChange
  split <;> exact ⟨rfl, rfl, rfl⟩

theorem Holds.reportChange {result : State × Bool} (h : Holds cfg result.1 content) :
    Holds cfg (reportChange result).1 content := by
  unfold Audio.reportChange
  split
  · exact h.frame rfl rfl rfl rfl rfl
  · exact h

end Qmk.Audio
