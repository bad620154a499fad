import Mathlib.Data.List.Forall2
import Qmk.Audio.Housekeeping
import Qmk.Audio.Requests

/-!
# Tones and requests

A tone on the stack and the request it stands for run out in the same update, as long as updates
come often enough for a timer of sixteen bits.
-/

namespace Qmk.Audio

def Request.tone (r : Request) : Tone := ⟨timerRead r.started, r.pitch, r.duration⟩

/-- The two requests run out at the same time. -/
def Request.SameEnd (first second : Request) : Prop := ∀ now, first.over now = second.over now

/-- The tone is that of a request which runs out when `r` does, and had not run out at the time of
the last update. -/
def Stands (updated : Nat) (tone : Tone) (r : Request) : Prop :=
  ∃ made : Request, made.tone = tone ∧ made.pitch = r.pitch ∧ made.started ≤ r.started ∧
    made.SameEnd r ∧ (made.duration ≤ 60000 → made.over updated = false)

variable {now updated : Nat} {tone : Tone} {r : Request} {content : List Tone}
  {requests : List Request}

theorem timerElapsed_timerRead {started : Nat} (hle : started ≤ now) :
    timerElapsed now (timerRead started) = (now - started) % 65536 := by
  unfold timerElapsed timerRead
  rw [BitVec.toNat_sub, BitVec.toNat_ofNat, BitVec.toNat_ofNat]
  omega

/-- The timer of sixteen bits sees the end of a request that the last update did not see. -/
theorem expired_tone {made : Request} (hle : made.started ≤ now) (hsoon : now ≤ updated + 1000)
    (hfresh : made.duration ≤ 60000 → made.over updated = false) :
    expired now made.tone = made.over now := by
  have hexpired : expired now made.tone = (finite made.duration &&
      decide (made.duration ≤ timerElapsed now (timerRead made.started))) :=
    congrArg (fun ends => ends && _) (Bool.and_comm _ _)
  rw [hexpired, Request.over]
  cases hends : finite made.duration with
  | false => simp
  | true =>
      by_cases hshort : made.duration ≤ 60000
      · have hnot := hfresh hshort
        simp only [Request.over, hends, hshort, if_true, Bool.true_and, decide_eq_false_iff_not,
          Nat.not_le] at hnot
        rw [timerElapsed_timerRead hle, Nat.mod_eq_of_lt (by omega)]
        simp only [hshort, if_true, Bool.true_and, decide_eq_decide]
        omega
      · simp [hshort]

theorem Stands.expired_eq (h : Stands updated tone r) (hle : r.started ≤ now)
    (hsoon : now ≤ updated + 1000) : expired now tone = r.over now := by
  obtain ⟨made, rfl, -, hmade, hend, hfresh⟩ := h
  rw [expired_tone (Nat.le_trans hmade hle) hsoon hfresh, hend]

/-- A tone that stays in an update has not run out at its time. -/
theorem Stands.later (h : Stands updated tone r) (hkeep : r.over now = false) :
    Stands now tone r := by
  obtain ⟨made, htone, hpitch, hmade, hend, -⟩ := h
  exact ⟨made, htone, hpitch, hmade, hend, fun _ => (hend now).trans hkeep⟩

theorem Stands.pitch_eq (h : Stands updated tone r) : tone.pitch = r.pitch := by
  obtain ⟨made, rfl, hpitch, -⟩ := h
  exact hpitch

theorem stands_tone (hle : updated ≤ r.started) : Stands updated r.tone r := by
  refine ⟨r, rfl, rfl, Nat.le_refl _, fun _ => rfl, ?_⟩
  intro hshort
  unfold Request.over finite
  simp only [hshort, if_true]
  by_cases hzero : r.duration = 0
  · simp [hzero]
  · simp only [Bool.and_eq_false_iff, decide_eq_false_iff_not]
    right
    omega

/-- The tone of a request stands for the one that replaces it. -/
theorem Stands.renew {next : Request} (h : Stands updated tone r) (hpitch : r.pitch = next.pitch)
    (hle : r.started ≤ next.started) (hend : r.SameEnd next) : Stands updated tone next := by
  obtain ⟨made, htone, hmade, hstarted, hsame, hfresh⟩ := h
  exact ⟨made, htone, hmade.trans hpitch, Nat.le_trans hstarted hle,
    fun now => (hsame now).trans (hend now), hfresh⟩

theorem pitches_eq (h : List.Forall₂ (Stands updated) content requests) :
    content.map Tone.pitch = requests.map Request.pitch := by
  induction h with
  | nil => rfl
  | cons hstands _ ih => rw [List.map_cons, List.map_cons, ih, hstands.pitch_eq]

theorem stands_stop (h : List.Forall₂ (Stands updated) content requests) (pitch : Int) :
    List.Forall₂ (Stands updated) (without pitch content) (Requests.stop pitch requests) := by
  apply List.rel_filter _ h
  intro tone r hstands
  simp [hstands.pitch_eq]

theorem stands_concat {before : List Tone} {firsts : List Request}
    (h : List.Forall₂ (Stands updated) (before ++ [tone]) (firsts ++ [r])) :
    List.Forall₂ (Stands updated) before firsts ∧ Stands updated tone r := by
  have hreverse := List.rel_reverse h
  rw [List.reverse_concat, List.reverse_concat, List.forall₂_cons] at hreverse
  exact ⟨List.forall₂_reverse_iff.mp hreverse.2, hreverse.1⟩

theorem stands_tail (h : List.Forall₂ (Stands updated) content requests) :
    List.Forall₂ (Stands updated) content.tail requests.tail := by
  cases h with
  | nil => exact .nil
  | cons _ hrest => exact hrest

/-- A request for the pitch on the top replaces the one that stands there. -/
theorem play_top {time size : Nat} {firsts : List Request} {top : Request}
    (hordered : Requests.Ordered time (firsts ++ [top])) (hsize : (firsts ++ [top]).length ≤ size)
    (hpitch : top.pitch = r.pitch) :
    Requests.play size r (firsts ++ [top]) = firsts ++ [r] := by
  have hdistinct := hordered.distinct
  rw [List.map_append, List.nodup_append] at hdistinct
  have hstop : Requests.stop r.pitch (firsts ++ [top]) = firsts := by
    unfold Requests.stop
    rw [List.filter_append, List.filter_cons_of_neg (by simp [hpitch]), List.filter_nil,
      List.append_nil, List.filter_eq_self]
    intro other hother
    have hne : other.pitch ≠ top.pitch :=
      hdistinct.2.2 _ (List.mem_map_of_mem hother) _ (by simp)
    simpa [hpitch] using hne
  have hfits : ¬(firsts ++ [r]).length > size := by
    rw [List.length_append, List.length_singleton] at hsize ⊢
    omega
  unfold Requests.play
  dsimp only
  rw [hstop, if_neg hfits]

/-- The tones after `audio_play_note` stand for the requests after it. -/
theorem stands_play {time size : Nat} (h : List.Forall₂ (Stands updated) content requests)
    (hordered : Requests.Ordered time requests) (hsize : requests.length ≤ size)
    (htime : time ≤ r.started) (hle : updated ≤ r.started)
    (hrenews : ∀ top ∈ requests.getLast?, top.pitch = r.pitch → top.SameEnd r) :
    List.Forall₂ (Stands updated) (playContent size r.tone content)
      (Requests.play size r requests) := by
  by_cases htop : content.getLast?.map Tone.pitch = some r.pitch
  · obtain ⟨tone, hlast, hpitch⟩ := Option.map_eq_some_iff.mp htop
    obtain ⟨before, rfl⟩ := List.getLast?_eq_some_iff.mp hlast
    have hne : requests ≠ [] := by
      rintro rfl
      simpa using h.length_eq
    obtain ⟨firsts, top, rfl⟩ : ∃ firsts top, requests = firsts ++ [top] :=
      ⟨_, _, (List.dropLast_append_getLast hne).symm⟩
    obtain ⟨hbefore, hstands⟩ := stands_concat h
    have hsame : top.pitch = r.pitch := hstands.pitch_eq.symm.trans hpitch
    have hstarted : top.started ≤ r.started :=
      Nat.le_trans (hordered.past top (by simp)) htime
    have hend : top.SameEnd r := hrenews top (by simp) hsame
    rw [playContent_top size hpitch, play_top hordered hsize hsame]
    exact List.rel_append hbefore (.cons (hstands.renew hsame hstarted hend) .nil)
  · have hpushed : List.Forall₂ (Stands updated) (without r.pitch content ++ [r.tone])
        (Requests.stop r.pitch requests ++ [r]) :=
      List.rel_append (stands_stop h r.pitch) (.cons (stands_tone hle) .nil)
    have hcontent : playContent size r.tone content =
        if (without r.pitch content ++ [r.tone]).length > size then
          (without r.pitch content ++ [r.tone]).tail
        else without r.pitch content ++ [r.tone] := if_neg htop
    rw [hcontent, Requests.play, ← hpushed.length_eq]
    split
    · exact stands_tail hpushed
    · exact hpushed

theorem stands_expire (h : List.Forall₂ (Stands updated) content requests)
    (hpast : ∀ r ∈ requests, r.started ≤ now) (hsoon : now ≤ updated + 1000) :
    List.Forall₂ (Stands now) (content.filter fun tone => !expired now tone)
      (Requests.expire now requests) := by
  unfold Requests.expire
  induction h with
  | nil => exact .nil
  | @cons tone r content requests hstands _ ih =>
      have hrest := ih (fun other hother => hpast other (List.mem_cons_of_mem r hother))
      have hexpired := hstands.expired_eq (hpast r List.mem_cons_self) hsoon
      cases hover : r.over now with
      | true =>
          rw [List.filter_cons_of_neg (by simp [hexpired, hover]),
            List.filter_cons_of_neg (by simp [hover])]
          exact hrest
      | false =>
          rw [List.filter_cons_of_pos (by simp [hexpired, hover]),
            List.filter_cons_of_pos (by simp [hover])]
          exact .cons (hstands.later hover) hrest

theorem map_expired (h : List.Forall₂ (Stands updated) content requests)
    (hpast : ∀ r ∈ requests, r.started ≤ now) (hsoon : now ≤ updated + 1000) :
    content.map (expired now) = requests.map (Request.over now) := by
  induction h with
  | nil => rfl
  | @cons tone r content requests hstands _ ih =>
      rw [List.map_cons, List.map_cons, hstands.expired_eq (hpast r List.mem_cons_self) hsoon,
        ih (fun other hother => hpast other (List.mem_cons_of_mem r hother))]

/-- No two requests next to each other have run out. -/
def Apart (now : Nat) (requests : List Request) : Prop :=
  requests.IsChain fun first second => ¬(first.over now ∧ second.over now)

/-- The loop of the update takes out the tones whose requests have run out, and nothing else. -/
theorem stands_sweep (h : List.Forall₂ (Stands updated) content requests)
    (hpast : ∀ r ∈ requests, r.started ≤ now) (hsoon : now ≤ updated + 1000)
    (hapart : Apart now requests) :
    List.Forall₂ (Stands now) (sweep now content) (Requests.expire now requests) := by
  have hchain : (requests.map (Request.over now)).IsChain fun first second : Bool =>
      ¬(first ∧ second) := (List.isChain_map _).mpr hapart
  rw [← map_expired h hpast hsoon, List.isChain_map] at hchain
  rw [(sweep_eq_filter_iff now content).mpr hchain]
  exact stands_expire h hpast hsoon

end Qmk.Audio
