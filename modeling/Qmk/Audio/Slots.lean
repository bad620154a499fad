import Mathlib.Data.List.Basic
import Mathlib.Data.List.Nodup
import Mathlib.Tactic.SplitIfs
import Qmk.Audio.Tones

/-!
# The slots of the stack

The operations on the slots, as operations on the list of the active tones.
-/

namespace Qmk.Audio

open Qmk.Lib

/-- The slots hold these tones and nothing else, and the flags agree. -/
structure Holds (cfg : Config) (s : State) (content : List Tone) : Prop where
  tones_eq : s.tones = content ++ List.replicate (cfg.stackSize - content.length) noTone
  active_eq : s.activeTones = content.length
  length_le : content.length ≤ cfg.stackSize
  distinct : (content.map Tone.pitch).Nodup
  nonneg : ∀ tone ∈ content, 0 ≤ tone.pitch
  playing : s.playingNote = !content.isEmpty
  running : s.driverRunning = !content.isEmpty
  stopped : s.audioDriverStopped = content.isEmpty

/-- The content without the tones of a pitch. -/
def without (pitch : Int) (content : List Tone) : List Tone :=
  content.filter fun tone => tone.pitch ≠ pitch

/-- The content after a request; a tone on the top stays as it is. -/
def playContent (size : Nat) (tone : Tone) (content : List Tone) : List Tone :=
  if content.getLast?.map Tone.pitch = some tone.pitch then content
  else
    let content := without tone.pitch content ++ [tone]
    if content.length > size then content.tail else content

variable {cfg : Config} {s : State} {content : List Tone}

/-- The slots hold the same where only fields of the melody differ. -/
theorem Holds.frame {next : State} (h : Holds cfg s content) (htones : next.tones = s.tones)
    (hactive : next.activeTones = s.activeTones) (hplaying : next.playingNote = s.playingNote)
    (hrunning : next.driverRunning = s.driverRunning)
    (hstopped : next.audioDriverStopped = s.audioDriverStopped) : Holds cfg next content where
  tones_eq := htones.trans h.tones_eq
  active_eq := hactive.trans h.active_eq
  length_le := h.length_le
  distinct := h.distinct
  nonneg := h.nonneg
  playing := hplaying.trans h.playing
  running := hrunning.trans h.running
  stopped := hstopped.trans h.stopped

theorem holds_initial : Holds cfg (.initial cfg) [] where
  tones_eq := rfl
  active_eq := rfl
  length_le := Nat.zero_le _
  distinct := List.nodup_nil
  nonneg := by simp
  playing := rfl
  running := rfl
  stopped := rfl

section Find

variable {tones : List Tone} {pitch : Int} {n i : Nat}

theorem findTone_eq_some (hi : i < n) (hpitch : (tones.getD i noTone).pitch = pitch)
    (hlater : ∀ j, i < j → j < n → (tones.getD j noTone).pitch ≠ pitch) :
    findTone tones pitch n = some i := by
  induction n with
  | zero => omega
  | succ n ih =>
      rcases Nat.eq_or_lt_of_le (Nat.le_of_lt_succ hi) with rfl | hlt
      · rw [findTone, if_pos hpitch]
      · rw [findTone, if_neg (hlater n hlt (Nat.lt_succ_self n))]
        exact ih hlt (fun j hij hj => hlater j hij (Nat.lt_succ_of_lt hj))

theorem findTone_eq_none (h : ∀ j, j < n → (tones.getD j noTone).pitch ≠ pitch) :
    findTone tones pitch n = none := by
  induction n with
  | zero => rfl
  | succ n ih =>
      rw [findTone, if_neg (h n (Nat.lt_succ_self n))]
      exact ih (fun j hj => h j (Nat.lt_succ_of_lt hj))

/-- Behind the content there is no pitch to be found. -/
theorem pitch_getD (content : List Tone) (k j : Nat) :
    ((content ++ List.replicate k noTone).getD j noTone).pitch ∈ content.map Tone.pitch ∨
      ((content ++ List.replicate k noTone).getD j noTone).pitch = -1 := by
  rcases Nat.lt_or_ge j content.length with hj | hj
  · left
    rw [List.getD_eq_getElem?_getD, List.getElem?_append_left hj, List.getElem?_eq_getElem hj]
    exact List.mem_map_of_mem (List.getElem_mem hj)
  · right
    rw [List.getD_eq_getElem?_getD, List.getElem?_append_right hj, List.getElem?_replicate]
    split <;> rfl

theorem Holds.findTone_none (h : Holds cfg s content) (hpitch : 0 ≤ pitch)
    (hmem : pitch ∉ content.map Tone.pitch) (n : Nat) : findTone s.tones pitch n = none := by
  apply findTone_eq_none
  intro j _
  rw [h.tones_eq]
  rcases pitch_getD content (cfg.stackSize - content.length) j with hin | hout
  · exact fun heq => hmem (heq ▸ hin)
  · omega

theorem Holds.findTone_middle {before after : List Tone} {tone : Tone}
    (h : Holds cfg s (before ++ tone :: after)) (hn : before.length < n) :
    findTone s.tones tone.pitch n = some before.length := by
  have hdistinct := h.distinct
  rw [List.map_append, List.map_cons, List.nodup_append] at hdistinct
  have hnot : tone.pitch ∉ after.map Tone.pitch := (List.nodup_cons.mp hdistinct.2.1).1
  have hnonneg : 0 ≤ tone.pitch := h.nonneg tone (by simp)
  have htones := h.tones_eq
  rw [List.append_assoc, List.cons_append] at htones
  generalize cfg.stackSize - (before ++ tone :: after).length = k at htones
  apply findTone_eq_some hn
  · simp [htones]
  · intro j hj _
    obtain ⟨m, rfl⟩ : ∃ m, j = before.length + 1 + m := ⟨j - (before.length + 1), by omega⟩
    have hshift : s.tones.getD (before.length + 1 + m) noTone =
        (after ++ List.replicate k noTone).getD m noTone := by
      have hm : before.length + 1 + m - before.length = m + 1 := by omega
      rw [htones, List.getD_eq_getElem?_getD, List.getElem?_append_right (by omega), hm,
        List.getElem?_cons_succ, List.getD_eq_getElem?_getD]
    rw [hshift]
    rcases pitch_getD after k m with hin | hout
    · exact fun heq => hnot (heq ▸ hin)
    · omega

end Find

section Stop

variable {before after : List Tone} {tone : Tone} {pitch : Int}

theorem without_of_not_mem (h : pitch ∉ content.map Tone.pitch) : without pitch content = content := by
  unfold without
  rw [List.filter_eq_self]
  intro tone htone
  have hne : tone.pitch ≠ pitch := fun heq => h (List.mem_map.mpr ⟨tone, htone, heq⟩)
  simpa using hne

theorem without_middle (hdistinct : ((before ++ tone :: after).map Tone.pitch).Nodup) :
    without tone.pitch (before ++ tone :: after) = before ++ after := by
  rw [List.map_append, List.map_cons, List.nodup_append] at hdistinct
  obtain ⟨-, hafter, hbefore⟩ := hdistinct
  have hnot : tone.pitch ∉ before.map Tone.pitch :=
    fun hmem => hbefore tone.pitch hmem tone.pitch List.mem_cons_self rfl
  have hfirst := without_of_not_mem hnot
  have hlast := without_of_not_mem (List.nodup_cons.mp hafter).1
  unfold without at *
  rw [List.filter_append, hfirst, List.filter_cons_of_neg (by simp), hlast]

theorem mem_pitches (h : pitch ∈ content.map Tone.pitch) :
    ∃ before tone after, content = before ++ tone :: after ∧ tone.pitch = pitch := by
  obtain ⟨tone, hmem, hpitch⟩ := List.mem_map.mp h
  obtain ⟨before, after, hcontent⟩ := List.append_of_mem hmem
  exact ⟨before, tone, after, hcontent, hpitch⟩

/-- The slots after the tone at `before.length` is taken out. -/
theorem shiftDown_slots (h : Holds cfg s (before ++ tone :: after)) :
    (shiftDown noTone (cfg.stackSize - 1 - before.length) before.length s.tones).set
        (cfg.stackSize - 1) noTone =
      (before ++ after) ++
        List.replicate (cfg.stackSize - (before ++ after).length) noTone := by
  have hle := h.length_le
  simp only [List.length_append, List.length_cons] at hle
  have hfill : cfg.stackSize - (before ++ tone :: after).length =
      cfg.stackSize - 1 - before.length - after.length := by
    simp only [List.length_append, List.length_cons]
    omega
  have hsteps : cfg.stackSize - 1 - before.length =
      (after ++ List.replicate (cfg.stackSize - 1 - before.length - after.length) noTone).length := by
    rw [List.length_append, List.length_replicate]
    omega
  have hlast : cfg.stackSize - 1 =
      (before ++ (after ++ List.replicate
        (cfg.stackSize - 1 - before.length - after.length) noTone)).length := by
    rw [List.length_append, ← hsteps]
    omega
  have hmore : cfg.stackSize - (before ++ after).length =
      cfg.stackSize - 1 - before.length - after.length + 1 := by
    rw [List.length_append]
    omega
  rw [h.tones_eq, hfill, List.append_assoc, List.cons_append, hmore, List.replicate_succ']
  generalize cfg.stackSize - 1 - before.length - after.length = k at hsteps hlast
  rw [hsteps, shiftDown_append, hlast, List.set_append_right _ _ (Nat.le_refl _), Nat.sub_self]
  simp

theorem Holds.playing_eq_false_iff (h : Holds cfg s content) :
    s.playingNote = false ↔ content = [] := by
  rw [h.playing]
  cases content <;> simp

/-- `audio_stop_tone` takes the tone of the pitch out of the content. -/
theorem Holds.audioStopTone (h : Holds cfg s content) (pitch : Int) :
    Holds cfg (audioStopTone cfg pitch s) (without pitch.natAbs content) := by
  have hpitch : (0 : Int) ≤ pitch.natAbs := by omega
  unfold Audio.audioStopTone
  generalize (pitch.natAbs : Int) = p at hpitch ⊢
  cases hplaying : s.playingNote with
  | false =>
      obtain rfl := h.playing_eq_false_iff.mp hplaying
      exact h
  | true =>
      dsimp only
      by_cases hmem : p ∈ content.map Tone.pitch
      · obtain ⟨before, tone, after, rfl, rfl⟩ := mem_pitches hmem
        have hle := h.length_le
        have hsize := cfg.stackSize_le
        simp only [List.length_append, List.length_cons] at hle
        have hactive : (s.activeTones + 255) % 256 = (before ++ after).length := by
          rw [h.active_eq]
          simp only [List.length_append, List.length_cons]
          omega
        have hdistinct : ((before ++ after).map Tone.pitch).Nodup := by
          rw [← without_middle h.distinct]
          exact h.distinct.sublist (List.filter_sublist.map _)
        have hnonneg : ∀ other ∈ before ++ after, 0 ≤ other.pitch := by
          intro other hother
          apply h.nonneg other
          simp only [List.mem_append, List.mem_cons] at hother ⊢
          tauto
        rw [h.findTone_middle (by omega), without_middle h.distinct]
        simp only [if_true, hactive, shiftDown_slots h]
        by_cases hempty : before ++ after = []
        · rw [if_pos (by simp [hempty])]
          exact ⟨rfl, rfl, by simp [hempty], hdistinct, hnonneg, by simp [hempty],
            by simp [hempty, audioDriverStop], by simp [hempty]⟩
        · have hwas : (before ++ tone :: after).isEmpty = false := by simp
          have hleft : (before ++ after).isEmpty = false := by
            cases hlist : before ++ after with
            | nil => exact (hempty hlist).elim
            | cons first rest => rfl
          rw [if_neg (fun hzero => hempty (List.length_eq_zero_iff.mp hzero))]
          refine ⟨rfl, rfl, ?_, hdistinct, hnonneg, ?_, ?_, ?_⟩
          · rw [List.length_append]
            omega
          · rw [hleft]
            rfl
          · exact h.running.trans (by rw [hwas, hleft])
          · exact h.stopped.trans (by rw [hwas, hleft])
      · rw [h.findTone_none hpitch hmem, without_of_not_mem hmem]
        exact h

end Stop

section Play

variable {tone : Tone}

/-- A new tone behind the content, with room for it. -/
theorem set_slots (h : Holds cfg s content) (hroom : content.length < cfg.stackSize) :
    s.tones.set content.length tone =
      (content ++ [tone]) ++ List.replicate (cfg.stackSize - (content ++ [tone]).length) noTone := by
  have hfill : cfg.stackSize - content.length =
      cfg.stackSize - (content ++ [tone]).length + 1 := by
    rw [List.length_append, List.length_singleton]
    omega
  rw [h.tones_eq, hfill, List.replicate_succ, List.set_append_right _ _ (Nat.le_refl _),
    Nat.sub_self]
  simp

/-- A new tone in the place of the last one, after the oldest is shifted out. -/
theorem shift_slots (h : Holds cfg s content) (hfull : content.length = cfg.stackSize) :
    (shiftDown noTone (cfg.stackSize - 1) 0 s.tones).set (cfg.stackSize - 1) tone =
      content.tail ++ [tone] := by
  have hpos := cfg.one_le_stackSize
  cases content with
  | nil =>
      simp only [List.length_nil] at hfull
      omega
  | cons oldest rest =>
      have hlength : cfg.stackSize - 1 = rest.length := by
        rw [← hfull, List.length_cons]
        rfl
      have hnone : cfg.stackSize - (oldest :: rest).length = 0 := by omega
      have hshift := shiftDown_append noTone [] oldest rest
      simp only [List.length_nil, List.nil_append] at hshift
      rw [h.tones_eq, hnone, List.replicate_zero, List.append_nil, hlength, hshift,
        List.set_append_right _ _ (Nat.le_refl _), Nat.sub_self]
      simp

theorem distinct_push (hdistinct : (content.map Tone.pitch).Nodup)
    (hmem : tone.pitch ∉ content.map Tone.pitch) :
    ((content ++ [tone]).map Tone.pitch).Nodup := by
  rw [List.map_append, List.nodup_append]
  refine ⟨hdistinct, List.nodup_singleton _, ?_⟩
  rintro pitch hpitch other hother rfl
  rw [List.map_singleton, List.mem_singleton] at hother
  exact hmem (hother ▸ hpitch)

theorem playContent_top {before : List Tone} {top : Tone} (size : Nat)
    (hpitch : top.pitch = tone.pitch) :
    playContent size tone (before ++ [top]) = before ++ [top] := by
  simp [playContent, hpitch]

theorem playContent_new {size : Nat} (hmem : tone.pitch ∉ content.map Tone.pitch) :
    playContent size tone content =
      if content.length + 1 > size then (content ++ [tone]).tail else content ++ [tone] := by
  have htop : ¬content.getLast?.map Tone.pitch = some tone.pitch := by
    intro heq
    obtain ⟨top, htop, hpitch⟩ := Option.map_eq_some_iff.mp heq
    exact hmem (hpitch ▸ List.mem_map_of_mem (List.mem_of_getLast? htop))
  rw [playContent, if_neg htop, without_of_not_mem hmem]
  simp only [List.length_append, List.length_singleton]

theorem playContent_middle {before after : List Tone} {old next : Tone} {size : Nat}
    (hdistinct : ((before ++ old :: next :: after).map Tone.pitch).Nodup)
    (hpitch : old.pitch = tone.pitch) (hle : (before ++ old :: next :: after).length ≤ size) :
    playContent size tone (before ++ old :: next :: after) =
      before ++ next :: after ++ [tone] := by
  have htop : ¬(before ++ old :: next :: after).getLast?.map Tone.pitch = some tone.pitch := by
    intro heq
    obtain ⟨top, htop, htone⟩ := Option.map_eq_some_iff.mp heq
    have hlast : top ∈ next :: after := by
      apply List.mem_of_getLast?
      simpa using htop
    rw [List.map_append, List.map_cons, List.nodup_append] at hdistinct
    apply (List.nodup_cons.mp hdistinct.2.1).1
    rw [hpitch, ← htone]
    exact List.mem_map_of_mem hlast
  have hlength : ¬(before ++ next :: after ++ [tone]).length > size := by
    simp only [List.length_append, List.length_cons, List.length_nil] at hle ⊢
    omega
  rw [playContent, if_neg htop, ← hpitch, without_middle hdistinct]
  dsimp only
  rw [if_neg hlength]

/-- The hardware runs after a new tone. -/
theorem holds_started (h : Holds cfg s content) {active : Nat} {tones : List Tone}
    {next : List Tone} (hne : next ≠ [])
    (htones : tones = next ++ List.replicate (cfg.stackSize - next.length) noTone)
    (hactive : active = next.length) (hle : next.length ≤ cfg.stackSize)
    (hdistinct : (next.map Tone.pitch).Nodup) (hnonneg : ∀ other ∈ next, 0 ≤ other.pitch) :
    Holds cfg
      (if s.audioDriverStopped then
        { audioDriverStart { s with
            activeTones := active, tones, stateChanged := true, playingNote := true } with
          audioDriverStopped := false }
      else { s with activeTones := active, tones, stateChanged := true, playingNote := true })
      next := by
  have hnext : next.isEmpty = false := by
    cases next with
    | nil => exact (hne rfl).elim
    | cons first rest => rfl
  cases hstopped : s.audioDriverStopped with
  | true =>
      exact ⟨htones, hactive, hle, hdistinct, hnonneg, by simp [hnext, audioDriverStart],
        by simp [hnext, audioDriverStart], by simp [hnext]⟩
  | false =>
      have hcontent : content.isEmpty = false := h.stopped.symm.trans hstopped
      have hrunning := h.running
      exact ⟨htones, hactive, hle, hdistinct, hnonneg, by simp [hnext],
        by simp [hnext, hrunning, hcontent], by simp [hnext]⟩

/-- `audio_play_note` of a tone that is not on the stack. -/
theorem Holds.audioPlayNote_new (h : Holds cfg s content) (henable : cfg.enable = true)
    (now : Nat) (pitch : Int) (duration : Nat)
    (hmem : (pitch.natAbs : Int) ∉ content.map Tone.pitch) :
    Holds cfg (audioPlayNote cfg now pitch duration s)
      (playContent cfg.stackSize ⟨timerRead now, pitch.natAbs, duration⟩ content) := by
  have hpitch : (0 : Int) ≤ pitch.natAbs := by omega
  have hle := h.length_le
  have hsize := cfg.stackSize_le
  unfold audioPlayNote
  generalize (pitch.natAbs : Int) = p at hmem hpitch ⊢
  let tone : Tone := ⟨timerRead now, p, duration⟩
  have hwrap : (content.length + 1) % 256 = content.length + 1 := by omega
  have hdistinct : ((content ++ [tone]).map Tone.pitch).Nodup := distinct_push h.distinct hmem
  have hnonneg : ∀ other ∈ content ++ [tone], 0 ≤ other.pitch := by
    intro other hother
    rcases List.mem_append.mp hother with hold | hnew
    · exact h.nonneg other hold
    · rw [List.mem_singleton.mp hnew]
      exact hpitch
  rw [if_pos henable, playContent_new hmem]
  dsimp only
  rw [h.findTone_none hpitch hmem, h.active_eq, hwrap]
  by_cases hroom : content.length < cfg.stackSize
  · have hfits : ¬content.length + 1 > cfg.stackSize := by omega
    simp only [if_neg hfits, Nat.add_sub_cancel]
    apply holds_started h (by simp) (set_slots h hroom) (by simp) _ hdistinct hnonneg
    rw [List.length_append, List.length_singleton]
    omega
  · have hfull : content.length = cfg.stackSize := by omega
    have hover : content.length + 1 > cfg.stackSize := by omega
    have hpos := cfg.one_le_stackSize
    have htail : (content ++ [tone]).tail = content.tail ++ [tone] := by
      apply List.tail_append_of_ne_nil
      intro hnil
      rw [hnil, List.length_nil] at hfull
      omega
    have hlength : (content.tail ++ [tone]).length = cfg.stackSize := by
      rw [List.length_append, List.length_tail, List.length_singleton]
      omega
    have hslots : (shiftDown noTone (cfg.stackSize - 1) 0 s.tones).set (cfg.stackSize - 1) tone =
        (content.tail ++ [tone]) ++
          List.replicate (cfg.stackSize - (content.tail ++ [tone]).length) noTone := by
      rw [shift_slots h hfull, hlength, Nat.sub_self, List.replicate_zero, List.append_nil]
    simp only [if_pos hover]
    change Holds cfg _ (content ++ [tone]).tail
    rw [htail]
    apply holds_started h (by simp) hslots hlength.symm (Nat.le_of_eq hlength)
    · rw [← htail]
      exact hdistinct.sublist ((List.tail_sublist _).map _)
    · intro other hother
      rw [← htail] at hother
      exact hnonneg other (List.mem_of_mem_tail hother)

/-- `audio_play_note` of a tone below the top shifts it up. -/
theorem Holds.audioPlayNote_middle {before after : List Tone} {old next : Tone}
    (h : Holds cfg s (before ++ old :: next :: after)) (henable : cfg.enable = true)
    (now : Nat) (pitch : Int) (duration : Nat) (hold : old.pitch = pitch.natAbs) :
    Holds cfg (audioPlayNote cfg now pitch duration s)
      (playContent cfg.stackSize ⟨timerRead now, pitch.natAbs, duration⟩
        (before ++ old :: next :: after)) := by
  have hle := h.length_le
  have hactive := h.active_eq
  unfold audioPlayNote
  rw [if_pos henable, ← hold]
  let tone : Tone := ⟨timerRead now, old.pitch, duration⟩
  have hlength : (before ++ old :: next :: after).length =
      (before ++ next :: after ++ [tone]).length := by
    simp only [List.length_append, List.length_cons, List.length_nil]
    omega
  have hsteps : s.activeTones - 1 - before.length = (next :: after).length := by
    rw [hactive]
    simp only [List.length_append, List.length_cons]
    omega
  have hfind : findTone s.tones old.pitch s.activeTones = some before.length := by
    apply h.findTone_middle
    rw [hactive]
    simp only [List.length_append, List.length_cons]
    omega
  have hwithout : without old.pitch (before ++ old :: next :: after) = before ++ next :: after :=
    without_middle h.distinct
  have hempty : (before ++ old :: next :: after).isEmpty =
      (before ++ next :: after ++ [tone]).isEmpty := by
    cases before <;> rfl
  have hcontent : playContent cfg.stackSize tone (before ++ old :: next :: after) =
      before ++ next :: after ++ [tone] :=
    playContent_middle h.distinct rfl hle
  have hgone : ((before ++ next :: after).map Tone.pitch).Nodup := by
    rw [← hwithout]
    exact h.distinct.sublist (List.filter_sublist.map _)
  have hnot : tone.pitch ∉ (before ++ next :: after).map Tone.pitch := by
    rw [← hwithout]
    simp [without, tone]
  dsimp only
  rw [hfind]
  dsimp only
  rw [hsteps, hcontent]
  refine ⟨?_, hactive.trans hlength, hlength ▸ hle, distinct_push hgone hnot, ?_, ?_, ?_, ?_⟩
  · have htones := h.tones_eq
    rw [hlength, List.append_assoc, List.cons_append] at htones
    rw [htones, shiftUp_append]
    simp only [List.append_assoc, List.cons_append, List.nil_append]
    rfl
  · intro other hother
    rcases List.mem_append.mp hother with hin | hnew
    · apply h.nonneg other
      rw [← hwithout] at hin
      exact List.mem_of_mem_filter hin
    · rw [List.mem_singleton.mp hnew]
      exact h.nonneg old (by simp)
  · exact h.playing.trans (by rw [hempty])
  · exact h.running.trans (by rw [hempty])
  · exact h.stopped.trans hempty

/-- `audio_play_note` pushes its tone on the content. -/
theorem Holds.audioPlayNote (h : Holds cfg s content) (henable : cfg.enable = true)
    (now : Nat) (pitch : Int) (duration : Nat) :
    Holds cfg (audioPlayNote cfg now pitch duration s)
      (playContent cfg.stackSize ⟨timerRead now, pitch.natAbs, duration⟩ content) := by
  by_cases hmem : (pitch.natAbs : Int) ∈ content.map Tone.pitch
  · obtain ⟨before, old, after, rfl, hold⟩ := mem_pitches hmem
    cases after with
    | nil =>
        have hfind : findTone s.tones old.pitch s.activeTones = some before.length := by
          apply h.findTone_middle
          simp [h.active_eq]
        have hsteps : s.activeTones - 1 - before.length = 0 := by
          rw [h.active_eq, List.length_append, List.length_singleton]
          omega
        unfold Audio.audioPlayNote
        rw [if_pos henable, playContent_top _ hold, ← hold]
        dsimp only
        rw [hfind]
        dsimp only
        rw [hsteps]
        exact h
    | cons next after => exact h.audioPlayNote_middle henable now pitch duration hold
  · exact h.audioPlayNote_new henable now pitch duration hmem

end Play

section Stop

/-- `audio_stop_all` empties the stack, or finds it empty. -/
theorem Holds.audioStopAll (h : Holds cfg s content) : Holds cfg (audioStopAll cfg s) [] := by
  unfold Audio.audioStopAll
  cases hstopped : s.audioDriverStopped with
  | true =>
      obtain rfl : content = [] := List.isEmpty_iff.mp (h.stopped.symm.trans hstopped)
      exact h
  | false => exact ⟨rfl, rfl, Nat.zero_le _, List.nodup_nil, by simp, rfl, rfl, rfl⟩

/-- `audio_play_melody` cancels what sounds. -/
theorem Holds.cancel (h : Holds cfg s content) :
    Holds cfg (if s.playingNote then Audio.audioStopAll cfg s else s) [] := by
  cases hplaying : s.playingNote with
  | true => exact h.audioStopAll
  | false => exact h.playing_eq_false_iff.mp hplaying ▸ h

end Stop

end Qmk.Audio
