import Qmk.Tapping.Settlement

/-!
# What is held waits in the order of its arrival

An unsettled tapping key and the records behind it in the waiting buffer came in
one after the other, unless a fresh press starts as the tapping key while other
records wait.  Inputs carry the time at which they are fed in, of which the
engine sees 16 bits.
-/

namespace Qmk.Tapping

open Qmk.Lib

variable {σ : Type} {cb : Callbacks σ}

/-! ## Inputs with their times -/

structure Stamped where
  time : Nat
  event : KeyEvent
  event_time : event.time = UInt16.ofNat time
  deriving DecidableEq

def Stamped.key (col : UInt8) (time : Nat) (pressed : Bool) : Stamped :=
  ⟨time, keyEvent col (UInt16.ofNat time) pressed, rfl⟩

def Stamped.tick (time : Nat) : Stamped :=
  ⟨time, tickEvent (UInt16.ofNat time), rfl⟩

def Chronological (inputs : List Stamped) : Prop :=
  inputs.Pairwise fun first second => first.time ≤ second.time

instance (inputs : List Stamped) : Decidable (Chronological inputs) :=
  inferInstanceAs (Decidable (List.Pairwise _ _))

def AlternatesPerKey (inputs : List Stamped) : Prop :=
  ∀ key, Alternates (fedTo key (inputs.map (·.event)))

def feed (cb : Callbacks σ) (s : State σ) (input : Stamped) : State σ :=
  actionExec cb s input.event

theorem timerDiff16_le {first second : Stamped} (h : first.time ≤ second.time) :
    (timerDiff16 second.event.time first.event.time).toNat ≤
      second.time - first.time := by
  rw [first.event_time, second.event_time, timerDiff16, UInt16.toNat_sub,
    UInt16.toNat_ofNat', UInt16.toNat_ofNat']
  omega

/-! ## What waits -/

/-- An unsettled tapping key, and what is behind it. -/
def pending (s : State σ) : List KeyEvent :=
  (if s.Unsettled then [s.tappingKey.event] else []) ++
    s.waitingBuffer.map (·.event)

theorem pending_unsettled {s : State σ} (h : s.Unsettled) :
    pending s = s.tappingKey.event :: s.waitingBuffer.map (·.event) := by
  rw [pending, if_pos h, List.singleton_append]

theorem pending_settled {s : State σ} (h : ¬ s.Unsettled) :
    pending s = s.waitingBuffer.map (·.event) := by
  rw [pending, if_neg h, List.nil_append]

theorem waiting_sublist_pending (s : State σ) :
    (s.waitingBuffer.map (·.event)).Sublist (pending s) :=
  List.sublist_append_right _ _

/-- A press of the last tapped key starts it again, without a scan. -/
def Restarts (cb : Callbacks σ) (keyp : KeyRecord) (s : State σ) : Prop :=
  keyp.event.isEvent = true ∧ s.Released ∧ keyp.event.pressed = true ∧
    withinTappingTerm cb s keyp.event = true ∧
    keyp.event.key = s.tappingKey.event.key ∧
    quickRepeat cb s keyp.event = false

instance (cb : Callbacks σ) (keyp : KeyRecord) (s : State σ) :
    Decidable (Restarts cb keyp s) :=
  inferInstanceAs (Decidable (_ ∧ _ ∧ _ ∧ _ ∧ _ ∧ _))

/-- A fresh press starts as the tapping key, and other records wait. -/
def StartsAhead (cb : Callbacks σ) (s : State σ) (event : KeyEvent) : Prop :=
  s.waitingBuffer ≠ [] ∧
    (Starts cb (.fresh event) s ∨ Restarts cb (.fresh event) s)

instance (cb : Callbacks σ) (s : State σ) (event : KeyEvent) :
    Decidable (StartsAhead cb s event) :=
  inferInstanceAs (Decidable (_ ∧ _))

/-! ## One call -/

theorem startTapping_event (hcb : cb.KeepsRecords) {keyp : KeyRecord} (s : State σ)
    (hcount : keyp.tap.count = 0) (hpressed : keyp.event.pressed = true)
    (hmode : (startTapping cb keyp s).2.2.Unsettled) :
    (startTapping cb keyp s).2.2.tappingKey = keyp := by
  rcases startTapping_cases cb s hcount hpressed with
    ⟨hstart, -⟩ | ⟨buffer, -, hstart⟩
  · rw [hstart]
  · rw [hstart] at hmode
    refine absurd hmode (not_unsettled_of_count ?_)
    rw [KeepsRecords.tap hcb]
    exact Nat.zero_lt_one

/-- The tapping key that a call leaves unsettled. -/
inductive TapAfter (cb : Callbacks σ) (keyp : KeyRecord) (s : State σ)
    (result : Result σ) : Prop
  | same (hmode : s.Unsettled)
      (hevent : result.2.2.tappingKey.event = s.tappingKey.event)
  | started (hdone : result.1 = true)
      (hevent : result.2.2.tappingKey.event = keyp.event)
      (hstarts : Starts cb keyp s ∨ Restarts cb keyp s)

theorem Outcome.tapAfter (hcb : cb.KeepsRecords) {keyp : KeyRecord} {s : State σ}
    {result : Result σ} (h : Outcome cb keyp s result)
    (hcount : keyp.event.pressed = true → keyp.tap.count = 0)
    (hafter : result.2.2.Unsettled) : TapAfter cb keyp s result := by
  cases h with
  | ignored => exact .same hafter rfl
  | handed _ hmode => exact absurd hafter hmode
  | bypassed _ hmode => exact .same hmode rfl
  | interrupted _ hmode =>
      exact absurd (KeyRecord.setInterrupted_unsettled.mp hafter)
        hmode.not_unsettled
  | startedIdle hevent hidle hpressed htap =>
      have hnot := State.not_unsettled_of_idle hidle
      exact .started rfl
        (congrArg _ (startTapping_event hcb _ (hcount hpressed) hpressed hafter))
        (.inl ⟨hevent, hpressed, htap, hnot, fun hreleased =>
          State.not_released_of_idle hidle hreleased.1⟩)
  | startedTapped hevent hmode hpressed htap =>
      exact .started rfl
        (congrArg _ (startTapping_event hcb _ (hcount hpressed) hpressed hafter))
        (.inl ⟨hevent, hpressed, htap, hmode.not_unsettled, fun hreleased =>
          hreleased.1.not_tapped hmode⟩)
  | startedReleased hevent hmode hpressed hwithin hother htap =>
      refine .started rfl
        (congrArg _ (startTapping_event hcb _ (hcount hpressed) hpressed hafter))
        (.inl ⟨hevent, hpressed, htap, hmode.not_unsettled, ?_⟩)
      rintro ⟨-, hown | hlate⟩
      · exact hother hown
      · rw [hwithin] at hlate
        exact absurd hlate (by simp)
  | restarted hevent hmode hpressed hwithin hown hquick =>
      exact .started rfl rfl (.inr ⟨hevent, hmode, hpressed, hwithin, hown, hquick⟩)
  | sequential _ _ _ _ _ hquick =>
      refine absurd hafter (not_unsettled_of_count ?_)
      simp only [processRecord, KeepsRecords.tap hcb]
      have hmore := sequentialTap_count keyp (quickRepeat_count hquick)
      omega
  | firstTap =>
      refine absurd hafter (not_unsettled_of_count ?_)
      simp [processRecord, KeepsRecords.tap hcb]
  | retained _ hmode hsame =>
      refine .same hmode ?_
      rcases hsame with rfl | rfl <;> rfl
  | tapReleased _ hmode _ _ within =>
      refine absurd hafter ?_
      cases within with
      | false => exact KeyRecord.zero_not_unsettled
      | true =>
          refine not_unsettled_of_count ?_
          rw [if_pos rfl]
          simp only [processRecord, KeepsRecords.tap hcb]
          exact hmode.count_pos
  | interfered | timedOut | expired =>
      exact absurd hafter KeyRecord.zero_not_unsettled

/-- A record of the buffer becomes the tapping key, leaves, or stays where it is. -/
theorem Outcome.pending_popped (hcb : cb.KeepsRecords) {keyp : KeyRecord}
    {s : State σ} {rest : List KeyRecord} {result : Result σ}
    (h : Outcome cb keyp s result)
    (hcount : keyp.event.pressed = true → keyp.tap.count = 0)
    (hbuffer : s.waitingBuffer = keyp :: rest) :
    (pending (popped result)).Sublist (pending s) := by
  have hevents := h.buffer_events hcount
  rw [hbuffer, List.map_cons] at hevents
  have hrest : (popped result).waitingBuffer.map (·.event) =
      rest.map (·.event) := by
    rw [popped, List.map_tail, hevents, List.tail_cons]
  by_cases hafter : result.2.2.Unsettled
  · have hpending : pending (popped result) =
        result.2.2.tappingKey.event :: rest.map (·.event) := by
      rw [← hrest]
      exact pending_unsettled (s := popped result) hafter
    rw [hpending]
    cases h.tapAfter hcb hcount hafter with
    | same hmode hevent =>
        rw [pending_unsettled hmode, hevent, hbuffer, List.map_cons]
        exact (List.sublist_cons_self _ _).cons_cons _
    | started _ hevent hstarts =>
        rw [hevent]
        have hwhole := waiting_sublist_pending s
        rwa [hbuffer, List.map_cons] at hwhole
  · have hpending : pending (popped result) = rest.map (·.event) := by
      rw [← hrest]
      exact pending_settled (s := popped result) hafter
    have hwhole := waiting_sublist_pending s
    rw [hbuffer, List.map_cons] at hwhole
    rw [hpending]
    exact (List.sublist_cons_self _ _).trans hwhole

theorem Outcome.pending_waits (hcb : cb.KeepsRecords) {keyp : KeyRecord}
    {s : State σ} {result : Result σ} (h : Outcome cb keyp s result)
    (hwaits : result.1 = false)
    (hcount : keyp.event.pressed = true → keyp.tap.count = 0) :
    (pending result.2.2).Sublist (pending s) := by
  have hevents := h.buffer_events hcount
  by_cases hafter : result.2.2.Unsettled
  · cases h.tapAfter hcb hcount hafter with
    | same hmode hevent =>
        rw [pending_unsettled hafter, pending_unsettled hmode, hevent, hevents]
    | started hdone => rw [hwaits] at hdone; exact absurd hdone (by simp)
  · rw [pending_settled hafter, hevents]
    exact waiting_sublist_pending s

theorem Outcome.pending_kept (hcb : cb.KeepsRecords) {keyp : KeyRecord}
    {s : State σ} {rest : List KeyRecord} {result : Result σ}
    (h : Outcome cb keyp s result) (hwaits : result.1 = false)
    (hcount : keyp.event.pressed = true → keyp.tap.count = 0)
    (hbuffer : s.waitingBuffer = keyp :: rest) :
    (pending (kept result)).Sublist (pending s) := by
  have hsame := h.waits_event hwaits
  have hevents : (kept result).waitingBuffer.map (·.event) =
      result.2.2.waitingBuffer.map (·.event) := by
    rw [kept, List.map_cons, hsame, h.waits_buffer hwaits, hbuffer, List.tail_cons,
      List.map_cons]
  have hpending : pending (kept result) = pending result.2.2 := by
    unfold pending
    rw [hevents]
    rfl
  rw [hpending]
  exact h.pending_waits hcb hwaits hcount

theorem waitingBufferEnq_pending (cb : Callbacks σ) (record : KeyRecord)
    (s : State σ) :
    (pending (waitingBufferEnq cb record s)).Sublist
      (pending s ++ [record.event]) := by
  unfold waitingBufferEnq
  split_ifs
  · exact List.sublist_append_left _ _
  · rw [pending_settled KeyRecord.zero_not_unsettled]
    exact List.nil_sublist _
  · have hpending : pending { s with waitingBuffer := s.waitingBuffer ++ [record] } =
        pending s ++ [record.event] := by
      simp [pending]
    rw [hpending]

theorem processFresh_pending (hcb : cb.KeepsRecords) {s : State σ} {event : KeyEvent}
    (hahead : ¬ StartsAhead cb s event) :
    (pending (processFresh cb (.fresh event) s)).Sublist (pending s ++ [event]) := by
  have h := processTapping_cases cb (.fresh event) s
  have hevents := h.buffer_events fun _ => rfl
  unfold processFresh
  dsimp only
  split_ifs with hdone
  · by_cases hafter : (processTapping cb (.fresh event) s).2.2.Unsettled
    · rw [pending_unsettled hafter, hevents]
      cases h.tapAfter hcb (fun _ => rfl) hafter with
      | same hmode hevent =>
          rw [hevent, ← pending_unsettled hmode]
          exact List.sublist_append_left _ _
      | started _ hevent hstarts =>
          have hempty : s.waitingBuffer = [] := by
            by_contra hne
            exact hahead ⟨hne, hstarts⟩
          rw [hevent, hempty]
          exact List.sublist_append_right _ _
    · rw [pending_settled hafter, hevents]
      exact (waiting_sublist_pending s).trans (List.sublist_append_left _ _)
  · rw [Bool.not_eq_true] at hdone
    have hsame := h.waits_event hdone
    have henq := waitingBufferEnq_pending cb
      (processTapping cb (.fresh event) s).2.1 (processTapping cb (.fresh event) s).2.2
    rw [hsame] at henq
    exact henq.trans ((h.pending_waits hcb hdone fun _ => rfl).append_right _)

/-! ## The loop -/

/-- What a call that is done with its record preserves holds at each call. -/
theorem loopCalls_induction (cb : Callbacks σ) (Inv : State σ → Prop)
    (hpop : ∀ s keyp rest, s.waitingBuffer = keyp :: rest → Inv s →
      (processTapping cb keyp s).1 = true → Inv (popped (processTapping cb keyp s)))
    {s : State σ} (h : Inv s) (fuel : Nat) :
    ∀ call ∈ loopCalls cb fuel s,
      Inv call.2 ∧ ∃ rest, call.2.waitingBuffer = call.1 :: rest := by
  induction fuel generalizing s with
  | zero => simp [loopCalls]
  | succ fuel ih =>
      cases hbuffer : s.waitingBuffer with
      | nil => simp [loopCalls, hbuffer]
      | cons keyp rest =>
          rw [loopCalls_cons hbuffer]
          intro call hcall
          rcases List.mem_cons.mp hcall with rfl | hcall
          · exact ⟨h, rest, hbuffer⟩
          · split_ifs at hcall with hdone
            · exact ih (hpop s keyp rest hbuffer h hdone) call hcall
            · simp at hcall

/-! ## The place of a press in the run -/

/-- The press fed in after `earlier` waits for as long as `later` comes in. -/
def WaitsSince (cb : Callbacks σ) (host : σ) (earlier : List Stamped)
    (press : Stamped) (later : List Stamped) : Prop :=
  ∀ during, during <+: later →
    press.event ∈ pending (run (feed cb) (.init host) (earlier ++ press :: during))

/-- What is held came in and has waited since, and so did what is behind it. -/
structure Ordered (cb : Callbacks σ) (host : σ) (inputs : List Stamped)
    (s : State σ) : Prop where
  place : ∀ event behind, (event :: behind).Sublist (pending s) →
    ∃ earlier press later, inputs = earlier ++ press :: later ∧
      press.event = event ∧ behind.Sublist (later.map (·.event)) ∧
      WaitsSince cb host earlier press later
  waiting : Waiting s.waitingBuffer

/-- The same while the last input is taken in. -/
structure Taking (cb : Callbacks σ) (host : σ) (before : List Stamped)
    (now : Stamped) (s : State σ) : Prop where
  place : ∀ event behind, (event :: behind).Sublist (pending s) →
    (∃ earlier press later, before = earlier ++ press :: later ∧
      press.event = event ∧
      behind.Sublist ((later ++ [now]).map (·.event)) ∧
      WaitsSince cb host earlier press later) ∨
    (now.event = event ∧ behind = [])
  waiting : Waiting s.waitingBuffer

theorem Taking.of_pending {host : σ} {before : List Stamped} {now : Stamped}
    {s t : State σ} (h : Taking cb host before now s)
    (hpending : (pending t).Sublist (pending s)) (hwaiting : Waiting t.waitingBuffer) :
    Taking cb host before now t :=
  ⟨fun event behind hsub => h.place event behind (hsub.trans hpending), hwaiting⟩

theorem waitingBufferEnq_waiting {cb : Callbacks σ} {record : KeyRecord}
    {s : State σ} (h : Waiting s.waitingBuffer)
    (hcount : record.event.pressed = true → record.tap.count = 0) :
    Waiting (waitingBufferEnq cb record s).waitingBuffer := by
  unfold waitingBufferEnq
  split_ifs with htick
  · exact h
  · intro other hother
    simp at hother
  · intro other hother
    rcases List.mem_append.mp hother with hother | hother
    · exact h other hother
    · rw [List.mem_singleton.mp hother]
      exact ⟨by simpa using htick, hcount⟩

theorem processFresh_waiting (cb : Callbacks σ) {s : State σ}
    (h : Waiting s.waitingBuffer) (event : KeyEvent) :
    Waiting (processFresh cb (.fresh event) s).waitingBuffer := by
  have hout := processTapping_cases cb (.fresh event) s
  have hafter := hout.buffer_waiting (fun _ => rfl) h
  unfold processFresh
  dsimp only
  split_ifs with hdone
  · exact hafter
  · rw [Bool.not_eq_true] at hdone
    exact waitingBufferEnq_waiting hafter (hout.record_waiting hdone fun _ => rfl)

theorem Ordered.processFresh {host : σ} {before : List Stamped} {now : Stamped}
    {s : State σ} (hcb : cb.KeepsRecords) (h : Ordered cb host before s)
    (hahead : ¬ StartsAhead cb s now.event) :
    Taking cb host before now (processFresh cb (.fresh now.event) s) := by
  refine ⟨fun event behind hsub => ?_, processFresh_waiting cb h.waiting now.event⟩
  obtain ⟨first, last, hsplit, hfirst, hlast⟩ :=
    List.sublist_append_iff.mp (hsub.trans (processFresh_pending hcb hahead))
  cases first with
  | nil =>
      rw [List.nil_append] at hsplit
      rw [← hsplit] at hlast
      obtain ⟨hevent, hbehind⟩ := List.cons.inj
        (hlast.eq_of_length_le (by simp))
      exact .inr ⟨hevent.symm, hbehind⟩
  | cons head first =>
      obtain ⟨rfl, rfl⟩ := List.cons.inj hsplit
      obtain ⟨earlier, press, later, hinputs, hpress, hbehind, hsince⟩ :=
        h.place event first hfirst
      refine .inl ⟨earlier, press, later, hinputs, hpress, ?_, hsince⟩
      rw [List.map_append]
      exact hbehind.append hlast

theorem Taking.pop {host : σ} {before : List Stamped} {now : Stamped} {s : State σ}
    {keyp : KeyRecord} {rest : List KeyRecord} (hcb : cb.KeepsRecords)
    (h : Taking cb host before now s) (hbuffer : s.waitingBuffer = keyp :: rest) :
    Taking cb host before now (popped (processTapping cb keyp s)) := by
  have hout := processTapping_cases cb keyp s
  have hcount := (h.waiting keyp (by simp [hbuffer])).2
  exact h.of_pending (hout.pending_popped hcb hcount hbuffer)
    (hout.popped_waiting hcount h.waiting)

theorem Taking.keep {host : σ} {before : List Stamped} {now : Stamped} {s : State σ}
    {keyp : KeyRecord} {rest : List KeyRecord} (hcb : cb.KeepsRecords)
    (h : Taking cb host before now s) (hbuffer : s.waitingBuffer = keyp :: rest)
    (hwaits : (processTapping cb keyp s).1 = false) :
    Taking cb host before now (kept (processTapping cb keyp s)) := by
  have hout := processTapping_cases cb keyp s
  obtain ⟨hevent, hcount⟩ := h.waiting keyp (by simp [hbuffer])
  exact h.of_pending (hout.pending_kept hcb hwaits hcount hbuffer)
    (hout.kept_waiting hwaits hevent hcount h.waiting)

/-- At the end of the step what is held has waited for one more input. -/
theorem Taking.done {host : σ} {before : List Stamped} {now : Stamped}
    {s : State σ} (h : Taking cb host before now s)
    (hrun : run (feed cb) (.init host) (before ++ [now]) = s) :
    Ordered cb host (before ++ [now]) s := by
  refine ⟨fun event behind hsub => ?_, h.waiting⟩
  have hmem : event ∈ pending s := hsub.subset List.mem_cons_self
  rcases h.place event behind hsub with
    ⟨earlier, press, later, hinputs, hpress, hbehind, hsince⟩ | ⟨hevent, rfl⟩
  · refine ⟨earlier, press, later ++ [now], by simp [hinputs], hpress, hbehind,
      fun during hduring => ?_⟩
    rcases List.prefix_concat_iff.mp hduring with rfl | hduring
    · have hwhole : earlier ++ press :: (later ++ [now]) = before ++ [now] := by
        simp [hinputs]
      rw [hwhole, hrun, hpress]
      exact hmem
    · exact hsince during hduring
  · refine ⟨before, now, [], rfl, hevent, List.nil_sublist _, fun during hduring => ?_⟩
    rw [List.prefix_nil.mp hduring, hrun, hevent]
    exact hmem

theorem Taking.processWaitingBuffer {host : σ} {before : List Stamped}
    {now : Stamped} {s : State σ} (hcb : cb.KeepsRecords)
    (h : Taking cb host before now s) (fuel : Nat) :
    Taking cb host before now (processWaitingBuffer cb fuel s) :=
  processWaitingBuffer_induction cb (Taking cb host before now) (fun _ _ => True)
    (fun _ _ _ hbuffer h _ _ => h.pop hcb hbuffer)
    (fun _ _ _ hbuffer h _ hwaits => h.keep hcb hbuffer hwaits) h fuel
    fun _ _ => trivial

theorem Ordered.feed {host : σ} {before : List Stamped} {now : Stamped}
    (hcb : cb.KeepsRecords)
    (h : Ordered cb host before (run (feed cb) (.init host) before))
    (hahead : ¬ StartsAhead cb (run (feed cb) (.init host) before) now.event) :
    Ordered cb host (before ++ [now])
      (run (feed cb) (.init host) (before ++ [now])) := by
  refine Taking.done ?_ rfl
  rw [run_append]
  exact (h.processFresh hcb hahead).processWaitingBuffer hcb _

theorem init_ordered (cb : Callbacks σ) (host : σ) :
    Ordered cb host [] (.init host) where
  place event behind hsub := by
    rw [pending_settled KeyRecord.zero_not_unsettled] at hsub
    exact absurd hsub (by simp [State.init])
  waiting record hrecord := by simp [State.init] at hrecord

/-- As long as no press starts ahead, what is held waits in its order. -/
theorem run_ordered (hcb : cb.KeepsRecords) (host : σ) {inputs : List Stamped}
    (hmeets : Meets (feed cb) (fun s input => ¬ StartsAhead cb s input.event)
      (.init host) inputs) :
    Ordered cb host inputs (run (feed cb) (.init host) inputs) := by
  induction inputs using List.reverseRecOn with
  | nil => exact init_ordered cb host
  | append_singleton before now ih =>
      obtain ⟨hbefore, hnow, -⟩ := Meets.append_iff.mp hmeets
      exact (ih hbefore).feed hcb hnow

end Qmk.Tapping
