import Qmk.Tapping.Order

/-!
# Every event is delivered, in the order of its key

A run conserves the events of each key as long as no fresh event overtakes one
of its own key.  A tick past every term settles the tapping key or takes a
record out of the buffer, so that a bounded number of them delivers what waits.
-/

namespace Qmk.Tapping

open Qmk.Lib

variable {σ : Type} {cb : Callbacks σ}

/-! ## Calls only grow -/

theorem handOver_calls (cb : Callbacks σ) (keyp : KeyRecord) (s : State σ) :
    s.calls <+: (handOver cb keyp s).2.2.calls :=
  List.prefix_append _ _

theorem releaseLastTap_calls (cb : Callbacks σ) (event : KeyEvent)
    (s : State σ) : s.calls <+: (releaseLastTap cb event s).calls := by
  unfold releaseLastTap
  split_ifs
  · exact List.prefix_append _ _
  · exact List.prefix_rfl

theorem waitingBufferScanTap_calls (cb : Callbacks σ) (s : State σ) :
    s.calls <+: (waitingBufferScanTap cb s).calls := by
  unfold waitingBufferScanTap
  split_ifs
  · exact List.prefix_rfl
  · cases markTap cb s s.waitingBuffer with
    | none => exact List.prefix_rfl
    | some buffer => exact List.prefix_append _ _

theorem startTapping_calls (cb : Callbacks σ) (keyp : KeyRecord) (s : State σ) :
    s.calls <+: (startTapping cb keyp s).2.2.calls :=
  waitingBufferScanTap_calls cb { s with tappingKey := keyp }

theorem Outcome.calls {keyp : KeyRecord} {s : State σ} {result : Result σ}
    (h : Outcome cb keyp s result) : s.calls <+: result.2.2.calls := by
  cases h with
  | ignored | restarted | retained | expired => exact List.prefix_rfl
  | handed | bypassed | interrupted => exact handOver_calls cb _ _
  | startedIdle =>
      exact startTapping_calls cb keyp
        { s with host := cb.processRecordTapHint s.host keyp }
  | startedReleased => exact startTapping_calls cb keyp s
  | startedTapped =>
      exact (releaseLastTap_calls cb _ _).trans (startTapping_calls cb _ _)
  | sequential | firstTap | tapReleased | interfered | timedOut =>
      exact List.prefix_append _ _

theorem processWaitingBuffer_calls (cb : Callbacks σ) (fuel : Nat) (s : State σ) :
    s.calls <+: (processWaitingBuffer cb fuel s).calls := by
  refine processWaitingBuffer_induction cb (fun t => s.calls <+: t.calls)
    (fun _ _ => True) (fun t keyp _ _ h _ _ => ?_) (fun t keyp _ _ h _ _ => ?_) List.prefix_rfl fuel
    fun _ _ => trivial
  · exact h.trans (processTapping_cases cb keyp t).calls
  · exact h.trans (processTapping_cases cb keyp t).calls

theorem actionExec_calls (cb : Callbacks σ) (s : State σ) (event : KeyEvent) :
    (processFresh cb (.fresh event) s).calls <+: (actionExec cb s event).calls :=
  processWaitingBuffer_calls cb _ _

theorem waitingBufferEnq_calls (cb : Callbacks σ) (record : KeyRecord)
    (s : State σ) : s.calls <+: (waitingBufferEnq cb record s).calls := by
  unfold waitingBufferEnq
  split_ifs
  · exact List.prefix_rfl
  · exact List.prefix_append _ _
  · exact List.prefix_rfl

theorem processFresh_calls (cb : Callbacks σ) (record : KeyRecord) (s : State σ) :
    s.calls <+: (processFresh cb record s).calls := by
  have hcalls := (processTapping_cases cb record s).calls
  unfold processFresh
  dsimp only
  split_ifs
  · exact hcalls
  · exact hcalls.trans (waitingBufferEnq_calls cb _ _)

theorem run_calls (cb : Callbacks σ) (s : State σ) (events : List KeyEvent) :
    s.calls <+: (run (actionExec cb) s events).calls := by
  induction events generalizing s with
  | nil => exact List.prefix_rfl
  | cons event events ih =>
      exact ((processFresh_calls cb _ s).trans (actionExec_calls cb s event)).trans
        (ih _)

/-! ## Runs -/

theorem Alternates.of_append {first second : List KeyEvent}
    (h : Alternates (first ++ second)) : Alternates first :=
  (List.isChain_append.mp h).1

theorem fedTo_cons (key : KeyPos) (event : KeyEvent) (events : List KeyEvent) :
    fedTo key (event :: events) = arrival event key ++ fedTo key events := by
  unfold fedTo arrival
  by_cases h : event.isEvent = true ∧ event.key = key
  · simp [h]
  · rw [if_neg h, List.filter_cons_of_neg (by simpa using h), List.nil_append]

theorem arrival_own {event : KeyEvent} (h : event.isEvent = true) :
    arrival event event.key = [event] := by
  simp [arrival, h]

theorem waitingOf_append (key : KeyPos) (first second : List KeyRecord) :
    waitingOf key (first ++ second) = waitingOf key first ++ waitingOf key second :=
  List.filter_append _ _

/-- A record that has to wait goes to the end of the queue of its key. -/
theorem Conserves.enq {fed : KeyPos → List KeyEvent} {s : State σ}
    {record : KeyRecord} (h : Conserves fed s)
    (hcount : record.event.pressed = true → record.tap.count = 0)
    (hoverflow : .overflow ∉ (waitingBufferEnq cb record s).calls) :
    Conserves (fun key => fed key ++ arrival record.event key)
      (waitingBufferEnq cb record s) := by
  unfold waitingBufferEnq at hoverflow ⊢
  split_ifs at hoverflow ⊢ with htick hfull
  · refine ⟨fun key => ?_, h.waiting, h.length_lt⟩
    have hnone : arrival record.event key = [] := by
      simp [arrival, show record.event.isEvent = false by simpa using htick]
    rw [h.conserve key, hnone, List.append_nil]
  · simp at hoverflow
  · have hevent : record.event.isEvent = true := by simpa using htick
    refine ⟨fun key => ?_, fun other hother => ?_, ?_⟩
    · rw [← h.conserve key, waitingOf_append, List.map_append, ← List.append_assoc]
      congr 1
      by_cases hown : record.event.key = key
      · simp [waitingOf, arrival, hown, hevent]
      · simp [waitingOf, arrival, hown]
    · rcases List.mem_append.mp hother with hother | hother
      · exact h.waiting other hother
      · rw [List.mem_singleton.mp hother]
        exact ⟨hevent, hcount⟩
    · have hbound := h.length_lt
      simp only [List.length_append, List.length_singleton]
      omega

theorem Conserves.waits {fed : KeyPos → List KeyEvent} {s : State σ}
    {keyp : KeyRecord} {result : Result σ} (h : Conserves fed s)
    (hout : Outcome cb keyp s result)
    (hcount : keyp.event.pressed = true → keyp.tap.count = 0)
    (htaken : ∀ key, taken result.2.2 key = taken s key) :
    Conserves fed result.2.2 := by
  have hevents := hout.buffer_events hcount
  refine ⟨fun key => ?_, hout.buffer_waiting hcount h.waiting, ?_⟩
  · rw [htaken, waitingOf_events, hevents, ← waitingOf_events]
    exact h.conserve key
  · have hlength := congrArg List.length hevents
    simp only [List.length_map] at hlength
    rw [hlength]
    exact h.length_lt

theorem Conserves.delivers {fed : KeyPos → List KeyEvent} {s : State σ}
    {event : KeyEvent} {result : Result σ} (hcb : cb.KeepsRecords)
    (h : Conserves fed s) (hout : Outcome cb (.fresh event) s result)
    (hdone : result.1 = true)
    (hfirst : event.isEvent = true → waitingOf event.key s.waitingBuffer = []) :
    Conserves (fun key => fed key ++ arrival event key) result.2.2 := by
  have hevents := hout.buffer_events fun _ => rfl
  refine ⟨fun key => ?_, hout.buffer_waiting (fun _ => rfl) h.waiting, ?_⟩
  · rw [waitingOf_events, hevents, ← waitingOf_events,
      (hout.advances hcb fun _ => rfl).done hdone key, ← h.conserve key,
      List.append_assoc, List.append_assoc]
    congr 1
    by_cases hown : event.isEvent = true ∧ event.key = key
    · obtain ⟨hevent, rfl⟩ := hown
      simp [hfirst hevent, KeyRecord.fresh]
    · simp [arrival, KeyRecord.fresh, hown]
  · have hlength := congrArg List.length hevents
    simp only [List.length_map] at hlength
    rw [hlength]
    exact h.length_lt

theorem Conserves.processFresh {fed : KeyPos → List KeyEvent} {s : State σ}
    {event : KeyEvent} (hcb : cb.KeepsRecords) (h : Conserves fed s)
    (halt : event.isEvent = true → Alternates (fed event.key ++ [event]))
    (hovertakes : ¬ Overtakes cb s event)
    (hoverflow : .overflow ∉ (processFresh cb (.fresh event) s).calls) :
    Conserves (fun key => fed key ++ arrival event key)
      (processFresh cb (.fresh event) s) := by
  have hout := processTapping_cases cb (.fresh event) s
  have hadvances := hout.advances hcb fun _ => rfl
  unfold Tapping.processFresh at hoverflow ⊢
  dsimp only at hoverflow ⊢
  split_ifs at hoverflow ⊢ with hdone
  · exact h.delivers hcb hout hdone fun hevent =>
      fresh_first h hevent (halt hevent) hovertakes hout hdone
  · rw [Bool.not_eq_true] at hdone
    have hwaits := h.waits hout (fun _ => rfl) (hadvances.waits hdone)
    have henq := hwaits.enq (hout.record_waiting hdone fun _ => rfl) hoverflow
    rwa [hout.waits_event hdone] at henq

theorem Conserves.exec {fed : KeyPos → List KeyEvent} {s : State σ}
    {event : KeyEvent} (hcb : cb.KeepsRecords) (h : Conserves fed s)
    (halt : event.isEvent = true → Alternates (fed event.key ++ [event]))
    (hovertakes : ¬ Overtakes cb s event)
    (hoverflow : .overflow ∉ (actionExec cb s event).calls) :
    Conserves (fun key => fed key ++ arrival event key) (actionExec cb s event) :=
  (h.processFresh hcb halt hovertakes fun hmem =>
    hoverflow ((actionExec_calls cb s event).subset hmem)).processWaitingBuffer
      hcb _

theorem Conserves.exec_run {fed : KeyPos → List KeyEvent} {s : State σ}
    {events : List KeyEvent} (hcb : cb.KeepsRecords) (h : Conserves fed s)
    (halt : ∀ key, Alternates (fed key ++ fedTo key events))
    (hmeets : Meets (actionExec cb) (fun s event => ¬ Overtakes cb s event) s
      events)
    (hoverflow : .overflow ∉ (run (actionExec cb) s events).calls) :
    Conserves (fun key => fed key ++ fedTo key events)
      (run (actionExec cb) s events) := by
  induction events generalizing s fed with
  | nil => simpa [fedTo] using h
  | cons event events ih =>
      have hstep : Conserves (fun key => fed key ++ arrival event key)
          (actionExec cb s event) := by
        refine h.exec hcb (fun hevent => ?_) hmeets.1 fun hmem =>
          hoverflow ((run_calls cb _ events).subset hmem)
        have hown := halt event.key
        rw [fedTo_cons, ← List.append_assoc, arrival_own hevent] at hown
        exact hown.of_append
      have hrest := ih hstep
        (fun key => by
          have hkey := halt key
          rwa [fedTo_cons, ← List.append_assoc] at hkey)
        hmeets.2 hoverflow
      simpa only [fedTo_cons, List.append_assoc, run_cons] using hrest

theorem init_conserves (host : σ) :
    Conserves (fun _ => []) (State.init host) where
  conserve _ := rfl
  waiting record hrecord := by simp [State.init] at hrecord
  length_lt := Nat.zero_lt_succ 7

/-! ## Ticks deliver what waits -/

/-- What the tapping key and the buffer hold. -/
def held (s : State σ) : List KeyEvent :=
  s.tappingKey.event :: s.waitingBuffer.map (·.event)

/-- The tapping terms of all events held are over at the time of the tick. -/
def TermsOver (cb : Callbacks σ) (s : State σ) (tick : KeyEvent) : Prop :=
  ∀ event ∈ held s, event.isEvent = true → ∀ host record,
    cb.getTappingTerm host record ≤ timerDiff16 tick.time event.time

/-- Each tick past the terms takes one unit of this away. -/
def work (s : State σ) : Nat :=
  2 * s.waitingBuffer.length + if s.Unsettled then 1 else 0

theorem KeepsRecords.isEvent (hcb : cb.KeepsRecords) (host : σ)
    (record : KeyRecord) :
    (cb.processRecord host record).2.event.isEvent = record.event.isEvent := by
  rcases hcb host record with h | h <;> rw [h]
  rfl

/-- An event of the tapping key is that of the old one or of the record. -/
def From (event : KeyEvent) (sources : List KeyEvent) : Prop :=
  event.isEvent = true →
    ∃ source ∈ sources, source.isEvent = true ∧ source.time = event.time

theorem zero_from (sources : List KeyEvent) :
    From KeyRecord.zero.event sources :=
  fun hzero => absurd hzero (by decide)

theorem startTapping_from (hcb : cb.KeepsRecords) {keyp : KeyRecord}
    (s : State σ) (hevent : keyp.event.isEvent = true)
    (hcount : keyp.tap.count = 0) (hpressed : keyp.event.pressed = true)
    (event : KeyEvent) :
    From (startTapping cb keyp s).2.2.tappingKey.event [event, keyp.event] := by
  intro _
  refine ⟨keyp.event, by simp, hevent, ?_⟩
  rcases startTapping_cases cb s hcount hpressed with
    ⟨hstart, -⟩ | ⟨buffer, -, hstart⟩
  · rw [hstart]
  · rw [hstart, KeepsRecords.time hcb]
    rfl

theorem Outcome.tappingKey_from {keyp : KeyRecord} {s : State σ}
    {result : Result σ} (hcb : cb.KeepsRecords) (h : Outcome cb keyp s result)
    (hcount : keyp.event.pressed = true → keyp.tap.count = 0) :
    From result.2.2.tappingKey.event [s.tappingKey.event, keyp.event] := by
  cases h with
  | ignored | handed | bypassed | interrupted =>
      exact fun hevent => ⟨s.tappingKey.event, by simp, hevent, rfl⟩
  | startedIdle hevent _ hpressed =>
      exact startTapping_from hcb _ hevent (hcount hpressed) hpressed _
  | startedTapped hevent _ hpressed =>
      exact startTapping_from hcb _ hevent (hcount hpressed) hpressed _
  | startedReleased hevent _ hpressed =>
      exact startTapping_from hcb _ hevent (hcount hpressed) hpressed _
  | restarted hevent => exact fun _ => ⟨keyp.event, by simp, hevent, rfl⟩
  | sequential hevent =>
      refine fun _ => ⟨keyp.event, by simp, hevent, ?_⟩
      simp only [processRecord, KeepsRecords.time hcb]
      unfold sequentialTap
      split_ifs <;> rfl
  | firstTap _ hmode =>
      refine fun _ => ⟨s.tappingKey.event, by simp, hmode.isEvent, ?_⟩
      simp [processRecord, KeepsRecords.time hcb]
  | retained _ hmode hsame =>
      refine fun _ => ⟨s.tappingKey.event, by simp, hmode.isEvent, ?_⟩
      rcases hsame with rfl | rfl <;> rfl
  | tapReleased hevent _ _ _ within =>
      cases within with
      | false => exact zero_from _
      | true =>
          refine fun _ => ⟨keyp.event, by simp, hevent, ?_⟩
          simp [processRecord, KeepsRecords.time hcb]
  | interfered | timedOut | expired => exact zero_from _

theorem TermsOver.of_from {s t : State σ} {tick : KeyEvent} {keyp : KeyRecord}
    (h : TermsOver cb s tick)
    (hkeyp : keyp.event.isEvent = true → keyp.event ∈ held s)
    (hfrom : From t.tappingKey.event [s.tappingKey.event, keyp.event])
    (hbuffer : t.waitingBuffer.map (·.event) ⊆ s.waitingBuffer.map (·.event)) :
    TermsOver cb t tick := by
  intro event hmem hevent host record
  rcases List.mem_cons.mp hmem with rfl | hmem
  · obtain ⟨source, hsource, hsourceEvent, htime⟩ := hfrom hevent
    rw [← htime]
    refine h source ?_ hsourceEvent host record
    rcases List.mem_pair.mp hsource with rfl | rfl
    · exact List.mem_cons_self
    · exact hkeyp hsourceEvent
  · exact h event (List.mem_cons_of_mem _ (hbuffer hmem)) hevent host record

theorem Outcome.unsettled_of_waits {keyp : KeyRecord} {s : State σ}
    {result : Result σ} (h : Outcome cb keyp s result) (hwaits : result.1 = false)
    (hunsettled : result.2.2.Unsettled) : s.Unsettled := by
  cases h with
  | firstTap _ hmode => exact hmode
  | retained _ hmode => exact hmode
  | interfered | timedOut | expired =>
      exact absurd hunsettled KeyRecord.zero_not_unsettled
  | _ => simp [handOver, startTapping] at hwaits

theorem Outcome.done_of_settled {keyp : KeyRecord} {s : State σ}
    {result : Result σ} (h : Outcome cb keyp s result) (hmode : ¬ s.Unsettled)
    (hreleased : ¬ s.Released) : result.1 = true := by
  cases h with
  | firstTap _ hmode' | retained _ hmode' | interfered _ hmode'
  | timedOut hmode' =>
      exact absurd hmode' hmode
  | expired hreleased' => exact absurd hreleased' hreleased
  | _ => rfl

theorem work_le (s : State σ) : work s ≤ 2 * s.waitingBuffer.length + 1 := by
  unfold work
  split_ifs <;> omega

theorem work_settled {s : State σ} (h : ¬ s.Unsettled) :
    work s = 2 * s.waitingBuffer.length := by
  simp [work, h]

theorem Outcome.buffer_length {keyp : KeyRecord} {s : State σ}
    {result : Result σ} (h : Outcome cb keyp s result)
    (hcount : keyp.event.pressed = true → keyp.tap.count = 0) :
    result.2.2.waitingBuffer.length = s.waitingBuffer.length := by
  have hlength := congrArg List.length (h.buffer_events hcount)
  simpa only [List.length_map] using hlength

/-- A record that is done with takes more work away than its press can add. -/
theorem Outcome.work_pop {keyp : KeyRecord} {s : State σ} {result : Result σ}
    {rest : List KeyRecord} (h : Outcome cb keyp s result)
    (hbuffer : s.waitingBuffer = keyp :: rest)
    (hcount : keyp.event.pressed = true → keyp.tap.count = 0) :
    work (popped result) < 2 * s.waitingBuffer.length := by
  have hbound := work_le (popped result)
  have hlength := h.buffer_length hcount
  rw [hbuffer, List.length_cons] at hlength
  simp only [popped, List.length_tail] at hbound ⊢
  rw [hbuffer, List.length_cons]
  omega

theorem Outcome.work_keep {keyp : KeyRecord} {s : State σ} {result : Result σ}
    {rest : List KeyRecord} (h : Outcome cb keyp s result)
    (hwaits : result.1 = false) (hbuffer : s.waitingBuffer = keyp :: rest)
    (hcount : keyp.event.pressed = true → keyp.tap.count = 0) :
    work (kept result) ≤ work s := by
  have hlength := h.buffer_length hcount
  rw [hbuffer, List.length_cons] at hlength
  have hkept : (kept result).waitingBuffer.length = s.waitingBuffer.length := by
    simp [kept, hlength, hbuffer]
  unfold work
  rw [hkept]
  by_cases hmode : (kept result).Unsettled
  · have hbefore : s.Unsettled := h.unsettled_of_waits hwaits hmode
    rw [if_pos hmode, if_pos hbefore]
  · rw [if_neg hmode]
    omega

theorem processWaitingBuffer_work (cb : Callbacks σ) {s : State σ}
    (hwaiting : Waiting s.waitingBuffer) (fuel : Nat) : work (processWaitingBuffer cb fuel s) ≤ work s := by
  have hstep := processWaitingBuffer_induction cb
    (fun t => Waiting t.waitingBuffer ∧ work t ≤ work s) (fun _ _ => True) (s := s)
    (fun t keyp rest hbuffer h _ hdone => ?_)
    (fun t keyp rest hbuffer h _ hwaits => ?_) ⟨hwaiting, Nat.le_refl _⟩ fuel
    fun _ _ => trivial
  · exact hstep.2
  · have hout := processTapping_cases cb keyp t
    have hcount := (h.1 keyp (by simp [hbuffer])).2
    refine ⟨hout.popped_waiting hcount h.1, ?_⟩
    have hwork := hout.work_pop hbuffer hcount
    have hbound : 2 * t.waitingBuffer.length ≤ work t := Nat.le_add_right _ _
    omega
  · have hout := processTapping_cases cb keyp t
    obtain ⟨hevent, hcount⟩ := h.1 keyp (by simp [hbuffer])
    exact ⟨hout.kept_waiting hwaits hevent hcount h.1,
      (hout.work_keep hwaits hbuffer hcount).trans h.2⟩

/-- The loop makes progress unless the tapping key makes its records wait. -/
theorem processWaitingBuffer_progress (cb : Callbacks σ) {s : State σ}
    (hwaiting : Waiting s.waitingBuffer) (hmode : ¬ s.Unsettled)
    (hreleased : ¬ s.Released) :
    work (processWaitingBuffer cb s.waitingBuffer.length s) ≤
      2 * s.waitingBuffer.length - 1 := by
  cases hbuffer : s.waitingBuffer with
  | nil =>
      have hidle : processWaitingBuffer cb 0 s = s := rfl
      simp [hidle, work_settled hmode, hbuffer]
  | cons keyp rest =>
      have hout := processTapping_cases cb keyp s
      have hdone := hout.done_of_settled hmode hreleased
      have hcount := (hwaiting keyp (by simp [hbuffer])).2
      have hwork := hout.work_pop hbuffer hcount
      rw [List.length_cons, processWaitingBuffer_cons hbuffer, if_pos hdone]
      have hrest := processWaitingBuffer_work cb
        (hout.popped_waiting hcount hwaiting) rest.length
      rw [hbuffer, List.length_cons] at hwork
      omega

/-! ### One tick -/

theorem processFresh_tick (cb : Callbacks σ) {tick : KeyEvent}
    (htick : tick.isEvent = false) (s : State σ) :
    processFresh cb (.fresh tick) s =
      (processTapping cb (.fresh tick) s).2.2 := by
  have hout := processTapping_cases cb (.fresh tick) s
  unfold processFresh
  dsimp only
  split_ifs with hdone
  · rfl
  · have hevent := hout.waits_event (by simpa using hdone)
    rw [waitingBufferEnq, hevent]
    simp [KeyRecord.fresh, htick]

theorem TermsOver.not_within {s : State σ} {tick : KeyEvent}
    (h : TermsOver cb s tick) (hevent : s.tappingKey.event.isEvent = true) :
    withinTappingTerm cb s tick = false := by
  have hterm := h s.tappingKey.event List.mem_cons_self hevent s.host s.tappingKey
  rw [withinTappingTerm, decide_eq_false_iff_not]
  exact UInt16.not_lt.mpr hterm

/-- A tick past its term leaves no tapping key that makes records wait. -/
theorem Outcome.tick {s : State σ} {tick : KeyEvent} {result : Result σ}
    (h : Outcome cb (.fresh tick) s result) (htick : tick.isEvent = false)
    (hover : TermsOver cb s tick) :
    ¬ result.2.2.Unsettled ∧ ¬ result.2.2.Released := by
  have hno : (KeyRecord.fresh tick).event.isEvent ≠ true := by
    simp [KeyRecord.fresh, htick]
  cases h with
  | ignored _ hwithin =>
      have hafter : ¬ (s.Unsettled ∨ s.Released) := by
        intro hmode
        have hevent : s.tappingKey.event.isEvent = true :=
          hmode.elim (·.isEvent) (·.isEvent)
        have hover := hover.not_within hevent
        have hwithin := hwithin hmode
        simp only [KeyRecord.fresh] at hwithin
        rw [hover] at hwithin
        exact absurd hwithin (by simp)
      exact ⟨fun hmode => hafter (.inl hmode), fun hmode => hafter (.inr hmode)⟩
  | timedOut | expired =>
      exact ⟨KeyRecord.zero_not_unsettled, KeyRecord.zero_not_released⟩
  | handed hevent | bypassed hevent | interrupted hevent | startedIdle hevent
  | startedTapped hevent | startedReleased hevent | restarted hevent
  | sequential hevent | firstTap hevent | retained hevent | interfered hevent | tapReleased hevent =>
      exact absurd hevent hno

theorem exec_tick_work {s : State σ} {tick : KeyEvent}
    (hwaiting : Waiting s.waitingBuffer) (htick : tick.isEvent = false)
    (hover : TermsOver cb s tick) : work (actionExec cb s tick) ≤ work s - 1 := by
  have hout := processTapping_cases cb (.fresh tick) s
  obtain ⟨hmode, hreleased⟩ := hout.tick htick hover
  have hprogress := processWaitingBuffer_progress cb
    (hout.buffer_waiting (fun _ => rfl) hwaiting) hmode hreleased
  have hlength := hout.buffer_length fun _ => rfl
  have hbound : 2 * s.waitingBuffer.length ≤ work s := Nat.le_add_right _ _
  unfold actionExec actionTappingProcess
  dsimp only
  rw [processFresh_tick cb htick]
  rw [hlength] at hprogress ⊢
  omega

theorem exec_tick_termsOver {s : State σ} {tick other : KeyEvent}
    (hcb : cb.KeepsRecords) (hwaiting : Waiting s.waitingBuffer)
    (htick : tick.isEvent = false) (hover : TermsOver cb s other) :
    TermsOver cb (actionExec cb s tick) other := by
  have hout := processTapping_cases cb (.fresh tick) s
  have hfresh : TermsOver cb (processTapping cb (.fresh tick) s).2.2 other := by
    have hno : (KeyRecord.fresh tick).event.isEvent = true →
        (KeyRecord.fresh tick).event ∈ held s := by
      simp [KeyRecord.fresh, htick]
    refine hover.of_from hno (hout.tappingKey_from hcb fun _ => rfl) ?_
    rw [hout.buffer_events fun _ => rfl]
    exact List.Subset.refl _
  have hstep := processWaitingBuffer_induction cb
    (fun t => Waiting t.waitingBuffer ∧ TermsOver cb t other) (fun _ _ => True)
    (s := (processTapping cb (.fresh tick) s).2.2)
    (fun t keyp rest hbuffer h _ hdone => ?_)
    (fun t keyp rest hbuffer h _ hwaits => ?_)
    ⟨hout.buffer_waiting (fun _ => rfl) hwaiting, hfresh⟩
    (processTapping cb (.fresh tick) s).2.2.waitingBuffer.length
    fun _ _ => trivial
  · unfold actionExec actionTappingProcess
    dsimp only
    rw [processFresh_tick cb htick]
    exact hstep.2
  all_goals
    have hout := processTapping_cases cb keyp t
    obtain ⟨hevent, hcount⟩ := h.1 keyp (by simp [hbuffer])
    have hheld : keyp.event ∈ held t := by simp [held, hbuffer]
    have hevents := hout.buffer_events hcount
  · refine ⟨hout.popped_waiting hcount h.1, h.2.of_from (fun _ => hheld)
      (hout.tappingKey_from hcb hcount) ?_⟩
    rw [popped, List.map_tail, hevents]
    exact fun _ => List.mem_of_mem_tail
  · refine ⟨hout.kept_waiting hwaits hevent hcount h.1, h.2.of_from
      (fun _ => hheld) (hout.tappingKey_from hcb hcount) ?_⟩
    rw [kept, List.map_cons, List.map_tail, hevents, hout.waits_event hwaits,
      hbuffer, List.map_cons, List.tail_cons]
    exact List.Subset.refl _

theorem Conserves.exec_tick {fed : KeyPos → List KeyEvent} {s : State σ}
    {tick : KeyEvent} (hcb : cb.KeepsRecords) (h : Conserves fed s)
    (htick : tick.isEvent = false) : Conserves fed (actionExec cb s tick) := by
  have hout := processTapping_cases cb (.fresh tick) s
  have hadvances := hout.advances hcb fun _ => rfl
  unfold actionExec actionTappingProcess
  dsimp only
  rw [processFresh_tick cb htick]
  refine (h.waits hout (fun _ => rfl) fun key => ?_).processWaitingBuffer hcb _
  cases hdone : (processTapping cb (.fresh tick) s).1 with
  | true =>
      rw [hadvances.done hdone key]
      simp [arrival, KeyRecord.fresh, htick]
  | false => exact hadvances.waits hdone key

theorem Conserves.exec_ticks {fed : KeyPos → List KeyEvent} {s : State σ}
    {ticks : List KeyEvent} (hcb : cb.KeepsRecords) (h : Conserves fed s)
    (hticks : ∀ tick ∈ ticks, tick.isEvent = false ∧ TermsOver cb s tick) :
    Conserves fed (run (actionExec cb) s ticks) ∧
      work (run (actionExec cb) s ticks) ≤ work s - ticks.length := by
  induction ticks generalizing s with
  | nil => exact ⟨h, Nat.le_refl _⟩
  | cons tick ticks ih =>
      obtain ⟨htick, hover⟩ := hticks tick (by simp)
      have hwork := exec_tick_work h.waiting htick hover
      obtain ⟨hconserves, hrest⟩ := ih (h.exec_tick hcb htick) fun other hother =>
        ⟨(hticks other (List.mem_cons_of_mem _ hother)).1,
          exec_tick_termsOver hcb h.waiting htick
            (hticks other (List.mem_cons_of_mem _ hother)).2⟩
      refine ⟨hconserves, ?_⟩
      rw [run_cons, List.length_cons]
      omega

theorem Conserves.delivered {fed : KeyPos → List KeyEvent} {s : State σ}
    (h : Conserves fed s) (hwork : work s = 0) (key : KeyPos) :
    handedTo key s.calls = fed key := by
  have hempty : s.waitingBuffer = [] := by
    have hbound : 2 * s.waitingBuffer.length ≤ work s := Nat.le_add_right _ _
    exact List.eq_nil_of_length_eq_zero (by omega)
  have hmode : ¬ s.Unsettled := by
    intro hmode
    simp [work, hmode] at hwork
  rw [← h.conserve key, taken_settled hmode, hempty]
  exact (List.append_nil _).symm

/--
The events of each key are handed over in the order they were fed in, each at
most once; ticks past the terms of what is held deliver the rest.
-/
theorem tapping_order (hcb : cb.KeepsRecords) (host : σ) (events : List KeyEvent)
    (halt : ∀ key, Alternates (fedTo key events))
    (hoverflow : .overflow ∉ (run (actionExec cb) (.init host) events).calls)
    (hmeets : Meets (actionExec cb) (fun s event => ¬ Overtakes cb s event)
      (.init host) events) :
    (∀ key, handedTo key (run (actionExec cb) (.init host) events).calls <+:
      fedTo key events) ∧
    ∀ ticks : List KeyEvent, 2 * waitingBufferSize - 1 ≤ ticks.length →
      (∀ tick ∈ ticks, tick.isEvent = false ∧
        TermsOver cb (run (actionExec cb) (.init host) events) tick) →
      ∀ key, handedTo key
        (run (actionExec cb) (.init host) (events ++ ticks)).calls =
        fedTo key events := by
  have hrun := (init_conserves host).exec_run hcb halt hmeets hoverflow
  simp only [List.nil_append] at hrun
  refine ⟨fun key => ?_, fun ticks hlength hticks key => ?_⟩
  · rw [← hrun.conserve key, taken, List.append_assoc]
    exact List.prefix_append _ _
  · obtain ⟨hconserves, hwork⟩ := hrun.exec_ticks hcb hticks
    rw [run_append]
    refine hconserves.delivered ?_ key
    have hbound := work_le (run (actionExec cb) (.init host) events)
    have hfull := hrun.length_lt
    omega

/-! ### A key between two tap-hold keys -/

/-- Keys 0 and 1 are tap-hold keys with terms of 500 and 100. -/
def perKeyTerms : Callbacks Unit where
  processRecord host record := (host, record)
  processRecordTapHint host _ := host
  isTapRecord _ record := record.event.key.col < 2
  getTappingTerm _ record := if record.event.key.col = 0 then 500 else 100
  getQuickTapTerm _ _ := 100
  getPermissiveHold _ _ := false
  layerSwitchGetAction _ key := if key.col < 2 then 0x2104 else 0x0004
  clearKeyboard host := host

def keyEvent (col : UInt8) (time : UInt16) (pressed : Bool) : KeyEvent :=
  ⟨⟨col, 0⟩, time, .key, pressed⟩

def tickEvent (time : UInt16) : KeyEvent := ⟨⟨0, 0⟩, time, .tick, false⟩

theorem perKeyTerms_keepsRecords : perKeyTerms.KeepsRecords :=
  fun _ _ => .inl rfl

instance (events : List KeyEvent) : Decidable (Alternates events) :=
  inferInstanceAs (Decidable (List.IsChain _ _))

theorem alternates_of_mem {events : List KeyEvent}
    (h : ∀ event ∈ events, Alternates (fedTo event.key events)) (key : KeyPos) :
    Alternates (fedTo key events) := by
  by_cases hmem : ∃ event ∈ events, event.key = key
  · obtain ⟨event, hevent, rfl⟩ := hmem
    exact h event hevent
  · have hnone : fedTo key events = [] := by
      refine List.filter_eq_nil_iff.mpr fun event hevent => ?_
      have hother : event.key ≠ key := fun hkey => hmem ⟨event, hevent, hkey⟩
      simp [hother]
    rw [hnone]
    exact List.isChain_nil

/--
The time-out of key 0 at the tick starts key 1, which times out on the press of
key 5 in the buffer; the press is left there, and the release comes first.
-/
def overtaking : List KeyEvent :=
  [keyEvent 0 0 true, keyEvent 1 10 true, keyEvent 5 150 true, tickEvent 500,
    keyEvent 5 501 false]

theorem release_overtakes_press :
    perKeyTerms.KeepsRecords ∧
    (∀ key, Alternates (fedTo key overtaking)) ∧
    overtaking.Pairwise (·.time ≤ ·.time) ∧
    .overflow ∉ (run (actionExec perKeyTerms) (.init ()) overtaking).calls ∧
    handedTo ⟨5, 0⟩ (run (actionExec perKeyTerms) (.init ()) overtaking).calls =
      [keyEvent 5 501 false, keyEvent 5 150 true] :=
  ⟨perKeyTerms_keepsRecords, alternates_of_mem (by decide), by decide, by decide,
    by decide⟩

theorem perKeyTerms_le (host : Unit) (record : KeyRecord) :
    perKeyTerms.getTappingTerm host record ≤ 500 := by
  unfold perKeyTerms
  dsimp only
  split_ifs <;> decide

theorem perKeyTerms_termsOver {s : State Unit} {tick : KeyEvent}
    (h : ∀ event ∈ held s, event.isEvent = true →
      500 ≤ timerDiff16 tick.time event.time) : TermsOver perKeyTerms s tick :=
  fun event hmem hevent host record =>
    UInt16.le_trans (perKeyTerms_le host record) (h event hmem hevent)

theorem nested_key_delivered :
    (∀ key, handedTo key (run (actionExec perKeyTerms) (.init ())
        [keyEvent 0 0 true, keyEvent 5 10 true]).calls <+:
      fedTo key [keyEvent 0 0 true, keyEvent 5 10 true]) ∧
    ∀ key, handedTo key (run (actionExec perKeyTerms) (.init ())
        ([keyEvent 0 0 true, keyEvent 5 10 true] ++
          List.replicate 15 (tickEvent 600))).calls =
      fedTo key [keyEvent 0 0 true, keyEvent 5 10 true] := by
  have h := tapping_order perKeyTerms_keepsRecords ()
    [keyEvent 0 0 true, keyEvent 5 10 true] (alternates_of_mem (by decide))
    (by decide) ⟨by decide, by decide, trivial⟩
  refine ⟨h.1, h.2 _ (by decide) fun tick htick => ?_⟩
  rw [List.eq_of_mem_replicate htick]
  exact ⟨rfl, perKeyTerms_termsOver (by decide)⟩

end Qmk.Tapping
