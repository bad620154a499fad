import Mathlib.Data.List.Chain
import Qmk.Lib.Run
import Qmk.Tapping.Cases

/-!
# Events of one key stay in order

For each key the events handed over, an unsettled press of the tapping key and
the events of the key in the waiting buffer are together the events fed in, in
their order.  Only a fresh event can break this: when it is processed before an
event of its own key that waits in the buffer.
-/

namespace Qmk.Tapping

open Qmk.Lib

variable {σ : Type} {cb : Callbacks σ}

/-! ## Events by key -/

/-- The records of a key handed to `process_record`, synthetic releases apart. -/
def recordsTo (key : KeyPos) (calls : List Call) : List KeyRecord :=
  calls.filterMap fun
    | .record record => if record.event.key = key then some record else none
    | _ => none

def handedTo (key : KeyPos) (calls : List Call) : List KeyEvent :=
  (recordsTo key calls).map (·.event)

/-- The events of a key that were fed in. -/
def fedTo (key : KeyPos) (events : List KeyEvent) : List KeyEvent :=
  events.filter fun event => event.isEvent && event.key = key

/-- The records of a key in a buffer. -/
def waitingOf (key : KeyPos) (buffer : List KeyRecord) : List KeyRecord :=
  buffer.filter fun record => record.event.key = key

def Alternates (events : List KeyEvent) : Prop :=
  events.IsChain fun first second => first.pressed ≠ second.pressed

/--
`process_record` gives the record back as it was, except that a press which
ends a one-shot layer comes back as its release.
-/
def Callbacks.KeepsRecords (cb : Callbacks σ) : Prop :=
  ∀ host record, (cb.processRecord host record).2 = record ∨
    (cb.processRecord host record).2 =
      { record with event := { record.event with pressed := false } }

/--
A fresh event is about to be processed before an event of its own key that
waits in the buffer.
-/
def Overtakes (cb : Callbacks σ) (s : State σ) (event : KeyEvent) : Prop :=
  event.isEvent = true ∧
    (∃ record ∈ s.waitingBuffer, record.event.key = event.key) ∧
    ¬ s.Unsettled ∧
    ¬ (s.Released ∧ withinTappingTerm cb s event = false)

instance (cb : Callbacks σ) (s : State σ) (event : KeyEvent) :
    Decidable (Overtakes cb s event) :=
  inferInstanceAs (Decidable (_ ∧ _ ∧ _ ∧ _))

@[simp] theorem recordsTo_record (key : KeyPos) (calls : List Call)
    (record : KeyRecord) :
    recordsTo key (calls ++ [.record record]) =
      recordsTo key calls ++
        if record.event.key = key then [record] else [] := by
  by_cases h : record.event.key = key
  · simp [recordsTo, h]
  · simp [recordsTo, h]

@[simp] theorem recordsTo_releaseLastTap (key : KeyPos) (calls : List Call)
    (record : KeyRecord) :
    recordsTo key (calls ++ [.releaseLastTap record]) = recordsTo key calls := by
  simp [recordsTo]

theorem handedTo_record (key : KeyPos) (calls : List Call) (record : KeyRecord) :
    handedTo key (calls ++ [.record record]) =
      handedTo key calls ++
        if record.event.key = key then [record.event] else [] := by
  rw [handedTo, recordsTo_record, List.map_append, handedTo]
  split_ifs <;> rfl

theorem KeepsRecords.key (hcb : cb.KeepsRecords) (host : σ)
    (record : KeyRecord) :
    (cb.processRecord host record).2.event.key = record.event.key := by
  rcases hcb host record with h | h <;> rw [h]

theorem KeepsRecords.time (hcb : cb.KeepsRecords) (host : σ)
    (record : KeyRecord) :
    (cb.processRecord host record).2.event.time = record.event.time := by
  rcases hcb host record with h | h <;> rw [h]

theorem KeepsRecords.tap (hcb : cb.KeepsRecords) (host : σ)
    (record : KeyRecord) :
    (cb.processRecord host record).2.tap = record.tap := by
  rcases hcb host record with h | h <;> rw [h]

/-! ## What has been taken out of the buffer -/

/-- The press of the tapping key is pending until it is settled. -/
def pendingTap (tappingKey : KeyRecord) (key : KeyPos) : List KeyEvent :=
  if tappingKey.Unsettled ∧ tappingKey.event.key = key then [tappingKey.event]
  else []

def taken (s : State σ) (key : KeyPos) : List KeyEvent :=
  handedTo key s.calls ++ pendingTap s.tappingKey key

def arrival (event : KeyEvent) (key : KeyPos) : List KeyEvent :=
  if event.isEvent = true ∧ event.key = key then [event] else []

theorem pendingTap_settled {tappingKey : KeyRecord}
    (h : ¬ tappingKey.Unsettled) (key : KeyPos) :
    pendingTap tappingKey key = [] := by
  simp [pendingTap, h]

theorem pendingTap_other {tappingKey : KeyRecord} {key : KeyPos}
    (h : tappingKey.event.key ≠ key) : pendingTap tappingKey key = [] := by
  simp [pendingTap, h]

theorem pendingTap_setInterrupted (tappingKey : KeyRecord) (key : KeyPos) :
    pendingTap tappingKey.setInterrupted key = pendingTap tappingKey key := by
  simp [pendingTap, KeyRecord.setInterrupted_unsettled]

theorem taken_settled {s : State σ} (h : ¬ s.Unsettled) (key : KeyPos) :
    taken s key = handedTo key s.calls := by
  rw [taken, pendingTap_settled h, List.append_nil]

theorem not_unsettled_of_count {tappingKey : KeyRecord}
    (h : 0 < tappingKey.tap.count) : ¬ tappingKey.Unsettled :=
  fun hunsettled => absurd hunsettled.count_eq (Nat.ne_of_gt h)

/-- A call of `process_tapping` takes its record, or leaves it and takes nothing. -/
structure Advances (keyp : KeyRecord) (s : State σ) (result : Result σ) :
    Prop where
  done : result.1 = true → ∀ key,
    taken result.2.2 key = taken s key ++ arrival keyp.event key
  waits : result.1 = false → ∀ key, taken result.2.2 key = taken s key

theorem handOver_advances (cb : Callbacks σ) (keyp : KeyRecord) {s : State σ}
    (hevent : keyp.event.isEvent = true)
    (hmode : s.Unsettled → keyp.event.key ≠ s.tappingKey.event.key) :
    Advances keyp s (handOver cb keyp s) := by
  refine ⟨fun _ key => ?_, by simp [handOver]⟩
  have hcalls : taken (handOver cb keyp s).2.2 key =
      handedTo key (s.calls ++ [.record keyp]) ++ pendingTap s.tappingKey key :=
    rfl
  rw [hcalls, taken, handedTo_record, arrival]
  by_cases hkey : keyp.event.key = key
  · have hnone : pendingTap s.tappingKey key = [] := by
      by_cases hunsettled : s.Unsettled
      · exact pendingTap_other fun h => hmode hunsettled (hkey.trans h.symm)
      · exact pendingTap_settled hunsettled key
    simp [hkey, hevent, hnone]
  · simp [hkey]

theorem startTapping_advances {keyp : KeyRecord} {s t : State σ}
    (hcb : cb.KeepsRecords) (hevent : keyp.event.isEvent = true)
    (hpressed : keyp.event.pressed = true) (hcount : keyp.tap.count = 0)
    (hmode : ¬ s.Unsettled)
    (hcalls : ∀ key, handedTo key t.calls = handedTo key s.calls) :
    Advances keyp s (startTapping cb keyp t) := by
  rcases startTapping_cases cb t hcount hpressed with
    ⟨hstart, -⟩ | ⟨buffer, -, hstart⟩
  · rw [hstart]
    refine ⟨fun _ key => ?_, by simp⟩
    have hunsettled : keyp.Unsettled := ⟨hevent, hpressed, hcount⟩
    rw [taken_settled hmode, taken, hcalls, pendingTap, arrival]
    simp [hunsettled, hevent]
  · rw [hstart]
    refine ⟨fun _ key => ?_, by simp⟩
    rw [taken_settled hmode, taken_settled, ← hcalls]
    · refine (handedTo_record _ _ _).trans ?_
      simp only [arrival, hevent, true_and]
      rfl
    · refine not_unsettled_of_count ?_
      rw [KeepsRecords.tap hcb]
      exact Nat.zero_lt_one

theorem handedTo_releaseLastTap (event : KeyEvent) (s : State σ)
    (key : KeyPos) :
    handedTo key (releaseLastTap cb event s).calls = handedTo key s.calls := by
  unfold releaseLastTap
  split_ifs
  · simp [handedTo]
  · rfl

theorem Outcome.advances {keyp : KeyRecord} {s : State σ} {result : Result σ}
    (hcb : cb.KeepsRecords) (h : Outcome cb keyp s result)
    (hcount : keyp.event.pressed = true → keyp.tap.count = 0) :
    Advances keyp s result := by
  cases h with
  | ignored htick =>
      exact ⟨fun _ key => by simp [arrival, htick], by simp⟩
  | handed hevent hmode => exact handOver_advances cb keyp hevent (absurd · hmode)
  | bypassed hevent _ hother =>
      exact handOver_advances cb keyp hevent fun _ => hother
  | interrupted hevent hmode =>
      have h := handOver_advances cb keyp
        (s := { s with tappingKey := s.tappingKey.setInterrupted }) hevent
        fun hunsettled => (hmode.not_unsettled
          (KeyRecord.setInterrupted_unsettled.mp hunsettled)).elim
      refine ⟨fun hdone key => ?_, by simp [handOver]⟩
      rw [h.done hdone key, taken, pendingTap_setInterrupted, taken]
  | startedIdle hevent hmode hpressed =>
      exact startTapping_advances hcb hevent hpressed (hcount hpressed)
        (fun hunsettled => by simp [hunsettled.isEvent] at hmode) fun _ => rfl
  | startedTapped hevent hmode hpressed =>
      exact startTapping_advances hcb hevent hpressed (hcount hpressed)
        hmode.not_unsettled (handedTo_releaseLastTap keyp.event s)
  | startedReleased hevent hmode hpressed =>
      exact startTapping_advances hcb hevent hpressed (hcount hpressed)
        hmode.not_unsettled fun _ => rfl
  | restarted hevent hmode hpressed =>
      refine ⟨fun _ key => ?_, by simp⟩
      have hunsettled : keyp.Unsettled := ⟨hevent, hpressed, hcount hpressed⟩
      rw [taken_settled hmode.not_unsettled, taken, pendingTap, arrival]
      simp [hunsettled, hevent]
  | sequential hevent hmode hown hpressed hwithin hquick =>
      have hpos := quickRepeat_count hquick
      refine ⟨fun _ key => ?_, by simp⟩
      have hevents : (sequentialTap keyp s.tappingKey.tap).event = keyp.event := by
        unfold sequentialTap
        split_ifs <;> rfl
      rw [taken_settled hmode.not_unsettled, taken_settled]
      · refine (handedTo_record _ _ _).trans ?_
        simp [arrival, hevent, hevents]
      · refine not_unsettled_of_count ?_
        have htap := KeepsRecords.tap hcb s.host
          (sequentialTap keyp s.tappingKey.tap)
        simp only [processRecord, htap]
        unfold sequentialTap
        split_ifs
        · exact Nat.succ_pos _
        · exact hpos
  | firstTap hevent hmode =>
      refine ⟨by simp, fun _ key => ?_⟩
      rw [taken_settled, taken, pendingTap]
      · refine (handedTo_record _ _ _).trans ?_
        simp only [hmode, true_and]
        rfl
      · refine not_unsettled_of_count ?_
        simp [processRecord, KeepsRecords.tap hcb]
  | retained hevent hmode hsame =>
      refine ⟨by simp, fun _ key => ?_⟩
      rcases hsame with rfl | rfl
      · rfl
      · rw [taken, pendingTap_setInterrupted, taken]
  | tapReleased hevent hmode hown hreleased within =>
      refine ⟨fun _ key => ?_, by simp⟩
      rw [taken_settled hmode.not_unsettled, taken_settled]
      · refine (handedTo_record _ _ _).trans ?_
        simp [arrival, hevent]
      · cases within with
        | false => exact KeyRecord.zero_not_unsettled
        | true =>
            refine not_unsettled_of_count ?_
            have htap := KeepsRecords.tap hcb s.host
              { keyp with tap := s.tappingKey.tap }
            simpa [processRecord, htap] using hmode.count_pos
  | interfered _ hmode | timedOut hmode =>
      refine ⟨by simp, fun _ key => ?_⟩
      rw [taken_settled, taken, pendingTap]
      · refine (handedTo_record _ _ _).trans ?_
        simp [hmode]
      · exact KeyRecord.zero_not_unsettled
  | expired hmode =>
      refine ⟨by simp, fun _ key => ?_⟩
      rw [taken_settled hmode.not_unsettled, taken_settled]
      exact KeyRecord.zero_not_unsettled

/-! ## The buffer -/

/-- Records that wait are events, and their presses are untouched. -/
def Waiting (buffer : List KeyRecord) : Prop :=
  ∀ record ∈ buffer, record.event.isEvent = true ∧
    (record.event.pressed = true → record.tap.count = 0)

theorem waitingOf_events (key : KeyPos) (buffer : List KeyRecord) :
    (waitingOf key buffer).map (·.event) =
      (buffer.map (·.event)).filter fun event => event.key = key := by
  rw [waitingOf, List.filter_map]
  rfl

theorem Marked.events {s : State σ} {buffer marked : List KeyRecord}
    (h : Marked cb s buffer marked) :
    marked.map (·.event) = buffer.map (·.event) := by
  induction h with
  | here rest => rfl
  | there hskip hrest ih => simp [ih]

theorem Marked.waiting {s : State σ} {buffer marked : List KeyRecord}
    (h : Marked cb s buffer marked) (hwaiting : Waiting buffer) :
    Waiting marked := by
  induction h with
  | @here candidate rest hfound =>
      intro record hrecord
      rcases List.mem_cons.mp hrecord with rfl | hrecord
      · exact ⟨hfound.isEvent, fun hpressed => by
          simp [hfound.released] at hpressed⟩
      · exact hwaiting record (List.mem_cons_of_mem _ hrecord)
  | there hskip hrest ih =>
      have hrest' := ih fun other hother =>
        hwaiting other (List.mem_cons_of_mem _ hother)
      intro other hother
      rcases List.mem_cons.mp hother with rfl | hother
      · exact hwaiting other (by simp)
      · exact hrest' other hother

theorem startTapping_buffer (cb : Callbacks σ) {keyp : KeyRecord} (s : State σ)
    (hcount : keyp.tap.count = 0) (hpressed : keyp.event.pressed = true) :
    (startTapping cb keyp s).2.2.waitingBuffer = s.waitingBuffer ∨
      ∃ t, Marked cb t s.waitingBuffer
        (startTapping cb keyp s).2.2.waitingBuffer := by
  rcases startTapping_cases cb s hcount hpressed with
    ⟨hstart, -⟩ | ⟨buffer, hmarked, hstart⟩
  · exact .inl (by rw [hstart])
  · exact .inr ⟨_, by rw [hstart]; exact hmarked⟩

theorem releaseLastTap_buffer (cb : Callbacks σ) (event : KeyEvent)
    (s : State σ) :
    (releaseLastTap cb event s).waitingBuffer = s.waitingBuffer := by
  unfold releaseLastTap
  split_ifs <;> rfl

theorem Outcome.buffer {keyp : KeyRecord} {s : State σ} {result : Result σ}
    (h : Outcome cb keyp s result)
    (hcount : keyp.event.pressed = true → keyp.tap.count = 0) :
    result.2.2.waitingBuffer = s.waitingBuffer ∨
      ∃ t, Marked cb t s.waitingBuffer result.2.2.waitingBuffer := by
  cases h with
  | startedIdle _ _ hpressed =>
      exact startTapping_buffer cb _ (hcount hpressed) hpressed
  | startedTapped _ _ hpressed =>
      have h := startTapping_buffer cb (releaseLastTap cb keyp.event s)
        (hcount hpressed) hpressed
      rwa [releaseLastTap_buffer] at h
  | startedReleased _ _ hpressed =>
      exact startTapping_buffer cb _ (hcount hpressed) hpressed
  | _ => exact .inl rfl

theorem Outcome.buffer_events {keyp : KeyRecord} {s : State σ}
    {result : Result σ} (h : Outcome cb keyp s result)
    (hcount : keyp.event.pressed = true → keyp.tap.count = 0) :
    result.2.2.waitingBuffer.map (·.event) = s.waitingBuffer.map (·.event) := by
  rcases h.buffer hcount with hsame | ⟨t, hmarked⟩
  · rw [hsame]
  · exact hmarked.events

theorem Outcome.buffer_waiting {keyp : KeyRecord} {s : State σ}
    {result : Result σ} (h : Outcome cb keyp s result)
    (hcount : keyp.event.pressed = true → keyp.tap.count = 0)
    (hwaiting : Waiting s.waitingBuffer) : Waiting result.2.2.waitingBuffer := by
  rcases h.buffer hcount with hsame | ⟨t, hmarked⟩
  · rwa [hsame]
  · exact hmarked.waiting hwaiting

theorem Outcome.waits_event {keyp : KeyRecord} {s : State σ} {result : Result σ}
    (h : Outcome cb keyp s result) (hwaits : result.1 = false) :
    result.2.1.event = keyp.event := by
  cases h with
  | firstTap | retained | interfered | timedOut | expired => rfl
  | _ => simp [handOver, startTapping] at hwaits

theorem Outcome.record_waiting {keyp : KeyRecord} {s : State σ}
    {result : Result σ} (h : Outcome cb keyp s result) (hdone : result.1 = false)
    (hcount : keyp.event.pressed = true → keyp.tap.count = 0) :
    result.2.1.event.pressed = true → result.2.1.tap.count = 0 := by
  cases h with
  | firstTap _ _ _ hreleased => exact fun h => by simp [hreleased] at h
  | retained | interfered | timedOut | expired => exact hcount
  | _ => simp [handOver, startTapping] at hdone

/-! ## Conservation -/

/-- What has been taken and what waits are, key by key, the events fed in. -/
structure Conserves (fed : KeyPos → List KeyEvent) (s : State σ) : Prop where
  conserve : ∀ key,
    taken s key ++ (waitingOf key s.waitingBuffer).map (·.event) = fed key
  waiting : Waiting s.waitingBuffer
  length_lt : s.waitingBuffer.length < waitingBufferSize

/-- The state after a call whose record, the head of the buffer, is done with. -/
def popped (result : Result σ) : State σ :=
  { result.2.2 with waitingBuffer := result.2.2.waitingBuffer.tail }

/-- The state after a call whose record, the head of the buffer, has to wait. -/
def kept (result : Result σ) : State σ :=
  { result.2.2 with
    waitingBuffer := result.2.1 :: result.2.2.waitingBuffer.tail }

/-- The calls of `process_tapping` that the loop makes, each with its state. -/
def loopCalls (cb : Callbacks σ) : Nat → State σ → List (KeyRecord × State σ)
  | 0, _ => []
  | fuel + 1, s =>
      match s.waitingBuffer with
      | [] => []
      | keyp :: _ =>
          let result := processTapping cb keyp s
          (keyp, s) :: if result.1 then loopCalls cb fuel (popped result) else []

theorem processWaitingBuffer_cons {s : State σ} {keyp : KeyRecord}
    {rest : List KeyRecord} (h : s.waitingBuffer = keyp :: rest) (fuel : Nat) :
    processWaitingBuffer cb (fuel + 1) s =
      if (processTapping cb keyp s).1 = true then
        processWaitingBuffer cb fuel (popped (processTapping cb keyp s))
      else kept (processTapping cb keyp s) := by
  rw [processWaitingBuffer]
  simp only [h]
  rfl

theorem loopCalls_cons {s : State σ} {keyp : KeyRecord} {rest : List KeyRecord}
    (h : s.waitingBuffer = keyp :: rest) (fuel : Nat) :
    loopCalls cb (fuel + 1) s =
      (keyp, s) ::
        if (processTapping cb keyp s).1 = true then
          loopCalls cb fuel (popped (processTapping cb keyp s))
        else [] := by
  rw [loopCalls]
  simp only [h]

theorem processWaitingBuffer_induction (cb : Callbacks σ) (Inv : State σ → Prop)
    (Cond : KeyRecord → State σ → Prop)
    (hpop : ∀ s keyp rest, s.waitingBuffer = keyp :: rest → Inv s → Cond keyp s →
      (processTapping cb keyp s).1 = true →
      Inv (popped (processTapping cb keyp s)))
    (hkeep : ∀ s keyp rest, s.waitingBuffer = keyp :: rest → Inv s →
      Cond keyp s → (processTapping cb keyp s).1 = false →
      Inv (kept (processTapping cb keyp s)))
    {s : State σ} (h : Inv s) (fuel : Nat)
    (hcond : ∀ call ∈ loopCalls cb fuel s, Cond call.1 call.2) :
    Inv (processWaitingBuffer cb fuel s) := by
  induction fuel generalizing s with
  | zero => exact h
  | succ fuel ih =>
      cases hbuffer : s.waitingBuffer with
      | nil => simpa [processWaitingBuffer, hbuffer] using h
      | cons keyp rest =>
          rw [loopCalls_cons hbuffer] at hcond
          rw [processWaitingBuffer_cons hbuffer]
          have hhead := hcond (keyp, s) List.mem_cons_self
          split_ifs at hcond ⊢ with hdone
          · exact ih (hpop s keyp rest hbuffer h hhead hdone) fun call hcall =>
              hcond call (List.mem_cons_of_mem _ hcall)
          · exact hkeep s keyp rest hbuffer h hhead (by simpa using hdone)

theorem Outcome.popped_waiting {keyp : KeyRecord} {s : State σ}
    {result : Result σ} (h : Outcome cb keyp s result)
    (hcount : keyp.event.pressed = true → keyp.tap.count = 0)
    (hwaiting : Waiting s.waitingBuffer) :
    Waiting (popped result).waitingBuffer :=
  fun record hrecord =>
    h.buffer_waiting hcount hwaiting record (List.mem_of_mem_tail hrecord)

theorem Outcome.kept_waiting {keyp : KeyRecord} {s : State σ} {result : Result σ}
    (h : Outcome cb keyp s result) (hwaits : result.1 = false)
    (hevent : keyp.event.isEvent = true)
    (hcount : keyp.event.pressed = true → keyp.tap.count = 0)
    (hwaiting : Waiting s.waitingBuffer) : Waiting (kept result).waitingBuffer := by
  intro record hrecord
  rcases List.mem_cons.mp hrecord with rfl | hrecord
  · exact ⟨h.waits_event hwaits ▸ hevent, h.record_waiting hwaits hcount⟩
  · exact h.buffer_waiting hcount hwaiting record (List.mem_of_mem_tail hrecord)

theorem Conserves.pop {fed : KeyPos → List KeyEvent} {s : State σ}
    {keyp : KeyRecord} {rest : List KeyRecord} {result : Result σ}
    (hcb : cb.KeepsRecords) (h : Conserves fed s)
    (hbuffer : s.waitingBuffer = keyp :: rest) (hout : Outcome cb keyp s result)
    (hdone : result.1 = true) : Conserves fed (popped result) := by
  obtain ⟨hevent, hcount⟩ := h.waiting keyp (by simp [hbuffer])
  have hevents := hout.buffer_events hcount
  have hlength := congrArg List.length hevents
  have hbound := h.length_lt
  rw [hbuffer, List.map_cons] at hevents
  simp only [List.length_map] at hlength
  refine ⟨fun key => ?_, hout.popped_waiting hcount h.waiting, ?_⟩
  · have hkey := h.conserve key
    have hadvance := (hout.advances hcb hcount).done hdone key
    rw [waitingOf_events, hbuffer, List.map_cons, List.filter_cons] at hkey
    rw [← hkey]
    have htaken : taken (popped result) key = taken result.2.2 key := rfl
    rw [htaken, hadvance, popped, waitingOf_events, List.map_tail, hevents, List.tail_cons,
      arrival, List.append_assoc]
    congr 1
    by_cases hown : keyp.event.key = key
    · simp [hevent, hown]
    · simp [hown]
  · simp only [popped, List.length_tail]
    omega

theorem Conserves.keep {fed : KeyPos → List KeyEvent} {s : State σ}
    {keyp : KeyRecord} {rest : List KeyRecord} {result : Result σ}
    (hcb : cb.KeepsRecords) (h : Conserves fed s)
    (hbuffer : s.waitingBuffer = keyp :: rest) (hout : Outcome cb keyp s result)
    (hdone : result.1 = false) : Conserves fed (kept result) := by
  obtain ⟨hevent, hcount⟩ := h.waiting keyp (by simp [hbuffer])
  have hadvances := hout.advances hcb hcount
  have hsame := hout.waits_event hdone
  have hevents := hout.buffer_events hcount
  have hlength := congrArg List.length hevents
  have hbound := h.length_lt
  have hmap : (result.2.1 :: result.2.2.waitingBuffer.tail).map (·.event) =
      s.waitingBuffer.map (·.event) := by
    rw [List.map_cons, List.map_tail, hevents, hbuffer, List.map_cons,
      List.tail_cons, hsame]
  simp only [List.length_map] at hlength
  refine ⟨fun key => ?_,
    hout.kept_waiting hdone hevent hcount h.waiting, ?_⟩
  · have htaken : taken (kept result) key = taken result.2.2 key := rfl
    rw [htaken, hadvances.waits hdone key, kept, waitingOf_events, hmap,
      ← waitingOf_events]
    exact h.conserve key
  · rw [hbuffer, List.length_cons] at hlength hbound
    simp only [kept, List.length_cons, List.length_tail]
    omega

theorem Conserves.processWaitingBuffer {fed : KeyPos → List KeyEvent}
    {s : State σ} (hcb : cb.KeepsRecords) (h : Conserves fed s) (fuel : Nat) :
    Conserves fed (processWaitingBuffer cb fuel s) := by
  refine processWaitingBuffer_induction cb (Conserves fed) (fun _ _ => True)
    (fun s keyp rest hbuffer h _ hdone => ?_)
    (fun s keyp rest hbuffer h _ hwaits => ?_) h fuel fun _ _ => trivial
  · exact h.pop hcb hbuffer (processTapping_cases cb keyp s) hdone
  · exact h.keep hcb hbuffer (processTapping_cases cb keyp s) hwaits

/-! ## Fresh events -/

theorem Alternates.last_ne {events : List KeyEvent} {event last : KeyEvent}
    (h : Alternates (events ++ [event])) (hlast : events.getLast? = some last) :
    last.pressed ≠ event.pressed := by
  obtain ⟨-, -, hjoin⟩ := List.isChain_append.mp h
  exact hjoin last (by simp [hlast]) event (by simp)

/-- An event that waits behind another one of its key is seen by `typed`. -/
theorem waitingBufferTyped_of_alternates {buffer : List KeyRecord}
    {before : List KeyEvent} {event : KeyEvent}
    (halt : Alternates
      (before ++ (waitingOf event.key buffer).map (·.event) ++ [event]))
    (hown : ∃ record ∈ buffer, record.event.key = event.key) :
    waitingBufferTyped buffer event = true := by
  have hne : waitingOf event.key buffer ≠ [] := by
    obtain ⟨record, hrecord, hkey⟩ := hown
    exact List.ne_nil_of_mem (List.mem_filter.mpr ⟨hrecord, by simp [hkey]⟩)
  have hlast := List.getLast?_eq_some_getLast hne
  have hmem := List.mem_filter.mp (List.getLast_mem hne)
  have hopposite : ((waitingOf event.key buffer).getLast hne).event.pressed ≠
      event.pressed :=
    halt.last_ne (by simp [List.getLast?_append, hlast])
  rw [waitingBufferTyped, List.any_eq_true]
  refine ⟨_, hmem.1, ?_⟩
  have hkey := hmem.2
  simp only [decide_eq_true_eq] at hkey
  simp [hkey, Ne.symm hopposite]

/-- A fresh event that is done with had no event of its key before it. -/
theorem fresh_first {fed : KeyPos → List KeyEvent} {s : State σ}
    {event : KeyEvent} {result : Result σ} (h : Conserves fed s)
    (hevent : event.isEvent = true)
    (halt : Alternates (fed event.key ++ [event]))
    (hovertakes : ¬ Overtakes cb s event)
    (hout : Outcome cb (.fresh event) s result) (hdone : result.1 = true) :
    waitingOf event.key s.waitingBuffer = [] := by
  by_contra hne
  obtain ⟨record, hrecord⟩ := List.exists_mem_of_ne_nil _ hne
  have hmem := List.mem_filter.mp hrecord
  have hown : ∃ record ∈ s.waitingBuffer, record.event.key = event.key :=
    ⟨record, hmem.1, by simpa using hmem.2⟩
  have hmode : s.Unsettled ∨
      s.Released ∧ withinTappingTerm cb s event = false := by
    by_contra hneither
    rw [not_or] at hneither
    exact hovertakes ⟨hevent, hown, hneither.1, hneither.2⟩
  rw [← h.conserve event.key] at halt
  have htyped := waitingBufferTyped_of_alternates halt hown
  -- only a release that bypasses the tapping key could be done with
  have hnot : ∀ (hmode' : ¬ s.Unsettled)
      (hwithin : s.Released → withinTappingTerm cb s event = true), False := by
    intro hmode' hwithin
    rcases hmode with hmode | ⟨hmode, hafter⟩
    · exact hmode' hmode
    · rw [hwithin hmode] at hafter
      exact absurd hafter (by simp)
  cases hout with
  | ignored htick => exact absurd hevent (by simpa [KeyRecord.fresh] using htick)
  | handed _ hmode' _ hfresh => exact hnot hmode' hfresh
  | bypassed _ _ _ _ hnotTyped =>
      rw [show (KeyRecord.fresh event).event = event from rfl, htyped] at hnotTyped
      exact absurd hnotTyped (by simp)
  | startedIdle _ hidle =>
      refine hnot (fun hmode' => ?_) fun hmode' => ?_
      · simp [hmode'.isEvent] at hidle
      · simp [hmode'.isEvent] at hidle
  | startedTapped _ hmode' =>
      exact hnot hmode'.not_unsettled fun hreleased =>
        (hreleased.not_tapped hmode').elim
  | tapReleased _ hmode' =>
      exact hnot hmode'.not_unsettled fun hreleased =>
        (hreleased.not_tapped hmode').elim
  | interrupted _ hmode' _ _ hwithin =>
      exact hnot hmode'.not_unsettled fun _ => hwithin
  | startedReleased _ hmode' _ hwithin =>
      exact hnot hmode'.not_unsettled fun _ => hwithin
  | restarted _ hmode' _ hwithin =>
      exact hnot hmode'.not_unsettled fun _ => hwithin
  | sequential _ hmode' _ _ hwithin =>
      exact hnot hmode'.not_unsettled fun _ => hwithin
  | firstTap | retained | interfered | timedOut | expired => simp at hdone

end Qmk.Tapping
