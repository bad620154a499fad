import Qmk.Tapping.Agree

/-!
# Runs in which press and release agree

Each event is one call of `process_tapping` for the fresh record and one for
each record that the loop takes.  A run in which none of them forgets how a
press was taken hands over each release as its press.
-/

namespace Qmk.Tapping

open Qmk.Lib

variable {σ : Type} {cb : Callbacks σ}

/-- The calls of `process_tapping` that an event leads to, each with its state. -/
def tappingCalls (cb : Callbacks σ) (s : State σ) (event : KeyEvent) :
    List (KeyRecord × State σ) :=
  (.fresh event, s) ::
    loopCalls cb (processFresh cb (.fresh event) s).waitingBuffer.length
      (processFresh cb (.fresh event) s)

/--
The release of the tapping key comes within its term, but not next: an earlier
event of the key is in the buffer.
-/
def TapsOutOfTurn (cb : Callbacks σ) (s : State σ) (event : KeyEvent) : Prop :=
  event.isEvent = true ∧ s.Unsettled ∧ event.key = s.tappingKey.event.key ∧
    event.pressed = false ∧ withinTappingTerm cb s event = true ∧
    ∃ record ∈ s.waitingBuffer, record.event.key = event.key

instance (cb : Callbacks σ) (s : State σ) (event : KeyEvent) :
    Decidable (TapsOutOfTurn cb s event) :=
  inferInstanceAs (Decidable (_ ∧ _ ∧ _ ∧ _ ∧ _ ∧ _))

/-- An event that can part a release from the settlement of its press. -/
def Parts (cb : Callbacks σ) (s : State σ) (event : KeyEvent) : Prop :=
  Overtakes cb s event ∨ TapsOutOfTurn cb s event ∨
    ∃ call ∈ tappingCalls cb s event, Forgets cb call.1 call.2

instance (cb : Callbacks σ) (s : State σ) (event : KeyEvent) :
    Decidable (Parts cb s event) :=
  inferInstanceAs (Decidable (_ ∨ _ ∨ _))

/-! ## The loop -/

/-- The invariant between two events. -/
structure Settles (fed : KeyPos → List KeyEvent) (s : State σ) : Prop where
  conserves : Conserves fed s
  agrees : Agrees s s.waitingBuffer

theorem Conserves.alternating {fed : KeyPos → List KeyEvent} {s : State σ}
    (h : Conserves fed s) (halt : ∀ key, Alternates (fed key)) :
    Alternating s s.waitingBuffer := by
  intro key
  rw [h.conserve key]
  exact halt key

theorem Settles.pop {fed : KeyPos → List KeyEvent} {s : State σ}
    {keyp : KeyRecord} {rest : List KeyRecord} {result : Result σ}
    (hcb : cb.KeepsRecords) (halt : ∀ key, Alternates (fed key))
    (h : Settles fed s) (hbuffer : s.waitingBuffer = keyp :: rest)
    (hforgets : ¬ Forgets cb keyp s) (hout : Outcome cb keyp s result)
    (hdone : result.1 = true) : Settles fed (popped result) := by
  obtain ⟨hevent, hcount⟩ := h.conserves.waiting keyp (by simp [hbuffer])
  have halternating := h.conserves.alternating halt
  have hagrees := h.agrees
  rw [hbuffer] at halternating hagrees
  obtain ⟨after, hbehind, hafter⟩ := hout.agrees_done true hcb hdone
    hevent hcount hforgets hbuffer halternating hagrees
  refine ⟨h.conserves.pop hcb hbuffer hout hdone, ?_⟩
  have htail : (popped result).waitingBuffer = after := by
    have hcons : result.2.2.waitingBuffer = keyp :: after := hbehind
    rw [popped, hcons, List.tail_cons]
  rw [htail]
  exact ⟨hafter.keys, hafter.no_releaseLastTap⟩

theorem Settles.keep {fed : KeyPos → List KeyEvent} {s : State σ}
    {keyp : KeyRecord} {rest : List KeyRecord} {result : Result σ}
    (hcb : cb.KeepsRecords) (halt : ∀ key, Alternates (fed key))
    (h : Settles fed s) (hbuffer : s.waitingBuffer = keyp :: rest)
    (hout : Outcome cb keyp s result) (hwaits : result.1 = false) :
    Settles fed (kept result) := by
  have halternating := h.conserves.alternating halt
  have hagrees := h.agrees
  rw [hbuffer] at halternating hagrees
  refine ⟨h.conserves.keep hcb hbuffer hout hwaits, ?_⟩
  have hkept : (kept result).waitingBuffer = result.2.1 :: rest := by
    rw [kept, hout.waits_buffer hwaits, hbuffer, List.tail_cons]
  rw [hkept]
  by_cases hfirst : s.Unsettled ∧ keyp.event.key = s.tappingKey.event.key ∧
      keyp.event.pressed = false ∧ withinTappingTerm cb s keyp.event = true
  · have hafter := hout.agrees_firstTap hcb hwaits hfirst.1 hfirst.2.1 hfirst.2.2.1
      hfirst.2.2.2 hagrees
    exact ⟨hafter.keys, hafter.no_releaseLastTap⟩
  · obtain ⟨hsame, hafter⟩ := hout.agrees_waits hwaits hfirst halternating hagrees
    rw [hsame]
    exact ⟨hafter.keys, hafter.no_releaseLastTap⟩

theorem Settles.processWaitingBuffer {fed : KeyPos → List KeyEvent} {s : State σ}
    (hcb : cb.KeepsRecords) (halt : ∀ key, Alternates (fed key))
    (h : Settles fed s) (fuel : Nat)
    (hcalls : ∀ call ∈ loopCalls cb fuel s, ¬ Forgets cb call.1 call.2) :
    Settles fed (processWaitingBuffer cb fuel s) := by
  refine processWaitingBuffer_induction cb (Settles fed)
    (fun keyp s => ¬ Forgets cb keyp s)
    (fun s keyp rest hbuffer h hforgets hdone => ?_)
    (fun s keyp rest hbuffer h _ hwaits => ?_) h fuel hcalls
  · exact h.pop hcb halt hbuffer hforgets (processTapping_cases cb keyp s) hdone
  · exact h.keep hcb halt hbuffer (processTapping_cases cb keyp s) hwaits

/-! ## A fresh event -/

theorem Agrees.enq {s : State σ} {buffer : List KeyRecord} {record : KeyRecord}
    (h : Agrees s buffer) (hcount : record.tap.count = 0) :
    Agrees s (buffer ++ [record]) := by
  refine ⟨fun key => ?_, h.no_releaseLastTap⟩
  rw [waitingOf_append]
  by_cases hown : record.event.key = key
  · have hone : waitingOf key [record] = [record] := by simp [waitingOf, hown]
    rw [hone]
    exact (h.keys key).enq hcount
  · have hnone : waitingOf key [record] = [] := by simp [waitingOf, hown]
    rw [hnone, List.append_nil]
    exact h.keys key

theorem waitingOf_front {buffer : List KeyRecord} {record : KeyRecord}
    (hfirst : waitingOf record.event.key buffer = []) (key : KeyPos) :
    waitingOf key (record :: buffer) = waitingOf key (buffer ++ [record]) := by
  rw [waitingOf_append]
  by_cases hown : record.event.key = key
  · subst hown
    rw [waitingOf_cons_own rfl, hfirst, List.nil_append]
    simp [waitingOf]
  · rw [waitingOf_cons_other hown]
    simp [waitingOf, hown]

theorem Agrees.front {s : State σ} {buffer : List KeyRecord} {record : KeyRecord}
    (h : Agrees s (buffer ++ [record]))
    (hfirst : waitingOf record.event.key buffer = []) :
    Agrees s (record :: buffer) := by
  refine ⟨fun key => ?_, h.no_releaseLastTap⟩
  rw [waitingOf_front hfirst]
  exact h.keys key

theorem Agrees.back {s : State σ} {buffer : List KeyRecord} {record : KeyRecord}
    (h : Agrees s (record :: buffer))
    (hfirst : waitingOf record.event.key buffer = []) :
    Agrees s (buffer ++ [record]) := by
  refine ⟨fun key => ?_, h.no_releaseLastTap⟩
  rw [← waitingOf_front hfirst]
  exact h.keys key

theorem Agrees.waitingBufferEnq {s : State σ} {record : KeyRecord}
    (hwaits : record.event.isEvent = true → Agrees s (s.waitingBuffer ++ [record]))
    (hticks : record.event.isEvent = false → Agrees s s.waitingBuffer)
    (hoverflow : .overflow ∉ (waitingBufferEnq cb record s).calls) :
    Agrees (waitingBufferEnq cb record s)
      (waitingBufferEnq cb record s).waitingBuffer := by
  unfold Tapping.waitingBufferEnq at hoverflow ⊢
  split_ifs at hoverflow ⊢ with htick hfull
  · exact hticks (by simpa using htick)
  · simp at hoverflow
  · have h := hwaits (by simpa using htick)
    exact ⟨h.keys, h.no_releaseLastTap⟩

theorem Settles.processFresh {fed : KeyPos → List KeyEvent} {s : State σ}
    {event : KeyEvent} (hcb : cb.KeepsRecords) (h : Settles fed s)
    (halt : ∀ key, Alternates (fed key ++ arrival event key))
    (hparts : ¬ Parts cb s event)
    (hoverflow : .overflow ∉ (processFresh cb (.fresh event) s).calls) :
    Settles (fun key => fed key ++ arrival event key)
      (processFresh cb (.fresh event) s) := by
  simp only [Parts, not_or, not_exists, not_and] at hparts
  obtain ⟨hovertakes, hturn, hcalls⟩ := hparts
  have hforgets : ¬ Forgets cb (.fresh event) s :=
    hcalls (.fresh event, s) List.mem_cons_self
  have hown : event.isEvent = true → Alternates (fed event.key ++ [event]) := by
    intro hevent
    have hkey := halt event.key
    rwa [arrival_own hevent] at hkey
  have halternating := h.conserves.alternating fun key => (halt key).of_append
  have hout := processTapping_cases cb (.fresh event) s
  refine ⟨h.conserves.processFresh hcb hown hovertakes hoverflow, ?_⟩
  unfold Tapping.processFresh at hoverflow ⊢
  dsimp only at hoverflow ⊢
  split_ifs at hoverflow ⊢ with hdone
  · by_cases hevent : event.isEvent = true
    · have hfirst := fresh_first h.conserves hevent (hown hevent) hovertakes hout
        hdone
      have hfront : Agrees s (.fresh event :: s.waitingBuffer) :=
        (h.agrees.enq rfl).front hfirst
      have hnext : Alternating s (.fresh event :: s.waitingBuffer) := by
        intro key
        by_cases hkey : event.key = key
        · subst hkey
          have htaken := h.conserves.conserve event.key
          rw [hfirst, List.map_nil, List.append_nil] at htaken
          have hqueue : waitingOf event.key (.fresh event :: s.waitingBuffer) =
              .fresh event :: waitingOf event.key s.waitingBuffer :=
            waitingOf_cons_own rfl _
          rw [hqueue, hfirst, List.map_singleton, htaken]
          exact hown hevent
        · have hqueue : waitingOf key (.fresh event :: s.waitingBuffer) =
              waitingOf key s.waitingBuffer := waitingOf_cons_other hkey _
          rw [hqueue]
          exact halternating key
      obtain ⟨after, ⟨hafter, -⟩, hagrees⟩ := hout.agrees_done false hcb hdone
        hevent (fun _ => rfl) hforgets ⟨rfl, hfirst⟩ hnext hfront
      rw [hafter]
      exact hagrees
    · rw [hout.done_tick hdone hevent]
      exact h.agrees
  · rw [Bool.not_eq_true] at hdone
    have hbuffer := hout.waits_buffer hdone
    have hsame := hout.waits_event hdone
    by_cases hfirst : s.Unsettled ∧ event.key = s.tappingKey.event.key ∧
        event.pressed = false ∧ withinTappingTerm cb s event = true
    · obtain ⟨hmode, hkey, hreleased, hwithin⟩ := hfirst
      refine Agrees.waitingBufferEnq (fun hevent => ?_) (fun htick => ?_) hoverflow
      · rw [hsame] at hevent
        have hempty : waitingOf event.key s.waitingBuffer = [] := by
          by_contra hne
          obtain ⟨record, hrecord⟩ := List.exists_mem_of_ne_nil _ hne
          have hmem := List.mem_filter.mp hrecord
          exact hturn ⟨hevent, hmode, hkey, hreleased, hwithin, record, hmem.1,
            by simpa using hmem.2⟩
        have hfront : Agrees s (.fresh event :: s.waitingBuffer) :=
          (h.agrees.enq rfl).front hempty
        have hafter := hout.agrees_firstTap hcb hdone hmode hkey hreleased hwithin
          hfront
        rw [hbuffer]
        refine hafter.back ?_
        rw [hsame]
        exact hempty
      · have hevent := hout.waits_isEvent hdone hmode hwithin
        rw [hsame, hevent] at htick
        exact absurd htick (by simp)
    · obtain ⟨hrecord, hafter⟩ := hout.agrees_waits hdone hfirst halternating
        h.agrees
      refine Agrees.waitingBufferEnq (fun _ => ?_) (fun _ => ?_) hoverflow
      · rw [hbuffer, hrecord]
        exact hafter.enq rfl
      · rw [hbuffer]
        exact hafter

theorem Settles.exec {fed : KeyPos → List KeyEvent} {s : State σ}
    {event : KeyEvent} (hcb : cb.KeepsRecords) (h : Settles fed s)
    (halt : ∀ key, Alternates (fed key ++ arrival event key))
    (hparts : ¬ Parts cb s event)
    (hoverflow : .overflow ∉ (actionExec cb s event).calls) :
    Settles (fun key => fed key ++ arrival event key) (actionExec cb s event) := by
  have hfresh := h.processFresh hcb halt hparts fun hmem =>
    hoverflow ((actionExec_calls cb s event).subset hmem)
  refine hfresh.processWaitingBuffer hcb halt _ fun call hcall hforgets => ?_
  exact hparts (.inr (.inr ⟨call, List.mem_cons_of_mem _ hcall, hforgets⟩))

/-! ## Runs -/

theorem Settles.exec_run {fed : KeyPos → List KeyEvent} {s : State σ}
    {events : List KeyEvent} (hcb : cb.KeepsRecords) (h : Settles fed s)
    (halt : ∀ key, Alternates (fed key ++ fedTo key events))
    (hmeets : Meets (actionExec cb) (fun s event => ¬ Parts cb s event) s events)
    (hoverflow : .overflow ∉ (run (actionExec cb) s events).calls) :
    Settles (fun key => fed key ++ fedTo key events)
      (run (actionExec cb) s events) := by
  induction events generalizing s fed with
  | nil => simpa [fedTo] using h
  | cons event events ih =>
      have hsplit : ∀ key, Alternates (fed key ++ arrival event key ++
          fedTo key events) := by
        intro key
        have hkey := halt key
        rwa [fedTo_cons, ← List.append_assoc] at hkey
      have hstep := h.exec hcb (fun key => (hsplit key).of_append) hmeets.1
        fun hmem => hoverflow ((run_calls cb _ events).subset hmem)
      have hrest := ih hstep hsplit hmeets.2 hoverflow
      simpa only [fedTo_cons, List.append_assoc, run_cons] using hrest

theorem init_settles (host : σ) : Settles (fun _ => []) (State.init host) := by
  refine ⟨init_conserves host, fun key => ?_, fun record hmem => ?_⟩
  · exact .of_not_heldTap List.isChain_nil (by simp [HeldTap, State.init, recordsTo])
      (not_tapOf_of_mode KeyRecord.zero_not_tapped key)
      (by simp [State.init, waitingOf])
  · simp [State.init] at hmem

/--
Each release is handed over as a tap exactly if its press was, no release is
made up, and when nothing is held each event has been handed over once.
-/
theorem release_agrees (hcb : cb.KeepsRecords) (host : σ) (events : List KeyEvent)
    (halt : ∀ key, Alternates (fedTo key events))
    (hoverflow : .overflow ∉ (run (actionExec cb) (.init host) events).calls)
    (hmeets : Meets (actionExec cb) (fun s event => ¬ Parts cb s event)
      (.init host) events) :
    (∀ key, Matched
      (recordsTo key (run (actionExec cb) (.init host) events).calls)) ∧
    (∀ record, .releaseLastTap record ∉
      (run (actionExec cb) (.init host) events).calls) ∧
    (∀ key, handedTo key (run (actionExec cb) (.init host) events).calls <+:
      fedTo key events) ∧
    ((run (actionExec cb) (.init host) events).waitingBuffer = [] →
      ¬ (run (actionExec cb) (.init host) events).Unsettled →
      ∀ key, handedTo key (run (actionExec cb) (.init host) events).calls =
        fedTo key events) := by
  have hrun := (init_settles host).exec_run hcb halt hmeets hoverflow
  simp only [List.nil_append] at hrun
  refine ⟨fun key => (hrun.agrees.keys key).matched,
    hrun.agrees.no_releaseLastTap, fun key => ?_, fun hempty hmode key => ?_⟩
  · rw [← hrun.conserves.conserve key, taken, List.append_assoc]
    exact List.prefix_append _ _
  · refine hrun.conserves.delivered ?_ key
    rw [work_settled hmode, hempty]
    rfl

instance (handed : List KeyRecord) : Decidable (Matched handed) :=
  inferInstanceAs (Decidable (List.IsChain _ _))

/-- Key 0 is tapped, pressed again, and still down when key 1 is pressed. -/
def doubleTap : List KeyEvent :=
  [keyEvent 0 0 true, keyEvent 0 10 false, keyEvent 0 20 true,
    keyEvent 1 40 true, keyEvent 0 50 false, tickEvent 140]

/-- The press with count 2 is released twice, and the second time as a hold. -/
theorem doubleTap_parts_release :
    perKeyTerms.KeepsRecords ∧
    (∀ key, Alternates (fedTo key doubleTap)) ∧
    doubleTap.Pairwise (·.time ≤ ·.time) ∧
    .overflow ∉ (run (actionExec perKeyTerms) (.init ()) doubleTap).calls ∧
    (run (actionExec perKeyTerms) (.init ()) doubleTap).calls =
      [.record ⟨keyEvent 0 0 true, ⟨false, 1⟩⟩,
        .record ⟨keyEvent 0 10 false, ⟨false, 1⟩⟩,
        .record ⟨keyEvent 0 20 true, ⟨false, 2⟩⟩,
        .releaseLastTap ⟨keyEvent 0 40 false, ⟨false, 2⟩⟩,
        .record ⟨keyEvent 1 40 true, ⟨false, 0⟩⟩,
        .record ⟨keyEvent 0 50 false, ⟨false, 0⟩⟩] ∧
    ¬ Matched (recordsTo ⟨0, 0⟩
      (run (actionExec perKeyTerms) (.init ()) doubleTap).calls) :=
  ⟨perKeyTerms_keepsRecords, alternates_of_mem (by decide), by decide, by decide,
    by decide, by decide⟩

/-- A tap, then a hold around another key. -/
def tapThenHold : List KeyEvent :=
  [keyEvent 0 0 true, keyEvent 0 10 false, keyEvent 1 600 true,
    keyEvent 5 610 true, tickEvent 700, keyEvent 5 720 false, keyEvent 1 730 false]

theorem tapThenHold_agrees :
    (∀ key, Matched
      (recordsTo key (run (actionExec perKeyTerms) (.init ()) tapThenHold).calls)) ∧
    (∀ record, .releaseLastTap record ∉
      (run (actionExec perKeyTerms) (.init ()) tapThenHold).calls) ∧
    (∀ key, handedTo key
        (run (actionExec perKeyTerms) (.init ()) tapThenHold).calls <+:
      fedTo key tapThenHold) ∧
    ∀ key, handedTo key
        (run (actionExec perKeyTerms) (.init ()) tapThenHold).calls =
      fedTo key tapThenHold := by
  have h := release_agrees perKeyTerms_keepsRecords () tapThenHold
    (alternates_of_mem (by decide)) (by decide)
    ⟨by decide, by decide, by decide, by decide, by decide, by decide, by decide,
      trivial⟩
  exact ⟨h.1, h.2.1, h.2.2.1, h.2.2.2 (by decide) (by decide)⟩

end Qmk.Tapping
