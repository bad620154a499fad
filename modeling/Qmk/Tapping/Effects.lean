import Qmk.Tapping.Pending

/-!
# What a call of `process_tapping` does to the host

Apart from the state of the engine, a call hands over a few records and gives a
hint of a tap.  A host that keeps an invariant under these keeps it in a run.
-/

namespace Qmk.Tapping

open Qmk.Lib

variable {σ : Type} {cb : Callbacks σ}

/-- The last event of the key that was handed over is a press. -/
def Down (calls : List Call) (key : KeyPos) : Prop :=
  ∃ event, (handedTo key calls).getLast? = some event ∧ event.pressed = true

inductive Effects (cb : Callbacks σ) (host : σ) (calls : List Call) :
    σ → List Call → Prop
  | refl : Effects cb host calls host calls
  | hint {host' : σ} {calls' : List Call} (record : KeyRecord)
      (h : Effects cb host calls host' calls') :
      Effects cb host calls (cb.processRecordTapHint host' record) calls'
  | record {host' : σ} {calls' : List Call} {record : KeyRecord}
      (h : Effects cb host calls host' calls')
      (hevent : record.event.isEvent = true) :
      Effects cb host calls (cb.processRecord host' record).1
        (calls' ++ [.record record])
  | releaseLastTap {host' : σ} {calls' : List Call} {record : KeyRecord}
      (h : Effects cb host calls host' calls')
      (hevent : record.event.isEvent = true) (hreleased : record.event.pressed = false)
      (hdown : Down calls' record.event.key) :
      Effects cb host calls (cb.processRecord host' record).1
        (calls' ++ [.releaseLastTap record])

/-- A tapping key that was handed over as a tap is down. -/
def TapDown (s : State σ) : Prop :=
  s.Tapped → Down s.calls s.tappingKey.event.key

theorem down_record {calls : List Call} {record : KeyRecord}
    (hpressed : record.event.pressed = true) :
    Down (calls ++ [.record record]) record.event.key := by
  refine ⟨record.event, ?_, hpressed⟩
  rw [handedTo_record, if_pos rfl, List.getLast?_concat]

theorem down_record_of_ne {calls : List Call} {record : KeyRecord} {key : KeyPos}
    (hother : record.event.key ≠ key) (h : Down calls key) :
    Down (calls ++ [.record record]) key := by
  obtain ⟨event, hlast, hpressed⟩ := h
  refine ⟨event, ?_, hpressed⟩
  rw [handedTo_record, if_neg hother, List.append_nil, hlast]

theorem startTapping_effects {keyp : KeyRecord} {host : σ} {calls : List Call}
    {s : State σ} (hcount : keyp.tap.count = 0) (hevent : keyp.event.isEvent = true)
    (hpressed : keyp.event.pressed = true)
    (h : Effects cb host calls s.host s.calls) :
    Effects cb host calls (startTapping cb keyp s).2.2.host
      (startTapping cb keyp s).2.2.calls := by
  rcases startTapping_cases cb s hcount hpressed with
    ⟨hstart, -⟩ | ⟨buffer, -, hstart⟩
  · rw [hstart]
    exact h
  · rw [hstart]
    exact .record h hevent

theorem releaseLastTap_effects {event : KeyEvent} {s : State σ} (hmode : s.Tapped)
    (hdown : TapDown s) :
    Effects cb s.host s.calls (releaseLastTap cb event s).host
      (releaseLastTap cb event s).calls := by
  unfold releaseLastTap
  split_ifs
  · exact .releaseLastTap .refl hmode.isEvent rfl (hdown hmode)
  · exact .refl

theorem Outcome.effects {keyp : KeyRecord} {s : State σ} {result : Result σ}
    (h : Outcome cb keyp s result)
    (hcount : keyp.event.pressed = true → keyp.tap.count = 0) (hdown : TapDown s) :
    Effects cb s.host s.calls result.2.2.host result.2.2.calls := by
  cases h with
  | ignored | restarted | retained | expired => exact .refl
  | handed hevent | bypassed hevent | interrupted hevent =>
      exact .record .refl hevent
  | startedIdle hevent _ hpressed =>
      exact startTapping_effects (hcount hpressed) hevent hpressed (.hint keyp .refl)
  | startedTapped hevent hmode hpressed =>
      exact startTapping_effects (hcount hpressed) hevent hpressed
        (releaseLastTap_effects hmode hdown)
  | startedReleased hevent _ hpressed =>
      exact startTapping_effects (hcount hpressed) hevent hpressed .refl
  | sequential hevent =>
      refine .record .refl ?_
      unfold sequentialTap
      split_ifs <;> exact hevent
  | firstTap _ hmode | interfered _ hmode | timedOut hmode =>
      exact .record .refl hmode.isEvent
  | tapReleased hevent => exact .record .refl hevent

theorem TapDown.of_record {s : State σ} {record : KeyRecord} {calls : List Call} (hcalls : s.calls = calls ++ [.record record])
    (hkey : s.tappingKey.event.key = record.event.key)
    (hpressed : record.event.pressed = true) : TapDown s := by
  intro _
  rw [hcalls, hkey]
  exact down_record hpressed

theorem TapDown.of_not_tapped {s : State σ} (h : ¬ s.Tapped) : TapDown s :=
  fun htapped => absurd htapped h

theorem startTapping_tapDown (hcb : cb.KeepsRecords) {keyp : KeyRecord} (s : State σ)
    (hcount : keyp.tap.count = 0) (hpressed : keyp.event.pressed = true) :
    TapDown (startTapping cb keyp s).2.2 := by
  rcases startTapping_cases cb s hcount hpressed with
    ⟨hstart, -⟩ | ⟨buffer, -, hstart⟩
  · rw [hstart]
    exact .of_not_tapped fun htapped =>
      absurd hcount (Nat.ne_of_gt htapped.count_pos)
  · rw [hstart]
    exact .of_record rfl (KeepsRecords.key hcb s.host (keyp.setCount 1)) hpressed

theorem Outcome.tapDown (hcb : cb.KeepsRecords) {keyp : KeyRecord} {s : State σ}
    {result : Result σ} (h : Outcome cb keyp s result)
    (hcount : keyp.event.pressed = true → keyp.tap.count = 0) (hdown : TapDown s) :
    TapDown result.2.2 := by
  cases h with
  | ignored => exact hdown
  | handed _ _ hother =>
      intro hmode
      by_cases hown : keyp.event.key = s.tappingKey.event.key
      · have hlast : Down (s.calls ++ [.record keyp]) keyp.event.key :=
          down_record (hother hmode hown)
        rw [hown] at hlast
        exact hlast
      · exact down_record_of_ne hown (hdown hmode)
  | bypassed _ hmode =>
      exact .of_not_tapped fun htapped => htapped.not_unsettled hmode
  | interrupted _ hmode =>
      exact .of_not_tapped fun htapped =>
        hmode.not_tapped (KeyRecord.setInterrupted_tapped.mp htapped)
  | startedIdle _ _ hpressed | startedTapped _ _ hpressed
  | startedReleased _ _ hpressed =>
      exact startTapping_tapDown hcb _ (hcount hpressed) hpressed
  | restarted _ _ hpressed =>
      exact .of_not_tapped fun htapped =>
        absurd (hcount hpressed) (Nat.ne_of_gt htapped.count_pos)
  | sequential _ _ _ hpressed =>
      refine .of_record rfl (KeepsRecords.key hcb s.host _) ?_
      rw [sequentialTap_event]
      exact hpressed
  | firstTap _ hmode =>
      exact .of_record rfl (KeepsRecords.key hcb s.host (s.tappingKey.setCount 1))
        hmode.pressed
  | retained _ hmode hsame =>
      refine .of_not_tapped fun htapped => ?_
      rcases hsame with rfl | rfl
      · exact htapped.not_unsettled hmode
      · exact (KeyRecord.setInterrupted_tapped.mp htapped).not_unsettled hmode
  | tapReleased _ _ _ hreleased within =>
      refine .of_not_tapped fun htapped => ?_
      cases within with
      | false => exact KeyRecord.zero_not_tapped htapped
      | true =>
          have hafter := @KeepsRecords.released _ _ hcb s.host
            { keyp with tap := s.tappingKey.tap } hreleased
          have hpressed := htapped.pressed
          rw [if_pos rfl] at hpressed
          rw [show (processRecord cb { keyp with tap := s.tappingKey.tap } s).1.event.pressed
            = false from hafter] at hpressed
          exact absurd hpressed (by simp)
  | interfered | timedOut | expired => exact .of_not_tapped KeyRecord.zero_not_tapped

/-! ## Invariants of the host -/

/-- What has been handed over alternates, key by key. -/
def HandsAlternately (calls : List Call) : Prop :=
  ∀ key, Alternates (handedTo key calls)

theorem HandsAlternately.of_prefix {first second : List Call}
    (h : HandsAlternately second) (hstart : first <+: second) :
    HandsAlternately first := by
  intro key
  have hkey : handedTo key first <+: handedTo key second :=
    (hstart.filterMap _).map _
  obtain ⟨rest, hrest⟩ := hkey
  have hall := h key
  rw [← hrest] at hall
  exact hall.of_append

theorem Conserves.handsAlternately {fed : KeyPos → List KeyEvent} {s : State σ}
    (h : Conserves fed s) (halt : ∀ key, Alternates (fed key)) :
    HandsAlternately s.calls := by
  intro key
  have hkey := halt key
  rw [← h.conserve key, taken, List.append_assoc] at hkey
  exact hkey.of_append

/-- The host and the calls are kept sound by what `process_tapping` does. -/
def Keeps (cb : Callbacks σ) (Inv : σ → List Call → Prop) : Prop :=
  ∀ host calls host' calls', Effects cb host calls host' calls' →
    HandsAlternately calls' → Inv host calls → Inv host' calls'

/-- The invariant of the host with what it needs of the engine. -/
structure Hosts (Inv : σ → List Call → Prop) (s : State σ) : Prop where
  inv : Inv s.host s.calls
  tapDown : TapDown s
  waiting : Waiting s.waitingBuffer

theorem Hosts.popped {Inv : σ → List Call → Prop} (hcb : cb.KeepsRecords)
    (hkeeps : Keeps cb Inv) {s : State σ} {keyp : KeyRecord} {rest : List KeyRecord}
    (hbuffer : s.waitingBuffer = keyp :: rest) (h : Hosts Inv s)
    (halt : HandsAlternately (processTapping cb keyp s).2.2.calls) :
    Hosts Inv (popped (processTapping cb keyp s)) := by
  have hout := processTapping_cases cb keyp s
  have hcount := (h.waiting keyp (by simp [hbuffer])).2
  exact ⟨hkeeps _ _ _ _ (hout.effects hcount h.tapDown) halt h.inv,
    hout.tapDown hcb hcount h.tapDown, hout.popped_waiting hcount h.waiting⟩

theorem Hosts.kept {Inv : σ → List Call → Prop} (hcb : cb.KeepsRecords)
    (hkeeps : Keeps cb Inv) {s : State σ} {keyp : KeyRecord} {rest : List KeyRecord}
    (hbuffer : s.waitingBuffer = keyp :: rest) (h : Hosts Inv s)
    (hwaits : (processTapping cb keyp s).1 = false)
    (halt : HandsAlternately (processTapping cb keyp s).2.2.calls) :
    Hosts Inv (kept (processTapping cb keyp s)) := by
  have hout := processTapping_cases cb keyp s
  obtain ⟨hevent, hcount⟩ := h.waiting keyp (by simp [hbuffer])
  exact ⟨hkeeps _ _ _ _ (hout.effects hcount h.tapDown) halt h.inv,
    hout.tapDown hcb hcount h.tapDown,
    hout.kept_waiting hwaits hevent hcount h.waiting⟩

theorem Hosts.processWaitingBuffer {Inv : σ → List Call → Prop}
    (hcb : cb.KeepsRecords) (hkeeps : Keeps cb Inv) (fuel : Nat) {s : State σ}
    (h : Hosts Inv s) (halt : HandsAlternately (processWaitingBuffer cb fuel s).calls) :
    Hosts Inv (processWaitingBuffer cb fuel s) := by
  induction fuel generalizing s with
  | zero => exact h
  | succ fuel ih =>
      cases hbuffer : s.waitingBuffer with
      | nil => simpa [Tapping.processWaitingBuffer, hbuffer] using h
      | cons keyp rest =>
          rw [processWaitingBuffer_cons hbuffer] at halt ⊢
          split_ifs at halt ⊢ with hdone
          · have hstart := processWaitingBuffer_calls cb fuel
              (Tapping.popped (processTapping cb keyp s))
            exact ih (h.popped hcb hkeeps hbuffer (halt.of_prefix hstart)) halt
          · exact h.kept hcb hkeeps hbuffer (by simpa using hdone) halt

theorem Hosts.processFresh {Inv : σ → List Call → Prop} (hcb : cb.KeepsRecords)
    (hkeeps : Keeps cb Inv) {s : State σ} (event : KeyEvent) (h : Hosts Inv s)
    (halt : HandsAlternately (processFresh cb (.fresh event) s).calls)
    (hoverflow : .overflow ∉ (processFresh cb (.fresh event) s).calls) :
    Hosts Inv (processFresh cb (.fresh event) s) := by
  have hout := processTapping_cases cb (.fresh event) s
  have hwaiting := processFresh_waiting cb h.waiting event
  have hafter : HandsAlternately (processTapping cb (.fresh event) s).2.2.calls →
      Inv (processTapping cb (.fresh event) s).2.2.host
        (processTapping cb (.fresh event) s).2.2.calls :=
    fun halt => hkeeps _ _ _ _ (hout.effects (fun _ => rfl) h.tapDown) halt h.inv
  have hdown := hout.tapDown hcb (fun _ => rfl) h.tapDown
  unfold Tapping.processFresh waitingBufferEnq at hwaiting halt hoverflow ⊢
  dsimp only at hwaiting halt hoverflow ⊢
  split_ifs at hwaiting halt hoverflow ⊢ with hdone htick hfull
  · exact ⟨hafter halt, hdown, hwaiting⟩
  · exact ⟨hafter halt, hdown, hwaiting⟩
  · simp at hoverflow
  · exact ⟨hafter halt, hdown, hwaiting⟩

theorem Hosts.exec {Inv : σ → List Call → Prop} (hcb : cb.KeepsRecords)
    (hkeeps : Keeps cb Inv) {s : State σ} {event : KeyEvent} (h : Hosts Inv s)
    (halt : HandsAlternately (actionExec cb s event).calls)
    (hoverflow : .overflow ∉ (actionExec cb s event).calls) :
    Hosts Inv (actionExec cb s event) := by
  have hcalls := actionExec_calls cb s event
  exact (h.processFresh hcb hkeeps event (halt.of_prefix hcalls)
    fun hmem => hoverflow (hcalls.subset hmem)).processWaitingBuffer hcb hkeeps _ halt

end Qmk.Tapping
