import Qmk.Tapping.Pending

/-!
# Permissive hold

With `PERMISSIVE_HOLD` a tap-hold key is settled as held before its term is over
when another key has been pressed and released behind it.  The engine asks the
waiting buffer whether the key of a release has been pressed; it can mistake the
next press of that key for its last one, and a press that starts ahead of the
records that wait is compared with records older than itself.
-/

namespace Qmk.Tapping

open Qmk.Lib

variable {σ : Type} {cb : Callbacks σ}

/-- Another key than `key` is pressed and then released. -/
def TypedOver (key : KeyPos) : List KeyEvent → Prop
  | [] => False
  | press :: later =>
      (press.isEvent = true ∧ press.pressed = true ∧ press.key ≠ key ∧
        ∃ release ∈ later, release.isEvent = true ∧ release.key = press.key ∧
          release.pressed = false) ∨
      TypedOver key later

instance TypedOver.decide (key : KeyPos) :
    (events : List KeyEvent) → Decidable (TypedOver key events)
  | [] => inferInstanceAs (Decidable False)
  | _ :: later =>
      haveI := TypedOver.decide key later
      inferInstanceAs (Decidable (_ ∨ _))

theorem TypedOver.mono {key : KeyPos} {events others : List KeyEvent}
    (hsub : events.Sublist others) (h : TypedOver key events) :
    TypedOver key others := by
  induction hsub with
  | slnil => exact h
  | cons _ _ ih => exact .inr (ih h)
  | cons_cons _ hrest ih =>
      rcases h with ⟨hevent, hpressed, hother, release, hmem, hrelease⟩ | h
      · exact .inl ⟨hevent, hpressed, hother, release, hrest.subset hmem, hrelease⟩
      · exact .inr (ih h)

theorem TypedOver.of_release {key : KeyPos} {events : List KeyEvent}
    {press release : KeyEvent} (hmem : press ∈ events)
    (hevent : press.isEvent = true) (hpressed : press.pressed = true)
    (hother : press.key ≠ key) (hisEvent : release.isEvent = true)
    (hown : release.key = press.key) (hreleased : release.pressed = false) :
    TypedOver key (events ++ [release]) := by
  induction events with
  | nil => simp at hmem
  | cons first events ih =>
      rcases List.mem_cons.mp hmem with rfl | hmem
      · exact .inl ⟨hevent, hpressed, hother, release, by simp, hisEvent, hown,
          hreleased⟩
      · exact .inr (ih hmem)

/-! ## Early holds -/

/-- The tapping key is handed over as it is: neither tapped nor left unsettled. -/
def SettlesHeld (cb : Callbacks σ) (keyp : KeyRecord) (s : State σ) : Prop :=
  s.Unsettled ∧
    (processTapping cb keyp s).2.2.calls = s.calls ++ [.record s.tappingKey]

/--
A tapping key that is settled as held has waited since its press, and if its term
is not over, another key was typed behind it meanwhile.
-/
def HeldForTyping (cb : Callbacks σ) (host : σ) (before : List Stamped)
    (now : Stamped) : Prop :=
  ∀ call ∈ tappingCalls cb (run (feed cb) (.init host) before) now.event,
    SettlesHeld cb call.1 call.2 →
      ∃ earlier press later, before = earlier ++ press :: later ∧
        press.event = call.2.tappingKey.event ∧
        WaitsSince cb host earlier press later ∧
        (now.time < press.time +
            (cb.getTappingTerm call.2.host call.2.tappingKey).toNat →
          TypedOver press.event.key ((later ++ [now]).map (·.event)))

/--
A release waits at the tail of the buffer, its key is pressed again behind it,
and that press passes for a key typed over the tapping key.
-/
def Repressed (cb : Callbacks σ) (keyp : KeyRecord) (s : State σ) : Prop :=
  s.Unsettled ∧ keyp.event.key ≠ s.tappingKey.event.key ∧
    keyp.event.pressed = false ∧
    waitingBufferTyped s.waitingBuffer keyp.event = true ∧
    withinTappingTerm cb s keyp.event = true ∧
    cb.getPermissiveHold s.host s.tappingKey = true ∧
    ¬ TypedOver s.tappingKey.event.key (s.waitingBuffer.map (·.event))

/-- A step that can settle a key as held on the word of the wrong event. -/
def SettlesAstray (cb : Callbacks σ) (s : State σ) (event : KeyEvent) : Prop :=
  StartsAhead cb s event ∨
    ∃ call ∈ loopCalls cb (processFresh cb (.fresh event) s).waitingBuffer.length
      (processFresh cb (.fresh event) s), Repressed cb call.1 call.2

instance (cb : Callbacks σ) (keyp : KeyRecord) (s : State σ) :
    Decidable (SettlesHeld cb keyp s) :=
  inferInstanceAs (Decidable (_ ∧ _))

instance (cb : Callbacks σ) (keyp : KeyRecord) (s : State σ) :
    Decidable (Repressed cb keyp s) :=
  inferInstanceAs (Decidable (_ ∧ _ ∧ _ ∧ _ ∧ _ ∧ _ ∧ _))

instance (cb : Callbacks σ) (s : State σ) (event : KeyEvent) :
    Decidable (SettlesAstray cb s event) :=
  inferInstanceAs (Decidable (_ ∨ _))

/-- What settles the tapping key as held. -/
inductive HoldCause (cb : Callbacks σ) (keyp : KeyRecord) (s : State σ) : Prop
  | typed (hevent : keyp.event.isEvent = true)
      (hother : keyp.event.key ≠ s.tappingKey.event.key)
      (hreleased : keyp.event.pressed = false)
      (htyped : waitingBufferTyped s.waitingBuffer keyp.event = true)
      (hwithin : withinTappingTerm cb s keyp.event = true)
      (hpermissive : cb.getPermissiveHold s.host s.tappingKey = true)
  | late (hafter : withinTappingTerm cb s keyp.event = false)

theorem Outcome.holdCause {keyp : KeyRecord} {s : State σ} {result : Result σ}
    (h : Outcome cb keyp s result) (hmode : s.Unsettled)
    (hcalls : result.2.2.calls = s.calls ++ [.record s.tappingKey]) :
    HoldCause cb keyp s := by
  cases h with
  | interfered hevent _ hother hreleased htyped hwithin hpermissive =>
      exact .typed hevent hother hreleased htyped hwithin hpermissive
  | timedOut _ hafter => exact .late hafter
  | ignored | retained => simp at hcalls
  | bypassed _ _ hother =>
      have hsame : keyp = s.tappingKey := by
        simpa [handOver, processRecord] using hcalls
      exact absurd (congrArg (·.event.key) hsame) hother
  | firstTap =>
      have hsame : s.tappingKey.setCount 1 = s.tappingKey := by
        simpa [processRecord] using hcalls
      have hcount := congrArg (·.tap.count) hsame
      simp [hmode.count_eq] at hcount
  | handed _ hnot => exact absurd hmode hnot
  | startedIdle _ hidle => exact absurd hmode (State.not_unsettled_of_idle hidle)
  | startedTapped _ htapped | tapReleased _ htapped =>
      exact absurd hmode htapped.not_unsettled
  | interrupted _ hreleased | startedReleased _ hreleased
  | restarted _ hreleased | sequential _ hreleased =>
      exact absurd hmode hreleased.not_unsettled
  | expired hreleased => exact absurd hmode hreleased.not_unsettled

theorem elapsed_of_late {s : State σ} {earlier later after : List Stamped}
    {press now : Stamped} {event : KeyEvent}
    (htimes : Chronological (earlier ++ press :: later ++ now :: after))
    (hpress : press.event = s.tappingKey.event)
    (hmem : event ∈ (later ++ [now]).map (·.event))
    (hlate : withinTappingTerm cb s event = false) :
    press.time + (cb.getTappingTerm s.host s.tappingKey).toNat ≤ now.time := by
  obtain ⟨input, hinput, rfl⟩ := List.mem_map.mp hmem
  have hsplit : earlier ++ press :: later ++ now :: after =
      earlier ++ (press :: (later ++ [now]) ++ after) := by simp
  rw [hsplit, Chronological, List.pairwise_append] at htimes
  have hbehind := (List.pairwise_append.mp htimes.2.1).1
  have hfirst := (List.pairwise_cons.mp hbehind).1 input hinput
  have hlast : input.time ≤ now.time := by
    rcases List.mem_append.mp hinput with hearlier | hnow
    · have horder := (List.pairwise_append.mp (List.pairwise_cons.mp hbehind).2).2.2
      exact horder input hearlier now (by simp)
    · rw [List.mem_singleton.mp hnow]
  have hdiff := timerDiff16_le hfirst
  rw [withinTappingTerm, ← hpress, decide_eq_false_iff_not, UInt16.not_lt,
    UInt16.le_iff_toNat_le] at hlate
  omega

theorem Ordered.heldForTyping {host : σ} {before after : List Stamped} {now : Stamped}
    {s : State σ} (h : Ordered cb host before s)
    (htimes : Chronological (before ++ now :: after))
    (hheld : SettlesHeld cb (.fresh now.event) s) :
    ∃ earlier press later, before = earlier ++ press :: later ∧
      press.event = s.tappingKey.event ∧ WaitsSince cb host earlier press later ∧
      (now.time < press.time + (cb.getTappingTerm s.host s.tappingKey).toNat →
        TypedOver press.event.key ((later ++ [now]).map (·.event))) := by
  obtain ⟨hmode, hcalls⟩ := hheld
  obtain ⟨earlier, press, later, rfl, hpress, hbehind, hsince⟩ :=
    h.place s.tappingKey.event (s.waitingBuffer.map (·.event))
      (by rw [pending_unsettled hmode])
  refine ⟨earlier, press, later, rfl, hpress, hsince, fun hearly => ?_⟩
  cases (processTapping_cases cb (.fresh now.event) s).holdCause hmode hcalls with
  | late hafter =>
      have helapsed :
          press.time + (cb.getTappingTerm s.host s.tappingKey).toNat ≤ now.time :=
        elapsed_of_late htimes hpress (List.mem_map_of_mem (by simp)) hafter
      omega
  | typed hevent hother hreleased htyped =>
      rw [waitingBufferTyped, List.any_eq_true] at htyped
      obtain ⟨record, hrecord, hkey⟩ := htyped
      rw [Bool.and_eq_true, decide_eq_true_eq, decide_eq_true_eq] at hkey
      have hpressed : record.event.pressed = true := by
        have hopposite := hkey.2
        rw [hreleased] at hopposite
        simpa using hopposite.symm
      have hmem : record.event ∈ later.map (·.event) :=
        hbehind.subset (List.mem_map_of_mem hrecord)
      rw [List.map_append, List.map_singleton, hpress]
      refine .of_release hmem (h.waiting record hrecord).1 hpressed ?_ hevent hkey.1
        hreleased
      rw [← hkey.1]
      exact hother

theorem Taking.heldForTyping {host : σ} {before after : List Stamped} {now : Stamped}
    {s : State σ} {keyp : KeyRecord} {rest : List KeyRecord}
    (h : Taking cb host before now s) (hbuffer : s.waitingBuffer = keyp :: rest)
    (htimes : Chronological (before ++ now :: after))
    (hrepressed : ¬ Repressed cb keyp s) (hheld : SettlesHeld cb keyp s) :
    ∃ earlier press later, before = earlier ++ press :: later ∧
      press.event = s.tappingKey.event ∧ WaitsSince cb host earlier press later ∧
      (now.time < press.time + (cb.getTappingTerm s.host s.tappingKey).toNat →
        TypedOver press.event.key ((later ++ [now]).map (·.event))) := by
  obtain ⟨hmode, hcalls⟩ := hheld
  rcases h.place s.tappingKey.event (s.waitingBuffer.map (·.event))
      (by rw [pending_unsettled hmode]) with
    ⟨earlier, press, later, rfl, hpress, hbehind, hsince⟩ | ⟨-, hempty⟩
  · refine ⟨earlier, press, later, rfl, hpress, hsince, fun hearly => ?_⟩
    cases (processTapping_cases cb keyp s).holdCause hmode hcalls with
    | late hafter =>
        have hmem : keyp.event ∈ (later ++ [now]).map (·.event) :=
          hbehind.subset (by simp [hbuffer])
        have helapsed := elapsed_of_late htimes hpress hmem hafter
        omega
    | typed hevent hother hreleased htyped hwithin hpermissive =>
        have hover : TypedOver s.tappingKey.event.key
            (s.waitingBuffer.map (·.event)) := by
          by_contra hnot
          exact hrepressed
            ⟨hmode, hother, hreleased, htyped, hwithin, hpermissive, hnot⟩
        rw [hpress]
        exact hover.mono hbehind
  · rw [hbuffer] at hempty
    simp at hempty

/-- Keys 0 to 2 are tap-hold keys, key 5 is a shift, and one term is for all. -/
def permissiveTerms : Callbacks Unit where
  processRecord host record := (host, record)
  processRecordTapHint host _ := host
  isTapRecord _ record := record.event.key.col < 3
  getTappingTerm _ _ := 200
  getQuickTapTerm _ _ := 200
  getPermissiveHold _ _ := true
  layerSwitchGetAction _ key :=
    if key.col < 3 then 0x2104 else if key.col = 5 then 0x00E1 else 0x0004
  clearKeyboard host := host

theorem permissiveTerms_keepsRecords : permissiveTerms.KeepsRecords :=
  fun _ _ => .inl rfl

/-- Another key is pressed and released while the tap-hold key is down. -/
def nestedTap : List Stamped :=
  [.key 5 0 true, .key 0 10 true, .key 6 20 true, .tick 25, .key 6 30 false]

/-- The shift is released, which the buffer retains, and pressed again. -/
def shiftAgain : List Stamped :=
  [.key 5 0 true, .key 0 10 true, .key 5 20 false]

/--
The press of key 6 ends the terms of keys 0 and 1, and is left in the buffer
with no tapping key.
-/
def leftBehind : List Stamped :=
  [.key 0 0 true, .key 1 10 true, .key 6 215 true]

theorem not_heldForTyping {host : σ} {before : List Stamped} {now : Stamped}
    (event : KeyEvent) (term : Nat)
    (hheld : ∃ call ∈ tappingCalls cb (run (feed cb) (.init host) before) now.event,
      SettlesHeld cb call.1 call.2 ∧ call.2.tappingKey.event = event ∧
        term ≤ (cb.getTappingTerm call.2.host call.2.tappingKey).toNat)
    (hplaces : ∀ (n : Nat) (h : n < before.length), before[n].event = event →
      now.time < before[n].time + term ∧
        ¬ TypedOver event.key ((before.drop (n + 1) ++ [now]).map (·.event))) :
    ¬ HeldForTyping cb host before now := by
  intro h
  obtain ⟨call, hcall, hsettles, hevent, hterm⟩ := hheld
  obtain ⟨earlier, press, later, rfl, hpress, -, htyped⟩ := h call hcall hsettles
  have hlength : earlier.length < (earlier ++ press :: later).length := by simp
  have hplace := hplaces earlier.length hlength
  have hget : (earlier ++ press :: later)[earlier.length] = press := by
    simp
  have hdrop : (earlier ++ press :: later).drop (earlier.length + 1) = later := by
    simp
  rw [hget, hdrop] at hplace
  rw [hevent] at hpress
  obtain ⟨hearly, hnot⟩ := hplace hpress
  rw [← hpress] at hnot
  exact hnot (htyped (by omega))

end Qmk.Tapping
