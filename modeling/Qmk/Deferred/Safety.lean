import Qmk.Deferred.Executors

/-!
# Tokens and trigger times

What the trace says of a token (when it is due, and which callback it stands for) is
what a live entry with that token holds, except that an entry may be due later.
-/

namespace Qmk.Deferred

open Qmk.Lib

variable {κ : Type _}

/-! ## What the trace says of a token -/

/-- The token was cancelled after the callback that ran last was called. -/
def cancelledSinceRun : List (Event κ) → Token → Bool
  | [], _ => false
  | .ran _ _ _ _ :: _, _ => false
  | .cancelled token :: past, k => token = k || cancelledSinceRun past k
  | _ :: past, k => cancelledSinceRun past k

/-- When the token is due, and its callback.  What a callback returns counts for the
token that it ran for, unless that has been cancelled meanwhile. -/
def status : List (Event κ) → Token → Option (Nat × κ)
  | [], _ => none
  | .deferred token due cb :: past, k => if token = k then some (due, cb) else status past k
  | .extended token due :: past, k =>
      if token = k then (status past k).map fun held => (due, held.2) else status past k
  | .cancelled token :: past, k => if token = k then none else status past k
  | .ran token _ triggerTime _ :: past, k =>
      if token = k then (status past k).map fun held => (triggerTime, held.2)
      else status past k
  | .returned token delay :: past, k =>
      if token = k ∧ cancelledSinceRun past k = false then
        if delay = 0 then none
        else (status past k).map fun held => (held.1 + delay, held.2)
      else status past k

/-- Tokens that are handed out are valid, and a callback runs for a token that stands
for it, not before its trigger time, which is when the token is due or later. -/
def Allowed (past : List (Event κ)) : Event κ → Prop
  | .deferred token _ _ => token ≠ invalidDeferredToken
  | .ran token callback triggerTime now => ∃ due cb, status past token = some (due, cb) ∧
      callback = some cb ∧ due ≤ triggerTime ∧ triggerTime ≤ now
  | _ => True

/-- The valid tokens of the table are pairwise distinct. -/
def DistinctTokens (count : Nat) (s : State κ) : Prop :=
  ∀ i < count, ∀ j < count, (s.table i).token ≠ invalidDeferredToken →
    (s.table i).token = (s.table j).token → i = j

structure Safe (count : Nat) (s : State κ) : Prop where
  distinct : DistinctTokens count s
  allowed : Always Allowed s.trace

/-- The loop finds no live entry that is due `2 ^ 31` milliseconds or more after the
task was entered. -/
def InReach (count : Nat) (s : State κ) (input : Input κ) : Prop :=
  ∀ now i, input = .look → s.phase = .scanning now i → i < count →
    (s.table i).token ≠ invalidDeferredToken → (s.table i).triggerTime < now + 2 ^ 31

/-! ## The invariant -/

/-- The entry holds what the trace says of its token. -/
def Entry.Follows (entry : Entry κ) (trace : List (Event κ)) : Prop :=
  ∃ due cb, status trace entry.token = some (due, cb) ∧ entry.callback = some cb ∧
    due ≤ entry.triggerTime

structure Invariant (count : Nat) (s : State κ) : Prop where
  distinct : DistinctTokens count s
  follows : ∀ i < count, (s.table i).token ≠ invalidDeferredToken →
    (s.table i).Follows s.trace
  calling : ∀ now i currToken, s.phase = .calling now i currToken →
    i < count ∧ currToken ≠ invalidDeferredToken ∧
      ((s.table i).token = currToken ∨ cancelledSinceRun s.trace currToken = true)
  allowed : Always Allowed s.trace

variable {count : Nat}

theorem invariant_init (currentToken : Token) (lastExecutionTime : BitVec 32)
    (clock : Nat) :
    Invariant count (State.init currentToken lastExecutionTime clock : State κ) where
  distinct _ _ _ _ hvalid := absurd rfl hvalid
  follows _ _ hvalid := absurd rfl hvalid
  calling _ _ _ h := by cases h
  allowed := .nil

@[simp] theorem setEntry_self (s : State κ) (i : Nat) (entry : Entry κ) :
    (s.setEntry i entry).table i = entry :=
  Function.update_self _ _ _

theorem setEntry_of_ne (s : State κ) {i j : Nat} (h : j ≠ i) (entry : Entry κ) :
    (s.setEntry i entry).table j = s.table j :=
  Function.update_of_ne h _ _

/-- Two states with one table, trace and phase differ in nothing that matters. -/
theorem Invariant.congr {s s' : State κ} (h : Invariant count s)
    (htable : s'.table = s.table) (htrace : s'.trace = s.trace)
    (hphase : s'.phase = s.phase ∨ s'.phase.runsCode = false ∨ s'.phase = .idle) :
    Invariant count s' := by
  refine ⟨?_, ?_, ?_, htrace ▸ h.allowed⟩
  · rw [DistinctTokens, htable]
    exact h.distinct
  · rw [htable, htrace]
    exact h.follows
  · intro now i currToken hcalling
    rw [htable, htrace]
    rw [hcalling] at hphase
    rcases hphase with hsame | hcode | hidle
    · exact h.calling now i currToken hsame.symm
    · cases hcode
    · cases hidle

def Event.token : Event κ → Token
  | .deferred token _ _ => token
  | .extended token _ => token
  | .cancelled token => token
  | .ran token _ _ _ => token
  | .returned token _ => token

theorem status_other {event : Event κ} {past : List (Event κ)} {k : Token}
    (h : event.token ≠ k) : status (event :: past) k = status past k := by
  cases event with
  | returned token delay => exact if_neg fun hboth => h hboth.1
  | _ => exact if_neg h

/-- An entry is changed, and an event logged about its old token or its new one. -/
theorem Invariant.setEntry {s : State κ} (h : Invariant count s) {i : Nat}
    {entry : Entry κ} {event : Event κ} {phase : Phase}
    (hothers : ∀ j < count, j ≠ i → (s.table j).token ≠ event.token)
    (hentry : entry.token ≠ invalidDeferredToken →
      entry.token = event.token ∧ entry.Follows (event :: s.trace))
    (hcalling : ∀ now i' currToken, phase = .calling now i' currToken →
      i' < count ∧ currToken ≠ invalidDeferredToken ∧
        ((Function.update s.table i entry i').token = currToken ∨
          cancelledSinceRun (event :: s.trace) currToken = true))
    (hallowed : Allowed s.trace event) :
    Invariant count (({ s with phase := phase }.setEntry i entry).log event) := by
  refine ⟨?_, ?_, hcalling, Always.cons_iff.mpr ⟨h.allowed, hallowed⟩⟩
  · intro j hj k hk hvalid hsame
    simp only [State.log, State.setEntry] at hvalid hsame
    by_cases hji : j = i <;> by_cases hki : k = i
    · rw [hji, hki]
    · subst hji
      rw [Function.update_self] at hvalid hsame
      rw [Function.update_of_ne hki, (hentry hvalid).1] at hsame
      exact absurd hsame.symm (hothers k hk hki)
    · subst hki
      rw [Function.update_of_ne hji] at hvalid hsame
      rw [Function.update_self] at hsame
      rw [hsame] at hvalid
      rw [(hentry hvalid).1] at hsame
      exact absurd hsame (hothers j hj hji)
    · rw [Function.update_of_ne hji] at hvalid hsame
      rw [Function.update_of_ne hki] at hsame
      exact h.distinct j hj k hk hvalid hsame
  · intro j hj hvalid
    simp only [State.log, State.setEntry] at hvalid ⊢
    by_cases hji : j = i
    · subst hji
      rw [Function.update_self] at hvalid ⊢
      exact (hentry hvalid).2
    · rw [Function.update_of_ne hji] at hvalid ⊢
      obtain ⟨due, cb, hstatus, hfollows⟩ := h.follows j hj hvalid
      exact ⟨due, cb, by rw [status_other (hothers j hj hji).symm, hstatus], hfollows⟩

theorem cancelledSinceRun_cons {event : Event κ} {past : List (Event κ)} {k : Token}
    (h : cancelledSinceRun past k = true)
    (hrun : ∀ token callback triggerTime now, event ≠ .ran token callback triggerTime now) :
    cancelledSinceRun (event :: past) k = true := by
  cases event with
  | ran token callback triggerTime now => exact absurd rfl (hrun _ _ _ _)
  | cancelled token => simp [cancelledSinceRun, h]
  | _ => exact h

/-- An entry of a callback that is running stays, or the token has been cancelled. -/
theorem Invariant.stillCalling {s : State κ} (h : Invariant count s) {i : Nat}
    {entry : Entry κ} {event : Event κ}
    (hrun : ∀ token callback triggerTime now, event ≠ .ran token callback triggerTime now)
    (hkeeps : (s.table i).token ≠ invalidDeferredToken →
      entry.token = (s.table i).token ∨
        cancelledSinceRun (event :: s.trace) (s.table i).token = true) :
    ∀ now i' currToken, s.phase = .calling now i' currToken →
      i' < count ∧ currToken ≠ invalidDeferredToken ∧
        ((Function.update s.table i entry i').token = currToken ∨
          cancelledSinceRun (event :: s.trace) currToken = true) := by
  intro now i' currToken hphase
  obtain ⟨hi', hvalid, htoken⟩ := h.calling now i' currToken hphase
  refine ⟨hi', hvalid, ?_⟩
  rcases htoken with hheld | hcancelled
  · by_cases hii : i' = i
    · subst hii
      subst hheld
      rw [Function.update_self]
      exact hkeeps hvalid
    · rw [Function.update_of_ne hii]
      exact .inl hheld
  · exact .inr (cancelledSinceRun_cons hcancelled hrun)

theorem Invariant.deferred {s : State κ} (h : Invariant count s) (callback : Option κ)
    (delayMs : BitVec 32) :
    Invariant count (deferExecAdvanced count delayMs callback s).2 := by
  generalize hs' : (deferExecAdvanced count delayMs callback s).2 = s'
  have hcases := hs' ▸ deferExecAdvanced_cases delayMs callback s
  cases hcases with
  | refused currentToken => exact h.congr rfl rfl (.inl rfl)
  | stored i token cb hi free valid fresh =>
      have hset := @Invariant.setEntry _ _ _ h i ⟨token, s.clock + delayMs.toNat, some cb⟩
        (.deferred token (s.clock + delayMs.toNat) cb) s.phase (fun j hj _ => fresh j hj)
        (fun _ => ⟨rfl, s.clock + delayMs.toNat, cb, if_pos rfl, rfl, Nat.le_refl _⟩)
        (h.stillCalling (by intros; simp) (fun hvalid => absurd free hvalid)) valid
      exact hset.congr rfl rfl (.inl rfl)

theorem Invariant.extended {s : State κ} (h : Invariant count s) (token : Token)
    (delayMs : BitVec 32) :
    Invariant count (extendDeferredExecAdvanced count token delayMs s).2 := by
  rw [extendDeferredExecAdvanced]
  split
  · exact h
  · rename_i hvalid
    cases hfind : findToken count s.table token with
    | none => exact h
    | some i =>
        obtain ⟨hi, rfl⟩ := findToken_some hfind
        rw [not_or, not_or] at hvalid
        obtain ⟨due, cb, hstatus, hcallback, -⟩ := h.follows i hi hvalid.2.2
        refine h.setEntry (fun j hj hji hsame => ?_) (fun _ => ⟨rfl, ?_⟩)
          (h.stillCalling (by intros; simp) (fun _ => .inl rfl)) trivial
        · exact hji (h.distinct i hi j hj hvalid.2.2 hsame.symm).symm
        · exact ⟨_, cb, by simp [status, hstatus], hcallback, Nat.le_refl _⟩

theorem Invariant.cancelled {s : State κ} (h : Invariant count s) (token : Token) :
    Invariant count (cancelDeferredExecAdvanced count token s).2 := by
  rw [cancelDeferredExecAdvanced]
  split
  · exact h
  · rename_i hvalid
    cases hfind : findToken count s.table token with
    | none => exact h
    | some i =>
        obtain ⟨hi, rfl⟩ := findToken_some hfind
        rw [not_or] at hvalid
        refine h.setEntry (fun j hj hji hsame => ?_) (fun hnone => absurd rfl hnone)
          (h.stillCalling (by intros; simp) (fun _ => .inr ?_)) trivial
        · exact hji (h.distinct i hi j hj hvalid.2 hsame.symm).symm
        · simp [cancelledSinceRun]

/-! ## The task -/

theorem le_of_timerDiff {a b : Nat}
    (hdiff : timerDiff (BitVec.ofNat 32 a) (BitVec.ofNat 32 b) ≤ 0)
    (hreach : a < b + 2 ^ 31) : a ≤ b := by
  by_contra hlt
  have hsub : BitVec.ofNat 32 a - BitVec.ofNat 32 b = BitVec.ofNat 32 (a - b) := by
    apply BitVec.eq_of_toNat_eq
    rw [BitVec.toNat_sub, BitVec.toNat_ofNat, BitVec.toNat_ofNat, BitVec.toNat_ofNat]
    omega
  have hnat : (BitVec.ofNat 32 (a - b)).toNat = a - b := by
    rw [BitVec.toNat_ofNat]
    omega
  rw [timerDiff, hsub, BitVec.toInt_eq_toNat_of_lt (by omega), hnat] at hdiff
  omega

theorem Invariant.looked {s : State κ} (h : Invariant count s) {now i : Nat}
    (hreach : i < count → (s.table i).token ≠ invalidDeferredToken →
      (s.table i).triggerTime < now + 2 ^ 31) : Invariant count (lookAt count now i s) := by
  rw [lookAt]
  split
  · rename_i hi
    simp only
    split
    · rename_i hdue
      obtain ⟨due, cb, hstatus, hcallback, hle⟩ := h.follows i hi hdue.1
      have hnow := le_of_timerDiff hdue.2 (hreach hi hdue.1)
      have hset := @Invariant.setEntry _ _ _ h i (s.table i)
        (.ran (s.table i).token (s.table i).callback (s.table i).triggerTime now)
        (.calling now i (s.table i).token)
        (fun j hj hji hsame => hji (h.distinct i hi j hj hdue.1 hsame.symm).symm)
        (fun _ => ⟨rfl, (s.table i).triggerTime, cb, by simp [status, hstatus], hcallback,
          Nat.le_refl _⟩)
        (fun now' i' currToken hphase => by
          obtain ⟨rfl, rfl, rfl⟩ := Phase.calling.inj hphase
          exact ⟨hi, hdue.1, .inl (by rw [Function.update_self])⟩)
        ⟨due, cb, hstatus, hcallback, hle, hnow⟩
      exact hset.congr (Function.update_eq_self i s.table).symm rfl (.inl rfl)
    · exact h.congr rfl rfl (.inr (.inl rfl))
  · exact h.congr rfl rfl (.inr (.inr rfl))

theorem status_returned {past : List (Event κ)} {token : Token}
    (h : cancelledSinceRun past token = true) (delay : Nat) (k : Token) :
    status (.returned token delay :: past) k = status past k := by
  refine if_neg ?_
  rintro ⟨rfl, hnot⟩
  rw [h] at hnot
  cases hnot

theorem Invariant.returned {s : State κ} (h : Invariant count s) {now i : Nat}
    {currToken : Token} (hphase : s.phase = .calling now i currToken)
    (delayMs : BitVec 32) :
    Invariant count (callbackReturns now i currToken delayMs s) := by
  obtain ⟨hi, hvalid, hcalling⟩ := h.calling now i currToken hphase
  have hnone : ∀ now' i' currToken', Phase.scanning now (i + 1) = .calling now' i' currToken' →
      False := by
    intro _ _ _ hcontra
    cases hcontra
  rw [callbackReturns_eq]
  by_cases hsame : (s.table i).token = currToken
  · have hothers : ∀ j < count, j ≠ i → (s.table j).token ≠ currToken := by
      intro j hj hji htoken
      exact hji (h.distinct i hi j hj (hsame ▸ hvalid) (hsame.trans htoken.symm)).symm
    rw [if_neg (not_not.mpr hsame)]
    by_cases hdelay : 0 < delayMs.toNat
    · rw [if_pos hdelay]
      refine h.setEntry hothers (fun _ => ⟨hsame, ?_⟩)
        (fun _ _ _ hcontra => (hnone _ _ _ hcontra).elim) trivial
      obtain ⟨due, cb, hstatus, hcallback, hle⟩ := h.follows i hi (hsame ▸ hvalid)
      cases hcancelled : cancelledSinceRun s.trace currToken with
      | true =>
          refine ⟨due, cb, ?_, hcallback, Nat.le_add_right_of_le hle⟩
          rw [status_returned hcancelled, hstatus]
      | false =>
          refine ⟨due + delayMs.toNat, cb, ?_, hcallback, Nat.add_le_add_right hle _⟩
          rw [hsame] at hstatus ⊢
          simp [status, hcancelled, hstatus, Nat.ne_of_gt hdelay]
    · rw [if_neg hdelay]
      exact h.setEntry hothers (fun hlive => absurd rfl hlive)
        (fun _ _ _ hcontra => (hnone _ _ _ hcontra).elim) trivial
  · have hcancelled := hcalling.resolve_left hsame
    rw [if_pos hsame]
    refine ⟨h.distinct, fun j hj hlive => ?_,
      fun now' i' currToken' hcontra => (hnone _ _ _ hcontra).elim,
      Always.cons_iff.mpr ⟨h.allowed, trivial⟩⟩
    obtain ⟨due, cb, hstatus, hfollows⟩ := h.follows j hj hlive
    exact ⟨due, cb, (status_returned hcancelled _ _).trans hstatus, hfollows⟩

theorem Invariant.step {s : State κ} (h : Invariant count s) {input : Input κ}
    (hreach : InReach count s input) : Invariant count (s.step count input) := by
  cases input with
  | elapse ms => exact h.congr rfl rfl (.inl rfl)
  | otherTable currentToken => exact h.congr rfl rfl (.inl rfl)
  | defer delayMs callback =>
      rw [State.step]
      split
      · exact h.deferred callback delayMs
      · exact h
  | extend token delayMs =>
      rw [State.step]
      split
      · exact h.extended token delayMs
      · exact h
  | cancel token =>
      rw [State.step]
      split
      · exact h.cancelled token
      · exact h
  | task =>
      rw [State.step]
      split
      · rw [enterTask]
        split
        · exact h.congr rfl rfl (.inr (.inl rfl))
        · exact h
      · exact h
  | look =>
      rw [State.step]
      split
      · rename_i now i hphase
        exact h.looked (hreach now i rfl hphase)
      · exact h
  | ret delayMs =>
      rw [State.step]
      split
      · rename_i now i currToken hphase
        exact h.returned hphase delayMs
      · exact h

/--
In a run that keeps trigger times in reach, tokens are distinct at every moment, and a
callback runs only for a token that stands for it and not before its trigger time.
-/
theorem executors_safe {currentToken : Token} {lastExecutionTime : BitVec 32}
    {clock : Nat} {inputs : List (Input κ)}
    (h : Meets (State.step count) (InReach count)
      (State.init currentToken lastExecutionTime clock) inputs) :
    Safe count (run (State.step count) (State.init currentToken lastExecutionTime clock)
      inputs) := by
  have hinv := h.preserves (Invariant count) (fun s input hs hreach => hs.step hreach)
    (invariant_init currentToken lastExecutionTime clock)
  exact ⟨hinv.distinct, hinv.allowed⟩

/-- A token that stands for nothing, as after it was cancelled or its callback returned 0,
has no callback run until it is handed out again. -/
theorem Safe.not_run {s : State κ} (h : Safe count s) {later past : List (Event κ)}
    {token : Token} (htrace : s.trace = later ++ past) (hnone : status past token = none)
    (hnew : ∀ due cb, .deferred token due cb ∉ later) :
    ∀ cb triggerTime now, .ran token cb triggerTime now ∉ later := by
  suffices hstays : status (later ++ past) token = none ∧
      ∀ cb triggerTime now, .ran token cb triggerTime now ∉ later from hstays.2
  have hallowed := htrace ▸ h.allowed
  clear htrace h
  induction later with
  | nil => exact ⟨hnone, by simp⟩
  | cons event later ih =>
      obtain ⟨hbefore, hrule⟩ := Always.cons_iff.mp hallowed
      obtain ⟨hstatus, hnot⟩ :=
        ih (fun due cb hmem => hnew due cb (List.mem_cons_of_mem _ hmem)) hbefore
      refine ⟨?_, fun cb triggerTime now hmem => ?_⟩
      · by_cases htoken : event.token = token
        · cases event with
          | deferred other due cb =>
              cases htoken
              exact absurd List.mem_cons_self (hnew due cb)
          | _ => simp [status, hstatus]
        · rw [List.cons_append, status_other htoken, hstatus]
      · rcases List.mem_cons.mp hmem with rfl | hmem
        · obtain ⟨due, held, hsome, -⟩ := hrule
          have hsame : status (later ++ past) token = some (due, held) := hsome
          rw [hstatus] at hsame
          cases hsame
        · exact hnot cb triggerTime now hmem

/-! ## Runs that stay in reach -/

/-- The time that the task compares with, or would compare with now. -/
def State.base (s : State κ) : Nat :=
  match s.phase with
  | .idle => s.clock
  | .scanning now _ => now
  | .calling now _ _ => now

/-- What is set in a callback is counted from the moment the task was entered. -/
def ShortDelays (s : State κ) : Input κ → Prop
  | .defer delayMs _ => s.clock + delayMs.toNat < s.base + 2 ^ 31
  | .extend _ delayMs => s.clock + delayMs.toNat < s.base + 2 ^ 31
  | .ret delayMs => ∀ now i currToken, s.phase = .calling now i currToken →
      (s.table i).token = currToken →
        (s.table i).triggerTime + delayMs.toNat < now + 2 ^ 31
  | _ => True

/-- No trigger time is far away. -/
def Near (count : Nat) (s : State κ) : Prop :=
  s.base ≤ s.clock ∧ ∀ i < count, (s.table i).token ≠ invalidDeferredToken →
    (s.table i).triggerTime < s.base + 2 ^ 31

theorem Near.later {s s' : State κ} (h : Near count s) (htable : s'.table = s.table)
    (hbase : s.base ≤ s'.base) (hclock : s'.base ≤ s'.clock) : Near count s' := by
  refine ⟨hclock, fun i hi hvalid => ?_⟩
  rw [htable] at hvalid ⊢
  exact Nat.lt_of_lt_of_le (h.2 i hi hvalid) (Nat.add_le_add_right hbase _)

theorem Near.setEntry {s : State κ} (h : Near count s) (i : Nat) {entry : Entry κ}
    (hentry : entry.token ≠ invalidDeferredToken →
      entry.triggerTime < s.base + 2 ^ 31) :
    Near count (s.setEntry i entry) := by
  refine ⟨h.1, fun j hj hvalid => ?_⟩
  by_cases hji : j = i
  · subst hji
    rw [setEntry_self] at hvalid ⊢
    exact hentry hvalid
  · rw [setEntry_of_ne s hji] at hvalid ⊢
    exact h.2 j hj hvalid

theorem Near.step {s : State κ} (h : Near count s) {input : Input κ}
    (hshort : ShortDelays s input) : Near count (s.step count input) := by
  cases input with
  | elapse ms =>
      have hclock := h.1
      refine h.later rfl ?_ ?_ <;>
        cases hphase : s.phase <;> simp only [State.base, State.step, hphase] at hclock ⊢ <;>
        omega
  | otherTable currentToken => exact h
  | defer delayMs callback =>
      rw [State.step]
      split
      · generalize hs' : (deferExecAdvanced count delayMs callback s).2 = s'
        have hcases := hs' ▸ deferExecAdvanced_cases delayMs callback s
        cases hcases with
        | refused currentToken => exact h
        | stored i token cb hi free valid fresh => exact h.setEntry i fun _ => hshort
      · exact h
  | extend token delayMs =>
      rw [State.step]
      split
      · rw [extendDeferredExecAdvanced]
        split
        · exact h
        · cases findToken count s.table token with
          | none => exact h
          | some i => exact h.setEntry i fun _ => hshort
      · exact h
  | cancel token =>
      rw [State.step]
      split
      · rw [cancelDeferredExecAdvanced]
        split
        · exact h
        · cases findToken count s.table token with
          | none => exact h
          | some i => exact h.setEntry i fun hlive => absurd rfl hlive
      · exact h
  | task =>
      rw [State.step]
      split
      · rename_i hidle
        rw [enterTask]
        split
        · have hbase : s.base = s.clock := by rw [State.base, hidle]
          exact h.later rfl (Nat.le_of_eq hbase) (Nat.le_refl _)
        · exact h
      · exact h
  | look =>
      rw [State.step]
      split
      · rename_i now i hphase
        have hbase : s.base = now := by rw [State.base, hphase]
        have hclock : now ≤ s.clock := hbase ▸ h.1
        rw [lookAt]
        split
        · simp only
          split <;> exact h.later rfl (Nat.le_of_eq hbase) hclock
        · exact h.later rfl h.1 (Nat.le_refl _)
      · exact h
  | ret delayMs =>
      rw [State.step]
      split
      · rename_i now i currToken hphase
        have hbase : s.base = now := by rw [State.base, hphase]
        have hclock : now ≤ s.clock := hbase ▸ h.1
        have hlater : Near count { s with phase := .scanning now (i + 1) } :=
          h.later rfl (Nat.le_of_eq hbase) hclock
        rw [callbackReturns_eq]
        by_cases hsame : (s.table i).token = currToken
        · rw [if_neg (not_not.mpr hsame)]
          split
          · exact hlater.setEntry i fun _ => hshort now i currToken hphase hsame
          · exact hlater.setEntry i fun hlive => absurd rfl hlive
        · rw [if_pos hsame]
          exact hlater
      · exact h

theorem inReach_of_shortDelays {currentToken : Token} {lastExecutionTime : BitVec 32}
    {clock : Nat} {inputs : List (Input κ)}
    (h : Meets (State.step count) ShortDelays
      (State.init currentToken lastExecutionTime clock) inputs) :
    Meets (State.step count) (InReach count)
      (State.init currentToken lastExecutionTime clock) inputs := by
  refine h.imp_of_invariant (Near count) (fun s input hs hshort => hs.step hshort)
    (fun s input hs _ now i _ hphase hi hvalid => ?_)
    ⟨Nat.le_refl _, fun _ _ hvalid => absurd rfl hvalid⟩
  have hnear := hs.2 i hi hvalid
  rw [State.base, hphase] at hnear
  exact hnear

/-- A callback runs twice, five milliseconds apart, and is then cancelled. -/
def twice : List (Input Unit) :=
  [.defer 1 (some ()), .elapse 1, .task, .look, .ret 5, .look, .elapse 5, .task, .look,
    .cancel 1, .ret 5]

theorem twice_safe : Safe 1 (run (State.step 1) (State.init 0 0 0) twice) := by
  apply executors_safe
  apply inReach_of_shortDelays
  have hfirst : 0 + (1 : BitVec 32).toNat < 0 + 2 ^ 31 := by decide
  refine ⟨hfirst, trivial, trivial, trivial, ?_, trivial, trivial, trivial, trivial,
    trivial, ?_, trivial⟩
  · intro now i currToken hphase _
    obtain ⟨rfl, rfl, -⟩ := Phase.calling.inj
      ((rfl : Phase.calling 1 0 1 = _).trans hphase)
    decide
  · intro now i currToken hphase hsame
    obtain ⟨rfl, rfl, rfl⟩ := Phase.calling.inj
      ((rfl : Phase.calling 6 0 1 = _).trans hphase)
    exact absurd hsame (by decide)

def Input.delay {κ : Type _} : Input κ → Nat
  | .defer delayMs _ => delayMs.toNat
  | .extend _ delayMs => delayMs.toNat
  | .ret delayMs => delayMs.toNat
  | _ => 0

/-- A callback that takes a millisecond defers another one by the longest delay. -/
def slowCallback : List (Input Unit) :=
  [.defer 1 (some ()), .elapse 1, .task, .look, .elapse 1, .defer 0x7FFFFFFF (some ()),
    .ret 0, .look]

/-- A callback puts itself off by the longest delay, and returns the longest delay. -/
def putOff : List (Input Unit) :=
  [.defer 1 (some ()), .elapse 1, .task, .look, .extend 1 0x7FFFFFFF, .ret 0x7FFFFFFF,
    .look, .elapse 1, .task, .look]

/-- The first one runs a callback `2 ^ 31` milliseconds early, the second one `2 ^ 32 - 3`. -/
theorem slowCallback_putOff_early :
    ((∀ input ∈ slowCallback, input.delay < 2 ^ 31) ∧
      ¬ Safe 2 (run (State.step 2) (State.init 0 0 0) slowCallback)) ∧
    (∀ input ∈ putOff, input.delay < 2 ^ 31) ∧
      ¬ Safe 1 (run (State.step 1) (State.init 0 0 0) putOff) := by
  refine ⟨⟨by decide, fun h => ?_⟩, by decide, fun h => ?_⟩
  · obtain ⟨-, due, cb, -, -, -, hnow⟩ := Always.cons_iff.mp h.allowed
    exact absurd hnow (by decide)
  · obtain ⟨-, due, cb, -, -, -, hnow⟩ := Always.cons_iff.mp h.allowed
    exact absurd hnow (by decide)

end Qmk.Deferred
