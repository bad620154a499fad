import Mathlib.Algebra.Group.Nat.Defs
import Mathlib.Logic.Function.Basic
import Qmk.Lib.Run
import Qmk.Lib.Trace

/-!
# Deferred executors

A table of callbacks that are to be run at their trigger times.  A callback is code
that may change the table itself, so a pass of the task over the table is cut into
the looks at its entries and the returns of the callbacks, and whatever a callback
does comes in between.
-/

namespace Qmk.Deferred

abbrev Token := BitVec 8

def invalidDeferredToken : Token := 0

/-- A callback is one with its argument; times are sums that have not been wrapped
yet, as it is only differences modulo `2 ^ 32` that the code looks at. -/
structure Entry (κ : Type _) where
  token : Token := invalidDeferredToken
  triggerTime : Nat := 0
  callback : Option κ := none

inductive Event (κ : Type _)
  | deferred (token : Token) (triggerTime : Nat) (callback : κ)
  | extended (token : Token) (triggerTime : Nat)
  | cancelled (token : Token)
  | ran (token : Token) (callback : Option κ) (triggerTime now : Nat)
  | returned (token : Token) (delay : Nat)

/-- Where the processor is: outside of the task, in its loop, or in a callback. -/
inductive Phase
  | idle
  | scanning (now i : Nat)
  | calling (now i : Nat) (currToken : Token)
  deriving DecidableEq

structure State (κ : Type _) where
  table : Nat → Entry κ
  currentToken : Token
  lastExecutionTime : BitVec 32
  clock : Nat
  phase : Phase
  trace : List (Event κ)

def State.init {κ : Type _} (currentToken : Token) (lastExecutionTime : BitVec 32)
    (clock : Nat) : State κ where
  table _ := {}
  currentToken := currentToken
  lastExecutionTime := lastExecutionTime
  clock := clock
  phase := .idle
  trace := []

section Functions

variable {κ : Type _} (count : Nat)

/-- `TIMER_DIFF_32` as an `int32_t`. -/
def timerDiff (a b : BitVec 32) : Int := (a - b).toInt

/-- The first entry with the token. -/
def findToken (table : Nat → Entry κ) (token : Token) : Option Nat :=
  (List.range count).find? fun i => (table i).token = token

def tokenCanBeUsed (table : Nat → Entry κ) (token : Token) : Bool :=
  token ≠ invalidDeferredToken && (findToken count table token).isNone

/-- The loop of `allocate_token`, which is back at `first` after 256 rounds: the token
and `current_token`. -/
def allocateLoop (usable : Token → Bool) (first : Token) : Nat → Token → Token × Token
  | 0, current => (invalidDeferredToken, current)
  | fuel + 1, current =>
      if usable current then
        (current, current)
      else if current + 1 = first then
        (invalidDeferredToken, current + 1)
      else
        allocateLoop usable first fuel (current + 1)

def allocateToken (s : State κ) : Token × Token :=
  let first := s.currentToken + 1
  allocateLoop (tokenCanBeUsed count s.table) first 256 first

def State.setEntry (s : State κ) (i : Nat) (entry : Entry κ) : State κ :=
  { s with table := Function.update s.table i entry }

def State.log (s : State κ) (event : Event κ) : State κ :=
  { s with trace := event :: s.trace }

def deferExecAdvanced (delayMs : BitVec 32) (callback : Option κ) (s : State κ) :
    Token × State κ :=
  match callback with
  | none => (invalidDeferredToken, s)
  | some cb =>
      if count = 0 ∨ delayMs = 0 then
        (invalidDeferredToken, s)
      else
        match findToken count s.table invalidDeferredToken with
        | none => (invalidDeferredToken, s)
        | some i =>
            let allocated := allocateToken count s
            let s := { s with currentToken := allocated.2 }
            if allocated.1 = invalidDeferredToken then
              (invalidDeferredToken, s)
            else
              let triggerTime := s.clock + delayMs.toNat
              let entry := ⟨allocated.2, triggerTime, some cb⟩
              (allocated.2, (s.setEntry i entry).log (.deferred allocated.2 triggerTime cb))

def extendDeferredExecAdvanced (token : Token) (delayMs : BitVec 32) (s : State κ) :
    Bool × State κ :=
  if count = 0 ∨ delayMs = 0 ∨ token = invalidDeferredToken then
    (false, s)
  else
    match findToken count s.table token with
    | none => (false, s)
    | some i =>
        let triggerTime := s.clock + delayMs.toNat
        let entry := { s.table i with triggerTime := triggerTime }
        (true, (s.setEntry i entry).log (.extended token triggerTime))

def cancelDeferredExecAdvanced (token : Token) (s : State κ) : Bool × State κ :=
  if count = 0 ∨ token = invalidDeferredToken then
    (false, s)
  else
    match findToken count s.table token with
    | none => (false, s)
    | some i => (true, (s.setEntry i {}).log (.cancelled token))

/-! ## `deferred_exec_advanced_task` -/

/-- The task is entered, at most once per millisecond. -/
def enterTask (s : State κ) : State κ :=
  let now := BitVec.ofNat 32 s.clock
  if 0 < timerDiff now s.lastExecutionTime then
    { s with lastExecutionTime := now, phase := .scanning s.clock 0 }
  else s

/-- The loop looks at an entry, and calls its callback if it is due. -/
def lookAt (now i : Nat) (s : State κ) : State κ :=
  if i < count then
    let entry := s.table i
    if entry.token ≠ invalidDeferredToken ∧
        timerDiff (BitVec.ofNat 32 entry.triggerTime) (BitVec.ofNat 32 now) ≤ 0 then
      { s with phase := .calling now i entry.token }.log
        (.ran entry.token entry.callback entry.triggerTime now)
    else
      { s with phase := .scanning now (i + 1) }
  else
    { s with phase := .idle }

/-- The callback returns. -/
def callbackReturns (now i : Nat) (currToken : Token) (delayMs : BitVec 32)
    (s : State κ) : State κ :=
  let s := { s with phase := .scanning now (i + 1) }.log
    (.returned currToken delayMs.toNat)
  let entry := s.table i
  if entry.token ≠ currToken then
    s
  else if 0 < delayMs.toNat then
    s.setEntry i { entry with triggerTime := entry.triggerTime + delayMs.toNat }
  else
    s.setEntry i {}

/-- What happens next: time passes, another table uses up tokens, code outside of the
task or in a callback calls a function, or the task goes on. -/
inductive Input (κ : Type _)
  | elapse (ms : Nat)
  | otherTable (currentToken : Token)
  | defer (delayMs : BitVec 32) (callback : Option κ)
  | extend (token : Token) (delayMs : BitVec 32)
  | cancel (token : Token)
  | task
  | look
  | ret (delayMs : BitVec 32)

def Phase.runsCode : Phase → Bool
  | .scanning _ _ => false
  | _ => true

/-- An input that does not fit the phase changes nothing. -/
def State.step (s : State κ) : Input κ → State κ
  | .elapse ms => { s with clock := s.clock + ms }
  | .otherTable currentToken => { s with currentToken := currentToken }
  | .defer delayMs callback =>
      if s.phase.runsCode then (deferExecAdvanced count delayMs callback s).2 else s
  | .extend token delayMs =>
      if s.phase.runsCode then (extendDeferredExecAdvanced count token delayMs s).2 else s
  | .cancel token =>
      if s.phase.runsCode then (cancelDeferredExecAdvanced count token s).2 else s
  | .task => if s.phase = .idle then enterTask s else s
  | .look =>
      match s.phase with
      | .scanning now i => lookAt count now i s
      | _ => s
  | .ret delayMs =>
      match s.phase with
      | .calling now i currToken => callbackReturns now i currToken delayMs s
      | _ => s

end Functions

/-! ## What each step does -/

section Cases

variable {κ : Type _} {count : Nat}

theorem findToken_some {table : Nat → Entry κ} {token : Token} {i : Nat}
    (h : findToken count table token = some i) : i < count ∧ (table i).token = token :=
  ⟨List.mem_range.mp (List.mem_of_find?_eq_some h), by simpa using List.find?_some h⟩

theorem findToken_none {table : Nat → Entry κ} {token : Token}
    (h : findToken count table token = none) :
    ∀ i < count, (table i).token ≠ token := by
  intro i hi
  simpa using List.find?_eq_none.mp h i (List.mem_range.mpr hi)

theorem allocateLoop_usable {usable : Token → Bool} {first : Token} {fuel : Nat}
    {current : Token}
    (h : (allocateLoop usable first fuel current).1 ≠ invalidDeferredToken) :
    usable (allocateLoop usable first fuel current).2 = true := by
  induction fuel generalizing current with
  | zero => exact absurd rfl h
  | succ fuel ih =>
      rw [allocateLoop] at h ⊢
      split at h
      · rename_i husable
        rw [if_pos husable]
        exact husable
      · rename_i husable
        rw [if_neg husable]
        split at h
        · exact absurd rfl h
        · rename_i hwrap
          rw [if_neg hwrap]
          exact ih h

/-- What a call of `defer_exec_advanced` did to the table. -/
inductive DeferCases (count : Nat) (delayMs : BitVec 32) (s : State κ) : State κ → Prop
  | refused (currentToken : Token) :
      DeferCases count delayMs s { s with currentToken := currentToken }
  | stored (i : Nat) (token : Token) (cb : κ) (hi : i < count)
      (free : (s.table i).token = invalidDeferredToken)
      (valid : token ≠ invalidDeferredToken)
      (fresh : ∀ j < count, (s.table j).token ≠ token) :
      DeferCases count delayMs s
        (({ s with currentToken := token }.setEntry i
          ⟨token, s.clock + delayMs.toNat, some cb⟩).log
          (.deferred token (s.clock + delayMs.toNat) cb))

theorem deferExecAdvanced_cases (delayMs : BitVec 32) (callback : Option κ)
    (s : State κ) :
    DeferCases count delayMs s (deferExecAdvanced count delayMs callback s).2 := by
  cases callback with
  | none => exact .refused s.currentToken
  | some cb =>
      simp only [deferExecAdvanced]
      split
      · exact .refused s.currentToken
      · cases hfree : findToken count s.table invalidDeferredToken with
        | none => exact .refused s.currentToken
        | some i =>
            obtain ⟨hi, htoken⟩ := findToken_some hfree
            simp only
            split
            · exact .refused _
            · rename_i hvalid
              have husable := allocateLoop_usable hvalid
              simp only [tokenCanBeUsed, Bool.and_eq_true, decide_eq_true_eq,
                Option.isNone_iff_eq_none] at husable
              exact .stored i _ cb hi htoken husable.1 (findToken_none husable.2)

theorem callbackReturns_eq (now i : Nat) (currToken : Token) (delayMs : BitVec 32)
    (s : State κ) :
    callbackReturns now i currToken delayMs s =
      if (s.table i).token ≠ currToken then
        { s with phase := .scanning now (i + 1) }.log (.returned currToken delayMs.toNat)
      else if 0 < delayMs.toNat then
        ({ s with phase := .scanning now (i + 1) }.setEntry i
          { s.table i with triggerTime := (s.table i).triggerTime + delayMs.toNat }).log
            (.returned currToken delayMs.toNat)
      else
        ({ s with phase := .scanning now (i + 1) }.setEntry i {}).log
          (.returned currToken delayMs.toNat) :=
  rfl

end Cases

end Qmk.Deferred
