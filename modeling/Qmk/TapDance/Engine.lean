import Mathlib.Algebra.Group.Nat.Defs
import Mathlib.Logic.Function.Basic
import Qmk.Lib.Run
import Qmk.Lib.Trace

/-!
# Tap dances

The engine of `process_tap_dance.c`.  The callbacks of a dance are calls that the trace
records; what they do to the dance itself is to finish it, which is an input.
-/

namespace Qmk.TapDance

structure Config where
  /-- `tap_dance_count()`. -/
  tapDanceCount : Nat
  /-- `TAP_DANCE_MAX_SIMULTANEOUS`. -/
  maxSimultaneous : Nat
  /-- `GET_TAPPING_TERM`. -/
  getTappingTerm : Nat → Nat
  /-- The one key that produces the keycode of a dance. -/
  keyOf : Nat → Nat

def qkTapDance : Nat := 0x5700

/-- `TD(i)`. -/
def td (idx : Nat) : Nat := qkTapDance + idx % 256

/-- `QK_TAP_DANCE ... QK_TAP_DANCE_MAX`. -/
def isQkTapDance (keycode : Nat) : Prop := qkTapDance ≤ keycode ∧ keycode < qkTapDance + 256

instance (keycode : Nat) : Decidable (isQkTapDance keycode) :=
  inferInstanceAs (Decidable (_ ∧ _))

def qkTapDanceGetIndex (keycode : Nat) : Nat := keycode % 256

/-- `tap_dance_state_t`, less the modifiers of its last tap. -/
structure TapDanceState where
  interruptingKeycode : Nat
  count : BitVec 8
  pressed : Bool
  finished : Bool
  interrupted : Bool
  inUse : Bool
  index : Nat

def TapDanceState.zero : TapDanceState := ⟨0, 0, false, false, false, false, 0⟩

/-- The calls of the callbacks; `finishes` is whether the callback sets
`state->finished`. -/
inductive Event
  | onEachTap (idx : Nat) (finishes : Bool)
  | onEachRelease (idx : Nat) (finishes : Bool)
  | onDanceFinished (idx : Nat)
  | onReset (idx : Nat)
  deriving DecidableEq

structure State where
  activeTd : Nat
  tapDanceStates : Nat → TapDanceState
  lastTapTime : BitVec 16
  /-- The keycode with which each key that is down was processed. -/
  held : Nat → Option Nat
  /-- Last event first. -/
  trace : List Event

def State.initial : State where
  activeTd := 0
  tapDanceStates _ := .zero
  lastTapTime := 0
  held _ := none
  trace := []

variable (cfg : Config)

def State.setState (s : State) (i : Nat) (state : TapDanceState) : State :=
  { s with tapDanceStates := Function.update s.tapDanceStates i state }

def State.log (s : State) (event : Event) : State :=
  { s with trace := event :: s.trace }

/-- The state already used for the dance. -/
def findState (s : State) (idx : Nat) : Option Nat :=
  (List.range cfg.maxSimultaneous).find? fun i =>
    (s.tapDanceStates i).inUse = true ∧ (s.tapDanceStates i).index = idx

/-- The first available state. -/
def freeState (s : State) : Option Nat :=
  (List.range cfg.maxSimultaneous).find? fun i => (s.tapDanceStates i).inUse = false

def tapDanceGetOrAllocateState (idx : Nat) (allocate : Bool) (s : State) :
    Option (Nat × State) :=
  if cfg.tapDanceCount ≤ idx then none
  else
    match findState cfg s idx with
    | some i => some (i, s)
    | none =>
        if allocate = false then none
        else
          match freeState cfg s with
          | some i =>
              some (i, s.setState i { s.tapDanceStates i with index := idx, inUse := true })
          | none => none

def tapDanceGetState (s : State) (idx : Nat) : Option Nat :=
  if cfg.tapDanceCount ≤ idx then none else findState cfg s idx

def processOnEachTap (i : Nat) (finishes : Bool) (s : State) : State :=
  let state := s.tapDanceStates i
  (s.setState i { state with count := state.count + 1, finished := state.finished || finishes }).log
    (.onEachTap state.index finishes)

def processOnEachRelease (i : Nat) (finishes : Bool) (s : State) : State :=
  let state := s.tapDanceStates i
  (s.setState i { state with finished := state.finished || finishes }).log
    (.onEachRelease state.index finishes)

def processOnReset (i : Nat) (s : State) : State :=
  (s.log (.onReset (s.tapDanceStates i).index)).setState i .zero

def processOnDanceFinished (i : Nat) (s : State) : State :=
  let state := s.tapDanceStates i
  let s :=
    if state.finished = false then
      (s.setState i { state with finished := true }).log (.onDanceFinished state.index)
    else s
  let s := { s with activeTd := 0 }
  if state.pressed = false then processOnReset i s else s

/-- For a press; a release is left alone.  Whether the keycode is to be looked up again,
and the state. -/
def preprocessTapDance (keycode : Nat) (s : State) : Bool × State :=
  if s.activeTd = 0 ∨ keycode = s.activeTd then (false, s)
  else
    match tapDanceGetState cfg s (qkTapDanceGetIndex s.activeTd) with
    | none => (false, s)
    | some i =>
        let state := s.tapDanceStates i
        (true, processOnDanceFinished i
          (s.setState i { state with interrupted := true, interruptingKeycode := keycode }))

/-- `state->pressed = record->event.pressed`. -/
def setPressed (i : Nat) (pressed : Bool) (s : State) : State :=
  s.setState i { s.tapDanceStates i with pressed }

def processTapDance (keycode : Nat) (pressed : Bool) (now : Nat) (finishes : Bool)
    (s : State) : State :=
  if isQkTapDance keycode then
    match tapDanceGetOrAllocateState cfg (qkTapDanceGetIndex keycode) pressed s with
    | none => s
    | some (i, s) =>
        let s := setPressed i pressed s
        if pressed = true then
          let s := processOnEachTap i finishes { s with lastTapTime := BitVec.ofNat 16 now }
          { s with activeTd := if (s.tapDanceStates i).finished = true then 0 else keycode }
        else
          let s := processOnEachRelease i finishes s
          if (s.tapDanceStates i).finished = true then
            let s := processOnReset i s
            { s with activeTd := if s.activeTd = keycode then 0 else s.activeTd }
          else s
  else s

/-- `timer_elapsed(last_tap_time)`. -/
def State.elapsed (s : State) (now : Nat) : Nat := (BitVec.ofNat 16 now - s.lastTapTime).toNat

def tapDanceTask (now : Nat) (s : State) : State :=
  if s.activeTd = 0 ∨ s.elapsed now ≤ cfg.getTappingTerm s.activeTd then s
  else
    match tapDanceGetState cfg s (qkTapDanceGetIndex s.activeTd) with
    | none => s
    | some i =>
        if (s.tapDanceStates i).interrupted = false then processOnDanceFinished i s else s

/-! ## Key events -/

inductive Input
  /-- The key has the keycode `keycode`, or `again` where it is looked up again. -/
  | press (key keycode again now : Nat) (finishes : Bool)
  /-- The key is released with the keycode of its press. -/
  | release (key now : Nat) (finishes : Bool)
  | task (now : Nat)

def pressKey (key keycode again now : Nat) (finishes : Bool) (s : State) : State :=
  let looked := preprocessTapDance cfg keycode s
  let keycode := if looked.1 = true then again else keycode
  let s := processTapDance cfg keycode true now finishes looked.2
  { s with held := Function.update s.held key (some keycode) }

def releaseKey (key now : Nat) (finishes : Bool) (s : State) : State :=
  match s.held key with
  | none => s
  | some keycode =>
      let s := processTapDance cfg keycode false now finishes s
      { s with held := Function.update s.held key none }

def step (s : State) : Input → State
  | .press key keycode again now finishes => pressKey cfg key keycode again now finishes s
  | .release key now finishes => releaseKey cfg key now finishes s
  | .task now => tapDanceTask cfg now s

end Qmk.TapDance
