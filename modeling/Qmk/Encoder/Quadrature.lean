import Mathlib.Algebra.Order.Group.Int
import Mathlib.Logic.Function.Basic
import Mathlib.Tactic.Ring
import Qmk.Encoder.Queue
import Qmk.Lib.Run

/-!
# The quadrature driver

`encoder_quadrature.c` without `ENCODER_DEFAULT_POS`: the pin states of an encoder are turned into
pulses by a table of transitions, and the pulses into events.  The pulses of all transitions are
the events, times the resolution, and the pulses that are left.
-/

namespace Qmk.Encoder.Quadrature

open Qmk.Lib

/-- The encoders of this side. -/
structure Pads where
  thisCount : Nat
  thisHand : Nat
  /-- An event has seven bits for its index. -/
  index_le : thisHand + thisCount ≤ 128
  resolution : Fin thisCount → BitVec 8
  /-- `ENCODER_COUNTER_CLOCKWISE`, which `ENCODER_DIRECTION_FLIP` turns round. -/
  counterClockwise : Bool

structure State (cfg : Config) (pads : Pads) where
  encoderState : Fin pads.thisCount → BitVec 8
  encoderPulses : Fin pads.thisCount → BitVec 8
  encoderEvents : EncoderEvents cfg
  /-- All events that were queued. -/
  queued : List EncoderEvent

def encoderLut : List (BitVec 8) := [0, -1, 1, 0, 1, 0, 0, -1, -1, 0, 0, 1, 0, 1, -1, 0]

/-- `encoder_LUT[state & 0xF]`. -/
def lookUp (state : BitVec 8) : BitVec 8 := encoderLut.getD (state &&& 0xf#8).toNat 0

variable {cfg : Config} {pads : Pads}

def Pads.index (pads : Pads) (i : Fin pads.thisCount) : BitVec 7 :=
  BitVec.ofNat 7 (pads.thisHand + i)

def encoderQueueEvent (index : BitVec 7) (clockwise : Bool) (s : State cfg pads) :
    State cfg pads :=
  match encoderQueueEventAdvanced s.encoderEvents ⟨index, clockwise⟩ with
  | none => s
  | some events =>
      { s with encoderEvents := events, queued := s.queued ++ [⟨index, clockwise⟩] }

def State.setPulses (s : State cfg pads) (i : Fin pads.thisCount) (pulses : BitVec 8) :
    State cfg pads :=
  { s with encoderPulses := Function.update s.encoderPulses i pulses }

def State.setState (s : State cfg pads) (i : Fin pads.thisCount) (state : BitVec 8) :
    State cfg pads :=
  { s with encoderState := Function.update s.encoderState i state }

def encoderHandleStateChange (i : Fin pads.thisCount) (state : BitVec 8) (s : State cfg pads) :
    State cfg pads :=
  let resolution : Int := (pads.resolution i).toNat
  let s := s.setPulses i (s.encoderPulses i + lookUp state)
  let s :=
    if (s.encoderPulses i).toInt ≥ resolution then
      encoderQueueEvent (pads.index i) pads.counterClockwise s
    else s
  let s :=
    if (s.encoderPulses i).toInt ≤ -resolution then
      encoderQueueEvent (pads.index i) (!pads.counterClockwise) s
    else s
  s.setPulses i (BitVec.ofInt 8 ((s.encoderPulses i).toInt.tmod resolution))

/-- `encoder_quadrature_handle_read`, where `pins` is `pin_a_state | (pin_b_state << 1)`. -/
def encoderQuadratureHandleRead (i : Fin pads.thisCount) (pins : BitVec 2)
    (s : State cfg pads) : State cfg pads :=
  let state := pins.setWidth 8
  if s.encoderState i &&& 0x3#8 ≠ state then
    let encoderState := (s.encoderState i <<< 2) ||| state
    encoderHandleStateChange i encoderState (s.setState i encoderState)
  else s

/-- What happens to the encoders and to their queue. -/
inductive Input (pads : Pads) where
  | read (i : Fin pads.thisCount) (pins : BitVec 2)
  | dequeue
  | drain

def step (s : State cfg pads) : Input pads → State cfg pads
  | .read i pins => encoderQuadratureHandleRead i pins s
  | .dequeue =>
      match encoderDequeueEventAdvanced s.encoderEvents with
      | none => s
      | some (_, events) => { s with encoderEvents := events }
  | .drain => { s with encoderEvents := encoderQueueDrain s.encoderEvents }

/-- After `encoder_quadrature_post_init`. -/
def State.init (cfg : Config) (start : Fin pads.thisCount → BitVec 2) : State cfg pads where
  encoderState i := (start i).setWidth 8
  encoderPulses _ := 0
  encoderEvents := .zero cfg
  queued := []

/-! ## Rotations -/

/-- The increment of a transition. -/
def increment (before after : BitVec 2) : Int :=
  (lookUp (BitVec.setWidth 8 (before ++ after))).toInt

/-- The increments of all transitions from `start` on. -/
def travel (start : BitVec 2) : List (BitVec 2) → Int
  | [] => 0
  | pins :: rest => increment start pins + travel pins rest

/-- The last pin state. -/
def arrival (start : BitVec 2) : List (BitVec 2) → BitVec 2
  | [] => start
  | pins :: rest => arrival pins rest

theorem travel_append (start : BitVec 2) (first second : List (BitVec 2)) :
    travel start (first ++ second) = travel start first + travel (arrival start first) second := by
  induction first generalizing start with
  | nil => exact (Int.zero_add _).symm
  | cons pins first ih => rw [List.cons_append, travel, travel, ih, arrival, Int.add_assoc]

theorem arrival_append (start : BitVec 2) (first second : List (BitVec 2)) :
    arrival start (first ++ second) = arrival (arrival start first) second := by
  induction first generalizing start with
  | nil => rfl
  | cons pins first ih => exact ih pins

theorem increment_swap (before after : BitVec 2) :
    increment after before = -increment before after := by
  revert before after
  decide

theorem increment_bounds (before after : BitVec 2) :
    -1 ≤ increment before after ∧ increment before after ≤ 1 := by
  revert before after
  decide

theorem increment_self (pins : BitVec 2) : increment pins pins = 0 := by
  revert pins
  decide

/-- The pin states of a rotation, back to where it started. -/
def back (start : BitVec 2) : List (BitVec 2) → List (BitVec 2)
  | [] => []
  | pins :: rest => back pins rest ++ [start]

theorem arrival_back (start : BitVec 2) (forth : List (BitVec 2)) :
    arrival (arrival start forth) (back start forth) = start := by
  cases forth with
  | nil => rfl
  | cons pins rest => rw [back, arrival_append]; rfl

theorem travel_back (start : BitVec 2) (forth : List (BitVec 2)) :
    travel (arrival start forth) (back start forth) = -travel start forth := by
  induction forth generalizing start with
  | nil => rfl
  | cons pins rest ih =>
      have hreturn : arrival (arrival pins rest) (back pins rest) = pins := arrival_back pins rest
      rw [arrival, back, travel_append, ih, hreturn, travel, travel, travel, increment_swap]
      ring

/-! ## Conservation -/

/-- The events that were queued, counted in the direction of the increments. -/
def State.turns (s : State cfg pads) (i : Fin pads.thisCount) : Int :=
  s.queued.count ⟨pads.index i, pads.counterClockwise⟩ -
    s.queued.count ⟨pads.index i, !pads.counterClockwise⟩

/-- The increments of an encoder add up to `sum`, and its pins were read last as `pins`. -/
structure Conserved (i : Fin pads.thisCount) (pins : BitVec 2) (sum : Int)
    (s : State cfg pads) : Prop where
  pins : s.encoderState i &&& 0x3#8 = pins.setWidth 8
  sum : sum = (pads.resolution i).toNat * s.turns i + (s.encoderPulses i).toInt
  pulses : (s.encoderPulses i).toInt.natAbs < (pads.resolution i).toNat

def NotFull (s : State cfg pads) (_ : Input pads) : Prop :=
  encoderQueueFullAdvanced s.encoderEvents = false

theorem index_injective {i j : Fin pads.thisCount} (h : pads.index i = pads.index j) : i = j := by
  have hle := pads.index_le
  have hi := i.isLt
  have hj := j.isLt
  have hnat := congrArg BitVec.toNat h
  rw [Pads.index, Pads.index, BitVec.toNat_ofNat, BitVec.toNat_ofNat,
    Nat.mod_eq_of_lt (by omega), Nat.mod_eq_of_lt (by omega)] at hnat
  exact Fin.ext (by omega)

theorem queueEvent_frame (s : State cfg pads) (i : Fin pads.thisCount) (clockwise : Bool) :
    let t := encoderQueueEvent (pads.index i) clockwise s
    t.encoderState = s.encoderState ∧ t.encoderPulses = s.encoderPulses ∧
      ∀ j ≠ i, t.turns j = s.turns j := by
  unfold encoderQueueEvent
  split
  · exact ⟨rfl, rfl, fun _ _ => rfl⟩
  · refine ⟨rfl, rfl, fun j hj => ?_⟩
    have hindex : ¬ pads.index i = pads.index j := fun h => hj (index_injective h).symm
    simp [State.turns, hindex]

theorem queueEvent_turns {s : State cfg pads}
    (hroom : encoderQueueFullAdvanced s.encoderEvents = false) (i : Fin pads.thisCount)
    (clockwise : Bool) :
    (encoderQueueEvent (pads.index i) clockwise s).turns i =
      s.turns i + if clockwise = pads.counterClockwise then 1 else -1 := by
  have hqueued : (encoderQueueEvent (pads.index i) clockwise s).queued =
      s.queued ++ [⟨pads.index i, clockwise⟩] := by
    unfold encoderQueueEvent encoderQueueEventAdvanced
    rw [if_neg (by rw [hroom]; exact Bool.false_ne_true)]
  unfold State.turns
  rw [hqueued]
  simp only [List.count_append, List.count_singleton, beq_iff_eq, EncoderEvent.mk.injEq]
  cases clockwise <;> cases hflip : pads.counterClockwise <;> simp <;> omega

@[simp] theorem setPulses_turns (s : State cfg pads) (i j : Fin pads.thisCount)
    (pulses : BitVec 8) : (s.setPulses i pulses).turns j = s.turns j := rfl

@[simp] theorem setPulses_state (s : State cfg pads) (i : Fin pads.thisCount)
    (pulses : BitVec 8) : (s.setPulses i pulses).encoderState = s.encoderState := rfl

@[simp] theorem setState_turns (s : State cfg pads) (i j : Fin pads.thisCount)
    (state : BitVec 8) : (s.setState i state).turns j = s.turns j := rfl

@[simp] theorem setState_pulses (s : State cfg pads) (i : Fin pads.thisCount)
    (state : BitVec 8) : (s.setState i state).encoderPulses = s.encoderPulses := rfl

@[simp] theorem setState_self (s : State cfg pads) (i : Fin pads.thisCount)
    (state : BitVec 8) : (s.setState i state).encoderState i = state := by
  simp [State.setState]

@[simp] theorem setState_of_ne (s : State cfg pads) {i j : Fin pads.thisCount} (h : j ≠ i)
    (state : BitVec 8) : (s.setState i state).encoderState j = s.encoderState j := by
  simp [State.setState, h]

@[simp] theorem setPulses_self (s : State cfg pads) (i : Fin pads.thisCount)
    (pulses : BitVec 8) : (s.setPulses i pulses).encoderPulses i = pulses := by
  simp [State.setPulses]

@[simp] theorem setPulses_of_ne (s : State cfg pads) {i j : Fin pads.thisCount} (h : j ≠ i)
    (pulses : BitVec 8) : (s.setPulses i pulses).encoderPulses j = s.encoderPulses j := by
  simp [State.setPulses, h]

theorem toInt_add_pulse {pulses pulse : BitVec 8} {resolution : Nat}
    (hpulses : pulses.toInt.natAbs < resolution) (hresolution : resolution ≤ 127)
    (hpulse : -1 ≤ pulse.toInt ∧ pulse.toInt ≤ 1) :
    (pulses + pulse).toInt = pulses.toInt + pulse.toInt := by
  rw [BitVec.toInt_add]
  exact Int.bmod_eq_of_le (by omega) (by omega)

theorem tmod_of_small {pulses : Int} {resolution : Nat} (h : pulses.natAbs < resolution) :
    pulses.tmod resolution = pulses := by
  rcases Int.le_total 0 pulses with hpositive | hnegative
  · exact Int.tmod_eq_of_lt hpositive (by omega)
  · have hneg : (-pulses).tmod resolution = -pulses :=
      Int.tmod_eq_of_lt (by omega) (by omega)
    rwa [Int.neg_tmod, Int.neg_inj] at hneg

theorem handleStateChange_frame (s : State cfg pads) (i : Fin pads.thisCount) (state : BitVec 8) :
    let t := encoderHandleStateChange i state s
    t.encoderState = s.encoderState ∧
      ∀ j ≠ i, t.encoderPulses j = s.encoderPulses j ∧ t.turns j = s.turns j := by
  have hqueue : ∀ (t : State cfg pads) (P : Prop) [Decidable P] (clockwise : Bool),
      let u := if P then encoderQueueEvent (pads.index i) clockwise t else t
      u.encoderState = t.encoderState ∧ u.encoderPulses = t.encoderPulses ∧
        ∀ j ≠ i, u.turns j = t.turns j := by
    intro t P _ clockwise
    dsimp only
    split
    · exact queueEvent_frame t i clockwise
    · exact ⟨rfl, rfl, fun _ _ => rfl⟩
  let resolution : Int := (pads.resolution i).toNat
  let t := s.setPulses i (s.encoderPulses i + lookUp state)
  let u :=
    if (t.encoderPulses i).toInt ≥ resolution then
      encoderQueueEvent (pads.index i) pads.counterClockwise t
    else t
  let v :=
    if (u.encoderPulses i).toInt ≤ -resolution then
      encoderQueueEvent (pads.index i) (!pads.counterClockwise) u
    else u
  have heq : encoderHandleStateChange i state s =
      v.setPulses i (BitVec.ofInt 8 ((v.encoderPulses i).toInt.tmod resolution)) := rfl
  obtain ⟨hstate, hpulses, hturns⟩ : u.encoderState = t.encoderState ∧
      u.encoderPulses = t.encoderPulses ∧ ∀ j ≠ i, u.turns j = t.turns j := hqueue t _ _
  obtain ⟨hstate', hpulses', hturns'⟩ : v.encoderState = u.encoderState ∧
      v.encoderPulses = u.encoderPulses ∧ ∀ j ≠ i, v.turns j = u.turns j := hqueue u _ _
  rw [heq]
  refine ⟨hstate'.trans hstate, fun j hj => ⟨?_, (hturns' j hj).trans (hturns j hj)⟩⟩
  rw [setPulses_of_ne v hj, hpulses', hpulses]
  exact setPulses_of_ne s hj _

/-- Either there is no event and the pulse is kept, or an event takes all pulses. -/
theorem handleStateChange_cases {s : State cfg pads}
    (hroom : encoderQueueFullAdvanced s.encoderEvents = false) {i : Fin pads.thisCount}
    (hpos : 1 ≤ (pads.resolution i).toNat) (hle : (pads.resolution i).toNat ≤ 127)
    (hpulses : (s.encoderPulses i).toInt.natAbs < (pads.resolution i).toNat) (state : BitVec 8)
    (hpulse : -1 ≤ (lookUp state).toInt ∧ (lookUp state).toInt ≤ 1) :
    let t := encoderHandleStateChange i state s
    (t.encoderPulses i).toInt.natAbs < (pads.resolution i).toNat ∧
      (pads.resolution i).toNat * t.turns i + (t.encoderPulses i).toInt =
        (pads.resolution i).toNat * s.turns i + (s.encoderPulses i).toInt +
          (lookUp state).toInt := by
  have hadd := toInt_add_pulse hpulses hle hpulse
  generalize hresolution : (pads.resolution i).toNat = resolution at *
  generalize hafter : s.encoderPulses i + lookUp state = after at *
  have hfits : ∀ pulses : Int, pulses.natAbs < resolution →
      (BitVec.ofInt 8 pulses).toInt = pulses := by
    intro pulses hbound
    rw [BitVec.toInt_ofInt]
    exact Int.bmod_eq_of_le (by omega) (by omega)
  rcases lt_trichotomy after.toInt.natAbs resolution with hless | hfull | hmore
  · -- No event: the remainder keeps the pulses.
    have hnot : ¬ after.toInt ≥ resolution := by omega
    have hnot' : ¬ after.toInt ≤ -resolution := by omega
    simp only [encoderHandleStateChange, hresolution, hafter, setPulses_self, if_neg hnot,
      if_neg hnot', tmod_of_small hless, setPulses_turns]
    refine ⟨?_, ?_⟩
    · rwa [hfits _ hless]
    · rw [hfits _ hless, hadd]
      omega
  · -- One event, which takes all pulses.
    have hevent : ∃ clockwise, encoderHandleStateChange i state s =
        (encoderQueueEvent (pads.index i) clockwise (s.setPulses i after)).setPulses i 0 ∧
        after.toInt = resolution * if clockwise = pads.counterClockwise then 1 else -1 := by
      have hkept := fun clockwise =>
        (queueEvent_frame (s.setPulses i after) i clockwise).2.1
      have hpulse : after.toInt = resolution ∨ after.toInt = -resolution := by omega
      rcases hpulse with hpulse | hpulse
      · have hreached : after.toInt ≥ resolution := by omega
        have hnot : ¬ after.toInt ≤ -resolution := by omega
        refine ⟨pads.counterClockwise, ?_, by simp [hpulse]⟩
        have hmod : after.toInt.tmod resolution = 0 := by rw [hpulse, Int.tmod_self]
        simp only [encoderHandleStateChange, hresolution, hafter, setPulses_self, if_pos hreached,
          hkept, if_neg hnot, hmod]
        rfl
      · have hreached : after.toInt ≤ -resolution := by omega
        have hnot : ¬ after.toInt ≥ resolution := by omega
        refine ⟨!pads.counterClockwise, ?_, by simp [hpulse]⟩
        have hmod : after.toInt.tmod resolution = 0 := by rw [hpulse, Int.neg_tmod_self]
        simp only [encoderHandleStateChange, hresolution, hafter, setPulses_self, if_pos hreached,
          hkept, if_neg hnot, hmod]
        rfl
    obtain ⟨clockwise, heq, hpulse⟩ := hevent
    have hturns := queueEvent_turns (s := s.setPulses i after) hroom i clockwise
    rw [heq]
    refine ⟨?_, ?_⟩
    · rw [setPulses_self]
      exact hpos
    · rw [setPulses_self, setPulses_turns, hturns, setPulses_turns, Int.mul_add, ← hpulse, hadd]
      simp
      omega
  · omega

/-! ## Runs -/

/-- What the reads of an encoder are. -/
def readsOf (i : Fin pads.thisCount) (inputs : List (Input pads)) : List (BitVec 2) :=
  inputs.filterMap fun
    | .read j pins => if j = i then some pins else none
    | _ => none

theorem setWidth_inj {before pins : BitVec 2} (h : before.setWidth 8 = pins.setWidth 8) :
    before = pins := by
  revert before pins
  decide

/-- The last four bits are the pins before a change and those after it. -/
theorem shift_pins {state : BitVec 8} {before pins : BitVec 2}
    (h : state &&& 0x3#8 = before.setWidth 8) :
    ((state <<< 2) ||| pins.setWidth 8) &&& 0xf#8 = BitVec.setWidth 8 (before ++ pins) ∧
      ((state <<< 2) ||| pins.setWidth 8) &&& 0x3#8 = pins.setWidth 8 := by
  revert state before pins
  decide +kernel

theorem low_pins (pins : BitVec 2) : pins.setWidth 8 &&& 0x3#8 = pins.setWidth 8 := by
  revert pins
  decide

theorem low_nibble (nibble : BitVec 4) :
    nibble.setWidth 8 &&& 0xf#8 = nibble.setWidth 8 := by
  revert nibble
  decide

theorem Conserved.read {s : State cfg pads} {i : Fin pads.thisCount} {before : BitVec 2} {sum : Int}
    (h : Conserved i before sum s) (hroom : encoderQueueFullAdvanced s.encoderEvents = false)
    (hle : (pads.resolution i).toNat ≤ 127) (pins : BitVec 2) :
    Conserved i pins (sum + increment before pins) (encoderQuadratureHandleRead i pins s) := by
  by_cases hchange : s.encoderState i &&& 0x3#8 ≠ pins.setWidth 8
  · obtain ⟨hlast, hpins⟩ := @shift_pins _ _ pins h.pins
    have hlookUp : lookUp ((s.encoderState i <<< 2) ||| pins.setWidth 8) =
        lookUp (BitVec.setWidth 8 (before ++ pins)) := by
      rw [lookUp, lookUp, hlast, low_nibble]
    have hpos : 1 ≤ (pads.resolution i).toNat := by
      have hpulses := h.pulses
      omega
    have hpulse := increment_bounds before pins
    rw [increment, ← hlookUp] at hpulse
    simp only [encoderQuadratureHandleRead, if_pos hchange]
    generalize hshifted : (s.encoderState i <<< 2) ||| pins.setWidth 8 = shifted at *
    have hstate := (handleStateChange_frame (s.setState i shifted) i shifted).1
    obtain ⟨hpulses, hsum⟩ := handleStateChange_cases (s := s.setState i shifted) hroom hpos hle
      h.pulses shifted hpulse
    refine ⟨?_, ?_, hpulses⟩
    · rw [hstate, setState_self]
      exact hpins
    · rw [hsum, increment, ← hlookUp, h.sum, setState_turns, setState_pulses]
  · obtain rfl : before = pins := setWidth_inj (by rw [← h.pins]; exact not_not.mp hchange)
    simp only [encoderQuadratureHandleRead, if_neg hchange]
    rw [increment_self, Int.add_zero]
    exact h

theorem Conserved.read_of_ne {s : State cfg pads} {i j : Fin pads.thisCount} (hne : i ≠ j)
    {before : BitVec 2} {sum : Int} (h : Conserved i before sum s) (pins : BitVec 2) :
    Conserved i before sum (encoderQuadratureHandleRead j pins s) := by
  by_cases hchange : s.encoderState j &&& 0x3#8 ≠ pins.setWidth 8
  · simp only [encoderQuadratureHandleRead, if_pos hchange]
    generalize (s.encoderState j <<< 2) ||| pins.setWidth 8 = shifted
    obtain ⟨hstate, hothers⟩ := handleStateChange_frame (s.setState j shifted) j shifted
    obtain ⟨hpulses, hturns⟩ := hothers i hne
    refine ⟨?_, ?_, ?_⟩
    · rw [hstate, setState_of_ne s hne, h.pins]
    · rw [hpulses, hturns, setState_turns, setState_pulses, h.sum]
    · rw [hpulses, setState_pulses]
      exact h.pulses
  · simp only [encoderQuadratureHandleRead, if_neg hchange]
    exact h

theorem conserved_step {s : State cfg pads} {i : Fin pads.thisCount} {before : BitVec 2} {sum : Int}
    (h : Conserved i before sum s) (hle : (pads.resolution i).toNat ≤ 127) (input : Input pads)
    (hroom : NotFull s input) :
    Conserved i (arrival before (readsOf i [input])) (sum + travel before (readsOf i [input]))
      (step s input) := by
  cases input with
  | read j pins =>
      by_cases hj : j = i
      · subst hj
        have hreads : readsOf j [.read j pins] = [pins] := by simp [readsOf]
        rw [hreads, arrival, arrival, travel, travel, Int.add_zero]
        exact h.read hroom hle pins
      · have hreads : readsOf i [.read j pins] = [] := by simp [readsOf, hj]
        rw [hreads, arrival, travel, Int.add_zero]
        exact h.read_of_ne (Ne.symm hj) pins
  | dequeue =>
      have hreads : readsOf i [Input.dequeue] = [] := rfl
      rw [hreads, arrival, travel, Int.add_zero, step]
      split
      · exact h
      · exact ⟨h.pins, h.sum, h.pulses⟩
  | drain =>
      have hreads : readsOf i [Input.drain] = [] := rfl
      rw [hreads, arrival, travel, Int.add_zero]
      exact ⟨h.pins, h.sum, h.pulses⟩

theorem conserved_run {s : State cfg pads} {i : Fin pads.thisCount} {before : BitVec 2} {sum : Int}
    (h : Conserved i before sum s) (hle : (pads.resolution i).toNat ≤ 127)
    {inputs : List (Input pads)} (hroom : Meets step NotFull s inputs) :
    Conserved i (arrival before (readsOf i inputs)) (sum + travel before (readsOf i inputs))
      (run step s inputs) := by
  induction inputs generalizing s before sum with
  | nil =>
      rw [readsOf, List.filterMap_nil, arrival, travel, Int.add_zero]
      exact h
  | cons input inputs ih =>
      have hreads : readsOf i (input :: inputs) = readsOf i [input] ++ readsOf i inputs := by
        rw [readsOf, readsOf, readsOf, ← List.filterMap_append]
        rfl
      rw [hreads, arrival_append, travel_append, ← Int.add_assoc]
      exact ih (conserved_step h hle input hroom.1) hroom.2

/-- The pulses of an encoder are conserved, and a rotation forth and back has as many events in one
direction as in the other one, up to one. -/
theorem quadrature_conserves (start : Fin pads.thisCount → BitVec 2) (i : Fin pads.thisCount)
    (hpos : 1 ≤ (pads.resolution i).toNat) (hle : (pads.resolution i).toNat ≤ 127)
    {inputs : List (Input pads)} (hroom : Meets step NotFull (.init cfg start) inputs) :
    let s := run step (.init cfg start) inputs
    travel (start i) (readsOf i inputs) =
        (pads.resolution i).toNat * s.turns i + (s.encoderPulses i).toInt ∧
      (s.encoderPulses i).toInt.natAbs < (pads.resolution i).toNat ∧
      ∀ forth backward : List (Input pads), Meets step NotFull s (forth ++ backward) →
        travel (arrival (start i) (readsOf i inputs)) (readsOf i (forth ++ backward)) = 0 →
        ((run step s (forth ++ backward)).turns i - s.turns i).natAbs ≤ 1 := by
  intro s
  have hinit : Conserved i (start i) 0 (State.init cfg start) := by
    refine ⟨?_, ?_, hpos⟩
    · exact low_pins (start i)
    · rfl
  have hconserved := conserved_run hinit hle hroom
  rw [Int.zero_add] at hconserved
  refine ⟨hconserved.sum, hconserved.pulses, fun forth backward hroom' hback => ?_⟩
  have hreturned := conserved_run hconserved hle hroom'
  have hsum := hreturned.sum
  rw [hback, Int.add_zero, hconserved.sum] at hsum
  change (pads.resolution i).toNat * s.turns i + (s.encoderPulses i).toInt = _ at hsum
  have hpulses : (s.encoderPulses i).toInt.natAbs < _ := hconserved.pulses
  have hpulses' : ((run step s (forth ++ backward)).encoderPulses i).toInt.natAbs < _ :=
    hreturned.pulses
  change _ = (pads.resolution i).toNat * (run step s (forth ++ backward)).turns i +
    ((run step s (forth ++ backward)).encoderPulses i).toInt at hsum
  generalize (run step s (forth ++ backward)).turns i = turns' at *
  generalize s.turns i = turns at *
  generalize (s.encoderPulses i).toInt = pulses at *
  generalize ((run step s (forth ++ backward)).encoderPulses i).toInt = pulses' at *
  have hproduct : ((pads.resolution i).toNat : Int) * (turns' - turns) =
      pulses - pulses' := by
    rw [Int.mul_sub]
    omega
  have habs := congrArg Int.natAbs hproduct
  rw [Int.natAbs_mul, Int.natAbs_natCast] at habs
  by_contra hmany
  have htwo : (pads.resolution i).toNat * 2 ≤
      (pads.resolution i).toNat * (turns' - turns).natAbs :=
    Nat.mul_le_mul_left _ (by omega)
  omega

/-- One encoder of four pulses an event. -/
def onePad : Pads where
  thisCount := 1
  thisHand := 0
  index_le := Nat.le_of_ble_eq_true rfl
  resolution _ := 4
  counterClockwise := false

def fourEvents : Config where
  maxQueued := 4
  maxQueued_pos := Nat.succ_pos 3
  forcedSyncThrottleMs := 100
  crc8 := crc8

def theEncoder : Fin onePad.thisCount := ⟨0, Nat.one_pos⟩

/-- Two detents and a bounce. -/
def twoDetents : List (Input onePad) :=
  ([2, 3, 2, 3, 1, 0].map fun pins => .read theEncoder pins) ++ .dequeue ::
    [2, 3, 1, 0].map fun pins => .read theEncoder pins

theorem twoDetents_conserved :
    let s := run step (State.init fourEvents fun _ => 0) twoDetents
    travel 0 (readsOf theEncoder twoDetents) =
      (4 : Nat) * s.turns theEncoder + (s.encoderPulses theEncoder).toInt :=
  (@quadrature_conserves fourEvents _ (fun _ => 0) theEncoder (by decide)
    (by decide) twoDetents ⟨rfl, rfl, rfl, rfl, rfl, rfl, rfl, rfl, rfl, rfl, rfl, trivial⟩).1

end Qmk.Encoder.Quadrature
