import Mathlib.Tactic.SplitIfs
import Qmk.Deferred.Safety
import Qmk.Lib.Sweep

/-!
# Animations

The slots of `qp_draw_image.c` and the table of deferred executors that drives them.  The argument of
an executor is the number of its slot, and whether a frame can be drawn is given with the call.
-/

namespace Qmk.Painter.Animation

open Qmk.Lib
open Qmk.Deferred (Token Entry invalidDeferredToken timerDiff findToken deferExecAdvanced
  cancelDeferredExecAdvanced enterTask lookAt callbackReturns)

/-- `painter_image_handle_t`, with the delays of its frames. -/
structure Image where
  frameCount : BitVec 16
  delay : BitVec 16 → BitVec 16

/-- `animation_state_t`; a device that is not there is `NULL`. -/
structure AnimationState (δ : Type _) where
  device : Option δ
  image : Image
  frameNumber : BitVec 16
  deferToken : Token

structure State (δ : Type _) where
  animationStates : Nat → AnimationState δ
  animationExecutors : Deferred.State Nat

variable {δ : Type _}

def State.init (currentToken : Token) (lastAnimExec : BitVec 32) (clock : Nat) : State δ where
  animationStates := fun _ => ⟨none, ⟨0, fun _ => 0⟩, 0, invalidDeferredToken⟩
  animationExecutors := .init currentToken lastAnimExec clock

def State.setSlot (s : State δ) (slot : Nat) (state : AnimationState δ) : State δ :=
  { s with animationStates := Function.update s.animationStates slot state }

/-- The delay of the frame, if it is drawn. -/
def qpRenderAnimationState (ok : Bool) (state : AnimationState δ) :
    Option (BitVec 16) × AnimationState δ :=
  if ok && state.device.isSome then
    let next := state.frameNumber + 1
    (some (state.image.delay state.frameNumber), { state with
      frameNumber := if next ≥ state.image.frameCount then 0 else next })
  else (none, state)

def animationCallback (ok : Bool) (slot : Nat) (s : State δ) : BitVec 32 × State δ :=
  match qpRenderAnimationState ok (s.animationStates slot) with
  | (some delayMs, state) => (delayMs.setWidth 32, s.setSlot slot state)
  | (none, state) => (0, s.setSlot slot { state with device := none })

variable (count : Nat)

/-- The loops over the slots: the first one that meets the test. -/
def findSlot (test : AnimationState δ → Bool) (s : State δ) : Option Nat :=
  (List.range count).find? fun slot => test (s.animationStates slot)

def qpAnimateRecolor (device : Option δ) (image : Image) (ok : Bool) (s : State δ) :
    Token × State δ :=
  match findSlot count (·.device.isNone) s with
  | none => (invalidDeferredToken, s)
  | some slot =>
      let state := { s.animationStates slot with
        device := device, image := image, frameNumber := 0 }
      match qpRenderAnimationState ok state with
      | (none, state) => (invalidDeferredToken, s.setSlot slot { state with device := none })
      | (some delayMs, state) =>
          let (token, executors) :=
            deferExecAdvanced count (delayMs.setWidth 32) (some slot) s.animationExecutors
          let state := { state with deferToken := token }
          let s := { s with animationExecutors := executors }
          if token = invalidDeferredToken then
            (invalidDeferredToken, s.setSlot slot { state with device := none })
          else (token, s.setSlot slot state)

def qpStopAnimation (animToken : Token) (s : State δ) : State δ :=
  match findSlot count (·.deferToken = animToken) s with
  | none => s
  | some slot =>
      let s := { s with animationExecutors :=
        (cancelDeferredExecAdvanced count animToken s.animationExecutors).2 }
      s.setSlot slot { s.animationStates slot with device := none }

/-- The loop body of `deferred_exec_advanced_task`; `ok` says whether the callback of the entry can
draw. -/
def visit (ok : Nat → Bool) (now i : Nat) (s : State δ) : State δ :=
  let executors := lookAt count now i s.animationExecutors
  match executors.phase, (executors.table i).callback with
  | .calling _ _ currToken, some slot =>
      let (delayMs, s) := animationCallback (ok i) slot s
      { s with animationExecutors := callbackReturns now i currToken delayMs executors }
  | _, _ => { s with animationExecutors := executors }

def qpInternalAnimationTick (ok : Nat → Bool) (s : State δ) : State δ :=
  let executors := enterTask s.animationExecutors
  match executors.phase with
  | .scanning now _ =>
      let s := forRange count (visit count ok now) { s with animationExecutors := executors }
      { s with animationExecutors := lookAt count now count s.animationExecutors }
  | _ => s

/-- Time passes, and other tables take tokens of the common counter. -/
inductive Input (δ : Type _)
  | elapse (ms : Nat)
  | otherTable (currentToken : Token)
  | animate (device : Option δ) (image : Image) (ok : Bool)
  | stop (animToken : Token)
  | tick (ok : Nat → Bool)

def step (s : State δ) : Input δ → State δ
  | .elapse ms => { s with animationExecutors :=
      { s.animationExecutors with clock := s.animationExecutors.clock + ms } }
  | .otherTable currentToken => { s with animationExecutors :=
      { s.animationExecutors with currentToken := currentToken } }
  | .animate device image ok => (qpAnimateRecolor count device image ok s).2
  | .stop animToken => qpStopAnimation count animToken s
  | .tick ok => qpInternalAnimationTick count ok s

/-! ## The slots and the executors -/

/-- A live executor carries the slot. -/
def Carries (table : Nat → Entry Nat) (i slot : Nat) : Prop :=
  i < count ∧ (table i).token ≠ invalidDeferredToken ∧ (table i).callback = some slot

/-- A slot is occupied exactly when a live executor carries it. -/
def InStep (s : State δ) : Prop :=
  ∀ slot < count, (s.animationStates slot).device.isSome = true ↔
    ∃ i, Carries count s.animationExecutors.table i slot

/-- The token of a live executor frees its slot and stops its executor, and no others. -/
def StopsOne (s : State δ) : Prop :=
  ∀ i slot, Carries count s.animationExecutors.table i slot →
    let s' := qpStopAnimation count (s.animationExecutors.table i).token s
    (s'.animationStates slot).device = none ∧
      (∀ other, other ≠ slot → s'.animationStates other = s.animationStates other) ∧
      (s'.animationExecutors.table i).token = invalidDeferredToken ∧
      ∀ j, j ≠ i → s'.animationExecutors.table j = s.animationExecutors.table j

/-- The test of the task for an entry. -/
def Due (table : Nat → Entry Nat) (now i : Nat) : Prop :=
  (table i).token ≠ invalidDeferredToken ∧
    timerDiff (BitVec.ofNat 32 (table i).triggerTime) (BitVec.ofNat 32 now) ≤ 0

/-- The frame that the slot draws next has a delay. -/
def AnimationState.moves (state : AnimationState δ) : Prop :=
  state.image.delay state.frameNumber ≠ 0

/-- The callbacks from an entry on that are due at the time and can draw draw a frame that has a
delay. -/
def MovesFrom (first : Nat) (ok : Nat → Bool) (now : Nat) (s : State δ) : Prop :=
  ∀ i slot, first ≤ i → i < count → Due s.animationExecutors.table now i → ok i = true →
    (s.animationExecutors.table i).callback = some slot → (s.animationStates slot).moves

/-- No callback of a tick draws a frame without a delay. -/
def Moving (s : State δ) : Input δ → Prop
  | .tick ok =>
      0 < timerDiff (BitVec.ofNat 32 s.animationExecutors.clock)
        s.animationExecutors.lastExecutionTime →
          MovesFrom count 0 ok s.animationExecutors.clock s
  | _ => True

/-! ## The tables of executors -/

section Executors

variable {count : Nat} {κ : Type _}

theorem deferExecAdvanced_spec (delayMs : BitVec 32) (cb : κ) (e : Deferred.State κ) :
    (deferExecAdvanced count delayMs (some cb) e).2.phase = e.phase ∧
    (((deferExecAdvanced count delayMs (some cb) e).1 = invalidDeferredToken ∧
        (deferExecAdvanced count delayMs (some cb) e).2.table = e.table) ∨
      ∃ token i, (deferExecAdvanced count delayMs (some cb) e).1 = token ∧ i < count ∧
        (e.table i).token = invalidDeferredToken ∧ token ≠ invalidDeferredToken ∧
        (∀ j < count, (e.table j).token ≠ token) ∧
        (deferExecAdvanced count delayMs (some cb) e).2.table =
          Function.update e.table i ⟨token, e.clock + delayMs.toNat, some cb⟩) := by
  rw [deferExecAdvanced]
  by_cases hrefused : count = 0 ∨ delayMs = 0
  · rw [if_pos hrefused]
    exact ⟨rfl, .inl ⟨rfl, rfl⟩⟩
  rw [if_neg hrefused]
  cases hfree : findToken count e.table invalidDeferredToken with
  | none => exact ⟨rfl, .inl ⟨rfl, rfl⟩⟩
  | some i =>
      obtain ⟨hi, htoken⟩ := Deferred.findToken_some hfree
      simp only
      by_cases hvalid : (Deferred.allocateToken count e).1 = invalidDeferredToken
      · rw [if_pos hvalid]
        exact ⟨rfl, .inl ⟨rfl, rfl⟩⟩
      · rw [if_neg hvalid]
        have husable := Deferred.allocateLoop_usable hvalid
        simp only [Deferred.tokenCanBeUsed, Bool.and_eq_true, decide_eq_true_eq,
          Option.isNone_iff_eq_none] at husable
        exact ⟨rfl, .inr ⟨_, i, rfl, hi, htoken, husable.1, Deferred.findToken_none husable.2, rfl⟩⟩

theorem cancelDeferredExecAdvanced_phase (token : Token) (e : Deferred.State κ) :
    (cancelDeferredExecAdvanced count token e).2.phase = e.phase := by
  rw [cancelDeferredExecAdvanced]
  split_ifs
  · rfl
  · cases findToken count e.table token with
    | none => rfl
    | some i => rfl

theorem cancelDeferredExecAdvanced_live {e : Deferred.State κ} {i : Nat} (hi : i < count)
    (hvalid : (e.table i).token ≠ invalidDeferredToken)
    (hdistinct : ∀ j < count, (e.table j).token = (e.table i).token → j = i) :
    (cancelDeferredExecAdvanced count (e.table i).token e).2.table =
      Function.update e.table i {} := by
  have hgo : ¬(count = 0 ∨ (e.table i).token = invalidDeferredToken) :=
    not_or.mpr ⟨by omega, hvalid⟩
  rw [cancelDeferredExecAdvanced, if_neg hgo]
  cases hfind : findToken count e.table (e.table i).token with
  | none => exact absurd rfl (Deferred.findToken_none hfind i hi)
  | some j =>
      obtain ⟨hj, htoken⟩ := Deferred.findToken_some hfind
      rw [hdistinct j hj htoken]
      rfl

theorem cancelDeferredExecAdvanced_stale {e : Deferred.State κ} {token : Token}
    (hstale : ∀ i < count, (e.table i).token ≠ invalidDeferredToken →
      (e.table i).token ≠ token) :
    (cancelDeferredExecAdvanced count token e).2.table = e.table := by
  rw [cancelDeferredExecAdvanced]
  split_ifs with hrefused
  · rfl
  · cases hfind : findToken count e.table token with
    | none => rfl
    | some i =>
        obtain ⟨hi, htoken⟩ := Deferred.findToken_some hfind
        have hvalid : (e.table i).token ≠ invalidDeferredToken := by
          rw [htoken]
          exact (not_or.mp hrefused).2
        exact absurd htoken (hstale i hi hvalid)

end Executors

section Slots

variable {count : Nat} {s : State δ} {test : AnimationState δ → Bool} {slot : Nat}

theorem findSlot_some (h : findSlot count test s = some slot) :
    slot < count ∧ test (s.animationStates slot) = true ∧
      ∀ k < slot, test (s.animationStates k) = false := by
  obtain ⟨htest, before, after, hrange, hbefore⟩ := List.find?_eq_some_iff_append.mp h
  have hmem : slot ∈ List.range count := by
    rw [hrange]
    simp
  refine ⟨List.mem_range.mp hmem, htest, fun k hk => ?_⟩
  have hlength : before.length = slot := by
    have hget : (List.range count)[before.length]? = some slot := by
      rw [hrange]
      simp
    rw [List.getElem?_range] at hget
    · simpa using hget
    · have hlen := congrArg List.length hrange
      simp only [List.length_range, List.length_append, List.length_cons] at hlen
      omega
  have hk' : k ∈ before := by
    have hget : (List.range count)[k]? = some k := by
      rw [List.getElem?_range]
      exact Nat.lt_trans hk (List.mem_range.mp hmem)
    rw [hrange, List.getElem?_append_left (by omega)] at hget
    exact List.mem_of_getElem? hget
  simpa using hbefore k hk'

theorem findSlot_none (h : findSlot count test s = none) :
    ∀ k < count, test (s.animationStates k) = false := by
  intro k hk
  have hnone := List.find?_eq_none.mp h k (List.mem_range.mpr hk)
  simpa using hnone

end Slots

/-! ## The invariant -/

/-- Each live executor and each occupied slot have each other, by the token that the slot keeps, and
no slot below keeps that token. -/
structure Good (count : Nat) (table : Nat → Entry Nat) (slots : Nat → AnimationState δ) :
    Prop where
  distinct : ∀ i < count, ∀ j < count, (table i).token ≠ invalidDeferredToken →
    (table i).token = (table j).token → i = j
  named : ∀ i < count, (table i).token ≠ invalidDeferredToken → ∃ slot, Carries count table i slot
  slot : ∀ i slot, Carries count table i slot →
    slot < count ∧ (slots slot).device.isSome = true ∧ (slots slot).deferToken = (table i).token
  occupied : ∀ slot < count, (slots slot).device.isSome = true → ∃ i, Carries count table i slot
  below : ∀ i slot, Carries count table i slot → ∀ k < slot,
    (slots k).deferToken ≠ (table i).token

section Good

variable {count : Nat} {table table' : Nat → Entry Nat} {slots slots' : Nat → AnimationState δ}

theorem Carries.unique (h : Good count table slots) {i j slot : Nat}
    (hi : Carries count table i slot) (hj : Carries count table j slot) : i = j :=
  h.distinct i hi.1 j hj.1 hi.2.1
    ((h.slot i slot hi).2.2.symm.trans (h.slot j slot hj).2.2)

/-- Entries keep their tokens and callbacks, and slots their devices and tokens; a slot that is free
may lose its token. -/
theorem Good.congr (h : Good count table slots)
    (htable : ∀ i, (table' i).token = (table i).token ∧ (table' i).callback = (table i).callback)
    (hslots : ∀ k, (slots' k).device.isSome = (slots k).device.isSome ∧
      ((slots' k).deferToken = (slots k).deferToken ∨
        (slots k).device.isSome = false ∧ (slots' k).deferToken = invalidDeferredToken)) :
    Good count table' slots' := by
  have hcarries : ∀ i slot, Carries count table' i slot ↔ Carries count table i slot := by
    intro i slot
    rw [Carries, Carries, (htable i).1, (htable i).2]
  refine ⟨?_, ?_, ?_, ?_, ?_⟩
  · intro i hi j hj hvalid hsame
    rw [(htable i).1] at hvalid hsame
    rw [(htable j).1] at hsame
    exact h.distinct i hi j hj hvalid hsame
  · intro i hi hvalid
    rw [(htable i).1] at hvalid
    obtain ⟨slot, hslot⟩ := h.named i hi hvalid
    exact ⟨slot, (hcarries i slot).mpr hslot⟩
  · intro i slot hslot
    obtain ⟨hlt, hdevice, htoken⟩ := h.slot i slot ((hcarries i slot).mp hslot)
    refine ⟨hlt, (hslots slot).1.trans hdevice, ?_⟩
    rcases (hslots slot).2 with hkept | ⟨hfree, -⟩
    · rw [hkept, (htable i).1]
      exact htoken
    · rw [hdevice] at hfree
      exact Bool.noConfusion hfree
  · intro slot hlt hdevice
    rw [(hslots slot).1] at hdevice
    obtain ⟨i, hi⟩ := h.occupied slot hlt hdevice
    exact ⟨i, (hcarries i slot).mpr hi⟩
  · intro i slot hslot k hk
    have hold := (hcarries i slot).mp hslot
    rw [(htable i).1]
    rcases (hslots k).2 with hkept | ⟨-, hlost⟩
    · rw [hkept]
      exact h.below i slot hold k hk
    · rw [hlost]
      exact hold.2.1.symm

theorem Good.free (h : Good count table slots) {i slot : Nat} (hcarries : Carries count table i slot)
    {state : AnimationState δ} (hdevice : state.device = none)
    (htoken : state.deferToken = (slots slot).deferToken) :
    Good count (Function.update table i {}) (Function.update slots slot state) := by
  have hother : ∀ j k, Carries count (Function.update table i {}) j k ↔
      j ≠ i ∧ Carries count table j k := by
    intro j k
    by_cases hj : j = i
    · subst hj
      simp [Carries]
    · simp [Carries, hj]
  have hslot : ∀ j k, Carries count table j k → j ≠ i → k ≠ slot := by
    rintro j k hj hne rfl
    exact hne (Carries.unique h hj hcarries)
  refine ⟨?_, ?_, ?_, ?_, ?_⟩
  · intro j hj k hk hvalid hsame
    by_cases hji : j = i
    · subst hji
      rw [Function.update_self] at hvalid
      exact absurd rfl hvalid
    by_cases hki : k = i
    · subst hki
      rw [Function.update_self] at hsame
      exact absurd hsame hvalid
    rw [Function.update_of_ne hji] at hvalid hsame
    rw [Function.update_of_ne hki] at hsame
    exact h.distinct j hj k hk hvalid hsame
  · intro j hj hvalid
    by_cases hji : j = i
    · subst hji
      rw [Function.update_self] at hvalid
      exact absurd rfl hvalid
    · rw [Function.update_of_ne hji] at hvalid
      obtain ⟨k, hk⟩ := h.named j hj hvalid
      exact ⟨k, (hother j k).mpr ⟨hji, hk⟩⟩
  · intro j k hjk
    obtain ⟨hji, hold⟩ := (hother j k).mp hjk
    rw [Function.update_of_ne hji, Function.update_of_ne (hslot j k hold hji)]
    exact h.slot j k hold
  · intro k hk hoccupied
    by_cases hks : k = slot
    · subst hks
      rw [Function.update_self, hdevice] at hoccupied
      exact Bool.noConfusion hoccupied
    · rw [Function.update_of_ne hks] at hoccupied
      obtain ⟨j, hj⟩ := h.occupied k hk hoccupied
      refine ⟨j, (hother j k).mpr ⟨?_, hj⟩⟩
      rintro rfl
      exact hks (Option.some.inj (hj.2.2.symm.trans hcarries.2.2))
  · intro j k hjk l hl
    obtain ⟨hji, hold⟩ := (hother j k).mp hjk
    rw [Function.update_of_ne hji]
    by_cases hls : l = slot
    · subst hls
      rw [Function.update_self, htoken]
      exact h.below j k hold l hl
    · rw [Function.update_of_ne hls]
      exact h.below j k hold l hl

/-- An executor with a token of its own is stored for the first free slot. -/
theorem Good.start (h : Good count table slots) {i slot : Nat} {token : Token} (hi : i < count)
    (hfree : (table i).token = invalidDeferredToken) (hslot : slot < count)
    (hdevice : (slots slot).device.isSome = false)
    (hbelow : ∀ k < slot, (slots k).device.isSome = true) (hvalid : token ≠ invalidDeferredToken)
    (hfresh : ∀ j < count, (table j).token ≠ token) {entry : Entry Nat}
    (htoken : entry.token = token) (hcallback : entry.callback = some slot)
    {state : AnimationState δ} (hstate : state.device.isSome = true)
    (hkeeps : state.deferToken = token) :
    Good count (Function.update table i entry) (Function.update slots slot state) := by
  have hnew : Carries count (Function.update table i entry) i slot := by
    refine ⟨hi, ?_, ?_⟩
    · rw [Function.update_self, htoken]
      exact hvalid
    · rw [Function.update_self, hcallback]
  have hother : ∀ j k, j ≠ i →
      (Carries count (Function.update table i entry) j k ↔ Carries count table j k) := by
    intro j k hj
    simp only [Carries, Function.update_of_ne hj]
  have hne : ∀ j k, Carries count table j k → j ≠ i ∧ k ≠ slot := by
    refine fun j k hjk => ⟨?_, ?_⟩
    · rintro rfl
      exact hjk.2.1 hfree
    · rintro rfl
      have hsome := (h.slot j k hjk).2.1
      rw [hdevice] at hsome
      exact Bool.noConfusion hsome
  have hself : ∀ k, Carries count (Function.update table i entry) i k → k = slot := by
    intro k hk
    have hsome := hk.2.2
    rw [Function.update_self, hcallback] at hsome
    exact (Option.some.inj hsome).symm
  refine ⟨?_, ?_, ?_, ?_, ?_⟩
  · intro j hj k hk hlive hsame
    by_cases hji : j = i
    · subst hji
      by_cases hkj : k = j
      · exact hkj.symm
      · rw [Function.update_self, Function.update_of_ne hkj, htoken] at hsame
        exact absurd hsame.symm (hfresh k hk)
    · rw [Function.update_of_ne hji] at hlive hsame
      by_cases hki : k = i
      · subst hki
        rw [Function.update_self, htoken] at hsame
        exact absurd hsame (hfresh j hj)
      · rw [Function.update_of_ne hki] at hsame
        exact h.distinct j hj k hk hlive hsame
  · intro j hj hlive
    by_cases hji : j = i
    · subst hji
      exact ⟨slot, hnew⟩
    · rw [Function.update_of_ne hji] at hlive
      obtain ⟨k, hk⟩ := h.named j hj hlive
      exact ⟨k, (hother j k hji).mpr hk⟩
  · intro j k hjk
    by_cases hji : j = i
    · subst hji
      rw [hself k hjk, Function.update_self, Function.update_self, htoken]
      exact ⟨hslot, hstate, hkeeps⟩
    · have hold := (hother j k hji).mp hjk
      rw [Function.update_of_ne hji, Function.update_of_ne (hne j k hold).2]
      exact h.slot j k hold
  · intro k hk hoccupied
    by_cases hks : k = slot
    · subst hks
      exact ⟨i, hnew⟩
    · rw [Function.update_of_ne hks] at hoccupied
      obtain ⟨j, hj⟩ := h.occupied k hk hoccupied
      exact ⟨j, (hother j k (hne j k hj).1).mpr hj⟩
  · intro j k hjk l hl
    by_cases hji : j = i
    · subst hji
      have hks := hself k hjk
      subst hks
      rw [Function.update_self, Function.update_of_ne (Nat.ne_of_lt hl), htoken]
      obtain ⟨m, hm⟩ := h.occupied l (Nat.lt_trans hl hslot) (hbelow l hl)
      rw [(h.slot m l hm).2.2]
      exact hfresh m hm.1
    · have hold := (hother j k hji).mp hjk
      rw [Function.update_of_ne hji]
      by_cases hls : l = slot
      · subst hls
        rw [Function.update_self, hkeeps]
        exact (hfresh j hold.1).symm
      · rw [Function.update_of_ne hls]
        exact h.below j k hold l hl

end Good

/-! ## The calls -/

section Calls

variable {count : Nat} {s : State δ}

/-- Between two calls. -/
structure Inv (count : Nat) (s : State δ) : Prop where
  good : Good count s.animationExecutors.table s.animationStates
  idle : s.animationExecutors.phase = .idle

theorem qpRenderAnimationState_cases (ok : Bool) (state : AnimationState δ) :
    qpRenderAnimationState ok state = (none, state) ∨
      ok = true ∧ state.device.isSome = true ∧
        ∃ frameNumber, qpRenderAnimationState ok state =
          (some (state.image.delay state.frameNumber), { state with frameNumber := frameNumber }) := by
  rw [qpRenderAnimationState]
  split_ifs with hdraws
  · rw [Bool.and_eq_true] at hdraws
    exact .inr ⟨hdraws.1, hdraws.2, _, rfl⟩
  · exact .inl rfl

theorem Good.keepFree {table : Nat → Entry Nat} {slots : Nat → AnimationState δ}
    (h : Good count table slots) {slot : Nat} (hfree : (slots slot).device.isSome = false)
    {state : AnimationState δ} (hdevice : state.device = none)
    (htoken : state.deferToken = (slots slot).deferToken ∨
      state.deferToken = invalidDeferredToken) :
    Good count table (Function.update slots slot state) := by
  refine h.congr (fun _ => ⟨rfl, rfl⟩) fun k => ?_
  by_cases hk : k = slot
  · subst hk
    rw [Function.update_self, hdevice, hfree]
    exact ⟨rfl, htoken.imp id fun hlost => ⟨rfl, hlost⟩⟩
  · rw [Function.update_of_ne hk]
    exact ⟨rfl, .inl rfl⟩

theorem Inv.animate (h : Inv count s) (device : Option δ) (image : Image) (ok : Bool) :
    Inv count (qpAnimateRecolor count device image ok s).2 := by
  rw [qpAnimateRecolor]
  cases hfind : findSlot count (·.device.isNone) s with
  | none => exact h
  | some slot =>
      obtain ⟨hslot, hnone, hbelow⟩ := findSlot_some hfind
      have hfree : (s.animationStates slot).device.isSome = false := by
        cases hdevice : (s.animationStates slot).device with
        | none => rfl
        | some device =>
            rw [hdevice] at hnone
            exact Bool.noConfusion hnone
      have hbelow' : ∀ k < slot, (s.animationStates k).device.isSome = true := by
        intro k hk
        have hbusy := hbelow k hk
        rw [Option.isNone_eq_false_iff] at hbusy
        exact hbusy
      simp only
      rcases qpRenderAnimationState_cases ok { s.animationStates slot with
        device := device, image := image, frameNumber := 0 } with hfail | ⟨-, hdevice, frame, hdraw⟩
      · rw [hfail]
        exact ⟨h.good.keepFree hfree rfl (.inl rfl), h.idle⟩
      · rw [hdraw]
        simp only
        obtain ⟨hphase, ⟨hinvalid, htable⟩ | ⟨token, i, htoken, hi, hempty, hvalid, hfresh, htable⟩⟩ :=
          @deferExecAdvanced_spec count Nat ((image.delay 0).setWidth 32) slot s.animationExecutors
        · rw [if_pos hinvalid]
          refine ⟨?_, hphase.trans h.idle⟩
          simp only [State.setSlot, htable]
          exact h.good.keepFree hfree rfl (.inr hinvalid)
        · rw [if_neg (by rw [htoken]; exact hvalid)]
          refine ⟨?_, hphase.trans h.idle⟩
          simp only [State.setSlot, htable]
          exact h.good.start hi hempty hslot hfree hbelow' hvalid hfresh rfl rfl hdevice htoken

/-- What `qp_stop_animation` does with the token of a live executor. -/
theorem qpStopAnimation_live (h : Inv count s) {i slot : Nat}
    (hcarries : Carries count s.animationExecutors.table i slot) :
    ((qpStopAnimation count (s.animationExecutors.table i).token s).animationStates =
        Function.update s.animationStates slot
          { s.animationStates slot with device := none }) ∧
      (qpStopAnimation count (s.animationExecutors.table i).token s).animationExecutors.table =
        Function.update s.animationExecutors.table i {} ∧
      (qpStopAnimation count (s.animationExecutors.table i).token s).animationExecutors.phase =
        s.animationExecutors.phase := by
  obtain ⟨hslot, -, htoken⟩ := h.good.slot i slot hcarries
  have hbelow := h.good.below i slot hcarries
  rw [qpStopAnimation]
  cases hfind : findSlot count
      (fun state => decide (state.deferToken = (s.animationExecutors.table i).token)) s with
  | none => exact absurd htoken (of_decide_eq_false (findSlot_none hfind slot hslot))
  | some found =>
      obtain ⟨-, hfound, hfirst⟩ := findSlot_some hfind
      have hsame : found = slot := by
        rcases Nat.lt_trichotomy found slot with hlt | heq | hgt
        · exact absurd (of_decide_eq_true hfound) (hbelow found hlt)
        · exact heq
        · exact absurd htoken (of_decide_eq_false (hfirst slot hgt))
      subst hsame
      have hcancel := cancelDeferredExecAdvanced_live hcarries.1 hcarries.2.1 fun j hj hequal =>
        (h.good.distinct i hcarries.1 j hj hcarries.2.1 hequal.symm).symm
      exact ⟨rfl, hcancel, cancelDeferredExecAdvanced_phase _ _⟩

theorem Inv.stop (h : Inv count s) (animToken : Token) :
    Inv count (qpStopAnimation count animToken s) := by
  by_cases hlive : ∃ i slot, Carries count s.animationExecutors.table i slot ∧
      (s.animationExecutors.table i).token = animToken
  · obtain ⟨i, slot, hcarries, rfl⟩ := hlive
    obtain ⟨hslots, htable, hphase⟩ := qpStopAnimation_live h hcarries
    refine ⟨?_, hphase.trans h.idle⟩
    rw [hslots, htable]
    exact h.good.free hcarries rfl rfl
  · rw [qpStopAnimation]
    cases hfind : findSlot count (fun state => decide (state.deferToken = animToken)) s with
    | none => exact h
    | some slot =>
        obtain ⟨hslot, htoken, -⟩ := findSlot_some hfind
        have hfree : (s.animationStates slot).device.isSome = false := by
          rw [Bool.eq_false_iff]
          intro hdevice
          obtain ⟨i, hi⟩ := h.good.occupied slot hslot hdevice
          exact hlive ⟨i, slot, hi,
            (h.good.slot i slot hi).2.2.symm.trans (of_decide_eq_true htoken)⟩
        have hcancel := @cancelDeferredExecAdvanced_stale count Nat s.animationExecutors animToken
          fun i hi hvalid hsame => by
            obtain ⟨k, hk⟩ := h.good.named i hi hvalid
            exact hlive ⟨i, k, hk, hsame⟩
        refine ⟨?_, (cancelDeferredExecAdvanced_phase _ _).trans h.idle⟩
        simp only [State.setSlot, hcancel]
        exact h.good.keepFree hfree rfl (.inl rfl)

theorem lookAt_due {e : Deferred.State Nat} {now i : Nat} (hi : i < count)
    (hdue : Due e.table now i) :
    (lookAt count now i e).phase = .calling now i (e.table i).token ∧
      (lookAt count now i e).table = e.table := by
  rw [lookAt, if_pos hi]
  simp only
  rw [Due] at hdue
  rw [if_pos hdue]
  exact ⟨rfl, rfl⟩

theorem lookAt_waiting {e : Deferred.State Nat} {now i : Nat} (hi : i < count)
    (hdue : ¬Due e.table now i) :
    (lookAt count now i e).phase = .scanning now (i + 1) ∧
      (lookAt count now i e).table = e.table := by
  rw [lookAt, if_pos hi]
  simp only
  rw [Due] at hdue
  rw [if_neg hdue]
  exact ⟨rfl, rfl⟩

/-- What the loop body does to the two tables. -/
inductive Visits (count : Nat) (ok : Nat → Bool) (now i : Nat) (s s' : State δ) : Prop
  | waits (hdue : ¬Due s.animationExecutors.table now i)
      (htable : s'.animationExecutors.table = s.animationExecutors.table)
      (hslots : s'.animationStates = s.animationStates)
  | fails (slot : Nat) (hcarries : Carries count s.animationExecutors.table i slot)
      (htable : s'.animationExecutors.table = Function.update s.animationExecutors.table i {})
      (hslots : s'.animationStates = Function.update s.animationStates slot
        { s.animationStates slot with device := none })
  | draws (slot : Nat) (frameNumber : BitVec 16)
      (hcarries : Carries count s.animationExecutors.table i slot)
      (hdue : Due s.animationExecutors.table now i) (hok : ok i = true)
      (htable : (s.animationStates slot).moves → ∃ triggerTime,
        s'.animationExecutors.table = Function.update s.animationExecutors.table i
          { s.animationExecutors.table i with triggerTime := triggerTime })
      (hslots : s'.animationStates = Function.update s.animationStates slot
        { s.animationStates slot with frameNumber := frameNumber })

theorem callbackReturns_zero {e : Deferred.State Nat} {now i : Nat} :
    (callbackReturns now i (e.table i).token 0 e).table = Function.update e.table i {} := by
  rw [Deferred.callbackReturns_eq, if_neg (not_not_intro rfl), if_neg (by simp)]
  rfl

theorem callbackReturns_delay {e : Deferred.State Nat} {now i : Nat} {delayMs : BitVec 32}
    (hdelay : 0 < delayMs.toNat) :
    (callbackReturns now i (e.table i).token delayMs e).table = Function.update e.table i
      { e.table i with triggerTime := (e.table i).triggerTime + delayMs.toNat } := by
  rw [Deferred.callbackReturns_eq, if_neg (not_not_intro rfl), if_pos hdelay]
  rfl

theorem setWidth_pos {delayMs : BitVec 16} (h : delayMs ≠ 0) :
    0 < (delayMs.setWidth 32).toNat := by
  have hlt := delayMs.isLt
  rw [BitVec.toNat_setWidth, Nat.mod_eq_of_lt (Nat.lt_trans hlt (by decide))]
  refine Nat.pos_of_ne_zero fun hzero => h ?_
  exact BitVec.eq_of_toNat_eq hzero

theorem visit_cases (h : Good count s.animationExecutors.table s.animationStates)
    (ok : Nat → Bool) (now : Nat) {i : Nat} (hi : i < count) :
    Visits count ok now i s (visit count ok now i s) := by
  by_cases hdue : Due s.animationExecutors.table now i
  · obtain ⟨hphase, htable⟩ := lookAt_due hi hdue
    obtain ⟨slot, hcarries⟩ := h.named i hi hdue.1
    have hcallback : ((lookAt count now i s.animationExecutors).table i).callback = some slot := by
      rw [htable]
      exact hcarries.2.2
    rw [visit]
    simp only [hphase, hcallback, animationCallback]
    rw [← htable] at hphase ⊢
    rcases qpRenderAnimationState_cases (ok i) (s.animationStates slot) with
      hfail | ⟨hok, -, frameNumber, hdraw⟩
    · rw [hfail]
      refine .fails slot hcarries ?_ rfl
      simp only [callbackReturns_zero]
      rw [htable]
    · rw [hdraw]
      refine .draws slot frameNumber hcarries hdue hok (fun hmoves => ?_) rfl
      simp only [callbackReturns_delay (setWidth_pos hmoves)]
      rw [htable]
      exact ⟨_, rfl⟩
  · obtain ⟨hphase, htable⟩ := lookAt_waiting hi hdue
    rw [visit]
    simp only [hphase]
    exact .waits hdue htable rfl

theorem MovesFrom.next {s' : State δ} {ok : Nat → Bool} {now i slot : Nat}
    (h : Good count s.animationExecutors.table s.animationStates)
    (hmoves : MovesFrom count i ok now s)
    (hcarries : Carries count s.animationExecutors.table i slot)
    (htable : ∀ j, j ≠ i →
      s'.animationExecutors.table j = s.animationExecutors.table j)
    (hslots : ∀ k, k ≠ slot → s'.animationStates k = s.animationStates k) :
    MovesFrom count (i + 1) ok now s' := by
  intro j k hj hlt hdue hok hcallback
  have hne : j ≠ i := by omega
  rw [Due, htable j hne] at hdue
  rw [htable j hne] at hcallback
  have hother : k ≠ slot := by
    rintro rfl
    exact hne (Carries.unique h ⟨hlt, hdue.1, hcallback⟩ hcarries)
  rw [hslots k hother]
  exact hmoves j k (by omega) hlt hdue hok hcallback

theorem visit_good {ok : Nat → Bool} {now i : Nat} (hi : i < count)
    (h : Good count s.animationExecutors.table s.animationStates)
    (hmoves : MovesFrom count i ok now s) :
    Good count (visit count ok now i s).animationExecutors.table
        (visit count ok now i s).animationStates ∧
      MovesFrom count (i + 1) ok now (visit count ok now i s) := by
  have hcases := visit_cases h ok now hi
  generalize visit count ok now i s = s' at hcases ⊢
  cases hcases with
  | waits hdue htable hslots =>
      rw [htable, hslots]
      refine ⟨h, fun j k hj hlt hdue' hok hcallback => ?_⟩
      rw [htable] at hdue' hcallback
      rw [hslots]
      exact hmoves j k (by omega) hlt hdue' hok hcallback
  | fails slot hcarries htable hslots =>
      refine ⟨?_, hmoves.next h hcarries (fun j hj => ?_) fun k hk => ?_⟩
      · rw [htable, hslots]
        exact h.free hcarries rfl rfl
      · rw [htable, Function.update_of_ne hj]
      · rw [hslots, Function.update_of_ne hk]
  | draws slot frameNumber hcarries hdue hok htable hslots =>
      obtain ⟨triggerTime, htable⟩ :=
        htable (hmoves i slot Nat.le.refl hi hdue hok hcarries.2.2)
      refine ⟨?_, hmoves.next h hcarries (fun j hj => ?_) fun k hk => ?_⟩
      · rw [htable, hslots]
        refine h.congr (fun j => ?_) fun k => ?_
        · by_cases hj : j = i
          · subst hj
            rw [Function.update_self]
            exact ⟨rfl, rfl⟩
          · rw [Function.update_of_ne hj]
            exact ⟨rfl, rfl⟩
        · by_cases hk : k = slot
          · subst hk
            rw [Function.update_self]
            exact ⟨rfl, .inl rfl⟩
          · rw [Function.update_of_ne hk]
            exact ⟨rfl, .inl rfl⟩
      · rw [htable, Function.update_of_ne hj]
      · rw [hslots, Function.update_of_ne hk]

theorem visits_good {ok : Nat → Bool} {now : Nat}
    (h : Good count s.animationExecutors.table s.animationStates)
    (hmoves : MovesFrom count 0 ok now s) {n : Nat} (hn : n ≤ count) :
    Good count (forRange n (visit count ok now) s).animationExecutors.table
        (forRange n (visit count ok now) s).animationStates ∧
      MovesFrom count n ok now (forRange n (visit count ok now) s) := by
  induction n with
  | zero => exact ⟨h, hmoves⟩
  | succ n ih =>
      obtain ⟨hgood, hrest⟩ := ih (by omega)
      rw [forRange_succ]
      exact visit_good (by omega) hgood hrest

theorem Inv.tick (h : Inv count s) {ok : Nat → Bool} (hmoving : Moving count s (.tick ok)) :
    Inv count (qpInternalAnimationTick count ok s) := by
  rw [qpInternalAnimationTick]
  by_cases henter : 0 < timerDiff (BitVec.ofNat 32 s.animationExecutors.clock)
      s.animationExecutors.lastExecutionTime
  · have hphase : (enterTask s.animationExecutors).phase =
        .scanning s.animationExecutors.clock 0 := by
      rw [enterTask, if_pos henter]
    have htable : (enterTask s.animationExecutors).table = s.animationExecutors.table := by
      rw [enterTask, if_pos henter]
    have hgood : Good count (enterTask s.animationExecutors).table s.animationStates := by
      rw [htable]
      exact h.good
    have hmoves : MovesFrom count 0 ok s.animationExecutors.clock
        { s with animationExecutors := enterTask s.animationExecutors } := by
      intro i slot hi hlt hdue hok hcallback
      simp only [htable] at hdue hcallback
      exact hmoving henter i slot hi hlt hdue hok hcallback
    rw [hphase]
    simp only
    obtain ⟨hvisited, -⟩ := @visits_good δ count
      { s with animationExecutors := enterTask s.animationExecutors } ok
      s.animationExecutors.clock hgood hmoves count Nat.le.refl
    have hlast : ∀ e : Deferred.State Nat, (lookAt count s.animationExecutors.clock count e).table =
        e.table ∧ (lookAt count s.animationExecutors.clock count e).phase = .idle := by
      intro e
      rw [lookAt, if_neg (Nat.lt_irrefl count)]
      exact ⟨rfl, rfl⟩
    refine ⟨?_, (hlast _).2⟩
    rw [(hlast _).1]
    exact hvisited
  · have hsame : enterTask s.animationExecutors = s.animationExecutors := by
      rw [enterTask]
      exact if_neg henter
    rw [hsame, h.idle]
    exact h

theorem Inv.step (h : Inv count s) {input : Input δ} (hmoving : Moving count s input) :
    Inv count (step count s input) := by
  cases input with
  | elapse ms => exact ⟨h.good, h.idle⟩
  | otherTable currentToken => exact ⟨h.good, h.idle⟩
  | animate device image ok => exact h.animate device image ok
  | stop animToken => exact h.stop animToken
  | tick ok => exact h.tick hmoving

theorem Inv.init (currentToken : Token) (lastAnimExec : BitVec 32) (clock : Nat) :
    Inv count (State.init currentToken lastAnimExec clock : State δ) := by
  have hdead : ∀ i slot, ¬Carries count
      (State.init currentToken lastAnimExec clock : State δ).animationExecutors.table i slot :=
    fun i slot hcarries => hcarries.2.1 rfl
  refine ⟨⟨?_, ?_, ?_, ?_, ?_⟩, rfl⟩
  · exact fun i _ j _ hvalid => absurd rfl hvalid
  · exact fun i _ hvalid => absurd rfl hvalid
  · exact fun i slot hcarries => absurd hcarries (hdead i slot)
  · exact fun slot _ hdevice => Bool.noConfusion hdevice
  · exact fun i slot hcarries => absurd hcarries (hdead i slot)

theorem Inv.inStep (h : Inv count s) : InStep count s := by
  intro slot hslot
  refine ⟨h.good.occupied slot hslot, ?_⟩
  rintro ⟨i, hcarries⟩
  exact (h.good.slot i slot hcarries).2.1

theorem Inv.stopsOne (h : Inv count s) : StopsOne count s := by
  intro i slot hcarries
  obtain ⟨hslots, htable, -⟩ := qpStopAnimation_live h hcarries
  simp only [hslots, htable, Function.update_self, true_and]
  exact ⟨fun other hother => Function.update_of_ne hother _ _,
    fun j hj => Function.update_of_ne hj _ _⟩

end Calls

/-- As long as no tick draws a frame without a delay, the slots stay in step with the executors, and
a token of a running animation stops that animation and no other. -/
theorem animations_inStep (count : Nat) (currentToken : Token) (lastAnimExec : BitVec 32)
    (clock : Nat) (inputs : List (Input δ))
    (hmoving : Meets (step count) (Moving count) (State.init currentToken lastAnimExec clock)
      inputs) :
    InStep count (run (step count) (State.init currentToken lastAnimExec clock) inputs) ∧
      StopsOne count (run (step count) (State.init currentToken lastAnimExec clock) inputs) := by
  have hinv := hmoving.preserves (Inv count) (fun _ _ h hstep => h.step hstep)
    (Inv.init currentToken lastAnimExec clock)
  exact ⟨hinv.inStep, hinv.stopsOne⟩

/-- Two frames, the first one for a tenth of a second. -/
def twoFrames (second : BitVec 16) : Image := ⟨2, fun frame => if frame = 0 then 100 else second⟩

/-- An animation is started, and its second frame is drawn. -/
def secondFrame (second : BitVec 16) : List (Input Unit) :=
  [.animate (some ()) (twoFrames second) true, .elapse 101, .tick fun _ => true]

theorem secondFrame_callback :
    ∀ i < 4, ((run (step 4) (State.init 0 0 0) ((secondFrame 50).take 2)).animationExecutors.table
      i).callback = if i = 0 then some 0 else none := by decide

theorem animations_inStep_secondFrame :
    InStep 4 (run (step 4) (State.init 0 0 0) (secondFrame 50)) ∧
      StopsOne 4 (run (step 4) (State.init 0 0 0) (secondFrame 50)) := by
  refine animations_inStep 4 0 0 0 (secondFrame 50) ⟨trivial, trivial, fun _ => ?_, trivial⟩
  intro i slot _ hi _ _ hcallback
  have hcallback' := (secondFrame_callback i hi).symm.trans hcallback
  split_ifs at hcallback'
  have hslot := Option.some.inj hcallback'
  subst hslot
  rw [AnimationState.moves]
  decide

/-- The second frame has no delay: its executor is freed and its slot is not. -/
theorem stillFrame_outOfStep :
    ¬∀ inputs, InStep 4 (run (step 4) (State.init 0 0 0 : State Unit) inputs) := by
  intro h
  obtain ⟨i, hi, hvalid, -⟩ := (h (secondFrame 0) 0 (by decide)).mp (by decide)
  have hdead : ∀ j < 4, ((run (step 4) (State.init 0 0 0)
      (secondFrame 0)).animationExecutors.table j).token = 0 := by decide
  exact hvalid (hdead i hi)

end Qmk.Painter.Animation
