import Mathlib.Data.List.Basic
import Mathlib.Data.List.Pairwise
import Qmk.MouseKeys.Hold

/-!
# The curve of a hold

The speeds and the movement units of the tasks in a hold, against the curve they promise.
-/

namespace Qmk.MouseKeys

open Qmk.Lib

section Tasks

variable (cfg : Config)

/-- The movement of the cursor in a report, if it has one. -/
def Report.movement (r : Report) : Option Nat :=
  if r.x = 0 ∧ r.y = 0 then none else some (max r.x.natAbs r.y.natAbs)

/-- The movement that `mousekey_task` sends. -/
def taskMovement (now : Nat) (s : State) : Option Nat :=
  (mousekeyTask cfg now s).2.bind Report.movement

/-- The speed with which `mousekey_task` moves the cursor when it is due. -/
def speedUsed (now : Nat) (s : State) : Nat := moveSpeed cfg now (bumpRepeat s)

/-- The calls of `mousekey_task` in a run, each with its time and the state before it. -/
def tasks : State → List (Nat × Event) → List (Nat × State)
  | _, [] => []
  | s, (now, event) :: rest =>
      (if event = .task then [(now, s)] else []) ++ tasks (step cfg s (now, event)) rest

/-- The fiftieths of a second on the kinetic timer, which counts none while it is 0. -/
def fiftieths (now : Nat) (timer : BitVec 16) : Nat :=
  if timer = 0 then 0 else timerElapsed now timer / 50

end Tasks

section Moves

variable {cfg : Config} {now : Nat} {s : State} {key : Keycode}

theorem bumpRepeat_ne_zero : (bumpRepeat s).mousekeyRepeat ≠ 0 := by
  unfold bumpRepeat
  split
  · exact Nat.succ_ne_zero _
  · omega

theorem moveSpeed_of_no_accel (h : s.mousekeyAccel = 0) :
    moveSpeed cfg now s =
      if s.mousekeyRepeat ≠ 0 ∧ s.mouseTimer ≠ 0 then
        min cfg.baseSpeed (wrappedSpeed cfg (timerElapsed now s.mouseTimer / 50))
      else cfg.initialSpeed := by
  have hdecelerated : s.mousekeyAccel &&& 1 = 0 := by
    rw [h]
    rfl
  have haccelerated : s.mousekeyAccel &&& 4 = 0 := by
    rw [h]
    rfl
  rw [moveSpeed, if_neg (not_not.mpr hdecelerated), if_neg (not_not.mpr haccelerated),
    kineticSpeed_eq]
  dsimp only
  split
  · split <;> omega
  · rfl

/-- Without an acceleration key the task follows the curve of the timer. -/
theorem HeldBy.speedUsed_eq (hs : HeldBy key s) :
    speedUsed cfg now s = min cfg.baseSpeed (wrappedSpeed cfg (fiftieths now s.mouseTimer)) := by
  obtain ⟨haccel, htimer⟩ := bumpRepeat_frame s
  have hinitial := cfg.initialSpeed_le
  rw [speedUsed, moveSpeed_of_no_accel (haccel.trans hs.accel), htimer, fiftieths]
  by_cases hzero : s.mouseTimer = 0
  · rw [if_neg (fun h => h.2 hzero), if_pos hzero, wrappedSpeed_zero]
    omega
  · rw [if_pos ⟨bumpRepeat_ne_zero, hzero⟩, if_neg hzero]

theorem moveUnit_bumpRepeat (report : Report) :
    moveUnit cfg now (bumpRepeat { s with mouseReport := report }) =
      speedUnit cfg (speedUsed cfg now s) := by
  unfold moveUnit speedUsed bumpRepeat
  split <;> rfl

theorem natAbs_mul_sign (unit : Nat) (a : Int) : ((unit : Int) * sign a).natAbs = unit := by
  unfold sign
  split <;> simp

/-- The task moves the cursor along one axis, by the unit of its speed. -/
theorem HeldBy.cursorTask_due (hs : HeldBy key s) (hdue : moveDue cfg now s) :
    ((cursorTask cfg now s).mouseReport.x.natAbs = speedUnit cfg (speedUsed cfg now s) ∧
        (cursorTask cfg now s).mouseReport.y = 0) ∨
      ((cursorTask cfg now s).mouseReport.x = 0 ∧
        (cursorTask cfg now s).mouseReport.y.natAbs = speedUnit cfg (speedUsed cfg now s)) := by
  have haxis : (s.mouseReport.x ≠ 0 ∧ s.mouseReport.y = 0) ∨
      (s.mouseReport.x = 0 ∧ s.mouseReport.y ≠ 0) := by
    have hmoves := hs.moves
    cases key <;> simp only [Report.MovesBy] at hmoves <;> omega
  rw [cursorTask, if_pos hdue]
  simp only [moveTask, moveUnit_bumpRepeat]
  rcases haxis with ⟨hx, hy⟩ | ⟨hx, hy⟩
  · refine .inl ?_
    simp [hx, hy, natAbs_mul_sign]
  · refine .inr ?_
    simp [hx, hy, natAbs_mul_sign]

theorem cursorTask_not_due (hdue : ¬moveDue cfg now s) :
    (cursorTask cfg now s).mouseReport.x = 0 ∧ (cursorTask cfg now s).mouseReport.y = 0 := by
  rw [cursorTask, if_neg hdue]
  exact ⟨rfl, rfl⟩

theorem movement_mousekeyTask (cfg : Config) (now : Nat) (s : State) :
    taskMovement cfg now s = (taskReport cfg now s).mouseReport.movement := by
  unfold taskMovement mousekeyTask
  dsimp only
  split
  · rfl
  · rename_i hsilent
    have hmove : (taskReport cfg now s).mouseReport.x = 0 ∧
        (taskReport cfg now s).mouseReport.y = 0 := by
      simp only [Bool.or_eq_true, not_or, Bool.not_eq_true, shouldMousekeyReportSend] at hsilent
      simpa using hsilent.2.1.1
    rw [Report.movement, if_pos hmove]
    rfl

/-- The task sends the unit of its speed when it is due, and no movement otherwise. -/
theorem HeldBy.taskMovement_eq (hs : HeldBy key s) :
    taskMovement cfg now s =
      if moveDue cfg now s then some (speedUnit cfg (speedUsed cfg now s)) else none := by
  obtain ⟨hx, hy, -, -, -⟩ := taskReport_same cfg now s
  have hpos : 0 < speedUnit cfg (speedUsed cfg now s) := speedUnit_pos _
  rw [movement_mousekeyTask, Report.movement, hx, hy]
  by_cases hdue : moveDue cfg now s
  · rw [if_pos hdue]
    rcases hs.cursorTask_due hdue with ⟨hunit, hzero⟩ | ⟨hzero, hunit⟩
    · rw [if_neg (by omega), hzero, hunit]
      simp
    · rw [if_neg (by omega), hzero, hunit]
      simp
  · rw [if_pos (cursorTask_not_due hdue), if_neg hdue]

theorem tasks_held {events : List (Nat × Event)} (hs : HeldBy key s)
    (hkeeps : ∀ event ∈ events, event.2.Keeps key) {call : Nat × State}
    (hcall : call ∈ tasks cfg s events) : HeldBy key call.2 := by
  induction events generalizing s with
  | nil => cases hcall
  | cons event events ih =>
      obtain ⟨now, event⟩ := event
      rw [tasks, List.mem_append] at hcall
      rcases hcall with hhere | hlater
      · split at hhere
        · rw [List.mem_singleton.mp hhere]
          exact hs
        · cases hhere
      · have hevent : event.Keeps key := hkeeps (now, event) List.mem_cons_self
        exact ih (heldBy_step hs event hevent).1
          (fun other hother => hkeeps other (List.mem_cons_of_mem _ hother)) hlater

/-- The timer that runs at the start of the hold is the timer of all its calls. -/
theorem tasks_timer {events : List (Nat × Event)} (hs : HeldBy key s)
    (hkeeps : ∀ event ∈ events, event.2.Keeps key) (htimer : s.mouseTimer ≠ 0)
    {call : Nat × State} (hcall : call ∈ tasks cfg s events) :
    call.2.mouseTimer = s.mouseTimer := by
  induction events generalizing s with
  | nil => cases hcall
  | cons event events ih =>
      obtain ⟨now, event⟩ := event
      rw [tasks, List.mem_append] at hcall
      rcases hcall with hhere | hlater
      · split at hhere
        · rw [List.mem_singleton.mp hhere]
        · cases hhere
      · have hevent : event.Keeps key := hkeeps (now, event) List.mem_cons_self
        obtain ⟨hheld, hsame⟩ := @heldBy_step cfg now s key hs event hevent
        have hnext : (step cfg s (now, event)).mouseTimer ≠ 0 := by rwa [hsame htimer]
        rw [← hsame htimer]
        exact ih hheld (fun other hother => hkeeps other (List.mem_cons_of_mem _ hother)) hnext
          hlater

theorem tasks_times (cfg : Config) (s : State) (events : List (Nat × Event)) :
    ((tasks cfg s events).map Prod.fst).Sublist (events.map Prod.fst) := by
  induction events generalizing s with
  | nil => exact List.Sublist.slnil
  | cons event events ih =>
      obtain ⟨now, event⟩ := event
      rw [tasks]
      split
      · exact (ih _).cons_cons now
      · exact (ih _).cons now

end Moves

section Rest

variable {cfg : Config} {now : Nat} {s : State}

/-- Nothing is repeated while the cursor is at rest. -/
def RepeatsMovement (s : State) : Prop :=
  s.mouseReport.x = 0 → s.mouseReport.y = 0 → s.mousekeyRepeat = 0

theorem RepeatsMovement.of_same {t : State} (hs : RepeatsMovement s) (h : SameCursor t s) :
    RepeatsMovement t := by
  intro hx hy
  rw [h.rep]
  exact hs (h.x.symm.trans hx) (h.y.symm.trans hy)

theorem pressKey_repeats (code : Keycode) (hs : RepeatsMovement s) :
    RepeatsMovement (pressKey cfg now code s) := by
  have hunit : 0 < moveUnit cfg now s := speedUnit_pos _
  cases code with
  | cursorUp | cursorDown =>
      intro _ hy
      simp only [pressKey] at hy
      omega
  | cursorLeft | cursorRight =>
      intro hx _
      simp only [pressKey] at hx
      omega
  | button n => exact hs
  | wheelUp | wheelDown | wheelLeft | wheelRight => exact hs
  | acceleration n => exact hs

theorem mousekeyOff_repeats (code : Keycode) : RepeatsMovement (mousekeyOff code s) := by
  intro hx hy
  simp only [mousekeyOff] at hx hy ⊢
  by_cases hrest : (releaseKey code s).mouseReport.x = 0 ∧ (releaseKey code s).mouseReport.y = 0
  · rw [if_pos hrest]
    split <;> rfl
  · rw [if_neg hrest] at hx hy
    split at hx <;> exact absurd ⟨hx, by split at hy <;> exact hy⟩ hrest

theorem mousekeyTask_repeats (hs : RepeatsMovement s) :
    RepeatsMovement (mousekeyTask cfg now s).1 := by
  obtain ⟨-, -, hrep⟩ := mousekeyTask_frame cfg now s
  intro hx hy
  rw [mousekeyTask_mouseReport] at hx hy
  have hdue : ¬moveDue cfg now s := fun hdue => hdue.1.elim (· hx) (· hy)
  rw [hrep, cursorTask, if_neg hdue]
  exact hs hx hy

theorem step_repeats (hs : RepeatsMovement s) (event : Nat × Event) :
    RepeatsMovement (step cfg s event) := by
  obtain ⟨now, event⟩ := event
  cases event with
  | task => exact mousekeyTask_repeats hs
  | clear =>
      have hclear : RepeatsMovement (mousekeyClear s) := fun _ _ => rfl
      exact hclear.of_same (mousekeySend_same now (mousekeyClear s))
  | register code pressed =>
      have hkey : RepeatsMovement
          (if pressed then mousekeyOn cfg now code s else mousekeyOff code s) := by
        cases pressed with
        | true =>
            apply pressKey_repeats
            unfold startTimer
            split <;> exact hs
        | false => exact mousekeyOff_repeats code
      simp only [step, registerMouse]
      split
      · exact hkey
      · exact hkey.of_same (mousekeySend_same now _)

theorem run_repeats (cfg : Config) (events : List (Nat × Event)) :
    RepeatsMovement (run (step cfg) (.initial cfg) events) := by
  have hinitial : RepeatsMovement (State.initial cfg) := fun _ _ => rfl
  exact run_preserves RepeatsMovement (fun _ event hs => step_repeats hs event) hinitial events

end Rest

/-- A movement key is pressed while the cursor is at rest, and held for less than 65 s. -/
structure Hold (cfg : Config) where
  /-- What happened before the press. -/
  before : List (Nat × Event)
  key : Keycode
  /-- The time of the press. -/
  pressed : Nat
  /-- What happens during the hold. -/
  events : List (Nat × Event)
  key_move : key.isMove = true
  rest_x : (run (step cfg) (.initial cfg) before).mouseReport.x = 0
  rest_y : (run (step cfg) (.initial cfg) before).mouseReport.y = 0
  no_accel : (run (step cfg) (.initial cfg) before).mousekeyAccel = 0
  ordered : events.Pairwise fun first second => first.1 ≤ second.1
  within : ∀ event ∈ events, pressed ≤ event.1 ∧ event.1 < pressed + 65000
  keeps : ∀ event ∈ events, event.2.Keeps key

namespace Hold

variable {cfg : Config} (h : Hold cfg)

/-- The state in which the key is pressed. -/
def start : State := run (step cfg) (.initial cfg) h.before

/-- The state after the press. -/
def held : State := step cfg h.start (h.pressed, .register h.key true)

/-- The calls of `mousekey_task` during the hold. -/
def calls : List (Nat × State) := tasks cfg h.held h.events

/-- Those that are due. -/
def dueCalls : List (Nat × State) := h.calls.filter fun call => moveDue cfg call.1 call.2

/-- The movement units that the calls send. -/
def movements : List Nat := h.calls.filterMap fun call => taskMovement cfg call.1 call.2

/-- The fiftieths of a second of the hold that have passed. -/
def elapsed (call : Nat × State) : Nat := (call.1 - h.pressed) / 50

/-- The speeds follow the promised curve and the units never decrease. -/
structure Accelerates : Prop where
  press : moveSpeed cfg h.pressed (startTimer h.pressed h.key h.start) = promisedSpeed cfg 0
  speed : ∀ call ∈ h.dueCalls, speedUsed cfg call.1 call.2 = promisedSpeed cfg (h.elapsed call)
  monotone : h.movements.Pairwise (· ≤ ·)

/-- The quotient of the promised speed, before it is cut to eight bits. -/
def quotient (call : Nat × State) : Nat :=
  promisedSpeed cfg (h.elapsed call) / (1000 / cfg.interval)

/-- The quotient passes a multiple of 256 to a low byte that is smaller, below the maximum. -/
def DropsByte (cfg : Config) (first second : Nat) : Prop :=
  first / 256 < second / 256 ∧ 1 < min cfg.moveMax (first % 256) ∧
    second % 256 < min cfg.moveMax (first % 256)

/-- At each due call the curve of the timer, wrapped to the machine's width, is the exact curve
of the hold, or both are cut to the base speed; and no quotient drops its byte. -/
structure OnCurve : Prop where
  fits : ∀ call ∈ h.dueCalls,
    wrappedSpeed cfg (fiftieths call.1 call.2.mouseTimer) = exactSpeed cfg (h.elapsed call) ∨
      cfg.baseSpeed ≤ wrappedSpeed cfg (fiftieths call.1 call.2.mouseTimer) ∧
        cfg.baseSpeed ≤ exactSpeed cfg (h.elapsed call)
  whole : h.dueCalls.Pairwise fun first second =>
    ¬DropsByte cfg (h.quotient first) (h.quotient second)

variable {h}

theorem speedUnit_le_iff {first second : Nat} (hle : first ≤ second) :
    speedUnit cfg first ≤ speedUnit cfg second ↔
      ¬DropsByte cfg (first / (1000 / cfg.interval)) (second / (1000 / cfg.interval)) := by
  have hquotient := Nat.div_le_div_right (c := 1000 / cfg.interval) hle
  rw [speedUnit_eq, speedUnit_eq]
  generalize first / (1000 / cfg.interval) = q at hquotient ⊢
  generalize second / (1000 / cfg.interval) = q' at hquotient ⊢
  have hpos := cfg.moveMax_pos
  unfold DropsByte
  omega

/-- The press sets the report on its way. -/
theorem heldBy_held (h : Hold cfg) : HeldBy h.key h.held := by
  have hrest : h.start.mouseReport.x = 0 ∧ h.start.mouseReport.y = 0 := ⟨h.rest_x, h.rest_y⟩
  have hstart : (startTimer h.pressed h.key h.start).mouseReport = h.start.mouseReport ∧
      (startTimer h.pressed h.key h.start).mousekeyAccel = 0 := by
    unfold startTimer
    split <;> exact ⟨rfl, h.no_accel⟩
  have hmove := h.key_move
  have hunit : 0 < moveUnit cfg h.pressed (startTimer h.pressed h.key h.start) := speedUnit_pos _
  have hbutton : (cfg.pointingDevice && h.key.isButton) = false := by
    cases hkey : h.key <;> simp_all [Keycode.isMove, Keycode.isButton]
  have hpress : HeldBy h.key
      (pressKey cfg h.pressed h.key (startTimer h.pressed h.key h.start)) := by
    constructor
    · generalize startTimer h.pressed h.key h.start = s at hstart hunit ⊢
      rw [← hstart.1] at hrest
      cases hkey : h.key <;> simp only [hkey, Keycode.isMove, Bool.false_eq_true] at hmove <;>
        simp only [pressKey, Report.MovesBy] <;> omega
    · generalize startTimer h.pressed h.key h.start = s at hstart ⊢
      cases hkey : h.key <;> simp only [hkey, Keycode.isMove, Bool.false_eq_true] at hmove <;>
        exact hstart.2
  unfold held
  simp only [step, registerMouse, if_true, mousekeyOn, hbutton, Bool.false_eq_true, if_false]
  exact hpress.of_same (mousekeySend_same _ _)

theorem heldBy_call {call : Nat × State} (hcall : call ∈ h.dueCalls) : HeldBy h.key call.2 :=
  tasks_held (heldBy_held h) h.keeps (List.mem_filter.mp hcall).1

theorem dueCalls_ordered (h : Hold cfg) :
    h.dueCalls.Pairwise fun first second => h.elapsed first ≤ h.elapsed second := by
  have htimes : (h.events.map Prod.fst).Pairwise (· ≤ ·) := List.pairwise_map.mpr h.ordered
  have hcalls : h.calls.Pairwise fun first second => first.1 ≤ second.1 :=
    List.pairwise_map.mp (htimes.sublist (tasks_times cfg h.held h.events))
  apply (hcalls.sublist List.filter_sublist).imp
  intro first second hle
  exact Nat.div_le_div_right (Nat.sub_le_sub_right hle h.pressed)

theorem filterMap_eq_map_filter {α β : Type} (p : α → Prop) [DecidablePred p] (f : α → β)
    (calls : List α) :
    calls.filterMap (fun a => if p a then some (f a) else none) = (calls.filter p).map f := by
  induction calls with
  | nil => rfl
  | cons a calls ih => by_cases ha : p a <;> simp [ha, ih]

theorem movements_eq (h : Hold cfg) :
    h.movements = h.dueCalls.map fun call => speedUnit cfg (speedUsed cfg call.1 call.2) := by
  unfold movements dueCalls
  rw [← filterMap_eq_map_filter]
  apply List.filterMap_congr
  intro call hcall
  exact (tasks_held (heldBy_held h) h.keeps hcall).taskMovement_eq

/-- At the press the curve starts from the initial speed. -/
theorem press_speed (h : Hold cfg) :
    moveSpeed cfg h.pressed (startTimer h.pressed h.key h.start) = promisedSpeed cfg 0 := by
  have hstart : (startTimer h.pressed h.key h.start).mousekeyAccel = 0 ∧
      (startTimer h.pressed h.key h.start).mousekeyRepeat = 0 := by
    have hrepeat : h.start.mousekeyRepeat = 0 := run_repeats cfg h.before h.rest_x h.rest_y
    unfold startTimer
    split <;> exact ⟨h.no_accel, hrepeat⟩
  rw [moveSpeed_of_no_accel hstart.1, if_neg (fun hmoving => hmoving.1 hstart.2),
    promisedSpeed_zero]

theorem speed_iff {call : Nat × State} (hcall : call ∈ h.dueCalls) :
    speedUsed cfg call.1 call.2 = promisedSpeed cfg (h.elapsed call) ↔
      wrappedSpeed cfg (fiftieths call.1 call.2.mouseTimer) = exactSpeed cfg (h.elapsed call) ∨
        cfg.baseSpeed ≤ wrappedSpeed cfg (fiftieths call.1 call.2.mouseTimer) ∧
          cfg.baseSpeed ≤ exactSpeed cfg (h.elapsed call) := by
  rw [(heldBy_call hcall).speedUsed_eq, promisedSpeed]
  omega

/-- Where the speeds are right, the units never decrease exactly when no byte is dropped. -/
theorem monotone_iff
    (hspeed : ∀ call ∈ h.dueCalls,
      speedUsed cfg call.1 call.2 = promisedSpeed cfg (h.elapsed call)) :
    h.movements.Pairwise (· ≤ ·) ↔
      h.dueCalls.Pairwise fun first second =>
        ¬DropsByte cfg (h.quotient first) (h.quotient second) := by
  have hunits : h.movements =
      h.dueCalls.map fun call => speedUnit cfg (promisedSpeed cfg (h.elapsed call)) := by
    rw [movements_eq]
    apply List.map_congr_left
    intro call hcall
    rw [hspeed call hcall]
  rw [hunits, List.pairwise_map]
  constructor
  · intro hpairs
    apply (hpairs.and h.dueCalls_ordered).imp
    rintro first second ⟨hle, hordered⟩
    exact (speedUnit_le_iff (promisedSpeed_mono hordered)).mp hle
  · intro hpairs
    apply (hpairs.and h.dueCalls_ordered).imp
    rintro first second ⟨hwhole, hordered⟩
    exact (speedUnit_le_iff (promisedSpeed_mono hordered)).mpr hwhole

/-- A hold accelerates as promised exactly when its due calls are on the curve. -/
theorem accelerates_iff (h : Hold cfg) : h.Accelerates ↔ h.OnCurve := by
  constructor
  · rintro ⟨-, hspeed, hmonotone⟩
    exact ⟨fun call hcall => (speed_iff hcall).mp (hspeed call hcall),
      (monotone_iff hspeed).mp hmonotone⟩
  · rintro ⟨hfits, hwhole⟩
    have hspeed : ∀ call ∈ h.dueCalls,
        speedUsed cfg call.1 call.2 = promisedSpeed cfg (h.elapsed call) :=
      fun call hcall => (speed_iff hcall).mpr (hfits call hcall)
    exact ⟨press_speed h, hspeed, (monotone_iff hspeed).mpr hwhole⟩

/-- Within the width of the machine the wrapped curve is the exact one. -/
theorem wrappedSpeed_eq_exactSpeed {t : Nat}
    (hsquare : cfg.int.wrap (cfg.moveDelta * t * t) = cfg.moveDelta * t * t)
    (hsum : exactSpeed cfg t < 65536) : wrappedSpeed cfg t = exactSpeed cfg t := by
  rw [wrappedSpeed, hsquare]
  exact Nat.mod_eq_of_lt hsum

theorem mouseTimer_held (h : Hold cfg) (hstart : h.start.mouseTimer = 0) :
    h.held.mouseTimer = timerRead h.pressed := by
  have hpress : ∀ s : State, (pressKey cfg h.pressed h.key s).mouseTimer = s.mouseTimer := by
    intro s
    cases h.key <;> rfl
  have htimer : (mousekeyOn cfg h.pressed h.key h.start).mouseTimer = timerRead h.pressed := by
    rw [mousekeyOn, hpress, startTimer, if_pos ⟨hstart, by simp [h.key_move]⟩]
  unfold held
  simp only [step, registerMouse, if_true]
  split
  · exact htimer
  · exact (mousekeySend_same _ _).timer.trans htimer

theorem timerElapsed_timerRead {now pressed : Nat} (hle : pressed ≤ now)
    (hlt : now < pressed + 65536) : timerElapsed now (timerRead pressed) = now - pressed := by
  simp only [timerElapsed, timerRead, BitVec.toNat_sub, BitVec.toNat_ofNat]
  omega

/-- A hold whose press starts the timer, whose curve stays inside the machine's width and whose
base speed has a quotient of eight bits accelerates as promised. -/
theorem accelerates_of_fits (h : Hold cfg) (hstart : h.start.mouseTimer = 0)
    (hpressed : timerRead h.pressed ≠ 0)
    (hfits : ∀ call ∈ h.dueCalls,
      cfg.int.wrap (cfg.moveDelta * h.elapsed call * h.elapsed call) =
          cfg.moveDelta * h.elapsed call * h.elapsed call ∧
        exactSpeed cfg (h.elapsed call) < 65536)
    (hbase : cfg.baseSpeed / (1000 / cfg.interval) < 256) : h.Accelerates := by
  apply (accelerates_iff h).mpr
  have htimer := mouseTimer_held h hstart
  constructor
  · intro call hcall
    have hmem := (List.mem_filter.mp hcall).1
    have hcalled : call.2.mouseTimer = timerRead h.pressed := by
      rw [← htimer]
      exact tasks_timer (heldBy_held h) h.keeps (htimer ▸ hpressed) hmem
    have htime : h.pressed ≤ call.1 ∧ call.1 < h.pressed + 65000 := by
      have hsub := (tasks_times cfg h.held h.events).subset (List.mem_map_of_mem hmem)
      obtain ⟨event, hevent, heq⟩ := List.mem_map.mp hsub
      rw [← heq]
      exact h.within event hevent
    have hcount : fiftieths call.1 call.2.mouseTimer = h.elapsed call := by
      rw [hcalled, fiftieths, if_neg hpressed, timerElapsed_timerRead htime.1 (by omega)]
      rfl
    rw [hcount]
    exact .inl (wrappedSpeed_eq_exactSpeed (hfits call hcall).1 (hfits call hcall).2)
  · have hquotient : ∀ call, h.quotient call < 256 := fun call =>
      Nat.lt_of_le_of_lt (Nat.div_le_div_right (Nat.min_le_left _ _)) hbase
    apply h.dueCalls_ordered.imp
    rintro first second - ⟨hpasses, -, -⟩
    have := hquotient second
    omega

end Hold

/-- The settings of `mousekey.h` with `MK_KINETIC_SPEED`. -/
def defaultConfig : Config where
  int := .bits32
  initialSpeed := 100
  baseSpeed := 5000
  deceleratedSpeed := 400
  acceleratedSpeed := 3000
  moveDelta := 16
  moveMax := 127
  interval := 10
  delay := 0
  wheelInitialMovements := 16
  wheelBaseMovements := 32
  wheelDeceleratedMovements := 8
  wheelAcceleratedMovements := 48
  wheelDelay := 1
  pointingDevice := false
  initialSpeed_le := by decide
  baseSpeed_lt := by decide
  one_le_moveDelta := by decide
  moveDelta_le := by decide
  interval_pos := by decide
  interval_le := by decide
  moveMax_pos := by decide
  moveMax_le := by decide

/-- The cursor is moved to the right for four and a half seconds. -/
def longHold : Hold defaultConfig where
  before := []
  key := .cursorRight
  pressed := 1
  events := [(4401, .task), (4501, .task)]
  key_move := rfl
  rest_x := rfl
  rest_y := rfl
  no_accel := rfl
  ordered := by decide
  within := by decide
  keeps := by simp [Event.Keeps]

/-- From one call to the next the curve passes 65535, and the units go from 50 to 8. -/
theorem longHold_not_accelerates : ¬longHold.Accelerates := by
  intro haccelerates
  have hunits : longHold.movements = [50, 8] := by decide
  have hmonotone := haccelerates.monotone
  rw [hunits] at hmonotone
  exact absurd hmonotone (by decide)

end Qmk.MouseKeys
