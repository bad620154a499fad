import Qmk.Lib.Run

/-!
# Kinetic mouse keys

`mousekey.c` as it is built with `MK_KINETIC_SPEED`: the units of a movement and of the
wheel, the task, the presses and releases, and the reports that are sent.  Time is counted in
milliseconds; the code sees sixteen bits of it.
-/

namespace Qmk.MouseKeys

/-- `int` has sixteen bits on AVR and thirty-two elsewhere. -/
inductive IntWidth
  | bits16
  | bits32
  deriving DecidableEq

/-- Where `int` is as narrow as `uint16_t`, a product with a `uint16_t` is unsigned and wraps. -/
def IntWidth.wrap : IntWidth → Nat → Nat
  | .bits16, n => n % 65536
  | .bits32, n => n

/-- The quotient of an `int16_t` by a `uint16_t`, kept in an `int8_t`. -/
def IntWidth.div : IntWidth → Int → Int → Int
  | .bits16, n, d => n / d
  | .bits32, n, d => n.tdiv d

structure Config where
  int : IntWidth
  /-- `mk_initial_speed`, `mk_base_speed` and the speeds of the acceleration keys. -/
  initialSpeed : Nat
  baseSpeed : Nat
  deceleratedSpeed : Nat
  acceleratedSpeed : Nat
  /-- `MOUSEKEY_MOVE_DELTA`, `MOUSEKEY_MOVE_MAX`, `mk_interval` and `mk_delay`. -/
  moveDelta : Nat
  moveMax : Nat
  interval : Nat
  delay : Nat
  /-- The `MOUSEKEY_WHEEL_*_MOVEMENTS` and `mk_wheel_delay`. -/
  wheelInitialMovements : Nat
  wheelBaseMovements : Nat
  wheelDeceleratedMovements : Nat
  wheelAcceleratedMovements : Nat
  wheelDelay : Nat
  /-- `PS2_MOUSE_ENABLE` or `POINTING_DEVICE_ENABLE`, which leave the buttons to another driver. -/
  pointingDevice : Bool
  initialSpeed_le : initialSpeed ≤ baseSpeed
  baseSpeed_lt : baseSpeed < 65536
  one_le_moveDelta : 1 ≤ moveDelta
  moveDelta_le : moveDelta ≤ 255
  interval_pos : 0 < interval
  interval_le : interval ≤ 255
  moveMax_pos : 0 < moveMax
  moveMax_le : moveMax ≤ 127

inductive Keycode
  | cursorUp
  | cursorDown
  | cursorLeft
  | cursorRight
  | button (n : Fin 8)
  | wheelUp
  | wheelDown
  | wheelLeft
  | wheelRight
  | acceleration (n : Fin 3)
  deriving DecidableEq

/-- `IS_MOUSEKEY_MOVE`. -/
def Keycode.isMove : Keycode → Bool
  | .cursorUp | .cursorDown | .cursorLeft | .cursorRight => true
  | _ => false

/-- `IS_MOUSEKEY_WHEEL`. -/
def Keycode.isWheel : Keycode → Bool
  | .wheelUp | .wheelDown | .wheelLeft | .wheelRight => true
  | _ => false

/-- `IS_MOUSEKEY_ACCEL`. -/
def Keycode.isAccel : Keycode → Bool
  | .acceleration _ => true
  | _ => false

/-- `IS_MOUSEKEY_BUTTON`. -/
def Keycode.isButton : Keycode → Bool
  | .button _ => true
  | _ => false

structure Report where
  buttons : BitVec 8 := 0
  x : Int := 0
  y : Int := 0
  v : Int := 0
  h : Int := 0
  deriving DecidableEq

structure State where
  mouseReport : Report := {}
  mousekeyAccel : BitVec 8 := 0
  mousekeyRepeat : Nat := 0
  mousekeyWheelRepeat : Nat := 0
  mouseTimer : BitVec 16 := 0
  lastTimerC : BitVec 16 := 0
  lastTimerW : BitVec 16 := 0
  mkWheelInterval : Nat
  deriving DecidableEq

def timerRead (now : Nat) : BitVec 16 := BitVec.ofNat 16 now

def timerElapsed (now : Nat) (last : BitVec 16) : Nat := (timerRead now - last).toNat

variable (cfg : Config)

def State.initial : State := { mkWheelInterval := 1000 / cfg.wheelInitialMovements }

/-- The curve of `move_unit` before it is limited, in the arithmetic of the machine. -/
def kineticSpeed (timeElapsed : Nat) : Nat :=
  let product := cfg.int.wrap (cfg.moveDelta * timeElapsed)
  (cfg.initialSpeed + product + cfg.int.wrap (product * timeElapsed) / 2) % 65536

/-- The first half of `move_unit`: the speed before it is converted to USB units. -/
def moveSpeed (now : Nat) (s : State) : Nat :=
  if s.mousekeyAccel &&& 1 ≠ 0 then cfg.deceleratedSpeed
  else if s.mousekeyAccel &&& 4 ≠ 0 then cfg.acceleratedSpeed
  else if s.mousekeyRepeat ≠ 0 ∧ s.mouseTimer ≠ 0 then
    let speed := kineticSpeed cfg (timerElapsed now s.mouseTimer / 50)
    if speed > cfg.baseSpeed then cfg.baseSpeed else speed
  else cfg.initialSpeed

/-- The second half of `move_unit`, with its cast to eight bits. -/
def speedUnit (speed : Nat) : Nat :=
  let speed := speed / (1000 / cfg.interval) % 256
  if speed > cfg.moveMax then cfg.moveMax else if speed < 1 then 1 else speed

def moveUnit (now : Nat) (s : State) : Nat := speedUnit cfg (moveSpeed cfg now s)

def wheelSpeed (now : Nat) (s : State) : Nat :=
  if s.mousekeyAccel &&& 1 ≠ 0 then cfg.wheelDeceleratedMovements
  else if s.mousekeyAccel &&& 4 ≠ 0 then cfg.wheelAcceleratedMovements
  else if s.mousekeyWheelRepeat ≠ 0 ∧ s.mouseTimer ≠ 0 then
    let timeElapsed := timerElapsed now s.mouseTimer / 50
    let speed :=
      if s.mkWheelInterval ≠ cfg.wheelBaseMovements then
        (cfg.wheelInitialMovements + timeElapsed +
          cfg.int.wrap (timeElapsed * timeElapsed) / 2) % 65536
      else cfg.wheelInitialMovements
    if speed > cfg.wheelBaseMovements then cfg.wheelBaseMovements else speed
  else cfg.wheelInitialMovements

/-- The unit of the wheel is always 1; the speed is in the interval.  A speed of 0 has no
quotient in C and the quotient 0 here; no movement of the cursor depends on it. -/
def wheelUnit (now : Nat) (s : State) : Int × State :=
  (1, { s with mkWheelInterval := 1000 / wheelSpeed cfg now s })

def timesInvSqrt2 (x : Int) : Int :=
  let n := x * 181
  if n < 0 then cfg.int.div (n - 128) 256 else cfg.int.div (n + 128) 256

def hasMouseReportChanged (new old : Report) : Bool :=
  new.buttons ≠ old.buttons || (new.x ≠ 0 && new.x ≠ old.x) || (new.y ≠ 0 && new.y ≠ old.y) ||
    (new.h ≠ 0 && new.h ≠ old.h) || (new.v ≠ 0 && new.v ≠ old.v)

def shouldMousekeyReportSend (report : Report) : Bool :=
  report.x ≠ 0 || report.y ≠ 0 || report.v ≠ 0 || report.h ≠ 0

/-- The report handed to the host is `mouse_report` as it stands. -/
def mousekeySend (now : Nat) (s : State) : State :=
  let time := timerRead now
  let s := if s.mouseReport.x ≠ 0 ∨ s.mouseReport.y ≠ 0 then { s with lastTimerC := time } else s
  if s.mouseReport.v ≠ 0 ∨ s.mouseReport.h ≠ 0 then { s with lastTimerW := time } else s

/-- A diagonal is shortened by 1/sqrt(2), to no less than a unit. -/
def diagonal (a : Int) : Int :=
  let a := timesInvSqrt2 cfg a
  if a = 0 then 1 else a

/-- Is it time for the next movement of the cursor? -/
def moveDue (now : Nat) (s : State) : Prop :=
  (s.mouseReport.x ≠ 0 ∨ s.mouseReport.y ≠ 0) ∧
    (if s.mousekeyRepeat ≠ 0 then cfg.interval else cfg.delay * 10) <
      timerElapsed now s.lastTimerC

instance (now : Nat) (s : State) : Decidable (moveDue cfg now s) :=
  inferInstanceAs (Decidable (_ ∧ _))

def wheelDue (now : Nat) (s : State) : Prop :=
  (s.mouseReport.v ≠ 0 ∨ s.mouseReport.h ≠ 0) ∧
    (if s.mousekeyWheelRepeat ≠ 0 then s.mkWheelInterval else cfg.wheelDelay * 10) <
      timerElapsed now s.lastTimerW

instance (now : Nat) (s : State) : Decidable (wheelDue cfg now s) :=
  inferInstanceAs (Decidable (_ ∧ _))

/-- `if (mousekey_repeat != UINT8_MAX) mousekey_repeat++`. -/
def bumpRepeat (s : State) : State :=
  if s.mousekeyRepeat ≠ 255 then { s with mousekeyRepeat := s.mousekeyRepeat + 1 } else s

def bumpWheelRepeat (s : State) : State :=
  if s.mousekeyWheelRepeat ≠ 255 then
    { s with mousekeyWheelRepeat := s.mousekeyWheelRepeat + 1 }
  else s

def sign (a : Int) : Int := if 0 < a then 1 else -1

/-- The movement of the cursor in `mousekey_task`, with `tmpmr` the saved report. -/
def moveTask (now : Nat) (tmpmr : Report) (s : State) : State :=
  let s := bumpRepeat s
  let unit : Int := moveUnit cfg now s
  let x := if tmpmr.x ≠ 0 then unit * sign tmpmr.x else 0
  let y := if tmpmr.y ≠ 0 then unit * sign tmpmr.y else 0
  if x ≠ 0 ∧ y ≠ 0 then
    { s with mouseReport := { s.mouseReport with x := diagonal cfg x, y := diagonal cfg y } }
  else { s with mouseReport := { s.mouseReport with x := x, y := y } }

/-- The movement of the wheel in `mousekey_task`. -/
def wheelTask (now : Nat) (tmpmr : Report) (s : State) : State :=
  let s := bumpWheelRepeat s
  let (v, s) :=
    if tmpmr.v ≠ 0 then
      let (unit, s) := wheelUnit cfg now s
      (unit * sign tmpmr.v, s)
    else (0, s)
  let (h, s) :=
    if tmpmr.h ≠ 0 then
      let (unit, s) := wheelUnit cfg now s
      (unit * sign tmpmr.h, s)
    else (0, s)
  if v ≠ 0 ∧ h ≠ 0 then
    { s with mouseReport := { s.mouseReport with v := diagonal cfg v, h := diagonal cfg h } }
  else { s with mouseReport := { s.mouseReport with v := v, h := h } }

/-- `mousekey_task` up to the movement of the cursor. -/
def cursorTask (now : Nat) (s : State) : State :=
  let cleared := { s with mouseReport := { buttons := s.mouseReport.buttons } }
  if moveDue cfg now s then moveTask cfg now s.mouseReport cleared else cleared

/-- `mousekey_task` up to the decision to send. -/
def taskReport (now : Nat) (s : State) : State :=
  if wheelDue cfg now s then wheelTask cfg now s.mouseReport (cursorTask cfg now s)
  else cursorTask cfg now s

/-- The state after `mousekey_task`, and the report when it sends one. -/
def mousekeyTask (now : Nat) (s : State) : State × Option Report :=
  let next := taskReport cfg now s
  let report := next.mouseReport
  if hasMouseReportChanged report s.mouseReport || shouldMousekeyReportSend report then
    ({ mousekeySend now next with mouseReport := s.mouseReport }, some report)
  else ({ next with mouseReport := s.mouseReport }, none)

/-- The first lines of `mousekey_on`: movement and wheel keys start the kinetic timer. -/
def startTimer (now : Nat) (code : Keycode) (s : State) : State :=
  if s.mouseTimer = 0 ∧ (code.isMove || code.isWheel) then { s with mouseTimer := timerRead now }
  else s

def pressKey (now : Nat) (code : Keycode) (s : State) : State :=
  let r := s.mouseReport
  let unit : Int := moveUnit cfg now s
  let (wheel, turned) := wheelUnit cfg now s
  match code with
  | .cursorUp => { s with mouseReport := { r with y := -unit } }
  | .cursorDown => { s with mouseReport := { r with y := unit } }
  | .cursorLeft => { s with mouseReport := { r with x := -unit } }
  | .cursorRight => { s with mouseReport := { r with x := unit } }
  | .wheelUp => { turned with mouseReport := { r with v := wheel } }
  | .wheelDown => { turned with mouseReport := { r with v := -wheel } }
  | .wheelLeft => { turned with mouseReport := { r with h := -wheel } }
  | .wheelRight => { turned with mouseReport := { r with h := wheel } }
  | .button n => { s with mouseReport := { r with buttons := r.buttons ||| 1#8 <<< n.val } }
  | .acceleration n => { s with mousekeyAccel := s.mousekeyAccel ||| 1#8 <<< n.val }

def mousekeyOn (now : Nat) (code : Keycode) (s : State) : State :=
  pressKey cfg now code (startTimer now code s)

def releaseKey (code : Keycode) (s : State) : State :=
  let r := s.mouseReport
  match code with
  | .cursorUp => if r.y < 0 then { s with mouseReport := { r with y := 0 } } else s
  | .cursorDown => if r.y > 0 then { s with mouseReport := { r with y := 0 } } else s
  | .cursorLeft => if r.x < 0 then { s with mouseReport := { r with x := 0 } } else s
  | .cursorRight => if r.x > 0 then { s with mouseReport := { r with x := 0 } } else s
  | .wheelUp => if r.v > 0 then { s with mouseReport := { r with v := 0 } } else s
  | .wheelDown => if r.v < 0 then { s with mouseReport := { r with v := 0 } } else s
  | .wheelLeft => if r.h < 0 then { s with mouseReport := { r with h := 0 } } else s
  | .wheelRight => if r.h > 0 then { s with mouseReport := { r with h := 0 } } else s
  | .button n => { s with mouseReport := { r with buttons := r.buttons &&& ~~~(1#8 <<< n.val) } }
  | .acceleration n => { s with mousekeyAccel := s.mousekeyAccel &&& ~~~(1#8 <<< n.val) }

def mousekeyOff (code : Keycode) (s : State) : State :=
  let s := releaseKey code s
  let s :=
    if s.mouseReport.x = 0 ∧ s.mouseReport.y = 0 then
      { s with mousekeyRepeat := 0, mouseTimer := 0 }
    else s
  if s.mouseReport.v = 0 ∧ s.mouseReport.h = 0 then { s with mousekeyWheelRepeat := 0 } else s

/-- The kinetic timer is not among what `mousekey_clear` resets. -/
def mousekeyClear (s : State) : State :=
  { s with mouseReport := {}, mousekeyRepeat := 0, mousekeyWheelRepeat := 0, mousekeyAccel := 0 }

def registerMouse (now : Nat) (code : Keycode) (pressed : Bool) (s : State) : State :=
  let s := if pressed then mousekeyOn cfg now code s else mousekeyOff code s
  if cfg.pointingDevice && code.isButton then s else mousekeySend now s

/-- `clear` is what `clear_keyboard_but_mods_and_keys` does to the mouse keys. -/
inductive Event
  | register (code : Keycode) (pressed : Bool)
  | clear
  | task
  deriving DecidableEq

def step (s : State) : Nat × Event → State
  | (now, .register code pressed) => registerMouse cfg now code pressed s
  | (now, .clear) => mousekeySend now (mousekeyClear s)
  | (now, .task) => (mousekeyTask cfg now s).1

end Qmk.MouseKeys
