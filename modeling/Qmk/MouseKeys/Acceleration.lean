import Mathlib.Data.List.Pairwise
import Mathlib.Tactic.SplitIfs
import Qmk.MouseKeys.Kinetic

/-!
# Kinetic acceleration over a hold

The speeds and the movement units of one held movement key, against the curve
`I + A * T + A * T * T / 2` in exact arithmetic.
-/

namespace Qmk.MouseKeys

open Qmk.Lib

section Units

variable (cfg : Config)

/-- The curve of the comment above `move_unit`, with no limit on its size. -/
def exactSpeed (t : Nat) : Nat :=
  cfg.initialSpeed + cfg.moveDelta * t + cfg.moveDelta * t * t / 2

/-- The same curve when its square and its sum have the widths of the machine. -/
def wrappedSpeed (t : Nat) : Nat :=
  (cfg.initialSpeed + cfg.moveDelta * t + cfg.int.wrap (cfg.moveDelta * t * t) / 2) % 65536

/-- The speed that the curve promises: never above the base speed. -/
def promisedSpeed (t : Nat) : Nat := min cfg.baseSpeed (exactSpeed cfg t)

variable {cfg}

theorem IntWidth.wrap_mul (int : IntWidth) (a b : Nat) :
    int.wrap (int.wrap a * b) = int.wrap (a * b) := by
  cases int <;> simp [IntWidth.wrap, Nat.mul_mod]

theorem IntWidth.wrap_mod (int : IntWidth) (n : Nat) : int.wrap n % 65536 = n % 65536 := by
  cases int <;> simp [IntWidth.wrap]

theorem kineticSpeed_eq (t : Nat) : kineticSpeed cfg t = wrappedSpeed cfg t := by
  have hproduct := IntWidth.wrap_mod cfg.int (cfg.moveDelta * t)
  unfold kineticSpeed wrappedSpeed
  simp only [IntWidth.wrap_mul]
  omega

/-- Thirty-two bits hold every product, so that only the assignment to `speed` can wrap. -/
theorem product_lt (now : Nat) (last : BitVec 16) :
    cfg.moveDelta * (timerElapsed now last / 50) * (timerElapsed now last / 50) < 2147483648 := by
  have ht : timerElapsed now last / 50 ≤ 1310 := by
    have := (timerRead now - last).isLt
    unfold timerElapsed
    omega
  have hline := Nat.mul_le_mul cfg.moveDelta_le ht
  have hsquare := Nat.mul_le_mul hline ht
  omega

theorem exactSpeed_mono {t u : Nat} (h : t ≤ u) : exactSpeed cfg t ≤ exactSpeed cfg u := by
  have hline := Nat.mul_le_mul_left cfg.moveDelta h
  have hsquare := Nat.mul_le_mul hline h
  unfold exactSpeed
  omega

theorem promisedSpeed_mono {t u : Nat} (h : t ≤ u) :
    promisedSpeed cfg t ≤ promisedSpeed cfg u := by
  have hexact : exactSpeed cfg t ≤ exactSpeed cfg u := exactSpeed_mono h
  unfold promisedSpeed
  omega

@[simp] theorem promisedSpeed_zero : promisedSpeed cfg 0 = cfg.initialSpeed := by
  have := cfg.initialSpeed_le
  simp only [promisedSpeed, exactSpeed]
  omega

@[simp] theorem wrappedSpeed_zero : wrappedSpeed cfg 0 = cfg.initialSpeed := by
  have hle := cfg.initialSpeed_le
  have hlt := cfg.baseSpeed_lt
  cases hint : cfg.int <;> simp [wrappedSpeed, hint, IntWidth.wrap] <;> omega

theorem speedUnit_eq (speed : Nat) :
    speedUnit cfg speed = max 1 (min cfg.moveMax (speed / (1000 / cfg.interval) % 256)) := by
  have := cfg.moveMax_pos
  simp only [speedUnit]
  split
  · omega
  · split <;> omega

theorem speedUnit_pos (speed : Nat) : 0 < speedUnit cfg speed := by
  rw [speedUnit_eq]
  omega

end Units

section Frames

variable {cfg : Config} {now : Nat} {s t u : State}

/-- The two states agree in what moves the cursor. -/
structure SameCursor (s t : State) : Prop where
  x : s.mouseReport.x = t.mouseReport.x
  y : s.mouseReport.y = t.mouseReport.y
  accel : s.mousekeyAccel = t.mousekeyAccel
  rep : s.mousekeyRepeat = t.mousekeyRepeat
  timer : s.mouseTimer = t.mouseTimer

theorem SameCursor.refl (s : State) : SameCursor s s := ⟨rfl, rfl, rfl, rfl, rfl⟩

theorem SameCursor.trans (h : SameCursor s t) (h' : SameCursor t u) : SameCursor s u :=
  ⟨h.x.trans h'.x, h.y.trans h'.y, h.accel.trans h'.accel, h.rep.trans h'.rep,
    h.timer.trans h'.timer⟩

theorem mousekeySend_same (now : Nat) (s : State) : SameCursor (mousekeySend now s) s := by
  simp only [mousekeySend]
  split_ifs <;> exact ⟨rfl, rfl, rfl, rfl, rfl⟩

theorem bumpWheelRepeat_same (s : State) : SameCursor (bumpWheelRepeat s) s := by
  unfold bumpWheelRepeat
  split <;> exact ⟨rfl, rfl, rfl, rfl, rfl⟩

theorem wheelTask_same (tmpmr : Report) (s : State) :
    SameCursor (wheelTask cfg now tmpmr s) s := by
  apply SameCursor.trans ?_ (bumpWheelRepeat_same s)
  unfold wheelTask wheelUnit
  by_cases hv : tmpmr.v = 0 <;> by_cases hh : tmpmr.h = 0 <;> simp only [hv, hh, ne_eq,
    not_true_eq_false, not_false_eq_true, if_true, if_false] <;>
    split <;> exact ⟨rfl, rfl, rfl, rfl, rfl⟩

end Frames

end Qmk.MouseKeys
