import Mathlib.Algebra.Group.Nat.Defs
import Qmk.Lib.Sweep

/-!
# Scanning and debouncing

The matrices, the static variables and the `debounce()` function that the
algorithms of `quantum/debounce` share, and the sequences of scans that
`matrix_scan` delivers to it.
-/

namespace Qmk.Debounce

open Qmk.Lib

/-- The constants of a build: the counters of the algorithm have `counterBits`
bits, so `DEBOUNCE` is clamped to what they can hold. -/
structure Config (counterBits : Nat) where
  /-- `MATRIX_ROWS_PER_HAND`. -/
  rows : Nat
  /-- `MATRIX_COLS`. -/
  cols : Nat
  /-- The width of `matrix_row_t`. -/
  rowBits : Nat
  /-- The width of `fast_timer_t`. -/
  timerBits : Nat
  debounce : BitVec counterBits
  debounce_ne_zero : debounce ≠ 0#_

variable {counterBits : Nat} {cfg : Config counterBits} {γ V ι : Type}

/-- The longest elapsed time that a counter can hold. -/
def maxElapsed (counterBits : Nat) : Nat := 2 ^ counterBits - 1

def Config.period (cfg : Config counterBits) : Nat := cfg.debounce.toNat

theorem Config.period_pos : 0 < cfg.period := by
  have hne := cfg.debounce_ne_zero
  have : cfg.debounce.toNat ≠ 0 := fun h => hne (BitVec.eq_of_toNat_eq (by simpa using h))
  exact Nat.pos_of_ne_zero this

/-- `matrix_row_t[]`. -/
abbrev Matrix (cfg : Config counterBits) := Nat → BitVec cfg.rowBits

/-- The two matrices and the static variables of an algorithm. -/
structure State (cfg : Config counterBits) (γ : Type) where
  raw : Matrix cfg
  cooked : Matrix cfg
  counters : Nat → γ
  countersNeedUpdate : Bool
  matrixNeedUpdate : Bool
  cookedChanged : Bool
  lastTime : BitVec cfg.timerBits

/-- What an algorithm does in its two passes over the matrix. -/
structure Algorithm (cfg : Config counterBits) (γ : Type) where
  update : Nat → State cfg γ → State cfg γ
  transfer : State cfg γ → State cfg γ
  /-- The algorithm has `matrix_need_update`, which also calls for a transfer. -/
  rescans : Bool

/-- `DEBOUNCE_ELAPSED` everywhere, and both matrices the same. -/
def State.initial (start : Matrix cfg) (elapsed : γ) : State cfg γ where
  raw := start
  cooked := start
  counters _ := elapsed
  countersNeedUpdate := false
  matrixNeedUpdate := false
  cookedChanged := false
  lastTime := 0

/-- The counters' part of `debounce()`. -/
def Algorithm.elapse (alg : Algorithm cfg γ) (now : BitVec cfg.timerBits)
    (s : State cfg γ) : State cfg γ × Bool :=
  if s.countersNeedUpdate then
    let elapsedTime := (now - s.lastTime).toNat
    let s := { s with lastTime := now }
    if 0 < elapsedTime then
      (alg.update (min elapsedTime (maxElapsed counterBits)) s, true)
    else
      (s, true)
  else
    (s, false)

/-- `debounce()`, with the reading of the fast timer as an argument. -/
def Algorithm.debounce (alg : Algorithm cfg γ) (now : BitVec cfg.timerBits)
    (changed : Bool) (s : State cfg γ) : State cfg γ × Bool :=
  let (s, updatedLast) := alg.elapse now { s with cookedChanged := false }
  if changed || (alg.rescans && s.matrixNeedUpdate) then
    let s := if updatedLast then s else { s with lastTime := now }
    let s := alg.transfer s
    (s, s.cookedChanged)
  else
    (s, s.cookedChanged)

/-- A sequence of scans: the matrix before the first one, what each reads, and
when. -/
structure Scans (cfg : Config counterBits) where
  start : Matrix cfg
  raw : Nat → Matrix cfg
  time : Nat → Nat
  time_mono : ∀ n, time n ≤ time (n + 1)
  time_gap : ∀ n, time (n + 1) - time n < 2 ^ cfg.timerBits

namespace Scans

variable (scans : Scans cfg)

/-- The raw matrix before scan `n`. -/
def previous : Nat → Matrix cfg
  | 0 => scans.start
  | n + 1 => scans.raw n

/-- `timer_read_fast()` at scan `n`. -/
def reading (n : Nat) : BitVec cfg.timerBits := BitVec.ofNat _ (scans.time n)

/-- `changed`: the raw matrix is not the one before. -/
def changed (n : Nat) : Bool :=
  (List.range cfg.rows).any fun row => scans.raw n row != scans.previous n row

/-- The time between scan `n` and the one before. -/
def gap (n : Nat) : Nat := scans.time n - scans.time (n - 1)

theorem time_le {m n : Nat} (h : m ≤ n) : scans.time m ≤ scans.time n := by
  induction h with
  | refl => exact Nat.le_refl _
  | step _ ih => exact Nat.le_trans ih (scans.time_mono _)

@[simp] theorem gap_zero : scans.gap 0 = 0 := by simp [gap]

theorem reading_sub (n : Nat) :
    (scans.reading n - scans.reading (n - 1)).toNat = scans.gap n := by
  cases n with
  | zero => simp
  | succ n =>
      have hmono := scans.time_mono n
      have hgap := scans.time_gap n
      have hsub : scans.reading (n + 1) - scans.reading n =
          BitVec.ofNat cfg.timerBits (scans.time (n + 1) - scans.time n) := by
        apply BitVec.eq_of_toNat_eq
        have hle := Nat.mod_lt (scans.time n) (Nat.two_pow_pos cfg.timerBits)
        simp only [reading, BitVec.toNat_sub, BitVec.toNat_ofNat]
        rw [Nat.add_mod_mod, ← Nat.mod_add_mod, Nat.mod_add_mod]
        have hsplit : 2 ^ cfg.timerBits - scans.time n % 2 ^ cfg.timerBits +
            scans.time (n + 1) =
            scans.time (n + 1) - scans.time n + 2 ^ cfg.timerBits +
              2 ^ cfg.timerBits * (scans.time n / 2 ^ cfg.timerBits) := by
          have := Nat.mod_add_div (scans.time n) (2 ^ cfg.timerBits)
          omega
        rw [hsplit, Nat.add_mul_mod_self_left, Nat.add_mod_right]
      simp only [Nat.add_sub_cancel, gap, hsub, BitVec.toNat_ofNat]
      exact Nat.mod_eq_of_lt hgap

end Scans

section Run

variable (alg : Algorithm cfg γ) (elapsed : γ) (scans : Scans cfg)

/-- The state after `n` scans. -/
def stateAt : Nat → State cfg γ
  | 0 => .initial scans.start elapsed
  | n + 1 =>
      (alg.debounce (scans.reading n) (scans.changed n)
        { stateAt n with raw := scans.raw n }).1

/-- What `debounce()` returns at scan `n`. -/
def resultAt (n : Nat) : Bool :=
  (alg.debounce (scans.reading n) (scans.changed n)
    { stateAt alg elapsed scans n with raw := scans.raw n }).2

end Run

end Qmk.Debounce
