import Mathlib.Algebra.Group.Nat.Defs
import Qmk.Debounce.Machine

/-!
# The history of one unit

A `Track` is what the scans show of one unit.  For an algorithm whose transfer
has nothing left to do until a counter expires or the matrix changes, the unit
follows its machine over its own track: the other units do not show.
-/

namespace Qmk.Debounce

open Qmk.Lib

variable {counterBits : Nat} {cfg : Config counterBits} {γ V ι : Type}

/-- The values of one unit, and when they are read. -/
structure Track (V : Type) where
  start : V
  raw : Nat → V
  time : Nat → Nat
  time_mono : ∀ n, time n ≤ time (n + 1)

def Scans.track (scans : Scans cfg) (layout : Layout cfg V ι) (unit : ι) : Track V where
  start := layout.value unit scans.start
  raw n := layout.value unit (scans.raw n)
  time := scans.time
  time_mono := scans.time_mono

namespace Track

variable (track : Track V)

def gap (n : Nat) : Nat := track.time n - track.time (n - 1)

theorem time_le {m n : Nat} (h : m ≤ n) : track.time m ≤ track.time n := by
  induction h with
  | refl => exact Nat.le_refl _
  | step _ ih => exact Nat.le_trans ih (track.time_mono _)

end Track

/-- The unit before scan `n` when the machine alone decides. -/
def Machine.cellAt (machine : Machine V γ) (elapsed : γ) (track : Track V) :
    Nat → Cell V γ
  | 0 => ⟨track.start, track.start, elapsed⟩
  | n + 1 =>
      machine.transfer
        (machine.update (track.gap n) ((cellAt machine elapsed track n).read (track.raw n)))

/-- A transfer that has been made is not called for again by time alone. -/
structure Machine.Settling (machine : Machine V γ) (elapsed : γ) : Prop where
  starts : machine.StartsAt elapsed
  transfer_start : ∀ value, machine.transfer ⟨value, value, elapsed⟩ = ⟨value, value, elapsed⟩
  transfer_transfer : ∀ cell, machine.transfer (machine.transfer cell) = machine.transfer cell
  transfer_update : ∀ gap cell, machine.transfer cell = cell →
    machine.wakes gap cell = false →
    machine.transfer (machine.update gap cell) = machine.update gap cell

section Settled

variable {machine : Machine V γ} {elapsed : γ}

theorem Machine.Settling.transfer_cellAt (settling : machine.Settling elapsed)
    (track : Track V) (n : Nat) :
    machine.transfer (machine.cellAt elapsed track n) = machine.cellAt elapsed track n := by
  cases n with
  | zero => exact settling.transfer_start _
  | succ n => exact settling.transfer_transfer _

variable {alg : Algorithm cfg γ} {layout : Layout cfg V ι}

theorem Scans.previous_eq (layout : Layout cfg V ι) {scans : Scans cfg} {n : Nat}
    (h : scans.changed n = false) (unit : ι) :
    layout.value unit (scans.raw n) = layout.value unit (scans.previous n) := by
  refine layout.value_local unit _ _ fun row hrow => ?_
  simp only [Scans.changed, List.any_eq_false, List.mem_range, bne_iff_ne, ne_eq,
    Decidable.not_not] at h
  exact h row hrow

variable [DecidableEq V]

theorem Algorithm.Realizes.raw_eq (real : alg.Realizes layout machine)
    (hstart : machine.StartsAt elapsed) (scans : Scans cfg) (n : Nat) :
    (stateAt alg elapsed scans n).raw = scans.previous n := by
  cases n with
  | zero => rfl
  | succ n => exact (real.scanned hstart scans n).raw_eq

theorem Algorithm.Realizes.readView_eq (real : alg.Realizes layout machine)
    (hstart : machine.StartsAt elapsed) {scans : Scans cfg} {n : Nat}
    (h : scans.changed n = false) (unit : ι) :
    layout.readView (stateAt alg elapsed scans n) (scans.raw n) unit =
      layout.view (stateAt alg elapsed scans n) unit := by
  have hraw := real.raw_eq hstart scans n
  have hsame : layout.value unit (scans.raw n) =
      (layout.view (stateAt alg elapsed scans n) unit).raw := by
    rw [Scans.previous_eq layout h unit, ← hraw]
    rfl
  rw [Layout.readView, hsame]
  rfl

theorem Algorithm.Realizes.view_eq (real : alg.Realizes layout machine)
    (settling : machine.Settling elapsed) (scans : Scans cfg) (unit : ι)
    (n : Nat) :
    layout.view (stateAt alg elapsed scans n) unit =
      machine.cellAt elapsed (scans.track layout unit) n := by
  induction n with
  | zero => rfl
  | succ n ih =>
      have scanned := real.scanned settling.starts scans n
      have hstep : machine.cellAt elapsed (scans.track layout unit) (n + 1) =
          machine.transfer (machine.update (scans.gap n)
            (layout.readView (stateAt alg elapsed scans n) (scans.raw n) unit)) := by
        rw [Layout.readView, ih]
        rfl
      by_cases htransfers : Transfers machine (scans.gap n) (scans.changed n)
          (layout.readView (stateAt alg elapsed scans n) (scans.raw n))
      · exact (scanned.transferred htransfers unit).trans hstep.symm
      · -- without a transfer the unit is read as it was, and has settled
        obtain ⟨hchanged, hwakes⟩ := not_or.mp htransfers
        have hread := real.readView_eq settling.starts (by simpa using hchanged) unit
        have hquiet : machine.wakes (scans.gap n) (layout.readView
            (stateAt alg elapsed scans n) (scans.raw n) unit) = false := by
          have hnone := fun hwake => hwakes ⟨unit, hwake⟩
          simpa using hnone
        have hsettled := settling.transfer_cellAt (scans.track layout unit) n
        rw [← ih, ← hread] at hsettled
        rw [hstep, settling.transfer_update _ _ hsettled hquiet]
        exact scanned.updated htransfers unit

/-- `debounce()` reports exactly the scans that change a cooked value. -/
theorem Algorithm.Realizes.resultAt_iff (real : alg.Realizes layout machine)
    (hstart : machine.StartsAt elapsed) (scans : Scans cfg) (n : Nat) :
    resultAt alg elapsed scans n = true ↔
      ∃ unit, layout.value unit (stateAt alg elapsed scans (n + 1)).cooked ≠
        layout.value unit (stateAt alg elapsed scans n).cooked :=
  (real.scanned hstart scans n).returned

/-- The cooked value of a unit is the machine's over the unit's track. -/
theorem Algorithm.Realizes.cooked_eq (real : alg.Realizes layout machine)
    (settling : machine.Settling elapsed) (scans : Scans cfg) (unit : ι) (n : Nat) :
    layout.value unit (stateAt alg elapsed scans n).cooked =
      (machine.cellAt elapsed (scans.track layout unit) n).cooked :=
  congrArg Cell.cooked (real.view_eq settling scans unit n)

/-- Two runs that agree on the times and on one unit agree on its cooked values. -/
theorem Algorithm.Realizes.cooked_congr (real : alg.Realizes layout machine)
    (settling : machine.Settling elapsed) {scans other : Scans cfg} {unit : ι}
    (htrack : other.track layout unit = scans.track layout unit) (n : Nat) :
    layout.value unit (stateAt alg elapsed other n).cooked =
      layout.value unit (stateAt alg elapsed scans n).cooked := by
  rw [real.cooked_eq settling, real.cooked_eq settling, htrack]

end Settled

section CountDown

variable {w : Nat}

/-- A counter after `elapsed` more milliseconds. -/
def countDown (elapsed : Nat) (counter : BitVec w) : BitVec w :=
  if counter.toNat ≤ elapsed then 0#w else counter - BitVec.ofNat w elapsed

@[simp] theorem toNat_countDown (elapsed : Nat) (counter : BitVec w) :
    (countDown elapsed counter).toNat = counter.toNat - elapsed := by
  unfold countDown
  split
  · rename_i hle
    rw [Nat.sub_eq_zero_of_le hle]
    rfl
  · rename_i hgt
    have hlt : elapsed < counter.toNat := Nat.lt_of_not_le hgt
    have hof : (BitVec.ofNat w elapsed).toNat = elapsed := by
      rw [BitVec.toNat_ofNat]
      exact Nat.mod_eq_of_lt (Nat.lt_trans hlt counter.isLt)
    rw [BitVec.toNat_sub_of_le (by rw [BitVec.le_def, hof]; omega), hof]

theorem countDown_zero (counter : BitVec w) : countDown 0 counter = counter :=
  BitVec.eq_of_toNat_eq (by simp)

@[simp] theorem countDown_elapsed (elapsed : Nat) : countDown elapsed 0#w = 0#w :=
  BitVec.eq_of_toNat_eq (by simp)

theorem min_maxElapsed_le_iff (elapsed : Nat) (counter : BitVec w) :
    counter.toNat ≤ min elapsed (maxElapsed w) ↔ counter.toNat ≤ elapsed := by
  have := counter.isLt
  simp only [maxElapsed]
  omega

theorem countDown_clamp (elapsed : Nat) (counter : BitVec w) :
    countDown (min elapsed (maxElapsed w)) counter = countDown elapsed counter := by
  have := counter.isLt
  apply BitVec.eq_of_toNat_eq
  rw [toNat_countDown, toNat_countDown, maxElapsed]
  omega

theorem countDown_eq_zero_iff {elapsed : Nat} {counter : BitVec w} :
    countDown elapsed counter = 0#w ↔ counter.toNat ≤ elapsed := by
  rw [← BitVec.toNat_inj, toNat_countDown, BitVec.toNat_zero]
  omega

/-- The counter runs out in the next `elapsed` milliseconds. -/
def expires (elapsed : Nat) (counter : BitVec w) : Bool :=
  counter ≠ 0#w ∧ counter.toNat ≤ elapsed

theorem expires_clamp (elapsed : Nat) (counter : BitVec w) :
    expires (min elapsed (maxElapsed w)) counter = expires elapsed counter := by
  simp only [expires, min_maxElapsed_le_iff]

theorem expires_zero (counter : BitVec w) : expires 0 counter = false := by
  simp only [expires, ne_eq, decide_eq_false_iff_not, not_and, Nat.le_zero_eq]
  exact fun hne hzero => hne (BitVec.eq_of_toNat_eq hzero)

theorem toNat_eq_zero_iff {counter : BitVec w} : counter.toNat = 0 ↔ counter = 0#w := by
  rw [← BitVec.toNat_inj, BitVec.toNat_zero]

theorem expires_iff {elapsed : Nat} {counter : BitVec w} :
    expires elapsed counter = true ↔ 0 < counter.toNat ∧ counter.toNat ≤ elapsed := by
  simp only [expires, decide_eq_true_eq, ne_eq, ← toNat_eq_zero_iff]
  omega

theorem expires_eq_false_iff {elapsed : Nat} {counter : BitVec w} :
    expires elapsed counter = false ↔ counter.toNat = 0 ∨ elapsed < counter.toNat := by
  rw [← Bool.not_eq_true, expires_iff]
  omega

end CountDown

end Qmk.Debounce
