import Mathlib.Tactic.SplitIfs
import Qmk.Debounce.Layouts

/-!
# `sym_defer_pr`

Symmetric debouncing for each row, with one counter for the row.  Any change of the
matrix restarts the counter of every row that waits, and a counter that runs out
takes over the row as it is read at that scan.
-/

namespace Qmk.Debounce.SymDeferPr

open Qmk.Lib

variable {cfg : Config 8}

/-- One row of `update_debounce_counters_and_transfer_if_expired`. -/
def updateRow (elapsedTime row : Nat) (s : State cfg (BitVec 8)) : State cfg (BitVec 8) :=
  if s.counters row ≠ 0#8 then
    if (s.counters row).toNat ≤ elapsedTime then
      { s with
        counters := Function.update s.counters row 0#8
        cookedChanged := s.cookedChanged || decide (s.cooked row ^^^ s.raw row ≠ 0#_)
        cooked := Function.update s.cooked row (s.raw row) }
    else
      { s with
        counters := Function.update s.counters row
          (s.counters row - BitVec.ofNat 8 elapsedTime)
        countersNeedUpdate := true }
  else
    s

def updateDebounceCountersAndTransferIfExpired (elapsedTime : Nat)
    (s : State cfg (BitVec 8)) : State cfg (BitVec 8) :=
  forRange cfg.rows (updateRow elapsedTime) { s with countersNeedUpdate := false }

/-- One row of `start_debounce_counters`. -/
def startRow (row : Nat) (s : State cfg (BitVec 8)) : State cfg (BitVec 8) :=
  if s.raw row ≠ s.cooked row then
    { s with
      counters := Function.update s.counters row cfg.debounce
      countersNeedUpdate := true }
  else
    { s with counters := Function.update s.counters row 0#8 }

def startDebounceCounters (s : State cfg (BitVec 8)) : State cfg (BitVec 8) :=
  forRange cfg.rows startRow s

def algorithm (cfg : Config 8) : Algorithm cfg (BitVec 8) where
  update := updateDebounceCountersAndTransferIfExpired
  transfer := startDebounceCounters
  rescans := false

section Machine

variable {V : Type} [DecidableEq V]

/-- One row on its own. -/
def machine (V : Type) [DecidableEq V] (debounce : BitVec 8) : Machine V (BitVec 8) where
  update elapsed cell :=
    { cell with
      cooked := if expires elapsed cell.counter then cell.raw else cell.cooked
      counter := countDown elapsed cell.counter }
  transfer cell := { cell with counter := if cell.raw ≠ cell.cooked then debounce else 0#8 }
  pending cell := cell.counter ≠ 0#8
  wakes _ _ := false
  starts cell := cell.raw ≠ cell.cooked

theorem machine_lawful (debounce : BitVec 8) : (machine V debounce).Lawful 8 where
  update_raw _ _ := rfl
  transfer_raw _ := rfl
  update_idle elapsed cell h := by
    have hzero : cell.counter = 0#8 := by simpa [machine] using h
    exact Cell.ext rfl (by simp [machine, hzero, expires]) (by simp [machine, hzero])
  wakes_idle _ _ _ := rfl
  update_zero cell := by simp [machine, countDown_zero, expires_zero]
  wakes_zero _ := rfl
  update_clamp elapsed cell := by simp only [machine, countDown_clamp, expires_clamp]
  wakes_clamp _ _ := rfl
  pending_read _ _ := rfl
  pending_transfer cell h := by
    by_cases hsame : cell.raw = cell.cooked
    · simp [machine, hsame] at h
    · exact .inr (by simp [machine, hsame])
  cooked_transfer _ _ _ := rfl

theorem machine_startsAt (debounce : BitVec 8) : (machine V debounce).StartsAt 0#8 := by
  intro value
  simp [machine]

end Machine

theorem updateRow_sweeps {row : Nat} (hrow : row < cfg.rows) (elapsed : Nat)
    (s : State cfg (BitVec 8)) :
    Sweeps (rowLayout cfg).parts ((machine _ cfg.debounce).update elapsed)
      ((machine _ cfg.debounce).updateMark elapsed)
      (fun unit => unit.val = row) s (updateRow elapsed row s) := by
  unfold updateRow
  by_cases hidle : s.counters row = 0#8
  · rw [if_neg (not_not_intro hidle)]
    refine sweeps_row_same ?_ ?_
    · simp [machine, expires, hidle]
    · rintro ⟨⟩ <;> simp [Machine.updateMark, machine, expires, hidle]
  · rw [if_pos hidle]
    by_cases hexpired : (s.counters row).toNat ≤ elapsed
    · have hzero := countDown_eq_zero_iff.mpr hexpired
      have hxor : s.cooked row ^^^ s.raw row ≠ 0#_ ↔ s.raw row ≠ s.cooked row := by
        rw [ne_eq, BitVec.xor_eq_zero_iff, ne_comm]
      rw [if_pos hexpired]
      refine sweeps_row hrow 0#8 (s.raw row) rfl rfl rfl rfl ?_ ?_
      case refine_1 => simp [machine, expires, hidle, hexpired, hzero]
      case refine_2 =>
        intro flag
        cases flag with
        | countersNeedUpdate => simp [State.flag, Machine.updateMark, machine, hzero]
        | matrixNeedUpdate => simp [State.flag, Machine.updateMark, machine]
        | cookedChanged =>
            simp only [State.flag, Machine.updateMark, machine, expires, hxor]
            simp [hidle, hexpired]
    · have hrunning := mt countDown_eq_zero_iff.mp hexpired
      rw [if_neg hexpired]
      refine sweeps_row hrow (s.counters row - BitVec.ofNat 8 elapsed) (s.cooked row) rfl
        (Function.update_eq_self _ _).symm rfl rfl ?_ ?_
      case refine_1 => simp [machine, expires, countDown, hexpired]
      case refine_2 =>
        rintro ⟨⟩ <;>
          simp [State.flag, Machine.updateMark, machine, expires, hexpired, hrunning]

theorem startRow_sweeps {row : Nat} (hrow : row < cfg.rows) (s : State cfg (BitVec 8)) :
    Sweeps (rowLayout cfg).parts (machine _ cfg.debounce).transfer
      (machine _ cfg.debounce).transferMark
      (fun unit => unit.val = row) s (startRow row s) := by
  unfold startRow
  by_cases hsame : s.raw row = s.cooked row
  · rw [if_neg (not_not_intro hsame)]
    refine sweeps_row hrow 0#8 (s.cooked row) rfl (Function.update_eq_self _ _).symm
      rfl rfl ?_ ?_
    case refine_1 => simp [machine, hsame]
    case refine_2 => rintro ⟨⟩ <;> simp [State.flag, Machine.transferMark, machine, hsame]
  · rw [if_pos hsame]
    refine sweeps_row hrow cfg.debounce (s.cooked row) rfl (Function.update_eq_self _ _).symm
      rfl rfl ?_ ?_
    case refine_1 => simp [machine, hsame]
    case refine_2 => rintro ⟨⟩ <;> simp [State.flag, Machine.transferMark, machine, hsame]

theorem algorithm_realizes :
    (algorithm cfg).Realizes (rowLayout cfg) (machine _ cfg.debounce) where
  lawful := machine_lawful cfg.debounce
  update elapsed s _ := sweeps_rows_of_row fun row s' hrow => updateRow_sweeps hrow elapsed s'
  transfer s hquiet := by
    have hsame : { s with matrixNeedUpdate := false } = s := by rw [← hquiet rfl]
    rw [hsame]
    exact sweeps_rows_of_row fun row s' hrow => startRow_sweeps hrow s'
  rescans _ _ _ := rfl

section Row

variable (scans : Scans cfg) (row : Fin cfg.rows)

/-- The cooked matrix before scan `n`. -/
def cookedMatrix (n : Nat) : Matrix cfg := (stateAt (algorithm cfg) 0#8 scans n).cooked

/-- The row's counter before scan `n`. -/
def counterAt (n : Nat) : Nat := ((stateAt (algorithm cfg) 0#8 scans n).counters row).toNat

theorem counterAt_zero : counterAt scans row 0 = 0 := rfl

/-- The row after the counters' part of scan `n`. -/
def updatedAt (n : Nat) : Cell (BitVec cfg.rowBits) (BitVec 8) :=
  (machine _ cfg.debounce).update (scans.gap n)
    ((rowLayout cfg).readView (stateAt (algorithm cfg) 0#8 scans n) (scans.raw n) row)

theorem view_succ (n : Nat) :
    (rowLayout cfg).view (stateAt (algorithm cfg) 0#8 scans (n + 1)) row =
      if scans.changed n then (machine _ cfg.debounce).transfer (updatedAt scans row n)
      else updatedAt scans row n := by
  have scanned := algorithm_realizes.scanned (machine_startsAt cfg.debounce) scans n
  by_cases hchanged : scans.changed n = true
  · rw [if_pos hchanged]
    exact scanned.transferred (.inl hchanged) row
  · rw [if_neg hchanged]
    refine scanned.updated ?_ row
    rintro (hyes | ⟨unit, hwakes⟩)
    · exact hchanged hyes
    · contradiction

theorem updatedAt_cooked (n : Nat) :
    (updatedAt scans row n).cooked = cookedMatrix scans (n + 1) row := by
  have hview := congrArg Cell.cooked (view_succ scans row n)
  have htransfer : ((machine _ cfg.debounce).transfer (updatedAt scans row n)).cooked =
      (updatedAt scans row n).cooked := rfl
  rw [apply_ite Cell.cooked, htransfer, ite_self] at hview
  exact hview.symm

theorem cookedMatrix_succ (n : Nat) :
    cookedMatrix scans (n + 1) row =
      if 0 < counterAt scans row n ∧ counterAt scans row n ≤ scans.gap n then scans.raw n row
      else cookedMatrix scans n row := by
  rw [← updatedAt_cooked]
  exact if_congr expires_iff rfl rfl

theorem counterAt_succ (n : Nat) :
    counterAt scans row (n + 1) =
      if scans.changed n then
        if scans.raw n row ≠ cookedMatrix scans (n + 1) row then cfg.period else 0
      else counterAt scans row n - scans.gap n := by
  have hview := view_succ scans row n
  have hcounter : counterAt scans row (n + 1) =
      ((rowLayout cfg).view (stateAt (algorithm cfg) 0#8 scans (n + 1)) row).counter.toNat :=
    rfl
  rw [hcounter, hview, ← updatedAt_cooked]
  by_cases hchanged : scans.changed n = true
  · rw [if_pos hchanged, if_pos hchanged]
    exact apply_ite BitVec.toNat _ _ _
  · rw [if_neg hchanged, if_neg hchanged]
    exact toNat_countDown _ _

/-- What the counter stands for: since scan `first` the row has been read the same, and
not as it is cooked. -/
inductive Since (n : Nat) : Prop where
  | settled (hidle : counterAt scans row n = 0)
      (hlast : scans.previous n row = cookedMatrix scans n row)
  | differs (first : Nat) (hfirst : first < n) (hrunning : 0 < counterAt scans row n)
      (htime : counterAt scans row n + scans.time (n - 1) = cfg.period + scans.time first)
      (hconstant : ∀ i, first ≤ i → i < n → scans.raw i row = scans.previous n row)
      (hdiffers : scans.previous n row ≠ cookedMatrix scans n row)

variable {scans row}

theorem changed_of_row {n : Nat} (h : scans.raw n row ≠ scans.previous n row) :
    scans.changed n = true := by
  by_contra hnot
  exact h (Scans.previous_eq (rowLayout cfg) (by simpa using hnot) row)

theorem since_succ {n : Nat} (h : Since scans row n) : Since scans row (n + 1) := by
  have hcooked := cookedMatrix_succ scans row n
  have hcounter := counterAt_succ scans row n
  have hprevious : scans.previous (n + 1) row = scans.raw n row := rfl
  have hpos := cfg.period_pos
  have hmono := scans.time_le (Nat.sub_le n 1)
  have hgap : scans.gap n = scans.time n - scans.time (n - 1) := rfl
  -- a change of the matrix settles the row or starts its counter
  have hrestart (hchanged : scans.changed n = true) : Since scans row (n + 1) := by
    rw [if_pos hchanged] at hcounter
    by_cases hsame : scans.raw n row = cookedMatrix scans (n + 1) row
    · rw [if_neg (not_not_intro hsame)] at hcounter
      exact .settled hcounter hsame
    · rw [if_pos hsame] at hcounter
      refine .differs n (Nat.lt_succ_self n) (by omega) ?_ ?_ hsame
      · rw [hcounter, Nat.add_sub_cancel]
      · intro i hle hlt
        obtain rfl : i = n := by omega
        rfl
  by_cases hchanged : scans.changed n = true
  · exact hrestart hchanged
  · have hraw : scans.raw n row = scans.previous n row := by
      by_contra hne
      exact hchanged (changed_of_row hne)
    rw [if_neg hchanged] at hcounter
    cases h with
    | settled hidle hlast =>
        rw [if_neg (by omega)] at hcooked
        refine .settled (by omega) ?_
        rw [hcooked, hprevious, hraw, hlast]
    | differs first hfirst hrunning htime hconstant hdiffers =>
        by_cases hexpired : counterAt scans row n ≤ scans.gap n
        · rw [if_pos ⟨hrunning, hexpired⟩] at hcooked
          exact .settled (by omega) hcooked.symm
        · rw [if_neg (by omega)] at hcooked
          refine .differs first (by omega) (by omega) ?_ ?_ ?_
          · rw [Nat.add_sub_cancel]
            omega
          · intro i hle hlt
            rw [hprevious, hraw]
            rcases Nat.lt_succ_iff_lt_or_eq.mp hlt with hbelow | rfl
            · exact hconstant i hle hbelow
            · exact hraw
          · rw [hprevious, hraw, hcooked]
            exact hdiffers

theorem since (scans : Scans cfg) (row : Fin cfg.rows) (n : Nat) : Since scans row n := by
  induction n with
  | zero => exact .settled rfl rfl
  | succ n ih => exact since_succ ih

variable (scans row)

/-- Scan `n` takes over a value only if the row has been read as this value for
`DEBOUNCE` up to this scan. -/
def TakesConstant (n : Nat) : Prop :=
  cookedMatrix scans (n + 1) row ≠ cookedMatrix scans n row →
    cookedMatrix scans (n + 1) row = scans.raw n row ∧
      ∃ m ≤ n, scans.time m + cfg.period ≤ scans.time n ∧
        ∀ i, m ≤ i → i ≤ n → scans.raw i row = scans.raw n row

/-- The row's counter does not run out at a scan that reads yet another value. -/
def Lasting (n : Nat) : Prop :=
  scans.raw n row ≠ scans.previous n row → scans.raw n row ≠ cookedMatrix scans n row →
    ¬(0 < counterAt scans row n ∧ counterAt scans row n ≤ scans.gap n)

/-- No other row changes while the row's counter has run for some time and does not
run out. -/
def Alone (n : Nat) : Prop :=
  scans.raw n row = scans.previous n row → scans.changed n = true →
    ¬(scans.gap n < counterAt scans row n ∧
      counterAt scans row n - scans.gap n < cfg.period)

theorem takesConstant_iff_lasting (n : Nat) :
    TakesConstant scans row n ↔ Lasting scans row n := by
  have hcooked := cookedMatrix_succ scans row n
  have hpos := cfg.period_pos
  have hmono := scans.time_le (Nat.sub_le n 1)
  have hgap : scans.gap n = scans.time n - scans.time (n - 1) := rfl
  constructor
  case mp =>
    intro htakes hchange hdiffers hexpires
    rw [if_pos hexpires] at hcooked
    obtain ⟨_, m, hm, htime, hconstant⟩ := htakes (by rw [hcooked]; exact hdiffers)
    by_cases hnow : m = n
    · subst hnow
      omega
    · obtain ⟨last, rfl⟩ : ∃ last, n = last + 1 := ⟨n - 1, by omega⟩
      exact hchange (hconstant last (by omega) (by omega)).symm
  case mpr =>
    intro hlasting hne
    by_cases hexpires :
        0 < counterAt scans row n ∧ counterAt scans row n ≤ scans.gap n
    · rw [if_pos hexpires] at hcooked
      have hdiffers : scans.raw n row ≠ cookedMatrix scans n row := by
        rw [← hcooked]
        exact hne
      have hsame : scans.raw n row = scans.previous n row := by
        by_contra hchange
        exact hlasting hchange hdiffers hexpires
      refine ⟨hcooked, ?_⟩
      cases since scans row n with
      | settled hidle _ => omega
      | differs first hfirst _ htime hconstant _ =>
          refine ⟨first, by omega, by omega, fun i hle hlt => ?_⟩
          rcases Nat.lt_or_eq_of_le hlt with hbelow | rfl
          · exact (hconstant i hle hbelow).trans hsame.symm
          · rfl
    · rw [if_neg hexpires] at hcooked
      exact absurd hcooked hne

theorem counterAt_le_period (n : Nat) : counterAt scans row n ≤ cfg.period := by
  cases since scans row n with
  | settled hidle _ => omega
  | differs first hfirst _ htime _ _ =>
      have := scans.time_le (Nat.le_sub_one_of_lt hfirst)
      omega

/-- The row's counter and cooked value when nothing but the row counts. -/
@[ext] structure Lone (V : Type) where
  cooked : V
  counter : Nat

/-- One scan of a row on its own: only the row's own change restarts its counter. -/
def Lone.scan {V : Type} [DecidableEq V] (period gap : Nat) (previous raw : V)
    (lone : Lone V) : Lone V :=
  let cooked := if 0 < lone.counter ∧ lone.counter ≤ gap then raw else lone.cooked
  { cooked
    counter :=
      if raw ≠ previous then if raw ≠ cooked then period else 0
      else lone.counter - gap }

def loneAt (n : Nat) : Lone (BitVec cfg.rowBits) :=
  ⟨cookedMatrix scans n row, counterAt scans row n⟩

theorem loneAt_succ {n : Nat} (halone : Alone scans row n) :
    loneAt scans row (n + 1) =
      (loneAt scans row n).scan cfg.period (scans.gap n) (scans.previous n row)
        (scans.raw n row) := by
  have hcooked := cookedMatrix_succ scans row n
  have hcounter := counterAt_succ scans row n
  have hbound := counterAt_le_period scans row n
  refine Lone.ext hcooked ?_
  have hscan : ((loneAt scans row n).scan cfg.period (scans.gap n) (scans.previous n row)
      (scans.raw n row)).counter =
      if scans.raw n row ≠ scans.previous n row then
        if scans.raw n row ≠ cookedMatrix scans (n + 1) row then cfg.period else 0
      else counterAt scans row n - scans.gap n := by
    rw [hcooked]
    rfl
  refine Eq.trans ?_ hscan.symm
  change counterAt scans row (n + 1) = _
  by_cases hchange : scans.raw n row ≠ scans.previous n row
  · rw [hcounter, if_pos (changed_of_row hchange), if_pos hchange]
  · have hsame : scans.raw n row = scans.previous n row := Decidable.not_not.mp hchange
    rw [hcounter, if_neg hchange]
    by_cases hchanged : scans.changed n = true
    · -- another row has changed
      have hquiet := halone hsame hchanged
      rw [if_pos hchanged]
      cases since scans row n with
      | settled hidle hlast =>
          rw [if_neg (by omega)] at hcooked
          rw [if_neg (by rw [hcooked, hsame, hlast]; exact fun h => h rfl)]
          omega
      | differs first _ hrunning _ _ hdiffers =>
          by_cases hexpired : counterAt scans row n ≤ scans.gap n
          · rw [if_pos ⟨hrunning, hexpired⟩] at hcooked
            rw [if_neg (by rw [hcooked]; exact fun h => h rfl)]
            omega
          · rw [if_neg (by omega)] at hcooked
            rw [if_pos (by rw [hcooked, hsame]; exact hdiffers)]
            omega
    · rw [if_neg hchanged]

end Row

/-- Two runs that show the same of a row, and leave it alone, cook it the same. -/
theorem loneAt_congr {scans other : Scans cfg} {row : Fin cfg.rows}
    (htime : other.time = scans.time) (hstart : other.start row = scans.start row)
    (hraw : ∀ n, other.raw n row = scans.raw n row)
    (halone : ∀ n, Alone scans row n) (halone' : ∀ n, Alone other row n) (n : Nat) :
    loneAt other row n = loneAt scans row n := by
  induction n with
  | zero =>
      have hcooked : cookedMatrix other 0 row = cookedMatrix scans 0 row := hstart
      rw [loneAt, loneAt, hcooked, counterAt_zero, counterAt_zero]
  | succ n ih =>
      have hgap : other.gap n = scans.gap n := by rw [Scans.gap, Scans.gap, htime]
      have hprevious : other.previous n row = scans.previous n row := by
        cases n with
        | zero => exact hstart
        | succ n => exact hraw n
      rw [loneAt_succ other row (halone' n), loneAt_succ scans row (halone n), ih, hgap,
        hprevious, hraw n]

/-- Two rows and a `DEBOUNCE` of five. -/
def twoRows : Config 8 where
  rows := 2
  cols := 8
  rowBits := 8
  timerBits := 16
  debounce := 5#8
  debounce_ne_zero := by decide

def firstRow : Fin twoRows.rows := ⟨0, Nat.two_pos⟩

/-- The first row changes at the second scan; the second row never does, or before. -/
def afterRow (disturbed : Bool) : Scans twoRows where
  start _ := 0#8
  raw n row := if row = 0 then if n = 0 then 0#8 else 1#8 else if disturbed then 1#8 else 0#8
  time n := n
  time_mono n := Nat.le_succ n
  time_gap n := by
    rw [Nat.add_sub_cancel_left]
    exact Nat.one_lt_two_pow (Nat.succ_ne_zero 15)

/-- A second key of the row is pressed at the scan at which the counter runs out. -/
def lateKey : Scans twoRows where
  start _ := 0#8
  raw n row := if row = 0 then if n = 0 then 1#8 else 3#8 else 0#8
  time n := 5 * n
  time_mono n := Nat.mul_le_mul_left 5 (Nat.le_succ n)
  time_gap n := by
    rw [Nat.mul_succ, Nat.add_sub_cancel_left]
    exact Nat.le_of_ble_eq_true rfl

/-- A scan every two milliseconds, the second one late by one. -/
def lateFirst (n : Nat) : Nat :=
  if n = 0 then 0 else 2 * n + 1

theorem lateFirst_mono (n : Nat) : lateFirst n ≤ lateFirst (n + 1) := by
  unfold lateFirst
  rw [if_neg (Nat.succ_ne_zero n)]
  split_ifs <;> omega

theorem lateFirst_gap (n : Nat) :
    lateFirst (n + 1) - lateFirst n < 2 ^ twoRows.timerBits := by
  unfold lateFirst
  rw [if_neg (Nat.succ_ne_zero n)]
  simp only [twoRows]
  split_ifs <;> omega

/-- The first row changes at 0; the second one never does, or at 3. -/
def besideRow (disturbed : Bool) : Scans twoRows where
  start _ := 0#8
  raw n row := if row = 0 then 1#8 else if disturbed ∧ 1 ≤ n then 1#8 else 0#8
  time := lateFirst
  time_mono := lateFirst_mono
  time_gap := lateFirst_gap

end Qmk.Debounce.SymDeferPr
