import Mathlib.Tactic.SplitIfs
import Qmk.Debounce.Layouts

/-!
# `sym_eager_pk` and `sym_eager_pr`

Eager symmetric debouncing: a change is taken over at once, and then no other one
for `DEBOUNCE` milliseconds.  The unit is a key in one algorithm and a row in the
other; what they do to it is one machine.
-/

namespace Qmk.Debounce

open Qmk.Lib

variable {cfg : Config 8}

namespace SymEagerPk

/-- One key of `update_debounce_counters`. -/
def updateKey (elapsedTime row col : Nat) (s : State cfg (BitVec 8)) :
    State cfg (BitVec 8) :=
  let index := row * cfg.cols + col
  if s.counters index ≠ 0#8 then
    if (s.counters index).toNat ≤ elapsedTime then
      { s with
        counters := Function.update s.counters index 0#8
        matrixNeedUpdate := true }
    else
      { s with
        counters := Function.update s.counters index
          (s.counters index - BitVec.ofNat 8 elapsedTime)
        countersNeedUpdate := true }
  else
    s

def updateDebounceCounters (elapsedTime : Nat) (s : State cfg (BitVec 8)) :
    State cfg (BitVec 8) :=
  forRange cfg.rows (fun row => forRange cfg.cols (updateKey elapsedTime row))
    { s with countersNeedUpdate := false, matrixNeedUpdate := false }

/-- One key of `transfer_matrix_values`; the second component is `existing_row`. -/
def transferKey (delta : BitVec cfg.rowBits) (row col : Nat)
    (p : State cfg (BitVec 8) × BitVec cfg.rowBits) :
    State cfg (BitVec 8) × BitVec cfg.rowBits :=
  let index := row * cfg.cols + col
  if delta &&& colMask cfg col ≠ 0#_ then
    if p.1.counters index = 0#8 then
      ({ p.1 with
          counters := Function.update p.1.counters index cfg.debounce
          countersNeedUpdate := true
          cookedChanged := true },
        p.2 ^^^ colMask cfg col)
    else
      p
  else
    p

/-- `cooked[row] = existing_row`. -/
def storeRow (row : Nat) (p : State cfg (BitVec 8) × BitVec cfg.rowBits) :
    State cfg (BitVec 8) :=
  { p.1 with cooked := Function.update p.1.cooked row p.2 }

def transferMatrixValues (s : State cfg (BitVec 8)) : State cfg (BitVec 8) :=
  forRange cfg.rows
    (fun row s => storeRow row
      (forRange cfg.cols (transferKey (s.raw row ^^^ s.cooked row) row) (s, s.cooked row)))
    { s with matrixNeedUpdate := false }

def algorithm (cfg : Config 8) : Algorithm cfg (BitVec 8) where
  update := updateDebounceCounters
  transfer := transferMatrixValues
  rescans := true

end SymEagerPk

namespace SymEagerPr

/-- One row of `update_debounce_counters`. -/
def updateRow (elapsedTime row : Nat) (s : State cfg (BitVec 8)) : State cfg (BitVec 8) :=
  if s.counters row ≠ 0#8 then
    if (s.counters row).toNat ≤ elapsedTime then
      { s with
        counters := Function.update s.counters row 0#8
        matrixNeedUpdate := true }
    else
      { s with
        counters := Function.update s.counters row
          (s.counters row - BitVec.ofNat 8 elapsedTime)
        countersNeedUpdate := true }
  else
    s

def updateDebounceCounters (elapsedTime : Nat) (s : State cfg (BitVec 8)) :
    State cfg (BitVec 8) :=
  forRange cfg.rows (updateRow elapsedTime)
    { s with countersNeedUpdate := false, matrixNeedUpdate := false }

/-- One row of `transfer_matrix_values`. -/
def transferRow (row : Nat) (s : State cfg (BitVec 8)) : State cfg (BitVec 8) :=
  if s.cooked row ≠ s.raw row then
    if s.counters row = 0#8 then
      { s with
        counters := Function.update s.counters row cfg.debounce
        cookedChanged := s.cookedChanged || decide (s.cooked row ^^^ s.raw row ≠ 0#_)
        cooked := Function.update s.cooked row (s.raw row)
        countersNeedUpdate := true }
    else
      s
  else
    s

def transferMatrixValues (s : State cfg (BitVec 8)) : State cfg (BitVec 8) :=
  forRange cfg.rows transferRow { s with matrixNeedUpdate := false }

def algorithm (cfg : Config 8) : Algorithm cfg (BitVec 8) where
  update := updateDebounceCounters
  transfer := transferMatrixValues
  rescans := true

end SymEagerPr

section Machine

variable {V : Type} [DecidableEq V]

/-- One key or row on its own. -/
def eagerMachine (V : Type) [DecidableEq V] (debounce : BitVec 8) :
    Machine V (BitVec 8) where
  update elapsed cell := { cell with counter := countDown elapsed cell.counter }
  transfer cell :=
    if cell.raw ≠ cell.cooked ∧ cell.counter = 0#8 then
      { cell with cooked := cell.raw, counter := debounce }
    else
      cell
  pending cell := cell.counter ≠ 0#8
  wakes elapsed cell := expires elapsed cell.counter
  starts cell := cell.raw ≠ cell.cooked ∧ cell.counter = 0#8

/-- A locked unit, and one that shows no change, is left alone by the transfer. -/
theorem eagerMachine_transfer_closed {debounce : BitVec 8} {cell : Cell V (BitVec 8)}
    (h : ¬(cell.raw ≠ cell.cooked ∧ cell.counter = 0#8)) :
    (eagerMachine V debounce).transfer cell = cell := if_neg h

theorem eagerMachine_transferMark_closed {debounce : BitVec 8} {cell : Cell V (BitVec 8)}
    (h : ¬(cell.raw ≠ cell.cooked ∧ cell.counter = 0#8)) (flag : Flag) :
    (eagerMachine V debounce).transferMark flag cell = false := by
  cases flag with
  | countersNeedUpdate => exact decide_eq_false h
  | matrixNeedUpdate => rfl
  | cookedChanged => simp [Machine.transferMark, eagerMachine_transfer_closed h]

theorem eagerMachine_lawful (debounce : BitVec 8) :
    (eagerMachine V debounce).Lawful 8 where
  update_raw _ _ := rfl
  transfer_raw cell := by
    simp only [eagerMachine]
    split_ifs <;> rfl
  update_idle elapsed cell h := by
    have hzero : cell.counter = 0#8 := by simpa [eagerMachine] using h
    exact Cell.ext rfl rfl (by simp [eagerMachine, hzero])
  wakes_idle elapsed cell h := by
    have hzero : cell.counter = 0#8 := by simpa [eagerMachine] using h
    simp [eagerMachine, expires, hzero]
  update_zero cell := Cell.ext rfl rfl (countDown_zero _)
  wakes_zero cell := expires_zero _
  update_clamp elapsed cell := Cell.ext rfl rfl (countDown_clamp elapsed _)
  wakes_clamp elapsed cell := expires_clamp elapsed _
  pending_read _ _ := rfl
  pending_transfer cell h := by
    by_cases hidle : cell.counter = 0#8
    · by_cases hsame : cell.raw = cell.cooked
      · simp [eagerMachine, hsame, hidle] at h
      · exact .inr (by simp [eagerMachine, hsame, hidle])
    · exact .inl (by simp [eagerMachine, hidle])
  cooked_transfer elapsed cell h := absurd rfl h

theorem eagerMachine_settling (debounce : BitVec 8) :
    (eagerMachine V debounce).Settling 0#8 where
  starts value := by simp [eagerMachine]
  transfer_start value := by simp [eagerMachine]
  transfer_transfer cell := by
    by_cases hopen : cell.raw ≠ cell.cooked ∧ cell.counter = 0#8
    · simp [eagerMachine, hopen]
    · simp only [eagerMachine, if_neg hopen]
  transfer_update gap cell h hwakes := by
    have hrunning := expires_eq_false_iff.mp hwakes
    simp only [eagerMachine, ite_eq_right_iff]
    rintro ⟨hne', hzero⟩
    rw [countDown_eq_zero_iff] at hzero
    have hidle : cell.counter = 0#8 := toNat_eq_zero_iff.mp (by omega)
    simp only [eagerMachine] at h
    rw [if_pos ⟨hne', hidle⟩] at h
    exact absurd (congrArg Cell.cooked h) hne'

end Machine

namespace SymEagerPk

theorem updateKey_sweeps {row col : Nat} (hrow : row < cfg.rows) (hcol : col < cfg.cols)
    (elapsed : Nat) (s : State cfg (BitVec 8)) :
    Sweeps (keyLayout cfg).parts ((eagerMachine Bool cfg.debounce).update elapsed)
      ((eagerMachine Bool cfg.debounce).updateMark elapsed)
      (fun key => key.1.val = row ∧ key.2.val = col) s (updateKey elapsed row col s) := by
  unfold updateKey
  by_cases hidle : s.counters (row * cfg.cols + col) = 0#8
  · simp only [hidle, ne_eq, not_true_eq_false, if_false]
    refine sweeps_key_same ?_ ?_
    · simp [eagerMachine, hidle]
    · rintro ⟨⟩ <;> simp [Machine.updateMark, eagerMachine, expires, hidle]
  · simp only [hidle, ne_eq, not_false_eq_true, if_true]
    by_cases hexpired : (s.counters (row * cfg.cols + col)).toNat ≤ elapsed
    · simp only [hexpired, if_true]
      refine sweeps_key hrow hcol 0#8 (s.cooked row) rfl (Function.update_eq_self _ _).symm
        (fun _ _ => rfl) rfl rfl ?_ ?_
      case refine_1 => simp [eagerMachine, countDown, hexpired]
      case refine_2 =>
        rintro ⟨⟩ <;>
          simp [State.flag, Machine.updateMark, eagerMachine, expires, countDown, hidle,
            hexpired]
    · simp only [hexpired, if_false]
      refine sweeps_key hrow hcol
        (s.counters (row * cfg.cols + col) - BitVec.ofNat 8 elapsed) (s.cooked row) rfl
        (Function.update_eq_self _ _).symm (fun _ _ => rfl) rfl rfl ?_ ?_
      case refine_1 => simp [eagerMachine, countDown, hexpired]
      case refine_2 =>
        have hrunning := mt countDown_eq_zero_iff.mp hexpired
        rintro ⟨⟩ <;>
          simp [State.flag, Machine.updateMark, eagerMachine, expires, hexpired, hrunning]

theorem transferKey_sweeps {row col : Nat} (hrow : row < cfg.rows) (hcol : col < cfg.cols)
    {delta : BitVec cfg.rowBits} {s : State cfg (BitVec 8)} {existingRow : BitVec cfg.rowBits}
    (hdelta : delta.getLsbD col = ((s.raw row).getLsbD col != existingRow.getLsbD col)) :
    Sweeps ((keyLayout cfg).parts.comap (storeRow row))
      (eagerMachine Bool cfg.debounce).transfer
      (eagerMachine Bool cfg.debounce).transferMark
      (fun key => key.1.val = row ∧ key.2.val = col) (s, existingRow)
      (transferKey delta row col (s, existingRow)) := by
  refine Sweeps.comap ?_
  have hcooked : (storeRow row (s, existingRow)).cooked row = existingRow :=
    Function.update_self _ _ _
  have hsame (hclosed : ¬((s.raw row).getLsbD col ≠ existingRow.getLsbD col ∧
      s.counters (row * cfg.cols + col) = 0#8)) :
      Sweeps (keyLayout cfg).parts (eagerMachine Bool cfg.debounce).transfer
        (eagerMachine Bool cfg.debounce).transferMark
        (fun key => key.1.val = row ∧ key.2.val = col) (storeRow row (s, existingRow))
        (storeRow row (s, existingRow)) := by
    refine sweeps_key_same ?_ ?_
    · rw [hcooked]
      exact eagerMachine_transfer_closed hclosed
    · rw [hcooked]
      exact eagerMachine_transferMark_closed hclosed
  unfold transferKey
  simp only [and_colMask_ne_zero, hdelta, bne_iff_ne]
  by_cases hne : (s.raw row).getLsbD col ≠ existingRow.getLsbD col
  · rw [if_pos hne]
    by_cases hidle : s.counters (row * cfg.cols + col) = 0#8
    · have hbit : col < cfg.rowBits := by
        refine BitVec.lt_of_getLsbD (x := delta) ?_
        rw [hdelta]
        exact bne_iff_ne.mpr hne
      have hflip : (!existingRow.getLsbD col) = (s.raw row).getLsbD col :=
        (Bool.eq_not.mpr hne).symm
      rw [if_pos hidle]
      refine sweeps_key hrow hcol cfg.debounce (existingRow ^^^ colMask cfg col) rfl
        (Function.update_idem _ _ _).symm ?_ rfl rfl ?_ ?_
      case refine_1 =>
        intro other hother
        rw [hcooked, getLsbD_xor_colMask_of_ne _ hother]
      case refine_2 =>
        rw [hcooked, getLsbD_xor_colMask_self _ hbit, hflip]
        simp [eagerMachine, storeRow, hne, hidle]
      case refine_3 =>
        rw [hcooked]
        rintro ⟨⟩ <;>
          simp [State.flag, Machine.transferMark, eagerMachine, storeRow, hne, hidle]
    · rw [if_neg hidle]
      exact hsame fun hopen => hidle hopen.2
  · rw [if_neg hne]
    exact hsame fun hopen => hne hopen.1

theorem algorithm_realizes :
    (algorithm cfg).Realizes (keyLayout cfg) (eagerMachine Bool cfg.debounce) where
  lawful := eagerMachine_lawful cfg.debounce
  update elapsed s hmatrix := by
    have hstart : { s with countersNeedUpdate := false, matrixNeedUpdate := false } =
        { s with countersNeedUpdate := false } := by rw [← hmatrix]
    simp only [algorithm, updateDebounceCounters, hstart]
    refine sweeps_rows fun row s' hrow => sweeps_cols fun col s'' hcol _ => ?_
    exact updateKey_sweeps hrow hcol elapsed s''
  transfer s _ := by
    refine sweeps_rows fun row s' hrow => ?_
    have hstart : storeRow row (s', s'.cooked row) = s' := by
      simp [storeRow]
    have hloop : Sweeps ((keyLayout cfg).parts.comap (storeRow row))
        (eagerMachine Bool cfg.debounce).transfer
        (eagerMachine Bool cfg.debounce).transferMark (fun key => key.1.val = row)
        (s', s'.cooked row)
        (forRange cfg.cols (transferKey (s'.raw row ^^^ s'.cooked row) row)
          (s', s'.cooked row)) := by
      refine sweeps_cols_delta hrow (s'.raw row ^^^ s'.cooked row) ?_ ?_
      · intro col
        simp only [Parts.comap, hstart]
        exact BitVec.getLsbD_xor
      · rintro col ⟨s'', existingRow⟩ hdelta
        refine transferKey_sweeps hrow col.isLt (hdelta.trans ?_)
        simp [Parts.comap, Layout.parts, Layout.view, keyLayout, keyBit, storeRow]
    have hstored := hloop.of_comap
    rw [hstart] at hstored
    exact hstored
  rescans hnot := by cases hnot

end SymEagerPk

namespace SymEagerPr

theorem updateRow_sweeps {row : Nat} (hrow : row < cfg.rows) (elapsed : Nat)
    (s : State cfg (BitVec 8)) :
    Sweeps (rowLayout cfg).parts ((eagerMachine _ cfg.debounce).update elapsed)
      ((eagerMachine _ cfg.debounce).updateMark elapsed)
      (fun unit => unit.val = row) s (updateRow elapsed row s) := by
  unfold updateRow
  by_cases hidle : s.counters row = 0#8
  · simp only [hidle, ne_eq, not_true_eq_false, if_false]
    refine sweeps_row_same ?_ ?_
    · simp [eagerMachine, hidle]
    · rintro ⟨⟩ <;> simp [Machine.updateMark, eagerMachine, expires, hidle]
  · simp only [hidle, ne_eq, not_false_eq_true, if_true]
    by_cases hexpired : (s.counters row).toNat ≤ elapsed
    · simp only [hexpired, if_true]
      refine sweeps_row hrow 0#8 (s.cooked row) rfl (Function.update_eq_self _ _).symm
        rfl rfl ?_ ?_
      case refine_1 => simp [eagerMachine, countDown, hexpired]
      case refine_2 =>
        rintro ⟨⟩ <;>
          simp [State.flag, Machine.updateMark, eagerMachine, expires, countDown, hidle,
            hexpired]
    · simp only [hexpired, if_false]
      refine sweeps_row hrow (s.counters row - BitVec.ofNat 8 elapsed) (s.cooked row) rfl
        (Function.update_eq_self _ _).symm rfl rfl ?_ ?_
      case refine_1 => simp [eagerMachine, countDown, hexpired]
      case refine_2 =>
        have hrunning := mt countDown_eq_zero_iff.mp hexpired
        rintro ⟨⟩ <;>
          simp [State.flag, Machine.updateMark, eagerMachine, expires, hexpired, hrunning]

theorem transferRow_sweeps {row : Nat} (hrow : row < cfg.rows) (s : State cfg (BitVec 8)) :
    Sweeps (rowLayout cfg).parts (eagerMachine _ cfg.debounce).transfer
      (eagerMachine _ cfg.debounce).transferMark
      (fun unit => unit.val = row) s (transferRow row s) := by
  have hsame (hclosed : ¬(s.raw row ≠ s.cooked row ∧ s.counters row = 0#8)) :
      Sweeps (rowLayout cfg).parts (eagerMachine _ cfg.debounce).transfer
        (eagerMachine _ cfg.debounce).transferMark (fun unit => unit.val = row) s s :=
    sweeps_row_same (eagerMachine_transfer_closed hclosed)
      (eagerMachine_transferMark_closed hclosed)
  unfold transferRow
  by_cases hne : s.raw row ≠ s.cooked row
  · rw [if_pos hne.symm]
    by_cases hidle : s.counters row = 0#8
    · have hxor : s.cooked row ^^^ s.raw row ≠ 0#_ := fun hzero =>
        hne (BitVec.xor_eq_zero_iff.mp hzero).symm
      rw [if_pos hidle]
      refine sweeps_row hrow cfg.debounce (s.raw row) rfl rfl rfl rfl ?_ ?_
      case refine_1 => simp [eagerMachine, hne, hidle]
      case refine_2 =>
        rintro ⟨⟩ <;>
          simp [State.flag, Machine.transferMark, eagerMachine, hne, hidle, hxor]
    · rw [if_neg hidle]
      exact hsame fun hopen => hidle hopen.2
  · rw [if_neg (mt Ne.symm hne)]
    exact hsame fun hopen => hne hopen.1

theorem algorithm_realizes :
    (algorithm cfg).Realizes (rowLayout cfg) (eagerMachine _ cfg.debounce) where
  lawful := eagerMachine_lawful cfg.debounce
  update elapsed s hmatrix := by
    have hstart : { s with countersNeedUpdate := false, matrixNeedUpdate := false } =
        { s with countersNeedUpdate := false } := by rw [← hmatrix]
    simp only [algorithm, updateDebounceCounters, hstart]
    exact sweeps_rows_of_row fun row s' hrow => updateRow_sweeps hrow elapsed s'
  transfer s _ := sweeps_rows_of_row fun row s' hrow => transferRow_sweeps hrow s'
  rescans hnot := by cases hnot

end SymEagerPr

/-- The lockout: a unit changes when it differs from what is read and its last
change is `period` away. -/
structure LocksOut {V : Type} (period : Nat) (time : Nat → Nat) (raw cooked : Nat → V) :
    Prop where
  changes_iff : ∀ n, cooked (n + 1) ≠ cooked n ↔ cooked n ≠ raw n ∧
    ∀ m < n, cooked (m + 1) ≠ cooked m → time m + period ≤ time n
  takes_raw : ∀ n, cooked (n + 1) ≠ cooked n → cooked (n + 1) = raw n
  apart : ∀ m n, m < n → cooked (m + 1) ≠ cooked m → cooked (n + 1) ≠ cooked n →
    time m + period ≤ time n
  catches_up : ∀ n, (∀ m < n, cooked (m + 1) ≠ cooked m → time m + period ≤ time n) →
    cooked (n + 1) = raw n

section Unit

variable {V : Type} [DecidableEq V] (debounce : BitVec 8) (track : Track V)

/-- The cooked value of a unit before scan `n`. -/
def eagerCookedAt (n : Nat) : V :=
  ((eagerMachine V debounce).cellAt 0#8 track n).cooked

def eagerCounterAt (n : Nat) : Nat :=
  ((eagerMachine V debounce).cellAt 0#8 track n).counter.toNat

theorem eagerMachine_step_cooked (gap : Nat) (raw : V) (cell : Cell V (BitVec 8)) :
    ((eagerMachine V debounce).transfer
      ((eagerMachine V debounce).update gap (cell.read raw))).cooked =
      if cell.counter.toNat ≤ gap then raw else cell.cooked := by
  simp only [eagerMachine, Cell.read, countDown_eq_zero_iff]
  by_cases hopen : cell.counter.toNat ≤ gap
  · by_cases hsame : raw = cell.cooked <;> simp [hopen, hsame]
  · simp [hopen]

theorem eagerMachine_step_counter (gap : Nat) (raw : V) (cell : Cell V (BitVec 8)) :
    ((eagerMachine V debounce).transfer
      ((eagerMachine V debounce).update gap (cell.read raw))).counter.toNat =
      if cell.counter.toNat ≤ gap ∧ raw ≠ cell.cooked then debounce.toNat
      else cell.counter.toNat - gap := by
  simp only [eagerMachine, Cell.read, countDown_eq_zero_iff]
  by_cases hopen : cell.counter.toNat ≤ gap
  · by_cases hsame : raw = cell.cooked <;> simp [hopen, hsame]
  · simp [hopen]

theorem eagerCookedAt_succ (n : Nat) :
    eagerCookedAt debounce track (n + 1) =
      if eagerCounterAt debounce track n ≤ track.gap n then track.raw n
      else eagerCookedAt debounce track n :=
  eagerMachine_step_cooked _ _ _ _

theorem eagerCounterAt_succ (n : Nat) :
    eagerCounterAt debounce track (n + 1) =
      if eagerCookedAt debounce track (n + 1) ≠ eagerCookedAt debounce track n then
        debounce.toNat
      else
        eagerCounterAt debounce track n - track.gap n := by
  refine (eagerMachine_step_counter _ _ _ _).trans ?_
  rw [eagerCookedAt_succ debounce track n]
  by_cases hopen : eagerCounterAt debounce track n ≤ track.gap n
  · rw [if_pos hopen]
    exact if_congr (and_iff_right hopen) rfl rfl
  · have hkept : eagerCookedAt debounce track n = eagerCookedAt debounce track n := rfl
    rw [if_neg hopen, if_neg (not_not_intro hkept)]
    exact if_neg fun h => hopen h.1

/-- The counter before scan `n` is what is left of the lockout. -/
structure LockedUntil (n : Nat) : Prop where
  within : ∀ m < n, eagerCookedAt debounce track (m + 1) ≠ eagerCookedAt debounce track m →
    track.time m + debounce.toNat ≤ track.time (n - 1) + eagerCounterAt debounce track n
  reached : 0 < eagerCounterAt debounce track n →
    ∃ m < n, eagerCookedAt debounce track (m + 1) ≠ eagerCookedAt debounce track m ∧
      track.time m + debounce.toNat = track.time (n - 1) + eagerCounterAt debounce track n

variable {debounce track}

theorem lockedUntil_succ {n : Nat} (h : LockedUntil debounce track n) :
    LockedUntil debounce track (n + 1) := by
  have hcooked := eagerCookedAt_succ debounce track n
  have hcounter := eagerCounterAt_succ debounce track n
  have hmono := track.time_le (Nat.sub_le n 1)
  have hgap : track.gap n = track.time n - track.time (n - 1) := rfl
  by_cases hchange :
      eagerCookedAt debounce track (n + 1) ≠ eagerCookedAt debounce track n
  · rw [if_pos hchange] at hcounter
    have hopen : eagerCounterAt debounce track n ≤ track.gap n := by
      by_contra hlocked
      rw [if_neg hlocked] at hcooked
      exact hchange hcooked
    constructor
    case within =>
      intro m hm hchanged
      simp only [Nat.add_sub_cancel]
      rcases Nat.lt_succ_iff_lt_or_eq.mp hm with hlt | rfl
      · have := h.within m hlt hchanged
        omega
      · omega
    case reached =>
      intro _
      exact ⟨n, Nat.lt_succ_self n, hchange, by simp only [Nat.add_sub_cancel]; omega⟩
  · rw [if_neg hchange] at hcounter
    constructor
    case within =>
      intro m hm hchanged
      simp only [Nat.add_sub_cancel]
      rcases Nat.lt_succ_iff_lt_or_eq.mp hm with hlt | rfl
      · have := h.within m hlt hchanged
        omega
      · exact absurd hchanged hchange
    case reached =>
      intro hrunning
      obtain ⟨m, hm, hchanged, htime⟩ := h.reached (by omega)
      exact ⟨m, by omega, hchanged, by simp only [Nat.add_sub_cancel]; omega⟩

variable (debounce track)

theorem lockedUntil (n : Nat) : LockedUntil debounce track n := by
  induction n with
  | zero => exact ⟨nofun, nofun⟩
  | succ n ih => exact lockedUntil_succ ih

theorem eagerCounterAt_le_gap_iff (n : Nat) :
    eagerCounterAt debounce track n ≤ track.gap n ↔
      ∀ m < n, eagerCookedAt debounce track (m + 1) ≠ eagerCookedAt debounce track m →
        track.time m + debounce.toNat ≤ track.time n := by
  have hmono := track.time_le (Nat.sub_le n 1)
  have hgap : track.gap n = track.time n - track.time (n - 1) := rfl
  have hlock := lockedUntil debounce track n
  constructor
  · intro hopen m hm hchanged
    have := hlock.within m hm hchanged
    omega
  · intro hall
    by_contra hlocked
    obtain ⟨m, hm, hchanged, htime⟩ := hlock.reached (by omega)
    have := hall m hm hchanged
    omega

theorem eager_locksOut :
    LocksOut debounce.toNat track.time track.raw (eagerCookedAt debounce track) := by
  have hopen (n : Nat) := eagerCounterAt_le_gap_iff debounce track n
  have hcooked (n : Nat) := eagerCookedAt_succ debounce track n
  have hcatches : ∀ n, (∀ m < n,
      eagerCookedAt debounce track (m + 1) ≠ eagerCookedAt debounce track m →
        track.time m + debounce.toNat ≤ track.time n) →
      eagerCookedAt debounce track (n + 1) = track.raw n := by
    intro n hall
    rw [hcooked, if_pos ((hopen n).mpr hall)]
  have hchange : ∀ n, eagerCookedAt debounce track (n + 1) ≠ eagerCookedAt debounce track n →
      eagerCounterAt debounce track n ≤ track.gap n := by
    intro n hne
    by_contra hlocked
    rw [hcooked, if_neg hlocked] at hne
    exact hne rfl
  constructor
  case changes_iff =>
    intro n
    constructor
    · intro hne
      have hall := (hopen n).mp (hchange n hne)
      refine ⟨fun hsame => hne ?_, hall⟩
      rw [hcatches n hall, hsame]
    · rintro ⟨hne, hall⟩
      rw [hcatches n hall]
      exact hne.symm
  case takes_raw => exact fun n hne => hcatches n ((hopen n).mp (hchange n hne))
  case apart => exact fun m n hlt hm hn => (hopen n).mp (hchange n hn) m hlt hm
  case catches_up => exact hcatches

end Unit

namespace SymEagerPk

def cookedMatrix (scans : Scans cfg) (n : Nat) : Matrix cfg :=
  (stateAt (algorithm cfg) 0#8 scans n).cooked

theorem keyBit_cookedMatrix (scans : Scans cfg) (key : Key cfg) (n : Nat) :
    keyBit (cookedMatrix scans n) key =
      eagerCookedAt cfg.debounce (scans.track (keyLayout cfg) key) n :=
  algorithm_realizes.cooked_eq (eagerMachine_settling cfg.debounce) scans key n

theorem key_locksOut (scans : Scans cfg) (key : Key cfg) :
    LocksOut cfg.period scans.time (fun n => keyBit (scans.raw n) key)
      (fun n => keyBit (cookedMatrix scans n) key) := by
  have hcooked := funext (keyBit_cookedMatrix scans key)
  rw [hcooked]
  exact eager_locksOut cfg.debounce (scans.track (keyLayout cfg) key)

end SymEagerPk

namespace SymEagerPr

def cookedMatrix (scans : Scans cfg) (n : Nat) : Matrix cfg :=
  (stateAt (algorithm cfg) 0#8 scans n).cooked

theorem row_cookedMatrix (scans : Scans cfg) (row : Fin cfg.rows) (n : Nat) :
    cookedMatrix scans n row =
      eagerCookedAt cfg.debounce (scans.track (rowLayout cfg) row) n :=
  algorithm_realizes.cooked_eq (eagerMachine_settling cfg.debounce) scans row n

theorem row_locksOut (scans : Scans cfg) (row : Fin cfg.rows) :
    LocksOut cfg.period scans.time (fun n => scans.raw n row)
      (fun n => cookedMatrix scans n row) := by
  have hcooked := funext (row_cookedMatrix scans row)
  rw [hcooked]
  exact eager_locksOut cfg.debounce (scans.track (rowLayout cfg) row)

end SymEagerPr

/-- Both eager algorithms keep the lockout for each of their units, a unit's value
depends on its own history only, and `debounce()` reports the changes. -/
theorem symEager_locksOut (cfg : Config 8) (scans : Scans cfg) :
    (∀ key, LocksOut cfg.period scans.time (fun n => keyBit (scans.raw n) key)
      (fun n => keyBit (SymEagerPk.cookedMatrix scans n) key)) ∧
    (∀ row : Fin cfg.rows, LocksOut cfg.period scans.time (fun n => scans.raw n row)
      (fun n => SymEagerPr.cookedMatrix scans n row)) ∧
    (∀ key (other : Scans cfg), other.time = scans.time →
      keyBit other.start key = keyBit scans.start key →
      (∀ n, keyBit (other.raw n) key = keyBit (scans.raw n) key) →
      ∀ n, keyBit (SymEagerPk.cookedMatrix other n) key =
        keyBit (SymEagerPk.cookedMatrix scans n) key) ∧
    (∀ (row : Fin cfg.rows) (other : Scans cfg), other.time = scans.time →
      other.start row = scans.start row → (∀ n, other.raw n row = scans.raw n row) →
      ∀ n, SymEagerPr.cookedMatrix other n row = SymEagerPr.cookedMatrix scans n row) ∧
    (∀ n, resultAt (SymEagerPk.algorithm cfg) 0#8 scans n = true ↔
      ∃ key, keyBit (SymEagerPk.cookedMatrix scans (n + 1)) key ≠
        keyBit (SymEagerPk.cookedMatrix scans n) key) ∧
    ∀ n, resultAt (SymEagerPr.algorithm cfg) 0#8 scans n = true ↔
      ∃ row : Fin cfg.rows, SymEagerPr.cookedMatrix scans (n + 1) row ≠
        SymEagerPr.cookedMatrix scans n row := by
  have realKey : (SymEagerPk.algorithm cfg).Realizes _ _ := SymEagerPk.algorithm_realizes
  have realRow : (SymEagerPr.algorithm cfg).Realizes _ _ := SymEagerPr.algorithm_realizes
  have settlingKey := eagerMachine_settling (V := Bool) cfg.debounce
  have settlingRow := eagerMachine_settling (V := BitVec cfg.rowBits) cfg.debounce
  refine ⟨SymEagerPk.key_locksOut scans, SymEagerPr.row_locksOut scans,
    fun key other htime hstart hraw n => ?_, fun row other htime hstart hraw n => ?_,
    fun n => ?_, fun n => ?_⟩
  case refine_1 =>
    exact realKey.cooked_congr settlingKey (track_eq_of_keyBit htime hstart hraw) n
  case refine_2 =>
    exact realRow.cooked_congr settlingRow (track_eq_of_row htime hstart hraw) n
  case refine_3 => exact realKey.resultAt_iff settlingKey.starts scans n
  case refine_4 => exact realRow.resultAt_iff settlingRow.starts scans n

end Qmk.Debounce
