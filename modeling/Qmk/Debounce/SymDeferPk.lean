import Mathlib.Tactic.SplitIfs
import Qmk.Debounce.Layouts

/-!
# `sym_defer_pk`

Symmetric debouncing for each key: a key's state is taken over when it has not
changed for `DEBOUNCE` milliseconds.
-/

namespace Qmk.Debounce.SymDeferPk

open Qmk.Lib

variable {cfg : Config 8}

/-- One key of `update_debounce_counters_and_transfer_if_expired`. -/
def updateKey (elapsedTime row col : Nat) (s : State cfg (BitVec 8)) :
    State cfg (BitVec 8) :=
  let index := row * cfg.cols + col
  if s.counters index ≠ 0#8 then
    if (s.counters index).toNat ≤ elapsedTime then
      let cookedNext := copyBit (s.cooked row) (s.raw row) col
      { s with
        counters := Function.update s.counters index 0#8
        cookedChanged := s.cookedChanged || decide (s.cooked row ^^^ cookedNext ≠ 0#_)
        cooked := Function.update s.cooked row cookedNext }
    else
      { s with
        counters := Function.update s.counters index
          (s.counters index - BitVec.ofNat 8 elapsedTime)
        countersNeedUpdate := true }
  else
    s

def updateDebounceCountersAndTransferIfExpired (elapsedTime : Nat)
    (s : State cfg (BitVec 8)) : State cfg (BitVec 8) :=
  forRange cfg.rows (fun row => forRange cfg.cols (updateKey elapsedTime row))
    { s with countersNeedUpdate := false }

/-- One key of `start_debounce_counters`; `delta` is the row's. -/
def startKey (delta : BitVec cfg.rowBits) (row col : Nat) (s : State cfg (BitVec 8)) :
    State cfg (BitVec 8) :=
  let index := row * cfg.cols + col
  if delta &&& colMask cfg col ≠ 0#_ then
    if s.counters index = 0#8 then
      { s with
        counters := Function.update s.counters index cfg.debounce
        countersNeedUpdate := true }
    else
      s
  else
    { s with counters := Function.update s.counters index 0#8 }

def startDebounceCounters (s : State cfg (BitVec 8)) : State cfg (BitVec 8) :=
  forRange cfg.rows
    (fun row s => forRange cfg.cols (startKey (s.raw row ^^^ s.cooked row) row) s) s

def algorithm (cfg : Config 8) : Algorithm cfg (BitVec 8) where
  update := updateDebounceCountersAndTransferIfExpired
  transfer := startDebounceCounters
  rescans := false

/-- One key on its own. -/
def machine (debounce : BitVec 8) : Machine Bool (BitVec 8) where
  update elapsed cell :=
    { cell with
      cooked := if expires elapsed cell.counter then cell.raw else cell.cooked
      counter := countDown elapsed cell.counter }
  transfer cell :=
    if cell.raw = cell.cooked then { cell with counter := 0#8 }
    else if cell.counter = 0#8 then { cell with counter := debounce }
    else cell
  pending cell := cell.counter ≠ 0#8
  wakes _ _ := false
  starts cell := cell.raw ≠ cell.cooked ∧ cell.counter = 0#8

theorem machine_lawful (debounce : BitVec 8) : (machine debounce).Lawful 8 where
  update_raw _ _ := rfl
  transfer_raw cell := by
    simp only [machine]
    split_ifs <;> rfl
  update_idle elapsed cell h := by
    have hzero : cell.counter = 0#8 := by simpa [machine] using h
    exact Cell.ext rfl (by simp [machine, hzero, expires]) (by simp [machine, hzero])
  wakes_idle _ _ _ := rfl
  update_zero cell := by
    simp [machine, countDown_zero, expires_zero]
  wakes_zero _ := rfl
  update_clamp elapsed cell := by
    simp only [machine, countDown_clamp, expires_clamp]
  wakes_clamp _ _ := rfl
  pending_read _ _ := rfl
  pending_transfer cell h := by
    by_cases hidle : cell.counter = 0#8
    · by_cases hsame : cell.raw = cell.cooked
      · simp [machine, hsame] at h
      · exact .inr (by simp [machine, hsame, hidle])
    · exact .inl (by simp [machine, hidle])
  cooked_transfer elapsed cell _ := by
    simp only [machine]
    split_ifs <;> rfl

/-- A cell has settled when its counter runs exactly while the bits differ. -/
theorem transfer_eq_self_iff {debounce : BitVec 8} (hne : debounce ≠ 0#8)
    (cell : Cell Bool (BitVec 8)) :
    (machine debounce).transfer cell = cell ↔
      (cell.raw = cell.cooked ↔ cell.counter = 0#8) := by
  by_cases hsame : cell.raw = cell.cooked
  · simp only [machine, hsame, if_true, Cell.ext_iff, true_and, true_iff]
    exact eq_comm
  · by_cases hidle : cell.counter = 0#8 <;> simp [machine, hsame, hidle, Cell.ext_iff, hne]

theorem machine_settling {debounce : BitVec 8} (hne : debounce ≠ 0#8) :
    (machine debounce).Settling 0#8 where
  starts value := by simp [machine]
  transfer_start value := by simp [machine]
  transfer_transfer cell := by
    rw [transfer_eq_self_iff hne]
    by_cases hsame : cell.raw = cell.cooked
    · simp [machine, hsame]
    · by_cases hidle : cell.counter = 0#8 <;> simp [machine, hsame, hidle, hne]
  transfer_update gap cell h _ := by
    rw [transfer_eq_self_iff hne] at h ⊢
    simp only [machine, countDown_eq_zero_iff]
    cases hexpires : expires gap cell.counter with
    | true => simpa using (expires_iff.mp hexpires).2
    | false =>
        have hrunning := expires_eq_false_iff.mp hexpires
        simp only [Bool.false_eq_true, if_false, h, ← toNat_eq_zero_iff]
        omega

theorem updateKey_sweeps {row col : Nat} (hrow : row < cfg.rows) (hcol : col < cfg.cols)
    (elapsed : Nat) (s : State cfg (BitVec 8)) :
    Sweeps (keyLayout cfg).parts ((machine cfg.debounce).update elapsed)
      ((machine cfg.debounce).updateMark elapsed)
      (fun key => key.1.val = row ∧ key.2.val = col) s (updateKey elapsed row col s) := by
  unfold updateKey
  by_cases hidle : s.counters (row * cfg.cols + col) = 0#8
  · simp only [hidle, ne_eq, not_true_eq_false, if_false]
    refine sweeps_key_same ?_ ?_
    · simp [machine, expires, hidle]
    · rintro ⟨⟩ <;> simp [Machine.updateMark, machine, expires, hidle]
  · simp only [hidle, ne_eq, not_false_eq_true, if_true]
    by_cases hexpired : (s.counters (row * cfg.cols + col)).toNat ≤ elapsed
    · simp only [hexpired, if_true]
      refine sweeps_key hrow hcol 0#8 (copyBit (s.cooked row) (s.raw row) col) rfl rfl
        (fun _ hother => getLsbD_copyBit_of_ne _ _ hother) rfl rfl ?_ ?_
      case refine_1 =>
        simp [machine, expires, countDown, hidle, hexpired, getLsbD_copyBit_self]
      case refine_2 =>
        have hbits := xor_copyBit_ne_zero (s.cooked row) (s.raw row) col
        intro flag
        cases flag with
        | countersNeedUpdate =>
            simp [State.flag, Machine.updateMark, machine, countDown, hexpired]
        | matrixNeedUpdate => simp [State.flag, Machine.updateMark, machine]
        | cookedChanged =>
            simp only [State.flag, Machine.updateMark, machine, expires, hbits]
            simp [hidle, hexpired]
    · simp only [hexpired, if_false]
      refine sweeps_key hrow hcol
        (s.counters (row * cfg.cols + col) - BitVec.ofNat 8 elapsed) (s.cooked row) rfl
        (Function.update_eq_self _ _).symm (fun _ _ => rfl) rfl rfl ?_ ?_
      case refine_1 => simp [machine, expires, countDown, hexpired]
      case refine_2 =>
        intro flag
        cases flag with
        | countersNeedUpdate =>
            have hrunning := mt countDown_eq_zero_iff.mp hexpired
            simp [State.flag, Machine.updateMark, machine, hrunning]
        | matrixNeedUpdate => simp [State.flag, Machine.updateMark, machine]
        | cookedChanged =>
            simp [State.flag, Machine.updateMark, machine, expires, hexpired]

theorem startKey_sweeps {row col : Nat} (hrow : row < cfg.rows) (hcol : col < cfg.cols)
    {delta : BitVec cfg.rowBits} {s : State cfg (BitVec 8)}
    (hdelta : delta.getLsbD col = ((s.raw row).getLsbD col != (s.cooked row).getLsbD col)) :
    Sweeps (keyLayout cfg).parts (machine cfg.debounce).transfer
      (machine cfg.debounce).transferMark
      (fun key => key.1.val = row ∧ key.2.val = col) s (startKey delta row col s) := by
  unfold startKey
  simp only [and_colMask_ne_zero, hdelta, bne_iff_ne]
  by_cases hsame : (s.raw row).getLsbD col = (s.cooked row).getLsbD col
  · simp only [hsame, ne_eq, not_true_eq_false, if_false]
    refine sweeps_key hrow hcol 0#8 (s.cooked row) rfl (Function.update_eq_self _ _).symm
      (fun _ _ => rfl) rfl rfl ?_ ?_
    case refine_1 => simp [machine, hsame]
    case refine_2 => rintro ⟨⟩ <;> simp [State.flag, Machine.transferMark, machine, hsame]
  · simp only [hsame, ne_eq, not_false_eq_true, if_true]
    by_cases hidle : s.counters (row * cfg.cols + col) = 0#8
    · simp only [hidle, if_true]
      refine sweeps_key hrow hcol cfg.debounce (s.cooked row) rfl
        (Function.update_eq_self _ _).symm (fun _ _ => rfl) rfl rfl ?_ ?_
      case refine_1 => simp [machine, hsame, hidle]
      case refine_2 =>
        rintro ⟨⟩ <;> simp [State.flag, Machine.transferMark, machine, hsame, hidle]
    · simp only [hidle, if_false]
      refine sweeps_key_same ?_ ?_
      · simp [machine, hsame, hidle]
      · rintro ⟨⟩ <;> simp [Machine.transferMark, machine, hsame, hidle]

theorem algorithm_realizes :
    (algorithm cfg).Realizes (keyLayout cfg) (machine cfg.debounce) where
  lawful := machine_lawful cfg.debounce
  update elapsed s _ := by
    refine sweeps_rows fun row s' hrow => sweeps_cols fun col s'' hcol _ => ?_
    exact updateKey_sweeps hrow hcol elapsed s''
  transfer s hquiet := by
    have hsame : { s with matrixNeedUpdate := false } = s := by
      rw [← hquiet rfl]
    rw [hsame]
    refine sweeps_rows fun row s' hrow => sweeps_cols_delta hrow
      (s'.raw row ^^^ s'.cooked row) ?_ ?_
    · intro col
      exact BitVec.getLsbD_xor
    · intro col s'' hdelta
      exact startKey_sweeps hrow col.isLt hdelta
  rescans _ _ _ := rfl

section Key

variable (debounce : BitVec 8) (track : Track Bool)

/-- The cooked bit before scan `n`. -/
def cookedAt (n : Nat) : Bool := ((machine debounce).cellAt 0#8 track n).cooked

def counterAt (n : Nat) : Nat := ((machine debounce).cellAt 0#8 track n).counter.toNat

theorem cookedAt_succ (n : Nat) :
    cookedAt debounce track (n + 1) =
      if 0 < counterAt debounce track n ∧ counterAt debounce track n ≤ track.gap n then
        track.raw n
      else
        cookedAt debounce track n := by
  simp only [cookedAt, counterAt, Machine.cellAt]
  simp only [machine, Cell.read, expires_iff]
  split_ifs <;> rfl

theorem counterAt_succ (n : Nat) :
    counterAt debounce track (n + 1) =
      if track.raw n = cookedAt debounce track (n + 1) then 0
      else if counterAt debounce track n ≤ track.gap n then debounce.toNat
      else counterAt debounce track n - track.gap n := by
  simp only [cookedAt, counterAt, Machine.cellAt]
  simp only [machine, Cell.read, expires_iff, countDown_eq_zero_iff]
  split_ifs <;> simp_all

variable {debounce track}

/-- What the counter before scan `n` stands for: the scan `first` from which on the
bits have differed. -/
inductive Since (debounce : BitVec 8) (track : Track Bool) (n : Nat) : Prop where
  | settled (hidle : counterAt debounce track n = 0)
      (hlast : ∀ m, n = m + 1 → track.raw m = cookedAt debounce track n)
  | differs (first : Nat) (hfirst : first < n) (hrunning : 0 < counterAt debounce track n)
      (htime : counterAt debounce track n + track.time (n - 1) =
        debounce.toNat + track.time first)
      (hdiffers : ∀ i, first ≤ i → i < n → track.raw i ≠ cookedAt debounce track n)
      (hbefore : ∀ m, first = m + 1 → track.raw m = cookedAt debounce track n)

theorem since_succ (hpos : 0 < debounce.toNat) {n : Nat} (h : Since debounce track n) :
    Since debounce track (n + 1) := by
  have hcooked := cookedAt_succ debounce track n
  have hcounter := counterAt_succ debounce track n
  by_cases hsame : track.raw n = cookedAt debounce track (n + 1)
  · rw [if_pos hsame] at hcounter
    refine .settled hcounter fun m hm => ?_
    obtain rfl : n = m := by omega
    exact hsame
  · rw [if_neg hsame] at hcounter
    cases h with
    | settled hidle hlast =>
        rw [if_neg (by omega)] at hcooked
        rw [if_pos (by omega)] at hcounter
        refine .differs n (Nat.lt_succ_self n) (by omega) (by simp [hcounter]) ?_ ?_
        · intro i hle hlt
          obtain rfl : i = n := by omega
          exact hsame
        · intro m hm
          rw [hcooked]
          exact hlast m hm
    | differs first hfirst hrunning htime hdiffers hbefore =>
        by_cases hexpired : counterAt debounce track n ≤ track.gap n
        · rw [if_pos ⟨hrunning, hexpired⟩] at hcooked
          exact absurd hcooked.symm hsame
        · rw [if_neg (by omega)] at hcooked
          rw [if_neg hexpired] at hcounter
          have hmono := track.time_le (Nat.sub_le n 1)
          have hgap : track.gap n = track.time n - track.time (n - 1) := rfl
          refine .differs first (by omega) (by omega) ?_ ?_ ?_
          · simp only [Nat.add_sub_cancel]
            omega
          · intro i hle hlt
            rw [hcooked]
            rcases Nat.lt_succ_iff_lt_or_eq.mp hlt with hbelow | rfl
            · exact hdiffers i hle hbelow
            · rwa [hcooked] at hsame
          · intro m hm
            rw [hcooked]
            exact hbefore m hm

theorem since (track : Track Bool) (hpos : 0 < debounce.toNat) (n : Nat) : Since debounce track n := by
  induction n with
  | zero => exact .settled rfl nofun
  | succ n ih => exact since_succ hpos ih

/-- The bit changes when the raw bit has differed from it for `DEBOUNCE`. -/
theorem cookedAt_succ_ne_iff (hpos : 0 < debounce.toNat) (n : Nat) :
    cookedAt debounce track (n + 1) ≠ cookedAt debounce track n ↔
      ∃ m ≤ n, track.time m + debounce.toNat ≤ track.time n ∧
        ∀ i, m ≤ i → i ≤ n → track.raw i ≠ cookedAt debounce track n := by
  have hcooked := cookedAt_succ debounce track n
  have hmono := track.time_le (Nat.sub_le n 1)
  have hgap : track.gap n = track.time n - track.time (n - 1) := rfl
  constructor
  case mp =>
    intro hne
    by_cases hexpires :
        0 < counterAt debounce track n ∧ counterAt debounce track n ≤ track.gap n
    · rw [if_pos hexpires] at hcooked
      cases since track hpos n with
      | settled hidle _ => omega
      | differs first hfirst _ htime hdiffers _ =>
          refine ⟨first, by omega, by omega, fun i hle hlt => ?_⟩
          rcases Nat.lt_or_eq_of_le hlt with hbelow | rfl
          · exact hdiffers i hle hbelow
          · rwa [hcooked] at hne
    · rw [if_neg hexpires] at hcooked
      exact absurd hcooked hne
  case mpr =>
    rintro ⟨m, hm, htime, hdiffers⟩
    have hexpires :
        0 < counterAt debounce track n ∧ counterAt debounce track n ≤ track.gap n := by
      cases since track hpos n with
      | settled hidle hlast =>
          -- the raw bit was the cooked one at the last scan
          exfalso
          cases n with
          | zero =>
              obtain rfl : m = 0 := by omega
              omega
          | succ last =>
              by_cases hnow : m = last + 1
              · subst hnow
                omega
              · exact hdiffers last (by omega) (by omega) (hlast last rfl)
      | differs first hfirst hrunning hsince _ hbefore =>
          have hle : first ≤ m := by
            by_cases hzero : first = 0
            · omega
            · have hlast := hbefore (first - 1) (by omega)
              by_contra hgt
              exact hdiffers (first - 1) (by omega) (by omega) hlast
          have := track.time_le hle
          omega
    rw [hcooked, if_pos hexpires]
    exact hdiffers n hm (Nat.le_refl n)

theorem cookedAt_succ_eq_raw {n : Nat}
    (h : cookedAt debounce track (n + 1) ≠ cookedAt debounce track n) :
    cookedAt debounce track (n + 1) = track.raw n := by
  have hcooked := cookedAt_succ debounce track n
  split_ifs at hcooked
  · exact hcooked
  · exact absurd hcooked h

end Key

/-- The cooked matrix before scan `n`. -/
def cookedMatrix (scans : Scans cfg) (n : Nat) : Matrix cfg :=
  (stateAt (algorithm cfg) 0#8 scans n).cooked

theorem keyBit_cookedMatrix (scans : Scans cfg) (key : Key cfg) (n : Nat) :
    keyBit (cookedMatrix scans n) key =
      cookedAt cfg.debounce (scans.track (keyLayout cfg) key) n :=
  algorithm_realizes.cooked_eq (machine_settling cfg.debounce_ne_zero) scans key n

/-- Every key is debounced on its own: its bit changes exactly when the raw bit has
differed from it since a scan at least `DEBOUNCE` ago, whatever the other keys do;
`debounce()` leaves `raw` alone and reports the changes. -/
theorem debounces_each_key (scans : Scans cfg) :
    (∀ key n, keyBit (cookedMatrix scans (n + 1)) key ≠ keyBit (cookedMatrix scans n) key ↔
      ∃ m ≤ n, scans.time m + cfg.period ≤ scans.time n ∧
        ∀ i, m ≤ i → i ≤ n → keyBit (scans.raw i) key ≠ keyBit (cookedMatrix scans n) key) ∧
    (∀ key n, keyBit (cookedMatrix scans (n + 1)) key ≠ keyBit (cookedMatrix scans n) key →
      keyBit (cookedMatrix scans (n + 1)) key = keyBit (scans.raw n) key) ∧
    (∀ key (other : Scans cfg), other.time = scans.time →
      keyBit other.start key = keyBit scans.start key →
      (∀ n, keyBit (other.raw n) key = keyBit (scans.raw n) key) →
      ∀ n, keyBit (cookedMatrix other n) key = keyBit (cookedMatrix scans n) key) ∧
    (∀ n, (stateAt (algorithm cfg) 0#8 scans (n + 1)).raw = scans.raw n) ∧
    ∀ n, resultAt (algorithm cfg) 0#8 scans n = true ↔
      ∃ key, keyBit (cookedMatrix scans (n + 1)) key ≠ keyBit (cookedMatrix scans n) key := by
  have settling := machine_settling cfg.debounce_ne_zero
  refine ⟨fun key n => ?_, fun key n hne => ?_, fun key other htime hstart hraw n => ?_,
    fun n => ?_, fun n => ?_⟩
  case refine_1 =>
    simp only [keyBit_cookedMatrix]
    exact cookedAt_succ_ne_iff cfg.period_pos n
  case refine_2 =>
    simp only [keyBit_cookedMatrix] at hne ⊢
    exact cookedAt_succ_eq_raw hne
  case refine_3 =>
    exact algorithm_realizes.cooked_congr settling (track_eq_of_keyBit htime hstart hraw) n
  case refine_4 => exact algorithm_realizes.raw_eq settling.starts scans (n + 1)
  case refine_5 => exact algorithm_realizes.resultAt_iff settling.starts scans n

end Qmk.Debounce.SymDeferPk
