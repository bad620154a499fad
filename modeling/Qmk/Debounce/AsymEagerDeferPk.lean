import Mathlib.Tactic.SplitIfs
import Qmk.Debounce.Layouts

/-!
# `asym_eager_defer_pk`

Asymmetric debouncing for each key: a press is taken over at once and locks the key
for `DEBOUNCE` milliseconds; a release is taken over when the key has then stayed
up for as long.
-/

namespace Qmk.Debounce.AsymEagerDeferPk

open Qmk.Lib

/-- `debounce_counter_t`. -/
@[ext] structure Counter where
  pressed : Bool
  time : BitVec 7
  deriving DecidableEq

/-- `{DEBOUNCE_ELAPSED}`. -/
def Counter.elapsed : Counter := ⟨false, 0#7⟩

variable {cfg : Config 7}

/-- One key of `update_debounce_counters_and_transfer_if_expired`. -/
def updateKey (elapsedTime row col : Nat) (s : State cfg Counter) : State cfg Counter :=
  let index := row * cfg.cols + col
  if (s.counters index).time ≠ 0#7 then
    if (s.counters index).time.toNat ≤ elapsedTime then
      let s := { s with
        counters := Function.update s.counters index
          { s.counters index with time := 0#7 } }
      if (s.counters index).pressed then
        { s with matrixNeedUpdate := true }
      else
        let cookedNext := copyBit (s.cooked row) (s.raw row) col
        { s with
          cookedChanged := s.cookedChanged || decide (cookedNext ^^^ s.cooked row ≠ 0#_)
          cooked := Function.update s.cooked row cookedNext }
    else
      { s with
        counters := Function.update s.counters index
          { s.counters index with
            time := (s.counters index).time - BitVec.ofNat 7 elapsedTime }
        countersNeedUpdate := true }
  else
    s

def updateDebounceCountersAndTransferIfExpired (elapsedTime : Nat) (s : State cfg Counter) :
    State cfg Counter :=
  forRange cfg.rows (fun row => forRange cfg.cols (updateKey elapsedTime row))
    { s with countersNeedUpdate := false, matrixNeedUpdate := false }

/-- One key of `transfer_matrix_values`; `delta` is the row's. -/
def transferKey (delta : BitVec cfg.rowBits) (row col : Nat) (s : State cfg Counter) :
    State cfg Counter :=
  let index := row * cfg.cols + col
  if delta &&& colMask cfg col ≠ 0#_ then
    if (s.counters index).time = 0#7 then
      let pressed := decide (s.raw row &&& colMask cfg col ≠ 0#_)
      let s := { s with
        counters := Function.update s.counters index ⟨pressed, cfg.debounce⟩
        countersNeedUpdate := true }
      if pressed then
        { s with
          cooked := Function.update s.cooked row (s.cooked row ^^^ colMask cfg col)
          cookedChanged := true }
      else
        s
    else
      s
  else if (s.counters index).time ≠ 0#7 then
    if !(s.counters index).pressed then
      { s with
        counters := Function.update s.counters index
          { s.counters index with time := 0#7 } }
    else
      s
  else
    s

def transferMatrixValues (s : State cfg Counter) : State cfg Counter :=
  forRange cfg.rows
    (fun row s => forRange cfg.cols (transferKey (s.raw row ^^^ s.cooked row) row) s)
    { s with matrixNeedUpdate := false }

def algorithm (cfg : Config 7) : Algorithm cfg Counter where
  update := updateDebounceCountersAndTransferIfExpired
  transfer := transferMatrixValues
  rescans := true

/-- One key on its own. -/
def machine (debounce : BitVec 7) : Machine Bool Counter where
  update elapsed cell :=
    { cell with
      cooked :=
        if expires elapsed cell.counter.time && !cell.counter.pressed then cell.raw
        else cell.cooked
      counter := ⟨cell.counter.pressed, countDown elapsed cell.counter.time⟩ }
  transfer cell :=
    if cell.raw ≠ cell.cooked then
      if cell.counter.time = 0#7 then
        { cell with cooked := cell.cooked || cell.raw, counter := ⟨cell.raw, debounce⟩ }
      else
        cell
    else if cell.counter.pressed then
      cell
    else
      { cell with counter := ⟨false, 0#7⟩ }
  pending cell := cell.counter.time ≠ 0#7
  wakes elapsed cell := expires elapsed cell.counter.time && cell.counter.pressed
  starts cell := cell.raw ≠ cell.cooked ∧ cell.counter.time = 0#7

theorem machine_lawful (debounce : BitVec 7) : (machine debounce).Lawful 7 where
  update_raw _ _ := rfl
  transfer_raw cell := by
    simp only [machine]
    split_ifs <;> rfl
  update_idle elapsed cell h := by
    have hzero : cell.counter.time = 0#7 := by simpa [machine] using h
    refine Cell.ext rfl ?_ (Counter.ext rfl ?_)
    · simp [machine, hzero, expires]
    · simp [machine, hzero]
  wakes_idle elapsed cell h := by
    have hzero : cell.counter.time = 0#7 := by simpa [machine] using h
    simp [machine, expires, hzero]
  update_zero cell := by
    simp [machine, countDown_zero, expires_zero]
  wakes_zero cell := by
    simp [machine, expires_zero]
  update_clamp elapsed cell := by
    simp only [machine, countDown_clamp, expires_clamp]
  wakes_clamp elapsed cell := by
    simp only [machine, expires_clamp]
  pending_read _ _ := rfl
  pending_transfer cell h := by
    by_cases hidle : cell.counter.time = 0#7
    · by_cases hsame : cell.raw = cell.cooked
      · cases hpressed : cell.counter.pressed <;>
          simp [machine, hsame, hidle, hpressed] at h
      · exact .inr (by simp [machine, hsame, hidle])
    · exact .inl (by simp [machine, hidle])
  cooked_transfer elapsed cell h := by
    have hexpired : (expires elapsed cell.counter.time && !cell.counter.pressed) = true := by
      by_contra hnot
      simp only [machine, if_neg hnot] at h
      exact h rfl
    simp only [machine, if_pos hexpired]
    split_ifs <;> simp_all

/-- A cell has settled when its counter runs while the bits differ, and otherwise only
to lock a pressed key. -/
def Settled (cell : Cell Bool Counter) : Prop :=
  (cell.raw ≠ cell.cooked → cell.counter.time ≠ 0#7) ∧
    (cell.raw = cell.cooked → cell.counter.pressed = true ∨ cell.counter.time = 0#7)

theorem transfer_eq_self_iff {debounce : BitVec 7} (hne : debounce ≠ 0#7)
    (cell : Cell Bool Counter) :
    (machine debounce).transfer cell = cell ↔ Settled cell := by
  obtain ⟨raw, cooked, pressed, time⟩ := cell
  simp only [machine, Settled]
  by_cases hsame : raw = cooked
  · cases pressed with
    | true => simp [hsame]
    | false =>
        simp only [hsame, ne_eq, not_true_eq_false, Bool.false_eq_true, if_false,
          Cell.mk.injEq, Counter.mk.injEq, true_and, false_or, false_imp_iff, forall_const]
        exact eq_comm
  · by_cases hidle : time = 0#7 <;> simp [hsame, hidle, hne]

theorem transferMark_of_settled {debounce : BitVec 7} (hne : debounce ≠ 0#7)
    {cell : Cell Bool Counter} (h : Settled cell) (flag : Flag) :
    (machine debounce).transferMark flag cell = false := by
  cases flag with
  | countersNeedUpdate => exact decide_eq_false fun hstarts => h.1 hstarts.1 hstarts.2
  | matrixNeedUpdate => rfl
  | cookedChanged => simp [Machine.transferMark, (transfer_eq_self_iff hne cell).mpr h]

theorem settled_transfer {debounce : BitVec 7} (hne : debounce ≠ 0#7)
    (cell : Cell Bool Counter) : Settled ((machine debounce).transfer cell) := by
  obtain ⟨raw, cooked, pressed, time⟩ := cell
  simp only [machine, Settled]
  by_cases hsame : raw = cooked
  · cases pressed <;> simp [hsame]
  · by_cases hidle : time = 0#7
    · cases raw <;> simp [hsame, hidle, hne]
    · simp [hsame, hidle]

theorem settled_update {debounce : BitVec 7} {cell : Cell Bool Counter} (h : Settled cell)
    (gap : Nat) (hwakes : (machine debounce).wakes gap cell = false) :
    Settled ((machine debounce).update gap cell) := by
  obtain ⟨raw, cooked, pressed, time⟩ := cell
  simp only [machine, Settled, Bool.and_eq_false_iff, ne_eq, countDown_eq_zero_iff] at *
  cases hexpires : expires gap time with
  | true =>
      have hpressed : pressed = false := by simpa [hexpires] using hwakes
      simp [hpressed, (expires_iff.mp hexpires).2]
  | false =>
      have hrunning := expires_eq_false_iff.mp hexpires
      simp only [Bool.false_and, Bool.false_eq_true, if_false]
      rw [← toNat_eq_zero_iff] at h
      constructor
      · intro hdiffer
        have := h.1 hdiffer
        omega
      · intro hsame
        cases h.2 hsame with
        | inl hpressed => exact .inl hpressed
        | inr hzero => exact .inr (by omega)

theorem machine_settling {debounce : BitVec 7} (hne : debounce ≠ 0#7) :
    (machine debounce).Settling Counter.elapsed where
  starts value := by simp [machine, Counter.elapsed]
  transfer_start value := by simp [machine, Counter.elapsed]
  transfer_transfer cell := (transfer_eq_self_iff hne _).mpr (settled_transfer hne cell)
  transfer_update gap cell h hwakes :=
    (transfer_eq_self_iff hne _).mpr
      (settled_update ((transfer_eq_self_iff hne cell).mp h) gap hwakes)

theorem updateKey_sweeps {row col : Nat} (hrow : row < cfg.rows) (hcol : col < cfg.cols)
    (elapsed : Nat) (s : State cfg Counter) :
    Sweeps (keyLayout cfg).parts ((machine cfg.debounce).update elapsed)
      ((machine cfg.debounce).updateMark elapsed)
      (fun key => key.1.val = row ∧ key.2.val = col) s (updateKey elapsed row col s) := by
  unfold updateKey
  by_cases hidle : (s.counters (row * cfg.cols + col)).time = 0#7
  · simp only [hidle, ne_eq, not_true_eq_false, if_false]
    refine sweeps_key_same ?_ ?_
    · exact (machine_lawful cfg.debounce).update_idle elapsed _ (by simp [machine, hidle])
    · rintro ⟨⟩ <;> simp [Machine.updateMark, machine, expires, hidle]
  · simp only [hidle, ne_eq, not_false_eq_true, if_true]
    by_cases hexpired : (s.counters (row * cfg.cols + col)).time.toNat ≤ elapsed
    · simp only [hexpired, if_true]
      have hzero := countDown_eq_zero_iff.mpr hexpired
      cases hpressed : (s.counters (row * cfg.cols + col)).pressed with
      | true =>
          simp only [Function.update_self, if_true]
          refine sweeps_key hrow hcol ⟨true, 0#7⟩ (s.cooked row) rfl
            (Function.update_eq_self _ _).symm (fun _ _ => rfl) rfl rfl ?_ ?_
          case refine_1 => simp [machine, hzero, hpressed]
          case refine_2 =>
            rintro ⟨⟩ <;>
              simp [State.flag, Machine.updateMark, machine, expires, hidle, hexpired,
                hzero, hpressed]
      | false =>
          simp only [Function.update_self, Bool.false_eq_true, if_false]
          refine sweeps_key hrow hcol ⟨false, 0#7⟩
            (copyBit (s.cooked row) (s.raw row) col) rfl rfl
            (fun _ hother => getLsbD_copyBit_of_ne _ _ hother) rfl rfl ?_ ?_
          case refine_1 =>
            simp [machine, expires, hidle, hexpired, hzero, hpressed, getLsbD_copyBit_self]
          case refine_2 =>
            have hbits := xor_copyBit_ne_zero (s.cooked row) (s.raw row) col
            rw [BitVec.xor_comm] at hbits
            intro flag
            cases flag with
            | countersNeedUpdate => simp [State.flag, Machine.updateMark, machine, hzero]
            | matrixNeedUpdate => simp [State.flag, Machine.updateMark, machine, hpressed]
            | cookedChanged =>
                simp only [State.flag, Machine.updateMark, machine, expires, hbits]
                simp [hidle, hexpired, hpressed]
    · simp only [hexpired, if_false]
      refine sweeps_key hrow hcol _ (s.cooked row) rfl
        (Function.update_eq_self _ _).symm (fun _ _ => rfl) rfl rfl ?_ ?_
      case refine_1 => simp [machine, expires, countDown, hexpired]
      case refine_2 =>
        have hrunning := mt countDown_eq_zero_iff.mp hexpired
        rintro ⟨⟩ <;>
          simp [State.flag, Machine.updateMark, machine, expires, hexpired, hrunning]

theorem transferKey_sweeps {row col : Nat} (hrow : row < cfg.rows) (hcol : col < cfg.cols)
    {delta : BitVec cfg.rowBits} {s : State cfg Counter}
    (hdelta : delta.getLsbD col = ((s.raw row).getLsbD col != (s.cooked row).getLsbD col)) :
    Sweeps (keyLayout cfg).parts (machine cfg.debounce).transfer
      (machine cfg.debounce).transferMark
      (fun key => key.1.val = row ∧ key.2.val = col) s (transferKey delta row col s) := by
  have hkeep (h : Settled ⟨(s.raw row).getLsbD col, (s.cooked row).getLsbD col,
      s.counters (row * cfg.cols + col)⟩) :
      Sweeps (keyLayout cfg).parts (machine cfg.debounce).transfer
        (machine cfg.debounce).transferMark
        (fun key => key.1.val = row ∧ key.2.val = col) s s :=
    sweeps_key_same ((transfer_eq_self_iff cfg.debounce_ne_zero _).mpr h)
      (transferMark_of_settled cfg.debounce_ne_zero h)
  unfold transferKey
  simp only [and_colMask_ne_zero, hdelta, bne_iff_ne]
  by_cases hsame : (s.raw row).getLsbD col = (s.cooked row).getLsbD col
  · rw [if_neg (not_not_intro hsame)]
    by_cases hidle : (s.counters (row * cfg.cols + col)).time = 0#7
    · rw [if_neg (not_not_intro hidle)]
      exact hkeep ⟨fun hne => absurd hsame hne, fun _ => .inr hidle⟩
    · rw [if_pos hidle]
      cases hpressed : (s.counters (row * cfg.cols + col)).pressed with
      | true => exact hkeep ⟨fun hne => absurd hsame hne, fun _ => .inl hpressed⟩
      | false =>
          refine sweeps_key hrow hcol ⟨false, 0#7⟩ (s.cooked row) rfl
            (Function.update_eq_self _ _).symm (fun _ _ => rfl) rfl rfl ?_ ?_
          case refine_1 => simp [machine, hsame, hpressed]
          case refine_2 =>
            rintro ⟨⟩ <;>
              simp [State.flag, Machine.transferMark, machine, hsame, hpressed]
  · rw [if_pos hsame]
    by_cases hidle : (s.counters (row * cfg.cols + col)).time = 0#7
    · rw [if_pos hidle]
      have hbit : col < cfg.rowBits := by
        refine BitVec.lt_of_getLsbD (x := delta) ?_
        rw [hdelta]
        exact bne_iff_ne.mpr hsame
      have hflip : (s.cooked row).getLsbD col = !(s.raw row).getLsbD col :=
        Bool.eq_not.mpr (Ne.symm hsame)
      cases hraw : (s.raw row).getLsbD col with
      | true =>
          have hcooked : (s.cooked row).getLsbD col = false := by rw [hflip, hraw]; rfl
          refine sweeps_key hrow hcol ⟨true, cfg.debounce⟩ (s.cooked row ^^^ colMask cfg col)
            rfl rfl (fun _ hother => getLsbD_xor_colMask_of_ne _ hother) rfl rfl ?_ ?_
          case refine_1 =>
            rw [getLsbD_xor_colMask_self _ hbit]
            simp [machine, hraw, hcooked, hidle]
          case refine_2 =>
            rintro ⟨⟩ <;>
              simp [State.flag, Machine.transferMark, machine, hraw, hcooked, hidle]
      | false =>
          have hcooked : (s.cooked row).getLsbD col = true := by rw [hflip, hraw]; rfl
          refine sweeps_key hrow hcol ⟨false, cfg.debounce⟩ (s.cooked row) rfl
            (Function.update_eq_self _ _).symm (fun _ _ => rfl) rfl rfl ?_ ?_
          case refine_1 => simp [machine, hraw, hcooked, hidle]
          case refine_2 =>
            rintro ⟨⟩ <;>
              simp [State.flag, Machine.transferMark, machine, hraw, hcooked, hidle]
    · rw [if_neg hidle]
      exact hkeep ⟨fun _ => hidle, fun heq => absurd heq hsame⟩

theorem algorithm_realizes :
    (algorithm cfg).Realizes (keyLayout cfg) (machine cfg.debounce) where
  lawful := machine_lawful cfg.debounce
  update elapsed s hmatrix := by
    have hstart : { s with countersNeedUpdate := false, matrixNeedUpdate := false } =
        { s with countersNeedUpdate := false } := by rw [← hmatrix]
    simp only [algorithm, updateDebounceCountersAndTransferIfExpired, hstart]
    refine sweeps_rows fun row s' hrow => sweeps_cols fun col s'' hcol _ => ?_
    exact updateKey_sweeps hrow hcol elapsed s''
  transfer s _ := by
    refine sweeps_rows fun row s' hrow => sweeps_cols_delta hrow
      (s'.raw row ^^^ s'.cooked row) ?_ ?_
    · intro col
      exact BitVec.getLsbD_xor
    · intro col s'' hdelta
      exact transferKey_sweeps hrow col.isLt hdelta
  rescans hnot := by cases hnot

section Key

variable {debounce : BitVec 7}

/-- What a scan can do to a key. -/
inductive Step (debounce : BitVec 7) (gap : Nat) (raw : Bool) (cell : Cell Bool Counter) :
    Cell Bool Counter → Prop where
  | rests (hsame : raw = cell.cooked)
      (hfree : cell.counter.pressed = true ∨ cell.counter.time = 0#7) :
      Step debounce gap raw cell
        ⟨raw, cell.cooked, ⟨cell.counter.pressed, countDown gap cell.counter.time⟩⟩
  | cancels (hsame : raw = cell.cooked) (hwaits : cell.counter.pressed = false)
      (hrunning : 0 < cell.counter.time.toNat) :
      Step debounce gap raw cell ⟨raw, cell.cooked, ⟨false, 0#7⟩⟩
  | runs (hdiffers : raw ≠ cell.cooked) (hrunning : gap < cell.counter.time.toNat) :
      Step debounce gap raw cell
        ⟨raw, cell.cooked, ⟨cell.counter.pressed, countDown gap cell.counter.time⟩⟩
  | starts (hdiffers : raw ≠ cell.cooked) (hexpired : cell.counter.time.toNat ≤ gap)
      (hfree : cell.counter.pressed = true ∨ cell.counter.time = 0#7) :
      Step debounce gap raw cell ⟨raw, cell.cooked || raw, ⟨raw, debounce⟩⟩
  | releases (hdiffers : raw ≠ cell.cooked) (hexpired : cell.counter.time.toNat ≤ gap)
      (hwaits : cell.counter.pressed = false) (hrunning : 0 < cell.counter.time.toNat) :
      Step debounce gap raw cell ⟨raw, raw, ⟨false, 0#7⟩⟩

theorem step_cases (gap : Nat) (raw : Bool) (cell : Cell Bool Counter) :
    Step debounce gap raw cell
      ((machine debounce).transfer ((machine debounce).update gap (cell.read raw))) := by
  obtain ⟨last, cooked, pressed, time⟩ := cell
  have hzero : countDown gap time = 0#7 ↔ time.toNat ≤ gap := countDown_eq_zero_iff
  by_cases hsame : raw = cooked
  · -- an expiring release wait copies a bit that is the same
    have hupdate : (machine debounce).update gap (Cell.read ⟨last, cooked, pressed, time⟩ raw) =
        ⟨raw, cooked, pressed, countDown gap time⟩ := by
      simp [machine, Cell.read, hsame]
    rw [hupdate]
    by_cases hfree : pressed = true ∨ time = 0#7
    · have hnext : (machine debounce).transfer ⟨raw, cooked, pressed, countDown gap time⟩ =
          ⟨raw, cooked, pressed, countDown gap time⟩ := by
        cases hfree with
        | inl hpressed => simp [machine, hsame, hpressed]
        | inr hidle => cases pressed <;> simp [machine, hsame, hidle]
      rw [hnext]
      exact .rests hsame hfree
    · obtain ⟨hwaits, hrunning⟩ := not_or.mp hfree
      have hpressed : pressed = false := by simpa using hwaits
      have hnext : (machine debounce).transfer ⟨raw, cooked, pressed, countDown gap time⟩ =
          ⟨raw, cooked, false, 0#7⟩ := by simp [machine, hsame, hpressed]
      rw [hnext]
      exact .cancels hsame hpressed
        (Nat.pos_of_ne_zero (mt toNat_eq_zero_iff.mp hrunning))
  · by_cases hexpired : time.toNat ≤ gap
    · by_cases hfree : pressed = true ∨ time = 0#7
      · have hquiet : ¬(expires gap time = true ∧ pressed = false) := by
          cases hfree with
          | inl hpressed => simp [hpressed]
          | inr hidle => simp [hidle, expires]
        have hnext : (machine debounce).transfer
            ((machine debounce).update gap (Cell.read ⟨last, cooked, pressed, time⟩ raw)) =
              ⟨raw, cooked || raw, raw, debounce⟩ := by
          simp [machine, Cell.read, hquiet, hsame, hzero.mpr hexpired]
        rw [hnext]
        exact .starts hsame hexpired hfree
      · obtain ⟨hwaits, hrunning⟩ := not_or.mp hfree
        have hpressed : pressed = false := by simpa using hwaits
        have hpos : 0 < time.toNat := Nat.pos_of_ne_zero (mt toNat_eq_zero_iff.mp hrunning)
        have hexpires : expires gap time = true := expires_iff.mpr ⟨hpos, hexpired⟩
        have hnext : (machine debounce).transfer
            ((machine debounce).update gap (Cell.read ⟨last, cooked, pressed, time⟩ raw)) =
              ⟨raw, raw, false, 0#7⟩ := by
          simp [machine, Cell.read, hexpires, hpressed]
        rw [hnext]
        exact .releases hsame hexpired hpressed hpos
    · have hexpires : expires gap time = false :=
        expires_eq_false_iff.mpr (.inr (Nat.lt_of_not_le hexpired))
      have hnext : (machine debounce).transfer
          ((machine debounce).update gap (Cell.read ⟨last, cooked, pressed, time⟩ raw)) =
            ⟨raw, cooked, pressed, countDown gap time⟩ := by
        simp [machine, Cell.read, hexpires, hsame, mt hzero.mp hexpired]
      rw [hnext]
      exact .runs hsame (Nat.lt_of_not_le hexpired)

variable (debounce : BitVec 7) (track : Track Bool)

def cellAt (n : Nat) : Cell Bool Counter :=
  (machine debounce).cellAt Counter.elapsed track n

/-- The cooked bit before scan `n`. -/
def cookedAt (n : Nat) : Bool := (cellAt debounce track n).cooked

/-- Scan `n` takes over a press, which starts a lockout. -/
def Presses (n : Nat) : Prop :=
  cookedAt debounce track n = false ∧ cookedAt debounce track (n + 1) = true

/-- Every lockout that has started by scan `n` is over at `time`. -/
def UnlockedAt (n time : Nat) : Prop :=
  ∀ p < n, Presses debounce track p → track.time p + debounce.toNat ≤ time

/-- What the cell stands for before scan `n`. -/
inductive Phase (n : Nat) : Prop where
  | idle (hidle : (cellAt debounce track n).counter.time = 0#7)
      (hlast : ∀ m, n = m + 1 → track.raw m = cookedAt debounce track n)
      (hover : UnlockedAt debounce track n (track.time (n - 1)))
  | locked (press : Nat) (hpress : press < n) (hpresses : Presses debounce track press)
      (hcooked : cookedAt debounce track n = true)
      (hpressed : (cellAt debounce track n).counter.pressed = true)
      (hrunning : 0 < (cellAt debounce track n).counter.time.toNat)
      (htime : (cellAt debounce track n).counter.time.toNat + track.time (n - 1) =
        debounce.toNat + track.time press)
      (hlatest : UnlockedAt debounce track n (track.time press + debounce.toNat))
  | waiting (first : Nat) (hfirst : first < n)
      (hcooked : cookedAt debounce track n = true)
      (hwaits : (cellAt debounce track n).counter.pressed = false)
      (hrunning : 0 < (cellAt debounce track n).counter.time.toNat)
      (htime : (cellAt debounce track n).counter.time.toNat + track.time (n - 1) =
        debounce.toNat + track.time first)
      (hreleased : ∀ i, first ≤ i → i < n → track.raw i = false)
      (hover : UnlockedAt debounce track n (track.time first))
      (hearliest : ∀ j < first, (∀ i, j ≤ i → i < first → track.raw i = false) →
        ¬UnlockedAt debounce track n (track.time j))

variable {debounce track}

theorem UnlockedAt.mono {n time later : Nat} (h : UnlockedAt debounce track n time)
    (hle : time ≤ later) : UnlockedAt debounce track n later :=
  fun p hp hpresses => Nat.le_trans (h p hp hpresses) hle

theorem UnlockedAt.succ {n time : Nat} (h : UnlockedAt debounce track n time)
    (hpress : Presses debounce track n → track.time n + debounce.toNat ≤ time) :
    UnlockedAt debounce track (n + 1) time := by
  intro p hp hpresses
  rcases Nat.lt_succ_iff_lt_or_eq.mp hp with hlt | rfl
  · exact h p hlt hpresses
  · exact hpress hpresses

theorem not_presses_of_cooked {n : Nat} (h : cookedAt debounce track n = true) :
    ¬Presses debounce track n := fun hpresses => by
  rw [hpresses.1] at h
  contradiction

theorem phase_succ_idle (hpos : 0 < debounce.toNat) {n : Nat}
    (hidle : (cellAt debounce track n).counter.time = 0#7)
    (hlast : ∀ m, n = m + 1 → track.raw m = cookedAt debounce track n)
    (hover : UnlockedAt debounce track n (track.time (n - 1))) :
    Phase debounce track (n + 1) := by
  have hmono := track.time_le (Nat.sub_le n 1)
  have hstep : Step debounce (track.gap n) (track.raw n) (cellAt debounce track n)
    (cellAt debounce track (n + 1)) := step_cases _ _ _
  generalize hcell : cellAt debounce track (n + 1) = next at hstep
  have hcooked : cookedAt debounce track (n + 1) = next.cooked := congrArg Cell.cooked hcell
  cases hstep with
  | rests hsame hfree =>
      have hkept : cookedAt debounce track (n + 1) = cookedAt debounce track n := hcooked
      refine .idle ?_ ?_ ?_
      · rw [hcell]
        simp [hidle]
      · intro m hm
        obtain rfl : n = m := by omega
        exact hsame.trans hkept.symm
      · refine (hover.mono hmono).succ fun hpresses => ?_
        have hfalse := hpresses.1
        rw [← hkept, hpresses.2] at hfalse
        contradiction
  | cancels hsame hwaits hrunning => simp [hidle] at hrunning
  | runs hdiffers hrunning => simp [hidle] at hrunning
  | starts hdiffers hexpired hfree =>
      cases hraw : track.raw n with
      | true =>
          have hup : cookedAt debounce track n = false := by
            rw [hraw] at hdiffers
            exact Bool.eq_not.mpr (Ne.symm hdiffers)
          have hdown : cookedAt debounce track (n + 1) = true := by
            rw [hcooked, hraw]
            simp
          refine .locked n (Nat.lt_succ_self n) ⟨hup, hdown⟩ hdown ?_ ?_ ?_ ?_
          · rw [hcell]
            exact hraw
          · rw [hcell]
            exact hpos
          · rw [hcell]
            rfl
          · refine (hover.mono (by omega)).succ fun _ => Nat.le_refl _
      | false =>
          have hdown : cookedAt debounce track n = true := by
            rw [hraw] at hdiffers
            exact Bool.eq_not.mpr (Ne.symm hdiffers)
          refine .waiting n (Nat.lt_succ_self n) ?_ ?_ ?_ ?_ ?_ ?_ ?_
          · rw [hcooked]
            change (cookedAt debounce track n || _) = true
            rw [hdown, Bool.true_or]
          · rw [hcell]
            exact hraw
          · rw [hcell]
            exact hpos
          · rw [hcell]
            rfl
          · intro i hle hlt
            obtain rfl : i = n := by omega
            exact hraw
          · exact (hover.mono hmono).succ fun hpresses =>
              absurd hpresses (not_presses_of_cooked hdown)
          · -- the scan before read the key as pressed
            intro j hj hreleased _
            have hprev := hlast (n - 1) (by omega)
            rw [hreleased (n - 1) (by omega) (by omega), hdown] at hprev
            contradiction
  | releases hdiffers hexpired hwaits hrunning => simp [hidle] at hrunning

theorem phase_succ_locked (hpos : 0 < debounce.toNat) {n press : Nat} (hpress : press < n)
    (hpresses : Presses debounce track press)
    (hdown : cookedAt debounce track n = true)
    (hpressed : (cellAt debounce track n).counter.pressed = true)
    (hrunning : 0 < (cellAt debounce track n).counter.time.toNat)
    (htime : (cellAt debounce track n).counter.time.toNat + track.time (n - 1) =
      debounce.toNat + track.time press)
    (hlatest : UnlockedAt debounce track n (track.time press + debounce.toNat)) :
    Phase debounce track (n + 1) := by
  have hmono := track.time_le (Nat.sub_le n 1)
  have hgap : track.gap n = track.time n - track.time (n - 1) := rfl
  have hlatest' : UnlockedAt debounce track (n + 1) (track.time press + debounce.toNat) :=
    hlatest.succ fun hnow => absurd hnow (not_presses_of_cooked hdown)
  have hstep : Step debounce (track.gap n) (track.raw n) (cellAt debounce track n)
    (cellAt debounce track (n + 1)) := step_cases _ _ _
  generalize hcell : cellAt debounce track (n + 1) = next at hstep
  have hcooked : cookedAt debounce track (n + 1) = next.cooked := congrArg Cell.cooked hcell
  -- the lockout goes on
  have hcontinue (hlater : track.gap n < (cellAt debounce track n).counter.time.toNat)
      (hkept : cellAt debounce track (n + 1) = ⟨track.raw n, (cellAt debounce track n).cooked,
        ⟨(cellAt debounce track n).counter.pressed,
          countDown (track.gap n) (cellAt debounce track n).counter.time⟩⟩) :
      Phase debounce track (n + 1) := by
    refine .locked press (by omega) hpresses ?_ ?_ ?_ ?_ hlatest'
    · exact (congrArg Cell.cooked hkept).trans hdown
    · rw [hkept]
      exact hpressed
    · rw [hkept, toNat_countDown]
      omega
    · rw [hkept, toNat_countDown, Nat.add_sub_cancel]
      omega
  cases hstep with
  | rests hsame hfree =>
      by_cases hlater : track.gap n < (cellAt debounce track n).counter.time.toNat
      · exact hcontinue hlater hcell
      · refine .idle ?_ ?_ ?_
        · rw [hcell]
          exact countDown_eq_zero_iff.mpr (Nat.le_of_not_lt hlater)
        · intro m hm
          obtain rfl : n = m := by omega
          exact hsame.trans hcooked.symm
        · refine hlatest'.mono ?_
          rw [Nat.add_sub_cancel]
          omega
  | cancels hsame hwaits hrunning => rw [hpressed] at hwaits; contradiction
  | runs hdiffers hlater => exact hcontinue hlater hcell
  | starts hdiffers hexpired hfree =>
      have hraw : track.raw n = false := by
        have hflip : track.raw n = !(cellAt debounce track n).cooked := Bool.eq_not.mpr hdiffers
        rw [hflip]
        exact congrArg not hdown
      refine .waiting n (Nat.lt_succ_self n) ?_ ?_ ?_ ?_ ?_ ?_ ?_
      · rw [hcooked]
        change (cookedAt debounce track n || _) = true
        rw [hdown, Bool.true_or]
      · rw [hcell]
        exact hraw
      · rw [hcell]
        exact hpos
      · rw [hcell]
        rfl
      · intro i hle hlt
        obtain rfl : i = n := by omega
        exact hraw
      · exact hlatest'.mono (by omega)
      · -- at the scan before, the lockout was still on
        intro j hj _ hunlocked
        have hbefore := track.time_le (Nat.le_sub_one_of_lt hj)
        have := hunlocked press (by omega) hpresses
        omega
  | releases hdiffers hexpired hwaits hrunning => rw [hpressed] at hwaits; contradiction

theorem phase_succ_waiting {n first : Nat} (hfirst : first < n)
    (hdown : cookedAt debounce track n = true)
    (hwaits : (cellAt debounce track n).counter.pressed = false)
    (hrunning : 0 < (cellAt debounce track n).counter.time.toNat)
    (htime : (cellAt debounce track n).counter.time.toNat + track.time (n - 1) =
      debounce.toNat + track.time first)
    (hreleased : ∀ i, first ≤ i → i < n → track.raw i = false)
    (hover : UnlockedAt debounce track n (track.time first))
    (hearliest : ∀ j < first, (∀ i, j ≤ i → i < first → track.raw i = false) →
      ¬UnlockedAt debounce track n (track.time j)) :
    Phase debounce track (n + 1) := by
  have hmono := track.time_le (Nat.sub_le n 1)
  have hgap : track.gap n = track.time n - track.time (n - 1) := rfl
  have hover' : UnlockedAt debounce track (n + 1) (track.time first) :=
    hover.succ fun hnow => absurd hnow (not_presses_of_cooked hdown)
  have hover'' : UnlockedAt debounce track (n + 1) (track.time n) :=
    hover'.mono (track.time_le (Nat.le_of_lt hfirst))
  have hbusy : ¬((cellAt debounce track n).counter.pressed = true ∨
      (cellAt debounce track n).counter.time = 0#7) := by
    rintro (hpressed | hzero)
    · rw [hwaits] at hpressed
      contradiction
    · simp [hzero] at hrunning
  have hstep : Step debounce (track.gap n) (track.raw n) (cellAt debounce track n)
    (cellAt debounce track (n + 1)) := step_cases _ _ _
  generalize hcell : cellAt debounce track (n + 1) = next at hstep
  have hcooked : cookedAt debounce track (n + 1) = next.cooked := congrArg Cell.cooked hcell
  cases hstep with
  | rests hsame hfree => exact absurd hfree hbusy
  | cancels hsame _ _ =>
      refine .idle (by rw [hcell]) ?_ hover''
      intro m hm
      obtain rfl : n = m := by omega
      exact hsame.trans hcooked.symm
  | runs hdiffers hlater =>
      have hraw : track.raw n = false := by
        have hflip : track.raw n = !(cellAt debounce track n).cooked := Bool.eq_not.mpr hdiffers
        rw [hflip]
        exact congrArg not hdown
      refine .waiting first (by omega) (hcooked.trans hdown) ?_ ?_ ?_ ?_ hover' ?_
      · rw [hcell]
        exact hwaits
      · rw [hcell, toNat_countDown]
        omega
      · rw [hcell, toNat_countDown, Nat.add_sub_cancel]
        omega
      · intro i hle hlt
        rcases Nat.lt_succ_iff_lt_or_eq.mp hlt with hbelow | rfl
        · exact hreleased i hle hbelow
        · exact hraw
      · intro j hj hup hunlocked
        exact hearliest j hj hup fun p hp => hunlocked p (by omega)
  | starts hdiffers hexpired hfree => exact absurd hfree hbusy
  | releases hdiffers hexpired _ _ =>
      refine .idle (by rw [hcell]) ?_ hover''
      intro m hm
      obtain rfl : n = m := by omega
      exact hcooked.symm

theorem phase (track : Track Bool) (hpos : 0 < debounce.toNat) (n : Nat) :
    Phase debounce track n := by
  induction n with
  | zero => exact .idle rfl nofun nofun
  | succ n ih =>
      cases ih with
      | idle hidle hlast hover => exact phase_succ_idle hpos hidle hlast hover
      | locked press hpress hpresses hcooked hpressed hrunning htime hlatest =>
          exact phase_succ_locked hpos hpress hpresses hcooked hpressed hrunning htime hlatest
      | waiting first hfirst hcooked hwaits hrunning htime hreleased hover hearliest =>
          exact phase_succ_waiting hfirst hcooked hwaits hrunning htime hreleased hover
            hearliest

theorem cookedAt_succ_eq_raw {n : Nat}
    (h : cookedAt debounce track (n + 1) ≠ cookedAt debounce track n) :
    cookedAt debounce track (n + 1) = track.raw n := by
  have hstep : Step debounce (track.gap n) (track.raw n) (cellAt debounce track n)
    (cellAt debounce track (n + 1)) := step_cases _ _ _
  simp only [cookedAt] at h ⊢
  generalize cellAt debounce track (n + 1) = next at h hstep
  cases hstep with
  | rests => exact absurd rfl h
  | cancels => exact absurd rfl h
  | runs => exact absurd rfl h
  | starts =>
      cases hraw : track.raw n with
      | true => simp
      | false => simp [hraw] at h
  | releases => rfl

theorem Presses.raw {n : Nat} (h : Presses debounce track n) : track.raw n = true := by
  have hchange : cookedAt debounce track (n + 1) ≠ cookedAt debounce track n := by
    rw [h.1, h.2]
    nofun
  exact (cookedAt_succ_eq_raw hchange).symm.trans h.2

/-- A press is taken over at once: a key that is cooked as released is not locked. -/
theorem cookedAt_succ_of_raw (hpos : 0 < debounce.toNat) {n : Nat}
    (h : track.raw n = true) : cookedAt debounce track (n + 1) = true := by
  by_contra hup
  have hchange : cookedAt debounce track (n + 1) = cookedAt debounce track n := by
    by_contra hne
    exact hup ((cookedAt_succ_eq_raw hne).trans h)
  have hidle : (cellAt debounce track n).counter.time = 0#7 := by
    cases phase track hpos n with
    | idle hidle _ _ => exact hidle
    | locked _ _ _ hdown => exact absurd (hchange.trans hdown) hup
    | waiting _ _ hdown => exact absurd (hchange.trans hdown) hup
  have hstep : Step debounce (track.gap n) (track.raw n) (cellAt debounce track n)
    (cellAt debounce track (n + 1)) := step_cases _ _ _
  simp only [cookedAt] at hup hchange
  generalize cellAt debounce track (n + 1) = next at hup hchange hstep
  cases hstep with
  | rests hsame => exact hup (hsame.symm.trans h)
  | cancels hsame => exact hup (hsame.symm.trans h)
  | runs _ hrunning => simp [hidle] at hrunning
  | starts => simp [h] at hup
  | releases => exact hup h

/-- A release is taken over when the key has stayed up for `DEBOUNCE` since a scan at
which no lockout was on. -/
theorem cookedAt_succ_eq_false_iff (hpos : 0 < debounce.toNat) {n : Nat}
    (hdown : cookedAt debounce track n = true) :
    cookedAt debounce track (n + 1) = false ↔
      ∃ m ≤ n, track.time m + debounce.toNat ≤ track.time n ∧
        (∀ i, m ≤ i → i ≤ n → track.raw i = false) ∧
        UnlockedAt debounce track m (track.time m) := by
  have hmono := track.time_le (Nat.sub_le n 1)
  have hgap : track.gap n = track.time n - track.time (n - 1) := rfl
  have hstep : Step debounce (track.gap n) (track.raw n) (cellAt debounce track n)
    (cellAt debounce track (n + 1)) := step_cases _ _ _
  have hphase := phase track hpos n
  have hcooked : (cellAt debounce track n).cooked = true := hdown
  constructor
  case mp =>
    intro hup
    simp only [cookedAt] at hup
    generalize cellAt debounce track (n + 1) = next at hup hstep
    cases hstep with
    | rests => rw [hcooked] at hup; contradiction
    | cancels => rw [hcooked] at hup; contradiction
    | runs => rw [hcooked] at hup; contradiction
    | starts => simp [hcooked] at hup
    | releases hdiffers hexpired hwaits hrunning =>
        cases hphase with
        | idle hidle => simp [hidle] at hrunning
        | locked _ _ _ _ hpressed => rw [hwaits] at hpressed; contradiction
        | waiting first hfirst _ _ _ htime hreleased hover _ =>
            refine ⟨first, by omega, by omega, fun i hle hlt => ?_, fun p hp => hover p (by omega)⟩
            rcases Nat.lt_or_eq_of_le hlt with hbelow | rfl
            · exact hreleased i hle hbelow
            · exact hup
  case mpr =>
    rintro ⟨m, hm, htime, hreleased, hunlocked⟩
    -- no press since scan `m`, so the lockouts are over for the scans after it too
    have hlater : UnlockedAt debounce track n (track.time m) := by
      intro p hp hpresses
      by_cases hbefore : p < m
      · exact hunlocked p hbefore hpresses
      · have hup := hreleased p (by omega) (by omega)
        rw [hpresses.raw] at hup
        contradiction
    have hraw := hreleased n hm (Nat.le_refl n)
    cases hphase with
    | idle hidle hlast hover =>
        exfalso
        by_cases hnow : m = n
        · subst hnow
          omega
        · have hprev := hlast (n - 1) (by omega)
          rw [hreleased (n - 1) (by omega) (by omega), hdown] at hprev
          contradiction
    | locked press hpress hpresses _ _ hrunning hsince _ =>
        exfalso
        have hover := hlater press hpress hpresses
        by_cases hnow : m = n
        · subst hnow
          omega
        · have := track.time_le (Nat.le_sub_one_of_lt (Nat.lt_of_le_of_ne hm hnow))
          omega
    | waiting first hfirst _ hwaits hrunning hsince _ _ hearliest =>
        have hle : first ≤ m := by
          by_contra hlt
          exact hearliest m (by omega)
            (fun i hmi hi => hreleased i hmi (by omega)) hlater
        have hexpired : (cellAt debounce track n).counter.time.toNat ≤ track.gap n := by
          have := track.time_le hle
          omega
        simp only [cookedAt]
        generalize cellAt debounce track (n + 1) = next at hstep
        cases hstep with
        | rests hsame => rw [hraw, hcooked] at hsame; contradiction
        | cancels hsame => rw [hraw, hcooked] at hsame; contradiction
        | runs _ hlong => omega
        | starts _ _ hfree =>
            exfalso
            cases hfree with
            | inl hpressed => rw [hwaits] at hpressed; contradiction
            | inr hzero => simp [hzero] at hrunning
        | releases => exact hraw

end Key

/-- The two halves of the debouncing of one key. -/
structure PressLocks (period : Nat) (time : Nat → Nat) (raw cooked : Nat → Bool) : Prop where
  takes_raw : ∀ n, cooked (n + 1) ≠ cooked n → cooked (n + 1) = raw n
  press_taken : ∀ n, raw n = true → cooked (n + 1) = true
  release_iff : ∀ n, cooked n = true →
    (cooked (n + 1) = false ↔ ∃ m ≤ n, time m + period ≤ time n ∧
      (∀ i, m ≤ i → i ≤ n → raw i = false) ∧
      ∀ p < m, cooked p = false → cooked (p + 1) = true → time p + period ≤ time m)
  catches_up : ∀ k m n, k ≤ m → m ≤ n → (∀ i, k ≤ i → i ≤ n → raw i = raw n) →
    time k + period ≤ time m → time m + period ≤ time n → cooked (n + 1) = raw n

theorem pressLocks {debounce : BitVec 7} (hpos : 0 < debounce.toNat) (track : Track Bool) :
    PressLocks debounce.toNat track.time track.raw (cookedAt debounce track) := by
  have hrelease : ∀ n, cookedAt debounce track n = true →
      (cookedAt debounce track (n + 1) = false ↔
        ∃ m ≤ n, track.time m + debounce.toNat ≤ track.time n ∧
          (∀ i, m ≤ i → i ≤ n → track.raw i = false) ∧
          ∀ p < m, cookedAt debounce track p = false →
            cookedAt debounce track (p + 1) = true →
            track.time p + debounce.toNat ≤ track.time m) := by
    intro n hdown
    refine (cookedAt_succ_eq_false_iff hpos hdown).trans ?_
    simp only [UnlockedAt, Presses, and_imp]
  constructor
  case takes_raw => exact fun n => cookedAt_succ_eq_raw
  case press_taken => exact fun n => cookedAt_succ_of_raw hpos
  case release_iff => exact hrelease
  case catches_up =>
    intro k m n hkm hmn hstable hfirst hsecond
    cases hraw : track.raw n with
    | true => exact cookedAt_succ_of_raw hpos hraw
    | false =>
        by_cases hdown : cookedAt debounce track n = true
        · refine (hrelease n hdown).mpr ⟨m, hmn, hsecond, fun i hmi hin => ?_,
            fun p hp hup hpressed => ?_⟩
          · exact (hstable i (by omega) hin).trans hraw
          · -- the press was before the key was up
            have hpresses : Presses debounce track p := ⟨hup, hpressed⟩
            have hbefore : p ≤ k := by
              by_contra hafter
              have hreleased := (hstable p (by omega) (by omega)).trans hraw
              rw [hpresses.raw] at hreleased
              contradiction
            have := track.time_le hbefore
            omega
        · by_contra hnot
          have hne : cookedAt debounce track (n + 1) ≠ cookedAt debounce track n := by
            intro hsame
            rw [hsame] at hnot
            exact hdown (by simpa using hnot)
          exact hnot ((cookedAt_succ_eq_raw hne).trans hraw)

def cookedMatrix (scans : Scans cfg) (n : Nat) : Matrix cfg :=
  (stateAt (algorithm cfg) Counter.elapsed scans n).cooked

theorem keyBit_cookedMatrix (scans : Scans cfg) (key : Key cfg) (n : Nat) :
    keyBit (cookedMatrix scans n) key =
      cookedAt cfg.debounce (scans.track (keyLayout cfg) key) n :=
  algorithm_realizes.cooked_eq (machine_settling cfg.debounce_ne_zero) scans key n

/-- Every key is a machine of its own that takes a press at once and a release when
it has lasted, and `debounce()` reports the changes. -/
theorem presses_lock_each_key (scans : Scans cfg) :
    (∀ key, PressLocks cfg.period scans.time (fun n => keyBit (scans.raw n) key)
      (fun n => keyBit (cookedMatrix scans n) key)) ∧
    (∀ key (other : Scans cfg), other.time = scans.time →
      keyBit other.start key = keyBit scans.start key →
      (∀ n, keyBit (other.raw n) key = keyBit (scans.raw n) key) →
      ∀ n, keyBit (cookedMatrix other n) key = keyBit (cookedMatrix scans n) key) ∧
    ∀ n, resultAt (algorithm cfg) Counter.elapsed scans n = true ↔
      ∃ key, keyBit (cookedMatrix scans (n + 1)) key ≠ keyBit (cookedMatrix scans n) key := by
  have settling := machine_settling cfg.debounce_ne_zero
  refine ⟨fun key => ?_, fun key other htime hstart hraw n => ?_, fun n => ?_⟩
  case refine_1 =>
    rw [funext (keyBit_cookedMatrix scans key)]
    exact pressLocks cfg.period_pos (scans.track (keyLayout cfg) key)
  case refine_2 =>
    exact algorithm_realizes.cooked_congr settling (track_eq_of_keyBit htime hstart hraw) n
  case refine_3 => exact algorithm_realizes.resultAt_iff settling.starts scans n

/-- One key and a `DEBOUNCE` of five. -/
def oneKey : Config 7 where
  rows := 1
  cols := 1
  rowBits := 8
  timerBits := 16
  debounce := 5#7
  debounce_ne_zero := by decide

def onlyKey : Key oneKey := (⟨0, Nat.one_pos⟩, ⟨0, Nat.one_pos⟩)

/-- The key is pressed at 0 and released at 1; the next scans are at 11 and 12. -/
def sparseScans : Scans oneKey where
  start _ := 0#8
  raw n _ := if n = 0 then 1#8 else 0#8
  time n := if n ≤ 1 then n else n + 9
  time_mono n := by
    split_ifs <;> omega
  time_gap n := by
    simp only [oneKey]
    split_ifs <;> omega

/-- The wait for a release begins at the first scan after the lockout, so a stable
release can outlive twice the period and a further scan. -/
theorem sparse_release_pending :
    ¬∀ (cfg : Config 7) (scans : Scans cfg) (key : Key cfg) (k m n : Nat),
      k ≤ m → m < n →
      (∀ i, k ≤ i → i ≤ n → keyBit (scans.raw i) key = keyBit (scans.raw n) key) →
      scans.time k + 2 * cfg.period ≤ scans.time m →
      keyBit (cookedMatrix scans (n + 1)) key = keyBit (scans.raw n) key := by
  intro h
  have hstable : ∀ i, 1 ≤ i → i ≤ 3 →
      keyBit (sparseScans.raw i) onlyKey = keyBit (sparseScans.raw 3) onlyKey := by
    intro i hpos _
    have hne : i ≠ 0 := by omega
    simp [sparseScans, hne]
  have hlate := h oneKey sparseScans onlyKey 1 2 3 (by decide) (by decide) hstable (by decide)
  have hstays : keyBit (cookedMatrix sparseScans 4) onlyKey = true := by decide
  rw [hstays] at hlate
  exact absurd hlate (by decide)

end Qmk.Debounce.AsymEagerDeferPk
