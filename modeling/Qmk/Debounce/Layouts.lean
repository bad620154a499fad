import Qmk.Debounce.Track

/-!
# Keys and rows

The two layouts of the algorithms: a counter for each key, with the key's bit in
its row of the matrix, or a counter for each row.
-/

namespace Qmk.Debounce

open Qmk.Lib

variable {counterBits : Nat} {cfg : Config counterBits} {γ V ι : Type}

/-- `MATRIX_ROW_SHIFTER << col`. -/
def colMask (cfg : Config counterBits) (col : Nat) : BitVec cfg.rowBits := 1#_ <<< col

theorem colMask_eq_twoPow (col : Nat) : colMask cfg col = BitVec.twoPow cfg.rowBits col := by
  simp [colMask, BitVec.twoPow]

theorem and_colMask_ne_zero (row : BitVec cfg.rowBits) (col : Nat) :
    row &&& colMask cfg col ≠ 0#_ ↔ row.getLsbD col = true := by
  rw [colMask_eq_twoPow, BitVec.and_twoPow]
  cases hbit : row.getLsbD col with
  | false => simp
  | true =>
      have hlt : col < cfg.rowBits := BitVec.lt_of_getLsbD hbit
      have hmask : (BitVec.twoPow cfg.rowBits col).getLsbD col = true := by
        simp [hlt]
      simp only [if_true, iff_true]
      intro hzero
      rw [hzero] at hmask
      simp at hmask

/-- `(cooked & ~col_mask) | (raw & col_mask)`. -/
def copyBit (cooked raw : BitVec cfg.rowBits) (col : Nat) : BitVec cfg.rowBits :=
  (cooked &&& ~~~colMask cfg col) ||| (raw &&& colMask cfg col)

theorem getLsbD_copyBit_self (cooked raw : BitVec cfg.rowBits) (col : Nat) :
    (copyBit cooked raw col).getLsbD col = raw.getLsbD col := by
  by_cases hlt : col < cfg.rowBits
  · simp [copyBit, colMask_eq_twoPow, hlt]
  · simp [BitVec.getLsbD_of_ge _ _ (Nat.le_of_not_lt hlt)]

theorem getLsbD_copyBit_of_ne (cooked raw : BitVec cfg.rowBits) {col other : Nat}
    (h : other ≠ col) : (copyBit cooked raw col).getLsbD other = cooked.getLsbD other := by
  by_cases hlt : other < cfg.rowBits
  · simp [copyBit, colMask_eq_twoPow, hlt, h]
  · simp [BitVec.getLsbD_of_ge _ _ (Nat.le_of_not_lt hlt)]

theorem getLsbD_xor_colMask_self (row : BitVec cfg.rowBits) {col : Nat}
    (h : col < cfg.rowBits) : (row ^^^ colMask cfg col).getLsbD col = !row.getLsbD col := by
  simp [colMask_eq_twoPow, h]

theorem getLsbD_xor_colMask_of_ne (row : BitVec cfg.rowBits) {col other : Nat}
    (h : other ≠ col) : (row ^^^ colMask cfg col).getLsbD other = row.getLsbD other := by
  simp [colMask_eq_twoPow, BitVec.getLsbD_twoPow, h.symm]

/-- Two rows that differ in one bit at most differ exactly when that bit does. -/
theorem xor_ne_zero_iff_of_bits {row row' : BitVec cfg.rowBits} {col : Nat}
    (h : ∀ other, other ≠ col → row'.getLsbD other = row.getLsbD other) :
    row ^^^ row' ≠ 0#_ ↔ row'.getLsbD col ≠ row.getLsbD col := by
  have hxor : row ^^^ row' = 0#_ ↔ row = row' := by
    constructor
    · intro hzero
      simpa using hzero
    · rintro rfl
      simp
  rw [ne_eq, hxor]
  refine not_congr ⟨fun heq => by rw [heq], fun hbit => ?_⟩
  apply BitVec.eq_of_getLsbD_eq
  intro other _
  by_cases hother : other = col
  · rw [hother, hbit]
  · exact (h other hother).symm

theorem xor_copyBit_ne_zero (cooked raw : BitVec cfg.rowBits) (col : Nat) :
    cooked ^^^ copyBit cooked raw col ≠ 0#_ ↔ raw.getLsbD col ≠ cooked.getLsbD col := by
  rw [xor_ne_zero_iff_of_bits (fun _ h => getLsbD_copyBit_of_ne cooked raw h),
    getLsbD_copyBit_self]

/-- A key of the matrix. -/
abbrev Key (cfg : Config counterBits) := Fin cfg.rows × Fin cfg.cols

def keyBit (m : Matrix cfg) (key : Key cfg) : Bool := (m key.1).getLsbD key.2

/-- A counter for each key: `debounce_counters[row * MATRIX_COLS + col]`. -/
def keyLayout (cfg : Config counterBits) : Layout cfg Bool (Key cfg) where
  value key m := keyBit m key
  slot key := key.1 * cfg.cols + key.2
  value_local key _ _ h := by rw [keyBit, keyBit, h key.1 key.1.isLt]

/-- A counter for each row. -/
def rowLayout (cfg : Config counterBits) : Layout cfg (BitVec cfg.rowBits) (Fin cfg.rows) where
  value row m := m row
  slot row := row
  value_local row _ _ h := h row row.isLt

theorem keyLayout_slot_inj (key key' : Key cfg)
    (h : (keyLayout cfg).slot key = (keyLayout cfg).slot key') : key = key' := by
  have hcol : 0 < cfg.cols := Nat.lt_of_le_of_lt (Nat.zero_le _) key.2.isLt
  have hdiv := congrArg (· / cfg.cols) h
  have hmod := congrArg (· % cfg.cols) h
  simp only [keyLayout, Nat.mul_comm _ cfg.cols, Nat.mul_add_div hcol, Nat.mul_add_mod,
    Nat.div_eq_of_lt key.2.isLt, Nat.div_eq_of_lt key'.2.isLt,
    Nat.mod_eq_of_lt key.2.isLt, Nat.mod_eq_of_lt key'.2.isLt, Nat.add_zero] at hdiv hmod
  exact Prod.ext (Fin.ext hdiv) (Fin.ext hmod)

/-- Two runs show the same of a key when they read it at the same times with the
same values. -/
theorem track_eq_of_keyBit {scans other : Scans cfg} {key : Key cfg}
    (htime : other.time = scans.time)
    (hstart : keyBit other.start key = keyBit scans.start key)
    (hraw : ∀ n, keyBit (other.raw n) key = keyBit (scans.raw n) key) :
    other.track (keyLayout cfg) key = scans.track (keyLayout cfg) key := by
  have hraws : (fun n => keyBit (other.raw n) key) = fun n => keyBit (scans.raw n) key :=
    funext hraw
  simp only [Scans.track, keyLayout, htime, hstart, hraws]

theorem track_eq_of_row {scans other : Scans cfg} {row : Fin cfg.rows}
    (htime : other.time = scans.time) (hstart : other.start row = scans.start row)
    (hraw : ∀ n, other.raw n row = scans.raw n row) :
    other.track (rowLayout cfg) row = scans.track (rowLayout cfg) row := by
  have hraws : (fun n => other.raw n row) = fun n => scans.raw n row := funext hraw
  simp only [Scans.track, rowLayout, htime, hstart, hraws]

section Sweeps

variable {s s' : State cfg γ}

theorem sweeps_key {act : Cell Bool γ → Cell Bool γ} {mark : Flag → Cell Bool γ → Bool}
    {row col : Nat} (hrow : row < cfg.rows) (hcol : col < cfg.cols)
    (counter : γ) (cooked : BitVec cfg.rowBits)
    (hcounters : s'.counters = Function.update s.counters (row * cfg.cols + col) counter)
    (hcooked : s'.cooked = Function.update s.cooked row cooked)
    (hbits : ∀ other, other ≠ col → cooked.getLsbD other = (s.cooked row).getLsbD other)
    (hraw : s'.raw = s.raw) (htime : s'.lastTime = s.lastTime)
    (hact : act ⟨(s.raw row).getLsbD col, (s.cooked row).getLsbD col,
        s.counters (row * cfg.cols + col)⟩ =
      ⟨(s.raw row).getLsbD col, cooked.getLsbD col, counter⟩)
    (hflag : ∀ k, s'.flag k = (s.flag k || mark k ⟨(s.raw row).getLsbD col,
      (s.cooked row).getLsbD col, s.counters (row * cfg.cols + col)⟩)) :
    Sweeps (keyLayout cfg).parts act mark
      (fun key => key.1.val = row ∧ key.2.val = col) s s' := by
  refine Sweeps.one ((⟨row, hrow⟩, ⟨col, hcol⟩) : Key cfg) ?_ ?_ ?_ hflag ?_
  case refine_1 => simp [Prod.ext_iff, Fin.ext_iff]
  case refine_2 =>
    refine Eq.trans ?_ hact.symm
    simp [Layout.parts, Layout.view, keyLayout, keyBit, hcounters, hcooked, hraw]
  case refine_3 =>
    intro key hkey
    have hslot : (keyLayout cfg).slot key ≠ row * cfg.cols + col := fun h =>
      hkey (keyLayout_slot_inj key (⟨row, hrow⟩, ⟨col, hcol⟩) h)
    have hbit : (Function.update s.cooked row cooked key.1).getLsbD key.2 =
        (s.cooked key.1).getLsbD key.2 := by
      by_cases hsame : key.1.val = row
      · have hother : key.2.val ≠ col := fun h =>
          hkey (Prod.ext (Fin.ext hsame) (Fin.ext h))
        rw [hsame, Function.update_self, hbits _ hother]
      · rw [Function.update_of_ne hsame]
    simp only [Layout.parts, Layout.view, hcounters, hcooked, hraw,
      Function.update_of_ne hslot]
    exact Cell.ext rfl hbit rfl
  case refine_4 => exact Prod.ext hraw htime

variable {act : Cell Bool γ → Cell Bool γ} {mark : Flag → Cell Bool γ → Bool}

theorem sweeps_key_same {row col : Nat}
    (hact : act ⟨(s.raw row).getLsbD col, (s.cooked row).getLsbD col,
        s.counters (row * cfg.cols + col)⟩ =
      ⟨(s.raw row).getLsbD col, (s.cooked row).getLsbD col,
        s.counters (row * cfg.cols + col)⟩)
    (hmark : ∀ k, mark k ⟨(s.raw row).getLsbD col, (s.cooked row).getLsbD col,
      s.counters (row * cfg.cols + col)⟩ = false) :
    Sweeps (keyLayout cfg).parts act mark
      (fun key => key.1.val = row ∧ key.2.val = col) s s := by
  refine .same ?_ ?_
  · rintro key ⟨rfl, rfl⟩
    exact hact
  · rintro key ⟨rfl, rfl⟩
    exact hmark

theorem sweeps_cols {τ : Type} {parts : Parts τ (Key cfg) (Cell Bool γ) Flag
      (Matrix cfg × BitVec cfg.timerBits)} {t : τ} {row : Nat} {body : Nat → τ → τ}
    (hbody : ∀ col t', col < cfg.cols →
      Sweeps parts act mark (fun key => ∃ j < col, key.1.val = row ∧ key.2.val = j) t t' →
      Sweeps parts act mark (fun key => key.1.val = row ∧ key.2.val = col)
        t' (body col t')) :
    Sweeps parts act mark (fun key => key.1.val = row) t (forRange cfg.cols body t) := by
  refine (Sweeps.forRange (fun col (key : Key cfg) => key.1.val = row ∧ key.2.val = col)
    (fun i j key hi hj => hi.2.symm.trans hj.2) hbody).congr fun key => ?_
  constructor
  · rintro ⟨_, _, hrow, _⟩
    exact hrow
  · exact fun hrow => ⟨key.2, key.2.isLt, hrow, rfl⟩

/-- The same loop, when its body looks at the row's `delta`: the bits that are still
to come are as they were when `delta` was taken. -/
theorem sweeps_cols_delta {τ : Type} {parts : Parts τ (Key cfg) (Cell Bool γ) Flag
      (Matrix cfg × BitVec cfg.timerBits)} {t : τ} {row : Nat} (hrow : row < cfg.rows)
    (delta : BitVec cfg.rowBits) {body : Nat → τ → τ}
    (hdelta : ∀ col : Fin cfg.cols, delta.getLsbD col =
      ((parts.view t (⟨row, hrow⟩, col)).raw != (parts.view t (⟨row, hrow⟩, col)).cooked))
    (hbody : ∀ (col : Fin cfg.cols) t', delta.getLsbD col =
        ((parts.view t' (⟨row, hrow⟩, col)).raw !=
          (parts.view t' (⟨row, hrow⟩, col)).cooked) →
      Sweeps parts act mark (fun key => key.1.val = row ∧ key.2.val = col.val)
        t' (body col t')) :
    Sweeps parts act mark (fun key => key.1.val = row) t (forRange cfg.cols body t) := by
  refine sweeps_cols fun col t' hcol hbefore => hbody ⟨col, hcol⟩ t' ?_
  have hfresh : ¬∃ j < col, row = row ∧ col = j := by
    rintro ⟨j, hj, _, hsame⟩
    omega
  rw [hbefore.outside (⟨row, hrow⟩, ⟨col, hcol⟩) hfresh]
  exact hdelta ⟨col, hcol⟩

theorem sweeps_rows {body : Nat → State cfg γ → State cfg γ}
    (hbody : ∀ row s', row < cfg.rows →
      Sweeps (keyLayout cfg).parts act mark (fun key => key.1.val = row) s' (body row s')) :
    Sweeps (keyLayout cfg).parts act mark (fun _ => True) s (forRange cfg.rows body s) := by
  refine (Sweeps.forRange (fun row (key : Key cfg) => key.1.val = row)
    (fun i j key hi hj => hi.symm.trans hj) fun row s' hrow _ => hbody row s' hrow).congr
    fun key => ?_
  exact iff_of_true ⟨key.1, key.1.isLt, rfl⟩ trivial

end Sweeps

section RowSweeps

variable {s s' : State cfg γ}
variable {act : Cell (BitVec cfg.rowBits) γ → Cell (BitVec cfg.rowBits) γ}
variable {mark : Flag → Cell (BitVec cfg.rowBits) γ → Bool}

/-- A step that rewrites the counter and the cooked value of one row. -/
theorem sweeps_row {row : Nat} (hrow : row < cfg.rows)
    (counter : γ) (cooked : BitVec cfg.rowBits)
    (hcounters : s'.counters = Function.update s.counters row counter)
    (hcooked : s'.cooked = Function.update s.cooked row cooked)
    (hraw : s'.raw = s.raw) (htime : s'.lastTime = s.lastTime)
    (hact : act ⟨s.raw row, s.cooked row, s.counters row⟩ = ⟨s.raw row, cooked, counter⟩)
    (hflag : ∀ k, s'.flag k =
      (s.flag k || mark k ⟨s.raw row, s.cooked row, s.counters row⟩)) :
    Sweeps (rowLayout cfg).parts act mark (fun unit => unit.val = row) s s' := by
  refine Sweeps.one (⟨row, hrow⟩ : Fin cfg.rows) ?_ ?_ ?_ hflag (Prod.ext hraw htime)
  case refine_1 => simp [Fin.ext_iff]
  case refine_2 =>
    refine Eq.trans ?_ hact.symm
    simp [Layout.parts, Layout.view, rowLayout, hcounters, hcooked, hraw]
  case refine_3 =>
    intro unit hunit
    have hne : unit.val ≠ row := fun h => hunit (Fin.ext h)
    simp [Layout.parts, Layout.view, rowLayout, hcounters, hcooked, hraw,
      Function.update_of_ne hne]

theorem sweeps_row_same {row : Nat}
    (hact : act ⟨s.raw row, s.cooked row, s.counters row⟩ =
      ⟨s.raw row, s.cooked row, s.counters row⟩)
    (hmark : ∀ k, mark k ⟨s.raw row, s.cooked row, s.counters row⟩ = false) :
    Sweeps (rowLayout cfg).parts act mark (fun unit => unit.val = row) s s := by
  refine .same ?_ ?_
  · rintro unit rfl
    exact hact
  · rintro unit rfl
    exact hmark

theorem sweeps_rows_of_row {body : Nat → State cfg γ → State cfg γ}
    (hbody : ∀ row s', row < cfg.rows →
      Sweeps (rowLayout cfg).parts act mark (fun unit => unit.val = row) s' (body row s')) :
    Sweeps (rowLayout cfg).parts act mark (fun _ => True) s (forRange cfg.rows body s) := by
  refine (Sweeps.forRange (fun row (unit : Fin cfg.rows) => unit.val = row)
    (fun i j unit hi hj => hi.symm.trans hj) fun row s' hrow _ => hbody row s' hrow).congr
    fun unit => ?_
  exact iff_of_true ⟨unit, unit.isLt, rfl⟩ trivial

end RowSweeps

end Qmk.Debounce
