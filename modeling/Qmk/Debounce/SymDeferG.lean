import Qmk.Debounce.SymDeferPk

/-!
# `sym_defer_g`

One timer for the whole matrix.  Every change restarts it, and when it has run for
`DEBOUNCE` milliseconds the matrix is taken over as it is.
-/

namespace Qmk.Debounce.SymDeferG

variable {cfg : Config 8}

/-- The two matrices and the static variables of `debounce()`. -/
structure State (cfg : Config 8) where
  raw : Matrix cfg
  cooked : Matrix cfg
  debouncingTime : BitVec cfg.timerBits
  debouncing : Bool

/-- The matrix is scanned. -/
def State.read (s : State cfg) (raw : Matrix cfg) : State cfg := { s with raw := raw }

/-- `memcmp(cooked, raw, matrix_size) != 0`. -/
def differ (cooked raw : Matrix cfg) : Bool :=
  (List.range cfg.rows).any fun row => cooked row != raw row

/-- `memcpy(cooked, raw, matrix_size)`. -/
def copyRows (cooked raw : Matrix cfg) : Matrix cfg := fun row =>
  if row < cfg.rows then raw row else cooked row

/-- `debounce()`, with the reading of the fast timer as an argument. -/
def debounce (now : BitVec cfg.timerBits) (changed : Bool) (s : State cfg) : State cfg × Bool :=
  if changed then
    ({ s with debouncing := true, debouncingTime := now }, false)
  else if s.debouncing && decide (cfg.period ≤ (now - s.debouncingTime).toNat) then
    if differ s.cooked s.raw then
      ({ s with cooked := copyRows s.cooked s.raw, debouncing := false }, true)
    else
      ({ s with debouncing := false }, false)
  else
    (s, false)

section Run

variable (scans : Scans cfg)

/-- The state after `n` scans. -/
def stateAt : Nat → State cfg
  | 0 => ⟨scans.start, scans.start, 0, false⟩
  | n + 1 => (debounce (scans.reading n) (scans.changed n) ((stateAt n).read (scans.raw n))).1

/-- What `debounce()` returns at scan `n`. -/
def resultAt (n : Nat) : Bool :=
  (debounce (scans.reading n) (scans.changed n) ((stateAt scans n).read (scans.raw n))).2

/-- The cooked matrix before scan `n`. -/
def cookedMatrix (n : Nat) : Matrix cfg := (stateAt scans n).cooked

/-- At scan `n` the matrix has been the same since a scan at least `DEBOUNCE` ago. -/
def Settled (n : Nat) : Prop :=
  ∃ m ≤ n, scans.time m + cfg.period ≤ scans.time n ∧
    ∀ i, m < i → i ≤ n → ∀ row < cfg.rows, scans.raw i row = scans.raw m row

/-- The fast timer does not go round between two scans while it is waited for. -/
def Prompt : Prop :=
  ∀ n, scans.time (n + 1) + cfg.period ≤ scans.time n + 2 ^ cfg.timerBits

end Run

/-! ## One scan -/

section Step

variable {now : BitVec cfg.timerBits} {changed : Bool} {s : State cfg}

/-- The scan takes the matrix over. -/
def Takes (now : BitVec cfg.timerBits) (changed : Bool) (s : State cfg) : Prop :=
  changed = false ∧ s.debouncing = true ∧ cfg.period ≤ (now - s.debouncingTime).toNat

theorem differ_iff {cooked raw : Matrix cfg} :
    differ cooked raw = true ↔ ∃ row < cfg.rows, cooked row ≠ raw row := by
  simp [differ]

theorem copyRows_of_lt (cooked raw : Matrix cfg) {row : Nat} (h : row < cfg.rows) :
    copyRows cooked raw row = raw row := if_pos h

theorem copyRows_eq_self {cooked raw : Matrix cfg} (h : differ cooked raw = false) :
    copyRows cooked raw = cooked := by
  have hnone := mt differ_iff.mpr (Bool.eq_false_iff.mp h)
  funext row
  unfold copyRows
  split
  · next hrow =>
    by_contra hne
    exact hnone ⟨row, hrow, Ne.symm hne⟩
  · rfl

theorem takes_iff : Takes now changed s ↔
    changed = false ∧
      (s.debouncing && decide (cfg.period ≤ (now - s.debouncingTime).toNat)) = true := by
  rw [Takes, Bool.and_eq_true, decide_eq_true_iff]

theorem debounce_changed :
    (debounce now true s).1 = { s with debouncing := true, debouncingTime := now } := rfl

theorem debounce_takes (h : Takes now changed s) :
    (debounce now changed s).1 =
      { s with cooked := copyRows s.cooked s.raw, debouncing := false } := by
  obtain ⟨rfl, htest⟩ := takes_iff.mp h
  rw [debounce, if_neg (by decide), if_pos htest]
  split
  · rfl
  · next hsame => rw [copyRows_eq_self (by simpa using hsame)]

theorem debounce_waits (h : ¬ Takes now false s) : (debounce now false s).1 = s := by
  rw [debounce, if_neg (by decide), if_neg fun htest => h (takes_iff.mpr ⟨rfl, htest⟩)]

theorem debounce_cooked (h : ¬ Takes now changed s) :
    (debounce now changed s).1.cooked = s.cooked := by
  cases changed with
  | true => rfl
  | false => rw [debounce_waits h]

theorem debounce_result :
    (debounce now changed s).2 = true ↔
      ∃ row < cfg.rows, (debounce now changed s).1.cooked row ≠ s.cooked row := by
  by_cases htakes : Takes now changed s
  · rw [debounce_takes htakes]
    obtain ⟨rfl, htest⟩ := takes_iff.mp htakes
    have hresult : (debounce now false s).2 = differ s.cooked s.raw := by
      rw [debounce, if_neg (by decide), if_pos htest]
      cases differ s.cooked s.raw <;> rfl
    rw [hresult, differ_iff]
    refine exists_congr fun row => and_congr_right fun hrow => ?_
    show s.cooked row ≠ s.raw row ↔ copyRows s.cooked s.raw row ≠ s.cooked row
    rw [copyRows_of_lt _ _ hrow]
    exact ne_comm
  · have hfalse : (debounce now changed s).2 = false := by
      cases changed with
      | true => rfl
      | false =>
          rw [debounce, if_neg (by decide),
            if_neg fun htest => htakes (takes_iff.mpr ⟨rfl, htest⟩)]
    simp [hfalse, debounce_cooked htakes]

end Step

/-! ## Settled matrices -/

section Settled

variable {scans : Scans cfg} {m n : Nat}

theorem changed_eq_false_iff :
    scans.changed n = false ↔ ∀ row < cfg.rows, scans.raw n row = scans.previous n row := by
  simp [Scans.changed]

theorem raw_eq_of_unchanged (h : ∀ i, m < i → i ≤ n → scans.changed i = false) {i : Nat}
    (hm : m ≤ i) (hn : i ≤ n) : ∀ row < cfg.rows, scans.raw i row = scans.raw m row := by
  induction hm with
  | refl => exact fun _ _ => rfl
  | @step i hle ih =>
      intro row hrow
      have hlt : m < i + 1 := Nat.lt_succ_of_le hle
      have hsame := changed_eq_false_iff.mp (h (i + 1) hlt hn) row hrow
      exact hsame.trans (ih (Nat.le_of_succ_le hn) row hrow)

theorem settled_iff :
    Settled scans n ↔ ∃ m ≤ n, scans.time m + cfg.period ≤ scans.time n ∧
      ∀ i, m < i → i ≤ n → scans.changed i = false := by
  constructor
  · rintro ⟨m, hm, htime, hsame⟩
    refine ⟨m, hm, htime, fun i hlt hle => ?_⟩
    obtain ⟨j, rfl⟩ := Nat.exists_eq_add_of_lt hlt
    refine changed_eq_false_iff.mpr fun row hrow => ?_
    have hprevious : scans.raw (m + j) row = scans.raw m row := by
      rcases Nat.eq_zero_or_pos j with rfl | hpos
      · rfl
      · exact hsame (m + j) (by omega) (by omega) row hrow
    exact (hsame _ hlt hle row hrow).trans hprevious.symm
  · rintro ⟨m, hm, htime, hquiet⟩
    exact ⟨m, hm, htime, fun i hlt hle => raw_eq_of_unchanged hquiet (Nat.le_of_lt hlt) hle⟩

theorem not_settled_of_changed (h : scans.changed n = true) : ¬ Settled scans n := by
  rw [settled_iff]
  rintro ⟨m, hm, htime, hquiet⟩
  rcases Nat.lt_or_eq_of_le hm with hlt | rfl
  · simp [hquiet n hlt (Nat.le_refl n)] at h
  · have := cfg.period_pos
    omega

/-- Since the change at scan `m`, only the time decides. -/
theorem settled_since (hchanged : scans.changed m = true)
    (hquiet : ∀ i, m < i → i ≤ n → scans.changed i = false) (hm : m ≤ n) :
    Settled scans n ↔ scans.time m + cfg.period ≤ scans.time n := by
  constructor
  · intro hsettled
    obtain ⟨first, _, htime, hsame⟩ := settled_iff.mp hsettled
    have hle : m ≤ first := by
      by_contra hgt
      simp [hsame m (by omega) hm] at hchanged
    have := scans.time_le hle
    omega
  · exact fun htime => settled_iff.mpr ⟨m, hm, htime, hquiet⟩

theorem toNat_reading_sub (hm : m ≤ n)
    (hlt : scans.time n < scans.time m + 2 ^ cfg.timerBits) :
    (scans.reading n - scans.reading m).toNat = scans.time n - scans.time m := by
  have hle := scans.time_le hm
  have hsplit : scans.reading n =
      BitVec.ofNat cfg.timerBits (scans.time n - scans.time m) + scans.reading m := by
    rw [Scans.reading, Scans.reading, ← BitVec.ofNat_add, Nat.sub_add_cancel hle]
  rw [hsplit, BitVec.add_sub_cancel, BitVec.toNat_ofNat]
  exact Nat.mod_eq_of_lt (by omega)

/-! ## Runs -/

/-- What the timer stands for before scan `n`. -/
inductive Waiting (scans : Scans cfg) (n : Nat) (s : State cfg) : Prop
  | idle (hoff : s.debouncing = false)
      (hsame : ∀ row < cfg.rows, s.cooked row = scans.previous n row)
  | running (m : Nat) (hm : m < n) (hon : s.debouncing = true)
      (hstart : s.debouncingTime = scans.reading m) (hchanged : scans.changed m = true)
      (hquiet : ∀ i, m < i → i < n → scans.changed i = false)
      (hshort : scans.time (n - 1) < scans.time m + cfg.period)

/-- The timer has not gone round. -/
theorem elapsed_since (hprompt : Prompt scans) (hm : m < n)
    (hshort : scans.time (n - 1) < scans.time m + cfg.period) :
    (scans.reading n - scans.reading m).toNat = scans.time n - scans.time m := by
  refine toNat_reading_sub (Nat.le_of_lt hm) ?_
  have hnext := hprompt (n - 1)
  rw [Nat.sub_add_cancel (by omega)] at hnext
  omega

theorem Waiting.scanned (hprompt : Prompt scans) (h : Waiting scans n (stateAt scans n)) :
    Waiting scans (n + 1) (stateAt scans (n + 1)) := by
  rw [stateAt]
  cases hchanged : scans.changed n with
  | true =>
      rw [debounce_changed]
      refine .running n (Nat.lt_succ_self n) rfl rfl hchanged (fun i _ _ => ?_) ?_
      · omega
      · have := cfg.period_pos
        simp only [Nat.add_sub_cancel]
        omega
  | false =>
      have hraw := changed_eq_false_iff.mp hchanged
      cases h with
      | idle hoff hsame =>
          have hwaits : ¬ Takes (scans.reading n) false ((stateAt scans n).read (scans.raw n)) :=
            fun htakes => Bool.noConfusion (hoff.symm.trans htakes.2.1)
          rw [debounce_waits hwaits]
          exact .idle hoff fun row hrow => (hsame row hrow).trans (hraw row hrow).symm
      | running m hm hon hstart hfirst hquiet hshort =>
          by_cases htakes : Takes (scans.reading n) false ((stateAt scans n).read (scans.raw n))
          · rw [debounce_takes htakes]
            exact .idle rfl fun row hrow => copyRows_of_lt _ _ hrow
          · have helapsed := elapsed_since hprompt hm hshort
            rw [debounce_waits htakes]
            refine .running m (by omega) hon hstart hfirst (fun i hlt hle => ?_) ?_
            · rcases Nat.lt_succ_iff_lt_or_eq.mp hle with hbelow | rfl
              · exact hquiet i hlt hbelow
              · exact hchanged
            · simp only [Nat.add_sub_cancel]
              by_contra hlong
              refine htakes ⟨rfl, hon, ?_⟩
              show cfg.period ≤ (scans.reading n - (stateAt scans n).debouncingTime).toNat
              rw [hstart, helapsed]
              omega

theorem waiting (hprompt : Prompt scans) (n : Nat) : Waiting scans n (stateAt scans n) := by
  induction n with
  | zero => exact .idle rfl fun _ _ => rfl
  | succ n ih => exact ih.scanned hprompt

/-- A scan takes the matrix over only when it has settled. -/
theorem Waiting.settled (hprompt : Prompt scans) (h : Waiting scans n (stateAt scans n))
    (htakes : Takes (scans.reading n) (scans.changed n) ((stateAt scans n).read (scans.raw n))) :
    Settled scans n := by
  obtain ⟨hchanged, hon, htime⟩ := htakes
  cases h with
  | idle hoff _ => exact Bool.noConfusion (hoff.symm.trans hon)
  | running m hm _ hstart hfirst hquiet hshort =>
      have helapsed := elapsed_since hprompt hm hshort
      change cfg.period ≤ (scans.reading n - (stateAt scans n).debouncingTime).toNat at htime
      rw [hstart, helapsed] at htime
      have := scans.time_le (Nat.le_of_lt hm)
      have hpos := cfg.period_pos
      refine settled_iff.mpr ⟨m, Nat.le_of_lt hm, by omega, fun i hlt hle => ?_⟩
      rcases Nat.lt_or_eq_of_le hle with hbelow | rfl
      · exact hquiet i hlt hbelow
      · exact hchanged

theorem cookedMatrix_settled (hprompt : Prompt scans) (hsettled : Settled scans n) :
    ∀ row < cfg.rows, cookedMatrix scans (n + 1) row = scans.raw n row := by
  intro row hrow
  have hchanged : scans.changed n = false := by
    by_contra hne
    exact not_settled_of_changed (by simpa using hne) hsettled
  rw [cookedMatrix, stateAt]
  by_cases htakes : Takes (scans.reading n) (scans.changed n) ((stateAt scans n).read (scans.raw n))
  · rw [debounce_takes htakes]
    exact copyRows_of_lt _ _ hrow
  · rw [debounce_cooked htakes]
    cases waiting hprompt n with
    | idle _ hsame =>
        exact (hsame row hrow).trans (changed_eq_false_iff.mp hchanged row hrow).symm
    | running m hm hon hstart hfirst hquiet hshort =>
        -- the timer has run out, so the scan takes the matrix over
        have hquiet' : ∀ i, m < i → i ≤ n → scans.changed i = false := by
          intro i hlt hle
          rcases Nat.lt_or_eq_of_le hle with hbelow | rfl
          · exact hquiet i hlt hbelow
          · exact hchanged
        have htime := (settled_since hfirst hquiet' (Nat.le_of_lt hm)).mp hsettled
        refine absurd ⟨hchanged, hon, ?_⟩ htakes
        show cfg.period ≤ (scans.reading n - (stateAt scans n).debouncingTime).toNat
        rw [hstart, elapsed_since hprompt hm hshort]
        omega

theorem cookedMatrix_unsettled (hprompt : Prompt scans) (h : ¬ Settled scans n) :
    cookedMatrix scans (n + 1) = cookedMatrix scans n :=
  debounce_cooked fun htakes => h ((waiting hprompt n).settled hprompt htakes)

theorem cookedMatrix_origin (hprompt : Prompt scans) (n : Nat) :
    (∀ row < cfg.rows, cookedMatrix scans n row = scans.start row) ∨
      ∃ m < n, Settled scans m ∧
        ∀ row < cfg.rows, cookedMatrix scans n row = scans.raw m row := by
  induction n with
  | zero => exact .inl fun _ _ => rfl
  | succ n ih =>
      by_cases hsettled : Settled scans n
      · exact .inr ⟨n, Nat.lt_succ_self n, hsettled, cookedMatrix_settled hprompt hsettled⟩
      · rw [cookedMatrix_unsettled hprompt hsettled]
        refine ih.imp_right fun ⟨m, hm, hrest⟩ => ⟨m, by omega, hrest⟩

/-- The matrix is taken over exactly at the scans where the whole of it has been the same for
`DEBOUNCE`, so all keys of the cooked matrix come from one scan; `debounce()` reports the
changes. -/
theorem debounces_whole_matrix (hprompt : Prompt scans) :
    (∀ n, Settled scans n →
      ∀ row < cfg.rows, cookedMatrix scans (n + 1) row = scans.raw n row) ∧
    (∀ n, ¬ Settled scans n → cookedMatrix scans (n + 1) = cookedMatrix scans n) ∧
    (∀ n, (∀ row < cfg.rows, cookedMatrix scans n row = scans.start row) ∨
      ∃ m < n, Settled scans m ∧
        ∀ row < cfg.rows, cookedMatrix scans n row = scans.raw m row) ∧
    ∀ n, resultAt scans n = true ↔
      ∃ row < cfg.rows, cookedMatrix scans (n + 1) row ≠ cookedMatrix scans n row :=
  ⟨fun _ => cookedMatrix_settled hprompt, fun _ => cookedMatrix_unsettled hprompt,
    cookedMatrix_origin hprompt, fun _ => debounce_result⟩

end Settled

def twoKeys : Config 8 where
  rows := 1
  cols := 2
  rowBits := 8
  timerBits := 16
  debounce := 6#8
  debounce_ne_zero := by decide

/-- A key goes down while the timer goes round, and stays down. -/
def tapScans : Scans twoKeys where
  start _ := 0#8
  raw _ row := if row = 0 then 1#8 else 0#8
  time n := 65533 + 6 * n
  time_mono n := by omega
  time_gap n := by
    show 65533 + 6 * (n + 1) - (65533 + 6 * n) < 2 ^ 16
    omega

theorem tapScans_prompt : Prompt tapScans := by
  intro n
  show 65533 + 6 * (n + 1) + 6 ≤ 65533 + 6 * n + 2 ^ 16
  omega

theorem tap_taken_over :
    cookedMatrix tapScans 1 0 = 0#8 ∧ cookedMatrix tapScans 2 0 = 1#8 := by
  refine ⟨rfl, ?_⟩
  have hsettled : Settled tapScans 1 := by
    refine ⟨0, Nat.zero_le 1, ?_, fun _ _ _ _ _ => rfl⟩
    show 65533 + 6 * 0 + 6 ≤ 65533 + 6 * 1
    omega
  exact (debounces_whole_matrix tapScans_prompt).1 1 hsettled 0 Nat.one_pos

/-! ## Each key on its own -/

section Only

/-- The scans in which no other key than `key` moves. -/
def only (scans : Scans cfg) (key : Key cfg) : Scans cfg where
  start := scans.start
  raw n := Function.update scans.start key.1
    (copyBit (scans.start key.1) (scans.raw n key.1) key.2)
  time := scans.time
  time_mono := scans.time_mono
  time_gap := scans.time_gap

variable {scans : Scans cfg} {key : Key cfg} {n : Nat}

theorem keyBit_only : keyBit ((only scans key).raw n) key = keyBit (scans.raw n) key := by
  simp [only, keyBit, getLsbD_copyBit_self]

theorem settled_only :
    Settled (only scans key) n ↔ ∃ m ≤ n, scans.time m + cfg.period ≤ scans.time n ∧
      ∀ i, m < i → i ≤ n → keyBit (scans.raw i) key = keyBit (scans.raw m) key := by
  refine exists_congr fun m => and_congr_right fun _ => and_congr_right fun _ =>
    forall_congr' fun i => imp_congr_right fun _ => imp_congr_right fun _ => ?_
  constructor
  · intro hrows
    rw [← keyBit_only, ← keyBit_only (n := m), keyBit, keyBit, hrows key.1 key.1.isLt]
  · intro hbit row _
    by_cases hrow : row = key.1
    · subst hrow
      apply BitVec.eq_of_getLsbD_eq
      intro col _
      by_cases hcol : col = key.2
      · subst hcol
        have hbits := hbit
        rw [← keyBit_only, ← keyBit_only (n := m)] at hbits
        exact hbits
      · simp [only, getLsbD_copyBit_of_ne _ _ hcol]
    · simp [only, hrow]

theorem keyBit_symDeferPk_changes (scans : Scans cfg) (key : Key cfg) (n : Nat) :
    keyBit (SymDeferPk.cookedMatrix scans (n + 1)) key ≠
        keyBit (SymDeferPk.cookedMatrix scans n) key ↔
      ∃ m ≤ n, scans.time m + cfg.period ≤ scans.time n ∧ ∀ i, m ≤ i → i ≤ n →
        keyBit (scans.raw i) key ≠ keyBit (SymDeferPk.cookedMatrix scans n) key := by
  simp only [SymDeferPk.keyBit_cookedMatrix]
  exact SymDeferPk.cookedAt_succ_ne_iff cfg.period_pos n

theorem keyBit_symDeferPk_taken
    (h : keyBit (SymDeferPk.cookedMatrix scans (n + 1)) key ≠
      keyBit (SymDeferPk.cookedMatrix scans n) key) :
    keyBit (SymDeferPk.cookedMatrix scans (n + 1)) key = keyBit (scans.raw n) key := by
  simp only [SymDeferPk.keyBit_cookedMatrix] at h ⊢
  exact SymDeferPk.cookedAt_succ_eq_raw h

theorem keyBit_symDeferPk (hprompt : Prompt scans) (n : Nat) :
    keyBit (SymDeferPk.cookedMatrix scans n) key =
      keyBit (cookedMatrix (only scans key) n) key := by
  have hprompt' : Prompt (only scans key) := hprompt
  induction n with
  | zero => rfl
  | succ n ih =>
      have hchange := keyBit_symDeferPk_changes scans key n
      by_cases hsettled : Settled (only scans key) n
      · have hcooked : keyBit (cookedMatrix (only scans key) (n + 1)) key =
            keyBit (scans.raw n) key := by
          rw [← keyBit_only, keyBit, keyBit,
            cookedMatrix_settled hprompt' hsettled key.1 key.1.isLt]
        obtain ⟨m, hm, htime, hsame⟩ := settled_only.mp hsettled
        rw [hcooked]
        by_cases hnow : keyBit (SymDeferPk.cookedMatrix scans (n + 1)) key =
            keyBit (SymDeferPk.cookedMatrix scans n) key
        · -- the bit stays, so it is not one that has differed for so long
          by_contra hne
          refine absurd hnow (hchange.mpr ⟨m, hm, htime, fun i hlow hhigh => ?_⟩)
          have hstable : keyBit (scans.raw i) key = keyBit (scans.raw n) key := by
            have hlast : keyBit (scans.raw n) key = keyBit (scans.raw m) key := by
              rcases Nat.lt_or_eq_of_le hm with hlt | rfl
              · exact hsame n hlt (Nat.le_refl n)
              · rfl
            rcases Nat.lt_or_eq_of_le hlow with hlt | rfl
            · rw [hsame i hlt hhigh, hlast]
            · exact hlast.symm
          intro hraw
          rw [hstable] at hraw
          exact hne (hnow.trans hraw.symm)
        · exact keyBit_symDeferPk_taken hnow
      · rw [cookedMatrix_unsettled hprompt' hsettled, ← ih]
        by_contra hne
        obtain ⟨m, hm, htime, hdiffers⟩ := hchange.mp hne
        refine hsettled (settled_only.mpr ⟨m, hm, htime, fun i hlow hhigh => ?_⟩)
        have hi := hdiffers i (Nat.le_of_lt hlow) hhigh
        have hfirst := hdiffers m (Nat.le_refl m) hm
        exact (Bool.eq_not.mpr hi).trans (Bool.eq_not.mpr hfirst).symm

/-- `sym_defer_pk` debounces each key as `sym_defer_g` does a matrix of which no other key moves,
and the two agree on every key whenever the whole matrix has settled. -/
theorem symDeferPk_each_key (hprompt : Prompt scans) :
    (∀ key n, keyBit (SymDeferPk.cookedMatrix scans n) key =
      keyBit (cookedMatrix (only scans key) n) key) ∧
    ∀ n, Settled scans n → ∀ key, keyBit (SymDeferPk.cookedMatrix scans (n + 1)) key =
      keyBit (cookedMatrix scans (n + 1)) key := by
  refine ⟨fun _ n => keyBit_symDeferPk hprompt n, fun n hsettled key => ?_⟩
  have hprompt' : Prompt (only scans key) := hprompt
  have honly : Settled (only scans key) n := by
    obtain ⟨m, hm, htime, hsame⟩ := hsettled
    refine settled_only.mpr ⟨m, hm, htime, fun i hlow hhigh => ?_⟩
    rw [keyBit, keyBit, hsame i hlow hhigh key.1 key.1.isLt]
  have hraw : keyBit (cookedMatrix (only scans key) (n + 1)) key = keyBit (scans.raw n) key := by
    rw [← keyBit_only, keyBit, keyBit, cookedMatrix_settled hprompt' honly key.1 key.1.isLt]
  rw [keyBit_symDeferPk hprompt, hraw, keyBit, keyBit,
    cookedMatrix_settled hprompt hsettled key.1 key.1.isLt]

def firstKey : Key twoKeys := (⟨0, by decide⟩, ⟨0, by decide⟩)

theorem tap_of_each_key :
    keyBit (SymDeferPk.cookedMatrix tapScans 2) firstKey =
      keyBit (cookedMatrix (only tapScans firstKey) 2) firstKey ∧
    keyBit (cookedMatrix (only tapScans firstKey) 2) firstKey = true :=
  ⟨(symDeferPk_each_key tapScans_prompt).1 firstKey 2, rfl⟩

end Only

end Qmk.Debounce.SymDeferG
