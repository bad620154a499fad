import Mathlib.Logic.Relation
import Qmk.Ghost.Matrix
import Qmk.Lib.Run
import Qmk.Lib.Trace

/-!
# Ghost suppression

`matrix_task` on a matrix without diodes.  A row and a column read as closed when
pressed keys connect them, by any number of steps; `has_ghost_in_row` compares rows
two at a time and on real keys only.
-/

namespace Qmk.Ghost

open Qmk.Lib

/-- A key event that `action_exec` is called with. -/
structure KeyEvent where
  row : Nat
  col : Nat
  pressed : Bool
  deriving DecidableEq

structure State (cfg : Config) where
  /-- `matrix_previous`. -/
  previous : Matrix cfg
  /-- `wakeup_matrix`. -/
  wakeup : Matrix cfg
  /-- The calls of `action_exec`, last call first. -/
  executed : List KeyEvent

def State.initial (cfg : Config) : State cfg where
  previous _ := 0#_
  wakeup _ := 0#_
  executed := []

variable {cfg : Config}

def keypressIsWakeupKey (row col : Nat) (s : State cfg) : Bool :=
  s.wakeup row &&& colMask cfg.rowBits col ≠ 0#_

def wakeupMatrixHandleKeyEvent (row col : Nat) (pressed : Bool) (s : State cfg) : State cfg :=
  if pressed = false then
    { s with wakeup := Function.update s.wakeup row (s.wakeup row &&& ~~~colMask cfg.rowBits col) }
  else s

/-- What `switch_events` does that `matrix_task` depends on. -/
def switchEvents (row col : Nat) (pressed : Bool) (s : State cfg) : State cfg :=
  wakeupMatrixHandleKeyEvent row col pressed s

def actionExec (event : KeyEvent) (s : State cfg) : State cfg :=
  { s with executed := event :: s.executed }

def processCol (row : Nat) (currentRow rowChanges : BitVec cfg.rowBits) (col : Nat)
    (s : State cfg) : State cfg :=
  if rowChanges &&& colMask cfg.rowBits col ≠ 0#_ then
    let keyPressed := decide (currentRow &&& colMask cfg.rowBits col ≠ 0#_)
    let s :=
      if cfg.processKeypress = true ∧ keypressIsWakeupKey row col s = false then
        actionExec ⟨row, col, keyPressed⟩ s
      else s
    switchEvents row col keyPressed s
  else s

def processRow (matrix : Matrix cfg) (row : Nat) (s : State cfg) : State cfg :=
  let currentRow := matrix row
  let rowChanges := currentRow ^^^ s.previous row
  if rowChanges = 0#_ ∨ hasGhostInRow cfg matrix row currentRow = true then s
  else
    let s := forRange cfg.cols (processCol row currentRow rowChanges) s
    { s with previous := Function.update s.previous row currentRow }

/-- `matrix_task`, where `matrix_can_read` returns `canRead` and `matrix_scan` finds
`matrix`. -/
def matrixTask (canRead : Bool) (matrix : Matrix cfg) (s : State cfg) : State cfg :=
  if canRead = false then s
  else if (List.range cfg.rows).any (fun row => s.previous row ^^^ matrix row ≠ 0#_) then
    forRange cfg.rows (processRow matrix) s
  else s

/-! ## The matrix without diodes -/

inductive Wire
  | row (n : Nat)
  | col (n : Nat)

/-- A pressed key joins the wire of its row and the wire of its column. -/
inductive Joined (pressed : Nat → Nat → Prop) : Wire → Wire → Prop
  | rowCol {row col : Nat} (h : pressed row col) : Joined pressed (.row row) (.col col)
  | colRow {row col : Nat} (h : pressed row col) : Joined pressed (.col col) (.row row)

/-- A scan of the matrix, and the keys that are pressed while it is made. -/
structure Scan (cfg : Config) where
  canRead : Bool
  pressed : Nat → Nat → Prop
  matrix : Matrix cfg
  real : ∀ row col, pressed row col → cfg.Real row col
  closed_iff : ∀ row < cfg.rows, ∀ col < cfg.cols,
    (matrix row).getLsbD col = true ↔
      Relation.ReflTransGen (Joined pressed) (.row row) (.col col)

def step (s : State cfg) (scan : Scan cfg) : State cfg :=
  matrixTask scan.canRead scan.matrix s

/-- Each press event that the call adds at a real position is one of a pressed key. -/
def NoPhantom (s : State cfg) (scan : Scan cfg) : Prop :=
  ∀ added, (step s scan).executed = added ++ s.executed →
    ∀ event ∈ added, event.pressed = true → cfg.Real event.row event.col →
      scan.pressed event.row event.col

/-- The keyboard reads the matrix for events, and holds the key of the position for
released. -/
def Awaits (s : State cfg) (scan : Scan cfg) (row col : Nat) : Prop :=
  cfg.processKeypress = true ∧ scan.canRead = true ∧ (s.previous row).getLsbD col = false

/-- A row that shows a real key which is not pressed, and was not shown before, shares
two real columns with another row. -/
def Exposed (s : State cfg) (scan : Scan cfg) : Prop :=
  ∀ row col, Shown cfg scan.matrix row col → ¬scan.pressed row col →
    Awaits s scan row col → SharesTwo cfg scan.matrix row

/-! ## Alternating events -/

/-- Whether the last event of the position was a press. -/
def lastPressed : List KeyEvent → Nat → Nat → Bool
  | [], _, _ => false
  | event :: past, row, col =>
      if event.row = row ∧ event.col = col then event.pressed else lastPressed past row col

/-- A press follows a release of the same position or none, a release a press. -/
def Alternates (past : List KeyEvent) (event : KeyEvent) : Prop :=
  event.pressed = !lastPressed past event.row event.col

/-- The events alternate, and the last one of each position is what is held of it. -/
structure Tracks (cfg : Config) (held : Nat → Nat → Bool) (executed : List KeyEvent) :
    Prop where
  alternates : Always Alternates executed
  last : ∀ row, ∀ col < cfg.cols, lastPressed executed row col = held row col

/-! ## The events of a call -/

/-- The events of a row, up to a column. -/
def rowEvents (row : Nat) (currentRow rowChanges : BitVec cfg.rowBits) :
    Nat → List KeyEvent
  | 0 => []
  | n + 1 =>
      if rowChanges.getLsbD n = true then
        ⟨row, n, currentRow.getLsbD n⟩ :: rowEvents row currentRow rowChanges n
      else rowEvents row currentRow rowChanges n

/-- The events of the rows up to one, where no row is handled that has a ghost. -/
def taskEvents (matrix previous : Matrix cfg) : Nat → List KeyEvent
  | 0 => []
  | n + 1 =>
      if hasGhostInRow cfg matrix n (matrix n) = true then taskEvents matrix previous n
      else
        rowEvents n (matrix n) (matrix n ^^^ previous n) cfg.cols ++
          taskEvents matrix previous n

/-- What `matrix_previous` becomes in the rows up to one. -/
def caughtUp (matrix previous : Matrix cfg) (n row : Nat) : BitVec cfg.rowBits :=
  if row < n ∧ hasGhostInRow cfg matrix row (matrix row) = false then matrix row
  else previous row

theorem mem_rowEvents {row : Nat} {currentRow rowChanges : BitVec cfg.rowBits} {n : Nat}
    {event : KeyEvent} :
    event ∈ rowEvents row currentRow rowChanges n ↔
      event.row = row ∧ event.col < n ∧ rowChanges.getLsbD event.col = true ∧
        event.pressed = currentRow.getLsbD event.col := by
  induction n with
  | zero => simp [rowEvents]
  | succ n ih =>
      unfold rowEvents
      split
      · rw [List.mem_cons, ih]
        constructor
        · rintro (rfl | ⟨hrow, hcol, hrest⟩)
          · simp_all
          · exact ⟨hrow, Nat.lt_succ_of_lt hcol, hrest⟩
        · rintro ⟨hrow, hcol, hchanged, hpressed⟩
          rcases Nat.lt_succ_iff_lt_or_eq.mp hcol with hcol | hcol
          · exact .inr ⟨hrow, hcol, hchanged, hpressed⟩
          · exact .inl (by cases event; simp_all)
      · rename_i hsame
        rw [ih]
        constructor
        · rintro ⟨hrow, hcol, hrest⟩
          exact ⟨hrow, Nat.lt_succ_of_lt hcol, hrest⟩
        · rintro ⟨hrow, hcol, hchanged, hpressed⟩
          have hne : event.col ≠ n := fun h => hsame (h ▸ hchanged)
          exact ⟨hrow, by omega, hchanged, hpressed⟩

theorem mem_taskEvents {matrix previous : Matrix cfg} {n : Nat} {event : KeyEvent} :
    event ∈ taskEvents matrix previous n ↔
      event.row < n ∧ hasGhostInRow cfg matrix event.row (matrix event.row) = false ∧
        event.col < cfg.cols ∧
        (matrix event.row ^^^ previous event.row).getLsbD event.col = true ∧
        event.pressed = (matrix event.row).getLsbD event.col := by
  induction n with
  | zero => simp [taskEvents]
  | succ n ih =>
      rw [Nat.lt_succ_iff_lt_or_eq]
      by_cases hghost : hasGhostInRow cfg matrix n (matrix n) = true
      · rw [taskEvents, if_pos hghost, ih]
        grind
      · rw [taskEvents, if_neg hghost, List.mem_append, mem_rowEvents, ih]
        grind

/-! ## Calls while no key is kept from waking the keyboard -/

/-- `wakeup_matrix` is clear. -/
def Awake (s : State cfg) : Prop :=
  ∀ row, s.wakeup row = 0#_

theorem switchEvents_of_awake {s : State cfg} (h : Awake s) (row col : Nat)
    (pressed : Bool) : switchEvents row col pressed s = s := by
  simp only [switchEvents, wakeupMatrixHandleKeyEvent]
  split
  · have hsame : Function.update s.wakeup row (s.wakeup row &&& ~~~colMask cfg.rowBits col)
        = s.wakeup := by
      rw [h row, BitVec.zero_and, ← h row, Function.update_eq_self]
    rw [hsame]
  · rfl

theorem processCol_of_awake {s : State cfg} (h : Awake s) (row : Nat)
    (currentRow rowChanges : BitVec cfg.rowBits) (col : Nat) :
    processCol row currentRow rowChanges col s =
      if cfg.processKeypress = true ∧ rowChanges.getLsbD col = true then
        actionExec ⟨row, col, currentRow.getLsbD col⟩ s
      else s := by
  have hkey : keypressIsWakeupKey row col s = false := by
    simp [keypressIsWakeupKey, h row]
  simp only [processCol, and_colMask_ne_zero, Bool.decide_eq_true, hkey, and_true]
  by_cases hchanged : rowChanges.getLsbD col = true
  · by_cases hprocess : cfg.processKeypress = true
    · simp only [hchanged, hprocess, and_self, if_true]
      exact switchEvents_of_awake (s := actionExec _ s) h row col _
    · simp only [hchanged, hprocess, if_true, if_false, Bool.false_eq_true, false_and]
      exact switchEvents_of_awake h row col _
  · simp [hchanged]

/-- The events that reach `action_exec`. -/
def State.execute (s : State cfg) (events : List KeyEvent) : State cfg :=
  { s with executed := (if cfg.processKeypress = true then events else []) ++ s.executed }

theorem forRange_processCol {s : State cfg} (h : Awake s) (row : Nat)
    (currentRow rowChanges : BitVec cfg.rowBits) (n : Nat) :
    forRange n (processCol row currentRow rowChanges) s =
      s.execute (rowEvents row currentRow rowChanges n) := by
  induction n with
  | zero => simp [rowEvents, State.execute]
  | succ n ih =>
      rw [forRange_succ, ih, processCol_of_awake (s := s.execute _) h]
      by_cases hprocess : cfg.processKeypress = true
      · by_cases hchanged : rowChanges.getLsbD n = true
        · simp [hprocess, hchanged, rowEvents, State.execute, actionExec]
        · simp [hchanged, rowEvents]
      · simp [hprocess, State.execute]

theorem rowEvents_zero (row : Nat) (currentRow : BitVec cfg.rowBits) (n : Nat) :
    rowEvents row currentRow 0#_ n = [] := by
  induction n with
  | zero => rfl
  | succ n ih => simpa [rowEvents] using ih

theorem processRow_of_awake {s : State cfg} (h : Awake s) (matrix : Matrix cfg)
    (row : Nat) :
    processRow matrix row s =
      if hasGhostInRow cfg matrix row (matrix row) = true then s
      else
        { s.execute (rowEvents row (matrix row) (matrix row ^^^ s.previous row) cfg.cols) with
          previous := Function.update s.previous row (matrix row) } := by
  simp only [processRow]
  by_cases hghost : hasGhostInRow cfg matrix row (matrix row) = true
  · simp [hghost]
  by_cases hsame : matrix row ^^^ s.previous row = 0#_
  · have heq : matrix row = s.previous row := BitVec.xor_eq_zero_iff.mp hsame
    have hrow : Function.update s.previous row (matrix row) = s.previous := by
      rw [heq, Function.update_eq_self]
    simp [hghost, hsame, hrow, rowEvents_zero, State.execute]
  · simp only [hghost, hsame]
    rw [forRange_processCol h]
    rfl

theorem forRange_processRow {s : State cfg} (h : Awake s) (matrix : Matrix cfg) (n : Nat) :
    forRange n (processRow matrix) s =
      { s.execute (taskEvents matrix s.previous n) with
        previous := caughtUp matrix s.previous n } := by
  induction n with
  | zero =>
      have hsame : caughtUp matrix s.previous 0 = s.previous := by
        funext row
        simp [caughtUp]
      simp [taskEvents, State.execute, hsame]
  | succ n ih =>
      have hawake : Awake (forRange n (processRow matrix) s) := by
        rw [ih]
        exact h
      have hown : caughtUp matrix s.previous n n = s.previous n := by
        simp [caughtUp]
      rw [forRange_succ, processRow_of_awake hawake, ih]
      by_cases hghost : hasGhostInRow cfg matrix n (matrix n) = true
      · have hnext : caughtUp matrix s.previous (n + 1) = caughtUp matrix s.previous n := by
          funext row
          unfold caughtUp
          grind
        simp only [hghost, if_true, taskEvents, hnext]
      · have hnext : caughtUp matrix s.previous (n + 1)
            = Function.update (caughtUp matrix s.previous n) n (matrix n) := by
          funext row
          by_cases hrow : row = n
          · subst hrow
            simp [caughtUp, hghost]
          · rw [Function.update_of_ne hrow]
            unfold caughtUp
            grind
        simp only [hghost, if_false, taskEvents, hnext, hown, Bool.false_eq_true,
          State.execute]
        split <;> simp

/-! ## One call -/

theorem step_of_awake {s : State cfg} (h : Awake s) (scan : Scan cfg) :
    step s scan =
      if scan.canRead = true then
        { s.execute (taskEvents scan.matrix s.previous cfg.rows) with
          previous := caughtUp scan.matrix s.previous cfg.rows }
      else s := by
  cases hread : scan.canRead with
  | false => simp [step, matrixTask, hread]
  | true =>
      rw [if_pos rfl, ← forRange_processRow h]
      simp only [step, matrixTask, hread, Bool.true_eq_false, if_false]
      split
      · rfl
      · -- Nothing changed, so no row is handled.
        rename_i hsame
        have hrow (row : Nat) (hlt : row < cfg.rows) :
            scan.matrix row ^^^ s.previous row = 0#_ := by
          have hnone : ¬(s.previous row ^^^ scan.matrix row ≠ 0#_) := fun hne =>
            hsame (List.any_eq_true.mpr ⟨row, List.mem_range.mpr hlt, decide_eq_true hne⟩)
          rw [BitVec.xor_comm]
          exact not_not.mp hnone
        suffices hloop : ∀ n ≤ cfg.rows, forRange n (processRow scan.matrix) s = s from
          (hloop cfg.rows (Nat.le_refl _)).symm
        intro n hn
        induction n with
        | zero => rfl
        | succ n ih =>
            rw [forRange_succ, ih (Nat.le_of_succ_le hn)]
            simp [processRow, hrow n (Nat.lt_of_succ_le hn)]

/-- A call emits no press of a key that is not pressed exactly when each row where it
could do so is given away by another row. -/
theorem noPhantom_iff {s : State cfg} (h : Awake s) (scan : Scan cfg) :
    NoPhantom s scan ↔ Exposed s scan := by
  by_cases hactive : cfg.processKeypress = true ∧ scan.canRead = true
  · have hexecuted : (step s scan).executed =
        taskEvents scan.matrix s.previous cfg.rows ++ s.executed := by
      simp [step_of_awake h, State.execute, hactive.1, hactive.2]
    constructor
    · intro hsound row col hshown hup hawaits
      by_contra hlone
      have hghost : hasGhostInRow cfg scan.matrix row (scan.matrix row) = false := by
        rw [← Bool.not_eq_true, hasGhostInRow_iff cfg scan.matrix hshown.1.1]
        exact hlone
      have hchanged : (scan.matrix row ^^^ s.previous row).getLsbD col = true := by
        rw [BitVec.getLsbD_xor, hshown.2, hawaits.2.2]
        rfl
      have hmem : (⟨row, col, true⟩ : KeyEvent) ∈
          taskEvents scan.matrix s.previous cfg.rows :=
        mem_taskEvents.mpr ⟨hshown.1.1, hghost, hshown.1.2.1, hchanged, hshown.2.symm⟩
      exact hup (hsound _ hexecuted _ hmem rfl hshown.1)
    · intro hexposed added hadded event hmem hpressed hreal
      rw [hexecuted] at hadded
      rw [← List.append_cancel_right hadded, mem_taskEvents] at hmem
      obtain ⟨hrow, hghost, -, hchanged, hbit⟩ := hmem
      rw [hpressed] at hbit
      have hclear : (s.previous event.row).getLsbD event.col = false := by
        simpa [← hbit] using hchanged
      by_contra hup
      have hshares := hexposed event.row event.col ⟨hreal, hbit.symm⟩ hup
        ⟨hactive.1, hactive.2, hclear⟩
      rw [← hasGhostInRow_iff cfg scan.matrix hrow, hghost] at hshares
      contradiction
  · have hsame : (step s scan).executed = s.executed := by
      rw [step_of_awake h]
      split
      · rename_i hread
        have hidle : ¬cfg.processKeypress = true := fun hprocess => hactive ⟨hprocess, hread⟩
        simp [State.execute, hidle]
      · rfl
    constructor
    · intro _ row col _ _ hawaits
      exact absurd ⟨hawaits.1, hawaits.2.1⟩ hactive
    · intro _ added hadded event hmem
      rw [hsame] at hadded
      rw [List.self_eq_append_left.mp hadded] at hmem
      contradiction

theorem Tracks.event {held : Nat → Nat → Bool} {executed : List KeyEvent}
    (h : Tracks cfg held executed) {row col : Nat} (hcol : col < cfg.cols)
    {pressed : Bool} (hnew : pressed = !held row col) :
    Tracks cfg (fun r c => if r = row ∧ c = col then pressed else held r c)
      (⟨row, col, pressed⟩ :: executed) where
  alternates := Always.cons_iff.mpr
    ⟨h.alternates, hnew.trans (congrArg _ (h.last row col hcol).symm)⟩
  last r c hc := by
    simp only [lastPressed, h.last r c hc]
    grind

theorem Tracks.rowEvents {held : Nat → Nat → Bool} {executed : List KeyEvent}
    (h : Tracks cfg held executed) {row : Nat} {currentRow previous : BitVec cfg.rowBits}
    (hheld : ∀ col < cfg.cols, held row col = previous.getLsbD col)
    {n : Nat} (hn : n ≤ cfg.cols) :
    Tracks cfg (fun r c => if r = row ∧ c < n then currentRow.getLsbD c else held r c)
      (rowEvents row currentRow (currentRow ^^^ previous) n ++ executed) := by
  induction n with
  | zero => simpa [Ghost.rowEvents] using h
  | succ n ih =>
      have hbefore := ih (Nat.le_of_succ_le hn)
      have hbit := hheld n hn
      unfold Ghost.rowEvents
      split <;> rename_i hchanged <;> rw [BitVec.getLsbD_xor] at hchanged
      · have hflip : currentRow.getLsbD n =
            !(fun r c => if r = row ∧ c < n then currentRow.getLsbD c else held r c) row n := by
          grind
        have hafter := hbefore.event hn hflip
        refine ⟨hafter.alternates, fun r c hc => (hafter.last r c hc).trans ?_⟩
        grind
      · refine ⟨hbefore.alternates, fun r c hc => (hbefore.last r c hc).trans ?_⟩
        grind

theorem Tracks.taskEvents {previous : Matrix cfg} {executed : List KeyEvent}
    (h : Tracks cfg (fun row col => (previous row).getLsbD col) executed)
    (matrix : Matrix cfg) (n : Nat) :
    Tracks cfg (fun row col => (caughtUp matrix previous n row).getLsbD col)
      (taskEvents matrix previous n ++ executed) := by
  induction n with
  | zero => simpa [caughtUp, Ghost.taskEvents] using h
  | succ n ih =>
      unfold Ghost.taskEvents
      split <;> rename_i hghost
      · refine ⟨ih.alternates, fun row col hcol => (ih.last row col hcol).trans ?_⟩
        unfold caughtUp
        grind
      · have hown : ∀ col < cfg.cols,
            (caughtUp matrix previous n n).getLsbD col = (previous n).getLsbD col := by
          simp [caughtUp]
        have hafter : Tracks cfg _ (Ghost.rowEvents n (matrix n) (matrix n ^^^ previous n) cfg.cols ++
            (Ghost.taskEvents matrix previous n ++ executed)) :=
          ih.rowEvents hown (Nat.le_refl _)
        rw [List.append_assoc]
        refine ⟨hafter.alternates, fun row col hcol => (hafter.last row col hcol).trans ?_⟩
        unfold caughtUp
        grind

/-! ## Runs -/

structure Inv (s : State cfg) : Prop where
  awake : Awake s
  alternates : Always Alternates s.executed
  /-- `matrix_previous` is what the events say of each position. -/
  tracks : cfg.processKeypress = true →
    Tracks cfg (fun row col => (s.previous row).getLsbD col) s.executed

theorem inv_initial : Inv (State.initial cfg) where
  awake _ := rfl
  alternates := Always.nil
  tracks _ := ⟨Always.nil, fun row col _ => by simp [State.initial, lastPressed]⟩

theorem Inv.step {s : State cfg} (h : Inv s) (scan : Scan cfg) :
    Inv (Ghost.step s scan) := by
  rw [step_of_awake h.awake]
  split
  · by_cases hprocess : cfg.processKeypress = true
    · have hafter := (h.tracks hprocess).taskEvents scan.matrix cfg.rows
      refine ⟨h.awake, ?_, fun _ => ?_⟩
      · simpa [State.execute, hprocess] using hafter.alternates
      · simpa [State.execute, hprocess] using hafter
    · exact ⟨h.awake, by simpa [State.execute, hprocess] using h.alternates,
        fun hactive => absurd hactive hprocess⟩
  · exact h

/-- The events of each position alternate, whatever is scanned, and no call of a run
emits a press of a key that is not pressed exactly when at each call the rows that
could cause one are given away by other rows. -/
theorem matrixTask_sound (scans : List (Scan cfg)) :
    Always Alternates (run step (State.initial cfg) scans).executed ∧
      (Meets step NoPhantom (State.initial cfg) scans ↔
        Meets step Exposed (State.initial cfg) scans) := by
  have hkeeps (Cond : State cfg → Scan cfg → Prop) (s : State cfg) (scan : Scan cfg)
      (h : Inv s) (_ : Cond s scan) : Inv (step s scan) := h.step scan
  have hall : Meets step (fun _ _ => True) (State.initial cfg) scans :=
    .of_forall (fun _ => True) (fun _ _ _ => trivial) (fun _ _ => trivial) _
  refine ⟨(hall.preserves Inv (hkeeps _) inv_initial).alternates, ?_, ?_⟩
  · intro hsound
    exact hsound.imp_of_invariant Inv (hkeeps _)
      (fun s scan h hstep => (noPhantom_iff h.awake scan).mp hstep) inv_initial
  · intro hexposed
    exact hexposed.imp_of_invariant Inv (hkeeps _)
      (fun s scan h hstep => (noPhantom_iff h.awake scan).mpr hstep) inv_initial

/-- Two rows that have one real column in common have the same real columns; so it is
when every position of the matrix carries a key. -/
def Config.Rectangular (cfg : Config) : Prop :=
  ∀ row other a b, cfg.Real row a → cfg.Real row b → cfg.Real other a → cfg.Real other b

instance (pressed : Nat → Nat → Prop) : Std.Symm (Joined pressed) where
  symm _ _ h := by
    cases h with
    | rowCol h => exact .colRow h
    | colRow h => exact .rowCol h

theorem connected_symm {pressed : Nat → Nat → Prop} {v w : Wire}
    (h : Relation.ReflTransGen (Joined pressed) v w) :
    Relation.ReflTransGen (Joined pressed) w v :=
  Std.Symm.symm v w h

theorem Scan.closed (scan : Scan cfg) {row col : Nat} (hreal : cfg.Real row col)
    (h : Relation.ReflTransGen (Joined scan.pressed) (.row row) (.col col)) :
    Shown cfg scan.matrix row col :=
  ⟨hreal, (scan.closed_iff row hreal.1 col hreal.2.1).mpr h⟩

/-- The path that closes the contact of a key that is not pressed leaves the row in
another column, and enters the column from another row. -/
theorem Config.Rectangular.exposed (h : cfg.Rectangular) (s : State cfg)
    (scan : Scan cfg) : Exposed s scan := by
  intro row col hshown hup _
  have hpath := (scan.closed_iff row hshown.1.1 col hshown.1.2.1).mp hshown.2
  obtain heq | ⟨first, hfirst, -⟩ := hpath.cases_head
  · cases heq
  obtain heq | ⟨last, hbefore, hlast⟩ := hpath.cases_tail
  · cases heq
  cases hfirst with
  | @rowCol _ a ha =>
      cases hlast with
      | @rowCol other _ hother =>
          have hne : other ≠ row := fun heq => hup (heq ▸ hother)
          have hcol : a ≠ col := fun heq => hup (heq ▸ ha)
          have hreal := scan.real row a ha
          have hreal' := scan.real other col hother
          have hcorner : cfg.Real other a := h row other col a hshown.1 hreal hreal'
          have hreturn := connected_symm hbefore
          exact ⟨other, hne, a, col, hcol,
            ⟨scan.closed hreal (.single (.rowCol ha)), hshown⟩,
            scan.closed hcorner (hreturn.tail (.rowCol ha)),
            scan.closed hreal' (.single (.rowCol hother))⟩

theorem Config.Rectangular.noPhantom (h : cfg.Rectangular) (scans : List (Scan cfg)) :
    Meets step NoPhantom (State.initial cfg) scans := by
  have hkeeps (s : State cfg) (scan : Scan cfg) (hs : Inv s) (_ : True) :
      Inv (step s scan) := hs.step scan
  have hall : Meets step (fun _ _ => True) (State.initial cfg) scans :=
    .of_forall (fun _ => True) (fun _ _ _ => trivial) (fun _ _ => trivial) _
  exact hall.imp_of_invariant Inv hkeeps
    (fun s scan hs _ => (noPhantom_iff hs.awake scan).mpr (h.exposed s scan)) inv_initial

/-- Three rows of two keys, each pair of rows with one column in common. -/
def staircase : Config where
  rows := 3
  cols := 3
  rowBits := 8
  cols_le := by decide
  keycodeAt row col :=
    if (row, col) ∈ [(0, 0), (0, 2), (1, 0), (1, 1), (2, 1), (2, 2)] then 4 else 0
  processKeypress := true

/-- All keys but the one at row 0 and column 2. -/
abbrev staircasePressed (row col : Nat) : Prop :=
  (row, col) ∈ [(0, 0), (1, 0), (1, 1), (2, 1), (2, 2)]

theorem staircase_row {row : Nat} (h : row < 3) :
    Relation.ReflTransGen (Joined staircasePressed) (.row row) (.row 0) := by
  have hone : Relation.ReflTransGen (Joined staircasePressed) (.row 1) (.row 0) :=
    .head (.rowCol (by decide : staircasePressed 1 0)) (.single (.colRow (by decide)))
  obtain rfl | rfl | rfl : row = 0 ∨ row = 1 ∨ row = 2 := by omega
  · exact .refl
  · exact hone
  · exact .head (.rowCol (by decide : staircasePressed 2 1))
      (.head (.colRow (by decide)) hone)

theorem staircase_col {col : Nat} (h : col < 3) :
    Relation.ReflTransGen (Joined staircasePressed) (.row 0) (.col col) := by
  have hcol (row : Nat) (hrow : row < 3) (hkey : staircasePressed row col) :
      Relation.ReflTransGen (Joined staircasePressed) (.row 0) (.col col) :=
    .tail (connected_symm (staircase_row hrow)) (.rowCol hkey)
  obtain rfl | rfl | rfl : col = 0 ∨ col = 1 ∨ col = 2 := by omega
  · exact hcol 0 (by decide) (by decide)
  · exact hcol 1 (by decide) (by decide)
  · exact hcol 2 (by decide) (by decide)

def staircaseScan : Scan staircase where
  canRead := true
  pressed := staircasePressed
  matrix _ := 7#8
  real row col h := by
    simp only [List.mem_cons, Prod.mk.injEq, List.not_mem_nil, or_false] at h
    obtain ⟨rfl, rfl⟩ | ⟨rfl, rfl⟩ | ⟨rfl, rfl⟩ | ⟨rfl, rfl⟩ | ⟨rfl, rfl⟩ := h <;>
      decide
  closed_iff row hrow col hcol := by
    have hclosed : (7#8).getLsbD col = true := by
      revert col
      decide
    have hpath := (staircase_row hrow).trans (staircase_col hcol)
    exact iff_of_true hclosed hpath

/-- No two of the three rows share two columns with a real key, so no row is taken for
a ghosted one, and the key that is not pressed is reported with the others. -/
theorem staircase_phantom :
    ¬Meets step NoPhantom (State.initial staircase) [staircaseScan] := by
  rintro ⟨hsound, -⟩
  have hevent : staircasePressed 0 2 := hsound (step (State.initial staircase) staircaseScan).executed
    (List.append_nil _).symm ⟨0, 2, true⟩ (by decide) rfl (by decide)
  exact absurd hevent (by decide)

end Qmk.Ghost
