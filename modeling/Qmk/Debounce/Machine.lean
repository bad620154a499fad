import Qmk.Debounce.Scan

/-!
# One unit of the matrix

The unit of an algorithm is a key or a row.  A `Machine` says what the two passes
do to one unit, on its own; an algorithm `Realizes` a machine when its passes do
that to every unit of the matrix.  The shared flags and the shared time then do
not matter: each unit takes the machine's steps with the time between the scans.
-/

namespace Qmk.Debounce

open Qmk.Lib

variable {counterBits : Nat} {cfg : Config counterBits} {γ V ι : Type}

/-- What an algorithm keeps for one unit. -/
@[ext] structure Cell (V γ : Type) where
  raw : V
  cooked : V
  counter : γ

def Cell.read (cell : Cell V γ) (raw : V) : Cell V γ := { cell with raw }

/-- The static flags. -/
inductive Flag where
  | countersNeedUpdate
  | matrixNeedUpdate
  | cookedChanged

def State.flag (s : State cfg γ) : Flag → Bool
  | .countersNeedUpdate => s.countersNeedUpdate
  | .matrixNeedUpdate => s.matrixNeedUpdate
  | .cookedChanged => s.cookedChanged

/-- The values of the units of the matrix and the indices of their counters. -/
structure Layout (cfg : Config counterBits) (V ι : Type) where
  value : ι → Matrix cfg → V
  slot : ι → Nat
  value_local : ∀ unit, ∀ m m' : Matrix cfg,
    (∀ row < cfg.rows, m row = m' row) → value unit m = value unit m'

def Layout.view (layout : Layout cfg V ι) (s : State cfg γ) (unit : ι) : Cell V γ where
  raw := layout.value unit s.raw
  cooked := layout.value unit s.cooked
  counter := s.counters (layout.slot unit)

/-- The unit as it is when a scan has stored `raw`. -/
def Layout.readView (layout : Layout cfg V ι) (s : State cfg γ) (raw : Matrix cfg)
    (unit : ι) : Cell V γ :=
  (layout.view s unit).read (layout.value unit raw)

def Layout.parts (layout : Layout cfg V ι) :
    Parts (State cfg γ) ι (Cell V γ) Flag (Matrix cfg × BitVec cfg.timerBits) where
  view := layout.view
  flag := State.flag
  rest s := (s.raw, s.lastTime)

/-- The two passes on one unit, and when they raise a flag for it. -/
structure Machine (V γ : Type) where
  update : Nat → Cell V γ → Cell V γ
  transfer : Cell V γ → Cell V γ
  /-- The counter has not elapsed. -/
  pending : Cell V γ → Bool
  /-- The update asks for a transfer. -/
  wakes : Nat → Cell V γ → Bool
  /-- The transfer starts the counter. -/
  starts : Cell V γ → Bool

section Marks

variable [DecidableEq V]

def Machine.updateMark (machine : Machine V γ) (elapsed : Nat) : Flag → Cell V γ → Bool
  | .countersNeedUpdate, cell => machine.pending (machine.update elapsed cell)
  | .matrixNeedUpdate, cell => machine.wakes elapsed cell
  | .cookedChanged, cell => (machine.update elapsed cell).cooked ≠ cell.cooked

def Machine.transferMark (machine : Machine V γ) : Flag → Cell V γ → Bool
  | .countersNeedUpdate, cell => machine.starts cell
  | .matrixNeedUpdate, _ => false
  | .cookedChanged, cell => (machine.transfer cell).cooked ≠ cell.cooked

end Marks

/-- What makes the shared flags and the clamped time harmless. -/
structure Machine.Lawful (machine : Machine V γ) (counterBits : Nat) : Prop where
  update_raw : ∀ elapsed cell, (machine.update elapsed cell).raw = cell.raw
  transfer_raw : ∀ cell, (machine.transfer cell).raw = cell.raw
  update_idle : ∀ elapsed cell, machine.pending cell = false →
    machine.update elapsed cell = cell
  wakes_idle : ∀ elapsed cell, machine.pending cell = false →
    machine.wakes elapsed cell = false
  update_zero : ∀ cell, machine.update 0 cell = cell
  wakes_zero : ∀ cell, machine.wakes 0 cell = false
  update_clamp : ∀ elapsed cell,
    machine.update (min elapsed (maxElapsed counterBits)) cell =
      machine.update elapsed cell
  wakes_clamp : ∀ elapsed cell,
    machine.wakes (min elapsed (maxElapsed counterBits)) cell =
      machine.wakes elapsed cell
  pending_read : ∀ cell raw, machine.pending (cell.read raw) = machine.pending cell
  pending_transfer : ∀ cell, machine.pending (machine.transfer cell) = true →
    machine.pending cell = true ∨ machine.starts cell = true
  cooked_transfer : ∀ elapsed cell,
    (machine.update elapsed cell).cooked ≠ cell.cooked →
    (machine.transfer (machine.update elapsed cell)).cooked =
      (machine.update elapsed cell).cooked

/-- The passes of the algorithm do to each unit what the machine does. -/
structure Algorithm.Realizes [DecidableEq V] (alg : Algorithm cfg γ)
    (layout : Layout cfg V ι) (machine : Machine V γ) : Prop where
  lawful : machine.Lawful counterBits
  update : ∀ elapsed (s : State cfg γ), s.matrixNeedUpdate = false →
    Sweeps layout.parts (machine.update elapsed) (machine.updateMark elapsed)
      (fun _ => True) { s with countersNeedUpdate := false } (alg.update elapsed s)
  transfer : ∀ s : State cfg γ, (alg.rescans = false → s.matrixNeedUpdate = false) →
    Sweeps layout.parts machine.transfer machine.transferMark
      (fun _ => True) { s with matrixNeedUpdate := false } (alg.transfer s)
  rescans : alg.rescans = false → ∀ elapsed cell, machine.wakes elapsed cell = false

/-- What holds between two scans; `last` is when the timer was read last. -/
structure Synced (layout : Layout cfg V ι) (machine : Machine V γ)
    (last : BitVec cfg.timerBits) (s : State cfg γ) : Prop where
  matrix : s.matrixNeedUpdate = false
  pending : ∀ unit,
    machine.pending (layout.view s unit) = true → s.countersNeedUpdate = true
  clock : s.countersNeedUpdate = true → s.lastTime = last

theorem Synced.read {layout : Layout cfg V ι} {machine : Machine V γ}
    (lawful : machine.Lawful counterBits) {last : BitVec cfg.timerBits} {s : State cfg γ}
    (h : Synced layout machine last s) (raw : Matrix cfg) :
    Synced layout machine last { s with raw } where
  matrix := h.matrix
  pending unit hpending := by
    refine h.pending unit ?_
    rw [← lawful.pending_read _ (layout.value unit raw)]
    exact hpending
  clock := h.clock

section Elapse

/-- The counters' part of a scan: every unit has been updated by the time since
the last scan. -/
structure Elapsed (layout : Layout cfg V ι) (machine : Machine V γ) (gap : Nat)
    (now : BitVec cfg.timerBits) (raw : Matrix cfg) (cells : ι → Cell V γ)
    (p : State cfg γ × Bool) : Prop where
  inside : ∀ unit, layout.view p.1 unit = machine.update gap (cells unit)
  raw_eq : p.1.raw = raw
  wakes : p.1.matrixNeedUpdate = true ↔
    ∃ unit, machine.wakes gap (cells unit) = true
  cooked : p.1.cookedChanged = true ↔ ∃ unit,
    (machine.update gap (cells unit)).cooked ≠ (cells unit).cooked
  pending : ∀ unit,
    machine.pending (layout.view p.1 unit) = true → p.1.countersNeedUpdate = true
  clock : p.2 = true → p.1.lastTime = now
  idle : p.2 = false → p.1.countersNeedUpdate = false

variable {alg : Algorithm cfg γ} {layout : Layout cfg V ι} {machine : Machine V γ}
variable {last now : BitVec cfg.timerBits} {s : State cfg γ}

/-- Nothing happens to the units when no counter runs, or no time has passed. -/
private theorem elapsed_same {gap : Nat} {updatedLast : Bool}
    (h : Synced layout machine last s) (hcooked : s.cookedChanged = false)
    (hsame : ∀ unit,
      machine.update gap (layout.view s unit) = layout.view s unit ∧
        machine.wakes gap (layout.view s unit) = false)
    (hclock : updatedLast = true → s.lastTime = now)
    (hidle : updatedLast = false → s.countersNeedUpdate = false) :
    Elapsed layout machine gap now s.raw (layout.view s) (s, updatedLast) where
  inside unit := (hsame unit).1.symm
  raw_eq := rfl
  wakes := by
    simp only [h.matrix, Bool.false_eq_true, false_iff]
    rintro ⟨unit, hwakes⟩
    rw [(hsame unit).2] at hwakes
    contradiction
  cooked := by
    simp only [hcooked, Bool.false_eq_true, false_iff]
    rintro ⟨unit, hne⟩
    rw [(hsame unit).1] at hne
    exact hne rfl
  pending := h.pending
  clock := hclock
  idle := hidle

variable [DecidableEq V]

private theorem elapsed_update (real : alg.Realizes layout machine) (gap : Nat)
    (hmatrix : s.matrixNeedUpdate = false) (hcooked : s.cookedChanged = false) :
    Elapsed layout machine gap s.lastTime s.raw (layout.view s)
      (alg.update (min gap (maxElapsed counterBits)) s, true) := by
  have lawful := real.lawful
  have sweep := real.update (min gap (maxElapsed counterBits)) s hmatrix
  have hinside : ∀ unit,
      layout.view (alg.update (min gap (maxElapsed counterBits)) s) unit =
        machine.update gap (layout.view s unit) := by
    intro unit
    rw [← lawful.update_clamp]
    exact sweep.inside unit trivial
  constructor
  case inside => exact hinside
  case raw_eq => exact congrArg Prod.fst sweep.rest
  case wakes =>
    simp only [← lawful.wakes_clamp gap]
    refine (sweep.flag_all .matrixNeedUpdate).trans ?_
    have hflag : ¬s.matrixNeedUpdate = true := by simp [hmatrix]
    exact or_iff_right hflag
  case cooked =>
    simp only [← lawful.update_clamp gap]
    refine (sweep.flag_all .cookedChanged).trans ?_
    have hflag : ¬s.cookedChanged = true := by simp [hcooked]
    refine (or_iff_right hflag).trans ?_
    simp only [Machine.updateMark, decide_eq_true_eq]
    exact Iff.rfl
  case pending =>
    intro unit hpending
    refine (sweep.flag_all .countersNeedUpdate).mpr (.inr ⟨unit, ?_⟩)
    have hview := sweep.inside unit trivial
    simp only [Machine.updateMark, ← hview]
    exact hpending
  case clock => exact fun _ => congrArg Prod.snd sweep.rest
  case idle => nofun

theorem Algorithm.Realizes.elapse (real : alg.Realizes layout machine)
    (now : BitVec cfg.timerBits) (h : Synced layout machine last s) (hcooked : s.cookedChanged = false) :
    Elapsed layout machine (now - last).toNat now s.raw (layout.view s)
      (alg.elapse now s) := by
  have lawful := real.lawful
  unfold Algorithm.elapse
  by_cases hflag : s.countersNeedUpdate = true
  · rw [if_pos hflag, h.clock hflag]
    by_cases hpos : 0 < (now - last).toNat
    · simp only [if_pos hpos]
      exact elapsed_update (s := { s with lastTime := now }) real _ h.matrix hcooked
    · have hzero : (now - last).toNat = 0 := by omega
      have hclocked : Synced layout machine now { s with lastTime := now } :=
        ⟨h.matrix, h.pending, fun _ => rfl⟩
      simp only [if_neg hpos]
      refine elapsed_same hclocked hcooked ?_ (fun _ => rfl) nofun
      intro unit
      rw [hzero]
      exact ⟨lawful.update_zero _, lawful.wakes_zero _⟩
  · rw [if_neg hflag]
    refine elapsed_same h hcooked ?_ nofun (fun _ => by simpa using hflag)
    intro unit
    have hidle : machine.pending (layout.view s unit) = false := by
      have := mt (h.pending unit) hflag
      simpa using this
    exact ⟨lawful.update_idle _ _ hidle, lawful.wakes_idle _ _ hidle⟩

end Elapse

section Debounce

variable {alg : Algorithm cfg γ} {layout : Layout cfg V ι} {machine : Machine V γ}

/-- The scan ends with a transfer: the matrix has changed, or a unit asks for it. -/
def Transfers (machine : Machine V γ) (gap : Nat)
    (changed : Bool) (cells : ι → Cell V γ) : Prop :=
  changed = true ∨ ∃ unit, machine.wakes gap (cells unit) = true

/-- What a scan does to the units that hold `cells` when it starts. -/
structure Scanned (layout : Layout cfg V ι) (machine : Machine V γ) (gap : Nat)
    (changed : Bool) (raw : Matrix cfg) (cells : ι → Cell V γ)
    (p : State cfg γ × Bool) : Prop where
  transferred : Transfers machine gap changed cells → ∀ unit,
    layout.view p.1 unit = machine.transfer (machine.update gap (cells unit))
  updated : ¬Transfers machine gap changed cells → ∀ unit,
    layout.view p.1 unit = machine.update gap (cells unit)
  raw_eq : p.1.raw = raw
  returned : p.2 = true ↔ ∃ unit,
    (layout.view p.1 unit).cooked ≠ (cells unit).cooked

variable {last now : BitVec cfg.timerBits} {s : State cfg γ}

private theorem scanned_update {gap : Nat} {changed updatedLast : Bool}
    {raw : Matrix cfg} {cells : ι → Cell V γ}
    (h : Elapsed layout machine gap now raw cells (s, updatedLast))
    (hmatrix : s.matrixNeedUpdate = false)
    (htransfers : ¬Transfers machine gap changed cells) :
    Scanned layout machine gap changed raw cells (s, s.cookedChanged) ∧
      Synced layout machine now s := by
  constructor
  case left =>
    constructor
    case transferred => exact fun hyes => absurd hyes htransfers
    case updated => exact fun _ => h.inside
    case raw_eq => exact h.raw_eq
    case returned =>
      refine h.cooked.trans (exists_congr fun unit => ?_)
      rw [← h.inside unit]
  case right =>
    refine ⟨hmatrix, h.pending, fun hflag => ?_⟩
    cases hlast : updatedLast with
    | false => exact absurd (h.idle hlast) (by simpa using hflag)
    | true => exact h.clock hlast

private theorem Elapsed.clocked {gap : Nat} {updatedLast : Bool} {raw : Matrix cfg}
    {cells : ι → Cell V γ}
    (h : Elapsed layout machine gap now raw cells (s, updatedLast)) :
    Elapsed layout machine gap now raw cells
      (if updatedLast then s else { s with lastTime := now }, true) := by
  cases updatedLast with
  | false => exact ⟨h.inside, h.raw_eq, h.wakes, h.cooked, h.pending,
      fun _ => rfl, nofun⟩
  | true => exact h

variable [DecidableEq V]

private theorem scanned_transfer (real : alg.Realizes layout machine)
    {gap : Nat} {changed : Bool} {raw : Matrix cfg} {cells : ι → Cell V γ}
    (h : Elapsed layout machine gap now raw cells (s, true))
    (hrescans : alg.rescans = false → s.matrixNeedUpdate = false)
    (htransfers : Transfers machine gap changed cells) :
    Scanned layout machine gap changed raw cells
        (alg.transfer s, (alg.transfer s).cookedChanged) ∧
      Synced layout machine now (alg.transfer s) := by
  have lawful := real.lawful
  have sweep := real.transfer s hrescans
  have hbefore : ∀ unit,
      layout.view s unit = machine.update gap (cells unit) := h.inside
  have hafter : ∀ unit,
      layout.view (alg.transfer s) unit =
        machine.transfer (machine.update gap (cells unit)) := by
    intro unit
    rw [← hbefore unit]
    exact sweep.inside unit trivial
  have hcooked : (alg.transfer s).cookedChanged = true ↔
      s.cookedChanged = true ∨ ∃ unit,
        (machine.transfer (layout.view s unit)).cooked ≠ (layout.view s unit).cooked := by
    refine (sweep.flag_all .cookedChanged).trans ?_
    simp only [Machine.transferMark, decide_eq_true_eq]
    exact Iff.rfl
  constructor
  case left =>
    constructor
    case transferred => exact fun _ => hafter
    case updated => exact fun hnot => absurd htransfers hnot
    case raw_eq => exact (congrArg Prod.fst sweep.rest).trans h.raw_eq
    case returned =>
      -- a value that the update has changed is left alone by the transfer
      refine hcooked.trans ⟨?_, ?_⟩
      · rintro (hupdate | ⟨unit, hne⟩)
        · obtain ⟨unit, hne⟩ := h.cooked.mp hupdate
          refine ⟨unit, ?_⟩
          rw [hafter unit, lawful.cooked_transfer gap _ hne]
          exact hne
        · rw [hbefore unit] at hne
          have hsame : (machine.update gap (cells unit)).cooked = (cells unit).cooked :=
            Decidable.not_not.mp (mt (lawful.cooked_transfer gap (cells unit)) hne)
          refine ⟨unit, ?_⟩
          rw [hafter unit, ← hsame]
          exact hne
      · rintro ⟨unit, hne⟩
        rw [hafter unit] at hne
        by_cases hsame : (machine.update gap (cells unit)).cooked = (cells unit).cooked
        · refine .inr ⟨unit, ?_⟩
          rw [hbefore unit, hsame]
          exact hne
        · exact .inl (h.cooked.mpr ⟨unit, hsame⟩)
  case right =>
    constructor
    case matrix =>
      have hflag := sweep.flag_all .matrixNeedUpdate
      simpa [Layout.parts, State.flag, Machine.transferMark] using hflag
    case pending =>
      intro unit hpending
      refine (sweep.flag_all .countersNeedUpdate).mpr ?_
      have hview : layout.view (alg.transfer s) unit =
          machine.transfer (layout.view s unit) := sweep.inside unit trivial
      rw [hview] at hpending
      cases lawful.pending_transfer _ hpending with
      | inl hrunning => exact .inl (h.pending unit hrunning)
      | inr hstarts => exact .inr ⟨unit, hstarts⟩
    case clock => exact fun _ => (congrArg Prod.snd sweep.rest).trans (h.clock rfl)

/-- The spec of `debounce()`: it does the machine's step to each unit. -/
theorem Algorithm.Realizes.debounce (real : alg.Realizes layout machine)
    (now : BitVec cfg.timerBits) (changed : Bool) (h : Synced layout machine last s) :
    Scanned layout machine (now - last).toNat changed s.raw (layout.view s)
        (alg.debounce now changed s) ∧
      Synced layout machine now (alg.debounce now changed s).1 := by
  have hstart : Synced layout machine last { s with cookedChanged := false } :=
    ⟨h.matrix, h.pending, h.clock⟩
  have helapsed := real.elapse now hstart rfl
  unfold Algorithm.debounce
  generalize alg.elapse now { s with cookedChanged := false } = p at helapsed
  obtain ⟨s', updatedLast⟩ := p
  have hquiet : alg.rescans = false → s'.matrixNeedUpdate = false := by
    intro hrescans
    have hnone := real.rescans hrescans
    have := helapsed.wakes
    simpa [hnone] using this
  have htest : (changed || (alg.rescans && s'.matrixNeedUpdate)) = true ↔
      Transfers machine (now - last).toNat changed (layout.view s) := by
    refine Iff.trans ?_ (or_congr_right helapsed.wakes)
    cases hrescans : alg.rescans with
    | false => simp [hquiet hrescans]
    | true => simp
  dsimp only
  by_cases htransfers : Transfers machine (now - last).toNat changed (layout.view s)
  · rw [if_pos (htest.mpr htransfers)]
    refine scanned_transfer real helapsed.clocked ?_ htransfers
    cases updatedLast <;> exact hquiet
  · rw [if_neg (mt htest.mp htransfers)]
    refine scanned_update helapsed ?_ htransfers
    have hnone : ¬s'.matrixNeedUpdate = true := fun hflag =>
      htransfers (.inr (helapsed.wakes.mp hflag))
    simpa using hnone

end Debounce

section Run

variable [DecidableEq V] {alg : Algorithm cfg γ} {layout : Layout cfg V ι}
variable {machine : Machine V γ} {elapsed : γ}

/-- A counter with the value `elapsed` does not run. -/
def Machine.StartsAt (machine : Machine V γ) (elapsed : γ) : Prop :=
  ∀ value, machine.pending ⟨value, value, elapsed⟩ = false

theorem Algorithm.Realizes.synced (real : alg.Realizes layout machine)
    (hstart : machine.StartsAt elapsed) (scans : Scans cfg) (n : Nat) :
    Synced layout machine (scans.reading (n - 1)) (stateAt alg elapsed scans n) := by
  induction n with
  | zero =>
      refine ⟨rfl, fun unit hpending => ?_, nofun⟩
      have hidle : machine.pending (layout.view (stateAt alg elapsed scans 0) unit) = false :=
        hstart (layout.value unit scans.start)
      rw [hidle] at hpending
      contradiction
  | succ n ih => exact (real.debounce _ _ (ih.read real.lawful (scans.raw n))).2

/-- What scan `n` of a run does to the units. -/
theorem Algorithm.Realizes.scanned (real : alg.Realizes layout machine)
    (hstart : machine.StartsAt elapsed) (scans : Scans cfg) (n : Nat) :
    Scanned layout machine (scans.gap n) (scans.changed n) (scans.raw n)
      (layout.readView (stateAt alg elapsed scans n) (scans.raw n))
      (stateAt alg elapsed scans (n + 1), resultAt alg elapsed scans n) := by
  have hread := (real.synced hstart scans n).read real.lawful (scans.raw n)
  have hscan := (real.debounce (scans.reading n) (scans.changed n) hread).1
  rw [scans.reading_sub] at hscan
  exact hscan

end Run

end Qmk.Debounce
