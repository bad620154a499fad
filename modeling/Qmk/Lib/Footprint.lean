import Mathlib.Logic.Function.Basic
import Mathlib.Tactic.Common

/-!
# Footprints

Programs over a buffer, with a trace of the cells that they read or write.  `Within` bounds the
cells of a program, and `Touches` says exactly which they are.
-/

namespace Qmk.Lib

variable {α σ β γ : Type}

/-- A buffer, the cells of it that were accessed, last first, and the rest of the state. -/
structure Traced (α σ : Type) where
  buffer : Nat → α
  accessed : List Nat
  rest : σ

abbrev Access (α σ : Type) := StateM (Traced α σ)

namespace Access

def read (i : Nat) : Access α σ α := fun s => (s.buffer i, { s with accessed := i :: s.accessed })

def write (i : Nat) (a : α) : Access α σ Unit := fun s =>
  ((), { s with buffer := Function.update s.buffer i a, accessed := i :: s.accessed })

/-- What the rest of the state says. -/
def ask (f : σ → β) : Access α σ β := fun s => (f s.rest, s)

def tell (f : σ → σ) : Access α σ Unit := fun s => ((), { s with rest := f s.rest })

def readMany (i : Nat) : Nat → Access α σ (List α)
  | 0 => pure []
  | n + 1 => do
      let a ← read i
      let as ← readMany (i + 1) n
      pure (a :: as)

/-- `for (j = i; j < i + n; j++)`. -/
def loop (body : Nat → Access α σ Unit) (i : Nat) : Nat → Access α σ Unit
  | 0 => pure ()
  | n + 1 => do
      body i
      loop body (i + 1) n

theorem bind_run (p : Access α σ β) (f : β → Access α σ γ) (s : Traced α σ) :
    (p >>= f) s = f (p s).1 (p s).2 := rfl

theorem pure_run (b : β) (s : Traced α σ) : (pure b : Access α σ β) s = (b, s) := rfl

theorem read_run (i : Nat) (s : Traced α σ) :
    read i s = (s.buffer i, { s with accessed := i :: s.accessed }) := rfl

theorem ite_run {c : Prop} [Decidable c] (p q : Access α σ β) (s : Traced α σ) :
    (if c then p else q) s = if c then p s else q s := by
  split <;> rfl

/-! ## Bounds -/

/-- The program accesses no cell from `bound` on. -/
def Within (bound : Nat) (p : Access α σ β) : Prop :=
  ∀ s, (∀ i ∈ s.accessed, i < bound) → ∀ i ∈ (p s).2.accessed, i < bound

variable {bound : Nat}

theorem within_pure (b : β) : Within bound (pure b : Access α σ β) := fun _ h => h

theorem Within.bind {p : Access α σ β} {f : β → Access α σ γ} (hp : Within bound p)
    (hf : ∀ b, Within bound (f b)) : Within bound (p >>= f) :=
  fun s h => hf (p s).1 (p s).2 (hp s h)

theorem within_read {i : Nat} (hi : i < bound) : Within bound (read i : Access α σ α) :=
  fun _ h => List.forall_mem_cons.mpr ⟨hi, h⟩

theorem within_write {i : Nat} (hi : i < bound) (a : α) :
    Within bound (write i a : Access α σ Unit) :=
  fun _ h => List.forall_mem_cons.mpr ⟨hi, h⟩

theorem within_ask (f : σ → β) : Within bound (ask f : Access α σ β) := fun _ h => h

theorem within_tell (f : σ → σ) : Within bound (tell f : Access α σ Unit) := fun _ h => h

theorem within_ite {c : Prop} [Decidable c] {p q : Access α σ β} (hp : Within bound p)
    (hq : Within bound q) : Within bound (if c then p else q) := by
  split
  · exact hp
  · exact hq

theorem within_readMany (n : Nat) {i : Nat} (hi : i + n ≤ bound) :
    Within bound (readMany i n : Access α σ (List α)) := by
  induction n generalizing i with
  | zero => exact within_pure []
  | succ n ih =>
      exact (within_read (by omega)).bind fun a =>
        (ih (by omega)).bind fun as => within_pure (a :: as)

theorem within_loop {body : Nat → Access α σ Unit} (n : Nat) {i : Nat}
    (hbody : ∀ j, i ≤ j → j < i + n → Within bound (body j)) :
    Within bound (loop body i n) := by
  induction n generalizing i with
  | zero => exact within_pure ()
  | succ n ih =>
      exact (hbody i (Nat.le_refl i) (by omega)).bind fun _ =>
        ih fun j hj hlt => hbody j (by omega) (by omega)

/-! ## Exact footprints -/

/-- The program accesses just these cells. -/
def Touches (cells : Nat → Prop) (p : Access α σ β) : Prop :=
  ∀ s k, k ∈ (p s).2.accessed ↔ k ∈ s.accessed ∨ cells k

theorem touches_pure (b : β) : Touches (fun _ => False) (pure b : Access α σ β) :=
  fun _ _ => (or_false _).symm.to_iff

theorem Touches.bind {p : Access α σ β} {f : β → Access α σ γ} {cells others : Nat → Prop}
    (hp : Touches cells p) (hf : ∀ b, Touches others (f b)) :
    Touches (fun k => cells k ∨ others k) (p >>= f) := fun s k => by
  rw [← or_assoc, ← hp s k]
  exact hf (p s).1 (p s).2 k

theorem Touches.mono {p : Access α σ β} {cells others : Nat → Prop} (hp : Touches cells p)
    (h : ∀ k, cells k ↔ others k) : Touches others p := fun s k => by
  rw [hp s k, h k]

theorem touches_read (i : Nat) : Touches (· = i) (read i : Access α σ α) :=
  fun _ _ => List.mem_cons.trans or_comm

theorem touches_write (i : Nat) (a : α) : Touches (· = i) (write i a : Access α σ Unit) :=
  fun _ _ => List.mem_cons.trans or_comm

theorem touches_ask (f : σ → β) : Touches (fun _ => False) (ask f : Access α σ β) :=
  fun _ _ => (or_false _).symm.to_iff

theorem touches_tell (f : σ → σ) : Touches (fun _ => False) (tell f : Access α σ Unit) :=
  fun _ _ => (or_false _).symm.to_iff

theorem touches_loop {body : Nat → Access α σ Unit} {cells : Nat → Nat → Prop}
    (hbody : ∀ j, Touches (cells j) (body j)) (n i : Nat) :
    Touches (fun k => ∃ j, i ≤ j ∧ j < i + n ∧ cells j k) (loop body i n) := by
  induction n generalizing i with
  | zero =>
      refine (touches_pure ()).mono fun k => ⟨False.elim, ?_⟩
      rintro ⟨j, hle, hlt, -⟩
      omega
  | succ n ih =>
      refine ((hbody i).bind fun _ => ih (i + 1)).mono fun k => ?_
      constructor
      · rintro (hcell | ⟨j, hle, hlt, hcell⟩)
        · exact ⟨i, Nat.le_refl i, by omega, hcell⟩
        · exact ⟨j, by omega, by omega, hcell⟩
      · rintro ⟨j, hle, hlt, hcell⟩
        rcases Nat.eq_or_lt_of_le hle with rfl | hlt'
        · exact .inl hcell
        · exact .inr ⟨j, hlt', by omega, hcell⟩

/-- A program that accesses a cell goes beyond a bound just where a cell of it does. -/
theorem Touches.within_iff {p : Access α σ β} {cells : Nat → Prop} (hp : Touches cells p)
    {s : Traced α σ} (hs : ∀ i ∈ s.accessed, i < bound) :
    (∀ i ∈ (p s).2.accessed, i < bound) ↔ ∀ i, cells i → i < bound := by
  constructor
  · intro h i hcell
    exact h i ((hp s i).mpr (.inr hcell))
  · intro h i hi
    exact ((hp s i).mp hi).elim (hs i) (h i)

end Access

end Qmk.Lib
