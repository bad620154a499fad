import Qmk.Lib.Memory

/-!
# Sequences of block writes

A write copies a block of cells to an address.  The value of one cell after a
sequence of writes depends on that cell and the writes that cover it only.
-/

namespace Qmk.Lib

variable {α : Type*}

structure BlockWrite (α : Type*) where
  address : Nat
  block : List α
  deriving DecidableEq, Repr

namespace BlockWrite

def Covers (write : BlockWrite α) (i : Nat) : Prop :=
  write.address ≤ i ∧ i < write.address + write.block.length

instance (write : BlockWrite α) (i : Nat) : Decidable (write.Covers i) :=
  inferInstanceAs (Decidable (_ ∧ _))

def apply (mem : Nat → α) (write : BlockWrite α) : Nat → α :=
  overlay mem write.address write.block

def applyAll (mem : Nat → α) (writes : List (BlockWrite α)) : Nat → α :=
  writes.foldl apply mem

theorem apply_outside (mem : Nat → α) {write : BlockWrite α} {i : Nat}
    (h : ¬ write.Covers i) : write.apply mem i = mem i := by
  refine overlay_outside mem write.block ?_
  rw [Covers] at h
  omega

theorem apply_congr {mem other : Nat → α} {i : Nat} (h : mem i = other i)
    (write : BlockWrite α) : write.apply mem i = write.apply other i := by
  simp only [apply, overlay, h]

@[simp] theorem applyAll_nil (mem : Nat → α) : applyAll mem [] = mem := rfl

@[simp] theorem applyAll_cons (mem : Nat → α) (write : BlockWrite α)
    (writes : List (BlockWrite α)) :
    applyAll mem (write :: writes) = applyAll (write.apply mem) writes := rfl

@[simp] theorem applyAll_append (mem : Nat → α)
    (first second : List (BlockWrite α)) :
    applyAll mem (first ++ second) = applyAll (applyAll mem first) second := by
  simp [applyAll]

theorem applyAll_congr {mem other : Nat → α} {i : Nat} (h : mem i = other i)
    (writes : List (BlockWrite α)) :
    applyAll mem writes i = applyAll other writes i := by
  induction writes generalizing mem other with
  | nil => exact h
  | cons write writes ih => exact ih (apply_congr h write)

theorem applyAll_outside {writes : List (BlockWrite α)} {i : Nat}
    (h : ∀ write ∈ writes, ¬ write.Covers i) (mem : Nat → α) :
    applyAll mem writes i = mem i := by
  induction writes generalizing mem with
  | nil => rfl
  | cons write writes ih =>
      rw [applyAll_cons, ih fun other hother => h other (by simp [hother])]
      exact apply_outside mem (h write (by simp))

end BlockWrite

end Qmk.Lib
