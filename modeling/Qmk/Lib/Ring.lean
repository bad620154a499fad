/-!
# Ring buffers

A queue in an array of `n` slots of which one stays free: `head` is where the next
element is written, `tail` where the next one is read.
-/

namespace Qmk.Lib

structure Ring (α : Type _) (n : Nat) where
  head : Nat
  tail : Nat
  slots : Vector α n

namespace Ring

variable {α : Type _} {n : Nat}

def isEmpty (r : Ring α n) : Bool := r.head = r.tail

def isFull (r : Ring α n) : Bool := r.tail = (r.head + 1) % n

def push (r : Ring α n) (x : α) : Ring α n :=
  { r with head := (r.head + 1) % n, slots := r.slots.setIfInBounds r.head x }

def advance (r : Ring α n) : Ring α n :=
  { r with tail := (r.tail + 1) % n }

def clear (r : Ring α n) : Ring α n :=
  { r with tail := r.head }

/-- The indices are in range. -/
def WF (r : Ring α n) : Prop := r.head < n ∧ r.tail < n

def count (r : Ring α n) : Nat :=
  if r.tail ≤ r.head then r.head - r.tail else r.head + n - r.tail

@[simp] theorem head_push (r : Ring α n) (x : α) : (r.push x).head = (r.head + 1) % n := rfl
@[simp] theorem tail_push (r : Ring α n) (x : α) : (r.push x).tail = r.tail := rfl
@[simp] theorem head_advance (r : Ring α n) : r.advance.head = r.head := rfl
@[simp] theorem tail_advance (r : Ring α n) : r.advance.tail = (r.tail + 1) % n := rfl

/-! ## Indices -/

theorem wrap (i : Nat) (h : i < 2 * n) : i % n = if i < n then i else i - n := by
  split
  · exact Nat.mod_eq_of_lt ‹_›
  · rw [Nat.mod_eq_sub_mod (by omega), Nat.mod_eq_of_lt (by omega)]

theorem count_lt {r : Ring α n} (h : r.WF) : r.count < n := by
  obtain ⟨hhead, htail⟩ := h
  unfold count
  split <;> omega

theorem count_eq_zero {r : Ring α n} (h : r.WF) : r.count = 0 ↔ r.head = r.tail := by
  obtain ⟨hhead, htail⟩ := h
  unfold count
  split <;> omega

theorem head_eq {r : Ring α n} (h : r.WF) : r.head = (r.tail + r.count) % n := by
  obtain ⟨hhead, htail⟩ := h
  unfold count
  split
  · rw [wrap _ (by omega)]
    split <;> omega
  · rw [wrap _ (by omega)]
    split <;> omega

theorem WF.push {r : Ring α n} (h : r.WF) (x : α) : (r.push x).WF :=
  ⟨Nat.mod_lt _ (Nat.zero_lt_of_lt h.1), h.2⟩

theorem WF.advance {r : Ring α n} (h : r.WF) : r.advance.WF :=
  ⟨h.1, Nat.mod_lt _ (Nat.zero_lt_of_lt h.2)⟩

theorem WF.clear {r : Ring α n} (h : r.WF) : r.clear.WF := ⟨h.1, h.1⟩

theorem isFull_iff {r : Ring α n} (h : r.WF) : r.isFull = true ↔ r.count + 1 = n := by
  obtain ⟨hhead, htail⟩ := h
  simp only [isFull, decide_eq_true_eq, count]
  rw [wrap _ (by omega)]
  split <;> split <;> omega

theorem count_push {r : Ring α n} (h : r.WF) (hroom : r.isFull = false) (x : α) :
    (r.push x).count = r.count + 1 := by
  rw [← Bool.not_eq_true, isFull_iff h] at hroom
  obtain ⟨hhead, htail⟩ := h
  have hnext := wrap (r.head + 1) (n := n) (by omega)
  unfold count at hroom ⊢
  rw [head_push, tail_push, hnext]
  split at hroom <;> split <;> split <;> omega

theorem count_advance {r : Ring α n} (h : r.WF) (hsome : r.head ≠ r.tail) :
    r.count = r.advance.count + 1 := by
  obtain ⟨hhead, htail⟩ := h
  have hnext := wrap (r.tail + 1) (n := n) (by omega)
  unfold count
  rw [head_advance, tail_advance, hnext]
  split <;> split <;> split <;> omega

@[simp] theorem count_clear (r : Ring α n) : r.clear.count = 0 := by
  simp [count, clear]

/-! ## The queue that a ring holds -/

variable [Inhabited α]

def slot (r : Ring α n) (i : Nat) : α := r.slots[i]?.getD default

def toList (r : Ring α n) : List α :=
  (List.range r.count).map fun i => r.slot ((r.tail + i) % n)

/-- The slots in use, in order. -/
def positions (r : Ring α n) : List Nat := (List.range r.count).map fun i => (r.tail + i) % n

@[simp] theorem length_toList (r : Ring α n) : r.toList.length = r.count := by
  simp [toList]

theorem toList_eq_nil {r : Ring α n} (h : r.WF) : r.toList = [] ↔ r.isEmpty = true := by
  rw [← List.length_eq_zero_iff, length_toList, count_eq_zero h]
  simp [isEmpty]

@[simp] theorem toList_clear (r : Ring α n) : r.clear.toList = [] := by
  simp [toList]

theorem slot_push_self {r : Ring α n} (h : r.WF) (x : α) : (r.push x).slot r.head = x := by
  simp [slot, push, h.1]

theorem slot_push_of_ne (r : Ring α n) (x : α) {i : Nat} (h : i ≠ r.head) :
    (r.push x).slot i = r.slot i := by
  simp [slot, push, h.symm]

theorem toList_push {r : Ring α n} (h : r.WF) (hroom : r.isFull = false) (x : α) :
    (r.push x).toList = r.toList ++ [x] := by
  have hcount := count_lt h
  simp only [toList, count_push h hroom x, List.range_succ, List.map_append]
  congr 1
  · apply List.map_congr_left
    intro i hi
    -- The written slot is not one of those in use.
    have hne : (r.tail + i) % n ≠ r.head := by
      have hi := List.mem_range.mp hi
      rw [head_eq h]
      have htail := h.2
      rw [wrap _ (by omega), wrap _ (by omega)]
      split <;> split <;> omega
    exact slot_push_of_ne r x hne
  · have hat : (r.push x).slot ((r.tail + r.count) % n) = x := by
      rw [← head_eq h, slot_push_self h]
    exact congrArg (fun y => [y]) hat

omit [Inhabited α] in
theorem positions_advance {r : Ring α n} (h : r.WF) (hsome : r.head ≠ r.tail) :
    r.positions = r.tail :: r.advance.positions := by
  simp only [positions, count_advance h hsome, List.range_succ_eq_map, List.map_cons,
    List.map_map, Nat.add_zero, Nat.mod_eq_of_lt h.2]
  congr 1
  apply List.map_congr_left
  intro i hi
  have hindex : (r.tail + (i + 1)) % n = ((r.tail + 1) % n + i) % n := by
    rw [Nat.mod_add_mod, Nat.add_assoc, Nat.add_comm 1 i]
  exact hindex

theorem toList_eq_map (r : Ring α n) : r.toList = r.positions.map r.slot := by
  rw [toList, positions, List.map_map]
  rfl

theorem toList_advance {r : Ring α n} (h : r.WF) (hsome : r.head ≠ r.tail) :
    r.toList = r.slot r.tail :: r.advance.toList := by
  rw [toList_eq_map, positions_advance h hsome, toList_eq_map]
  rfl

end Ring

end Qmk.Lib
