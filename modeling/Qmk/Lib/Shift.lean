/-!
# Shifting cells of an array

Loops that copy each cell from its right neighbour, on a list of cells.
-/

namespace Qmk.Lib

variable {α : Type _}

/-- `for (j = i; j < i + steps; j++) cells[j] = cells[j + 1]`. -/
def shiftDown (fallback : α) : Nat → Nat → List α → List α
  | 0, _, cells => cells
  | steps + 1, i, cells =>
      shiftDown fallback steps (i + 1) (cells.set i (cells.getD (i + 1) fallback))

/-- The same loop, which also writes the value to each cell it has copied. -/
def shiftUp (fallback value : α) : Nat → Nat → List α → List α
  | 0, _, cells => cells
  | steps + 1, i, cells =>
      shiftUp fallback value steps (i + 1)
        ((cells.set i (cells.getD (i + 1) fallback)).set (i + 1) value)

/-- The cell is gone, and the last one stands twice. -/
theorem shiftDown_append (fallback : α) (before : List α) (cell : α) (after : List α) :
    shiftDown fallback after.length before.length (before ++ cell :: after) =
      before ++ after ++ [(cell :: after).getLast (List.cons_ne_nil cell after)] := by
  induction after generalizing before cell with
  | nil => simp [shiftDown]
  | cons next after ih =>
      have hcopy : (before ++ cell :: next :: after).set before.length
          ((before ++ cell :: next :: after).getD (before.length + 1) fallback) =
            (before ++ [next]) ++ next :: after := by
        simp
      have hlength : before.length + 1 = (before ++ [next]).length := by simp
      rw [List.length_cons, shiftDown, hcopy, hlength, ih]
      simp

/-- The cell is gone, the value stands behind what followed it, and the rest is not touched. -/
theorem shiftUp_append (fallback value : α) (before : List α) (cell next : α) (after rest : List α) :
    shiftUp fallback value (next :: after).length before.length
        (before ++ cell :: (next :: after ++ rest)) =
      before ++ (next :: after) ++ value :: rest := by
  induction after generalizing before cell next with
  | nil => simp [shiftUp]
  | cons second after ih =>
      have hcopy : ((before ++ cell :: (next :: second :: after ++ rest)).set before.length
          ((before ++ cell :: (next :: second :: after ++ rest)).getD (before.length + 1)
            fallback)).set (before.length + 1) value =
              (before ++ [next]) ++ value :: (second :: after ++ rest) := by
        simp
      have hlength : before.length + 1 = (before ++ [next]).length := by simp
      rw [List.length_cons, shiftUp, hcopy, hlength, ih]
      simp

end Qmk.Lib
