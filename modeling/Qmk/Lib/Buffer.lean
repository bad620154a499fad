/-!
# A buffer with a count

The first `n` cells of a list are the content of a buffer; a write at `n` makes it longer.
-/

namespace Qmk.Lib

variable {α : Type _}

/-- The cell written at the count is the last of the longer content. -/
theorem take_set_succ {buffer : List α} {n : Nat} (value : α) (hn : n < buffer.length) :
    (buffer.set n value).take (n + 1) = buffer.take n ++ [value] := by
  have hlength : n < (buffer.set n value).length := by simpa using hn
  rw [List.take_succ_eq_append_getElem hlength, List.getElem_set_self,
    List.take_set_of_le (Nat.le_refl n)]

/-- Without its last cell the content is the shorter one. -/
theorem dropLast_take_eq {buffer : List α} {n : Nat} (hn : n ≤ buffer.length) :
    (buffer.take n).dropLast = buffer.take (n - 1) := by
  have hmin : min (n - 1) n = n - 1 := Nat.min_eq_left (Nat.sub_le n 1)
  rw [List.dropLast_eq_take, List.length_take_of_le hn, List.take_take, hmin]

end Qmk.Lib
