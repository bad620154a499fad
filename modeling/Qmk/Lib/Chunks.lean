/-!
# Blocks of a list

`chunks n l` cuts a list into blocks of `n` elements, of which the last may be shorter.
-/

namespace Qmk.Lib

variable {α β : Type _} {n m : Nat} {l first rest : List α}

def chunks (n : Nat) (l : List α) : List (List α) :=
  ((List.range (l.length / n)).map fun i => (l.drop (n * i)).take n) ++
    if l.length % n = 0 then [] else [l.drop (n * (l.length / n))]

@[simp] theorem chunks_nil (n : Nat) : chunks n ([] : List α) = [] := by simp [chunks]

/-- What is too short for a block is a block of its own. -/
theorem chunks_of_lt (hne : l ≠ []) (hlt : l.length < n) : chunks n l = [l] := by
  have hpos : l.length ≠ 0 := fun hzero => hne (List.length_eq_zero_iff.mp hzero)
  simp [chunks, Nat.div_eq_of_lt hlt, Nat.mod_eq_of_lt hlt, hpos]

theorem chunks_append (hn : 0 < n) (hfirst : first.length = n) :
    chunks n (first ++ rest) = first :: chunks n rest := by
  subst hfirst
  have hdiv : (first ++ rest).length / first.length = rest.length / first.length + 1 := by
    rw [List.length_append, Nat.add_div_left _ hn]
  have hmod : (first ++ rest).length % first.length = rest.length % first.length := by
    rw [List.length_append, Nat.add_mod_left]
  have hdrop (i : Nat) : (first ++ rest).drop (first.length * (i + 1)) =
      rest.drop (first.length * i) := by
    rw [Nat.mul_succ, Nat.add_comm, ← List.drop_drop, List.drop_left]
  unfold chunks
  rw [hdiv, hmod, List.range_succ_eq_map, List.map_cons, List.map_map, hdrop]
  simp only [Function.comp_def, Nat.succ_eq_add_one, hdrop, Nat.mul_zero, List.drop_zero,
    List.take_left, List.cons_append]

/-- A proof about the blocks of a list: no block, the last block, and a full block before others. -/
theorem chunks_induction {P : List α → Prop} (hn : 0 < n) (nil : P [])
    (last : ∀ l, l ≠ [] → l.length < n → P l)
    (full : ∀ first rest : List α, first.length = n → P rest → P (first ++ rest)) (l : List α) :
    P l := by
  induction hlength : l.length using Nat.strongRecOn generalizing l with
  | ind length ih =>
      rcases Nat.lt_or_ge l.length n with hlt | hge
      · by_cases hempty : l = []
        · rw [hempty]
          exact nil
        · exact last l hempty hlt
      · have hrest : (l.drop n).length < length := by
          rw [List.length_drop]
          omega
        have hfirst : (l.take n).length = n := by
          rw [List.length_take]
          omega
        rw [← List.take_append_drop n l]
        exact full _ _ hfirst (ih _ hrest _ rfl)

theorem flatten_chunks (hn : 0 < n) (l : List α) : (chunks n l).flatten = l := by
  induction l using chunks_induction hn with
  | nil => simp
  | last l hne hlt => simp [chunks_of_lt hne hlt]
  | full first rest hfirst ih => rw [chunks_append hn hfirst, List.flatten_cons, ih]

theorem length_le_of_mem_chunks (hn : 0 < n) {l block : List α} (h : block ∈ chunks n l) :
    block.length ≤ n := by
  induction l using chunks_induction hn with
  | nil => simp at h
  | last l hne hlt =>
      rw [chunks_of_lt hne hlt, List.mem_singleton] at h
      rw [h]
      exact Nat.le_of_lt hlt
  | full first rest hfirst ih =>
      rw [chunks_append hn hfirst, List.mem_cons] at h
      rcases h with rfl | h
      · exact Nat.le_of_eq hfirst
      · exact ih h

/-- Blocks that a function makes from blocks are found again, if it makes them neither too long
nor too short. -/
theorem chunks_flatMap (hn : 0 < n) (hm : 0 < m) {f : List α → List β}
    (hfull : ∀ block : List α, block.length = n → (f block).length = m)
    (hlast : ∀ block : List α, block ≠ [] → block.length < n →
      f block ≠ [] ∧ (f block).length < m) (l : List α) :
    chunks m ((chunks n l).flatMap f) = (chunks n l).map f := by
  induction l using chunks_induction hn with
  | nil => simp
  | last l hne hlt =>
      obtain ⟨hnonempty, hshort⟩ := hlast l hne hlt
      simp [chunks_of_lt hne hlt, chunks_of_lt hnonempty hshort]
  | full first rest hfirst ih =>
      rw [chunks_append hn hfirst, List.flatMap_cons, chunks_append hm (hfull first hfirst), ih,
        List.map_cons]

end Qmk.Lib
