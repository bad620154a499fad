/-!
# Programs that may fail

`Succeeds m P` says that `m` does not fail and that its result satisfies `P`.
-/

namespace Qmk.Lib

variable {ε α β σ ι : Type _}

def Succeeds (m : Except ε α) (P : α → Prop) : Prop := ∃ a, m = .ok a ∧ P a

theorem succeeds_ok {P : α → Prop} {a : α} (h : P a) : Succeeds (.ok a : Except ε α) P :=
  ⟨a, rfl, h⟩

theorem Succeeds.bind {m : Except ε α} {next : α → Except ε β} {P : α → Prop} {Q : β → Prop}
    (h : Succeeds m P) (hnext : ∀ a, P a → Succeeds (next a) Q) : Succeeds (m >>= next) Q := by
  obtain ⟨a, rfl, ha⟩ := h
  exact hnext a ha

theorem Succeeds.imp {m : Except ε α} {P Q : α → Prop} (h : Succeeds m P)
    (himp : ∀ a, P a → Q a) : Succeeds m Q := by
  obtain ⟨a, hm, ha⟩ := h
  exact ⟨a, hm, himp a ha⟩

/-- A loop succeeds where each round does and keeps the invariant. -/
theorem succeeds_foldlM (Inv : σ → Prop) {body : σ → ι → Except ε σ} {items : List ι}
    (hbody : ∀ item ∈ items, ∀ s, Inv s → Succeeds (body s item) Inv) {s : σ} (hs : Inv s) :
    Succeeds (items.foldlM body s) Inv := by
  induction items generalizing s with
  | nil => exact succeeds_ok hs
  | cons item items ih =>
      rw [List.foldlM_cons]
      apply (hbody item List.mem_cons_self s hs).bind
      exact fun next hnext =>
        ih (fun other hother => hbody other (List.mem_cons_of_mem item hother)) hnext

end Qmk.Lib
