/-!
# Traces

A trace lists events, last event first.  A rule says which event may follow
which past; `Extends` are the continuations that keep to a rule.
-/

namespace Qmk.Lib

variable {α : Type _} {Rule : List α → α → Prop} {past trace later : List α}

/-- `trace` continues `past`, each further event allowed by what precedes it. -/
inductive Extends (Rule : List α → α → Prop) (past : List α) : List α → Prop
  | refl : Extends Rule past past
  | step {trace : List α} {event : α} (rest : Extends Rule past trace)
      (allowed : Rule trace event) : Extends Rule past (event :: trace)

/-- Every event of the trace was allowed by what preceded it. -/
def Always (Rule : List α → α → Prop) (trace : List α) : Prop :=
  Extends Rule [] trace

theorem Always.nil : Always Rule [] := Extends.refl

theorem Extends.one {event : α} (allowed : Rule past event) :
    Extends Rule past (event :: past) :=
  .step .refl allowed

theorem Extends.trans (first : Extends Rule past trace)
    (second : Extends Rule trace later) : Extends Rule past later := by
  induction second with
  | refl => exact first
  | step rest allowed ih => exact .step ih allowed

theorem Extends.mono {Other : List α → α → Prop} (h : Extends Rule past trace)
    (himp : ∀ past event, Rule past event → Other past event) :
    Extends Other past trace := by
  induction h with
  | refl => exact .refl
  | step rest allowed ih => exact .step ih (himp _ _ allowed)

theorem Extends.suffix (h : Extends Rule past trace) : past <:+ trace := by
  induction h with
  | refl => exact List.suffix_rfl
  | step rest allowed ih => exact ih.trans (List.suffix_cons _ _)

theorem Extends.preserves (Inv : List α → Prop) (h : Extends Rule past trace)
    (hstep : ∀ past event, Inv past → Rule past event → Inv (event :: past))
    (hpast : Inv past) : Inv trace := by
  induction h with
  | refl => exact hpast
  | step rest allowed ih => exact hstep _ _ ih allowed

theorem Always.extend (h : Always Rule past) (hmore : Extends Rule past trace) :
    Always Rule trace :=
  Extends.trans h hmore

theorem Always.cons_iff {event : α} :
    Always Rule (event :: trace) ↔ Always Rule trace ∧ Rule trace event := by
  constructor
  · intro h
    cases h with
    | step rest allowed => exact ⟨rest, allowed⟩
  · rintro ⟨hrest, hallowed⟩
    exact .step hrest hallowed

theorem Always.drop (h : Always Rule trace) (n : Nat) :
    Always Rule (trace.drop n) := by
  induction n generalizing trace with
  | zero => exact h
  | succ n ih =>
      cases trace with
      | nil => exact h
      | cons event past => exact ih (Always.cons_iff.mp h).1

end Qmk.Lib
