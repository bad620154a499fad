/-!
# Runs of a deterministic machine

A machine is a step function; `run` feeds it a list of inputs.  `Meets` says
that a condition on the state before the step and the input holds at each step.
-/

namespace Qmk.Lib

variable {σ τ ι : Type _}

def run (step : σ → ι → σ) (s : σ) (inputs : List ι) : σ :=
  inputs.foldl step s

/-- Every step of the run meets `Cond`. -/
def Meets (step : σ → ι → σ) (Cond : σ → ι → Prop) : σ → List ι → Prop
  | _, [] => True
  | s, input :: inputs => Cond s input ∧ Meets step Cond (step s input) inputs

section Run

variable {step : σ → ι → σ}

@[simp] theorem run_nil (s : σ) : run step s [] = s := rfl

@[simp] theorem run_cons (s : σ) (input : ι) (inputs : List ι) :
    run step s (input :: inputs) = run step (step s input) inputs := rfl

theorem run_append (s : σ) (first second : List ι) :
    run step s (first ++ second) = run step (run step s first) second := by
  simp [run]

theorem Meets.of_forall {Cond : σ → ι → Prop} (Ok : ι → Prop)
    (himp : ∀ s input, Ok input → Cond s input) {inputs : List ι}
    (h : ∀ input ∈ inputs, Ok input) (s : σ) : Meets step Cond s inputs := by
  induction inputs generalizing s with
  | nil => trivial
  | cons input inputs ih =>
      have hrest := fun other hother => h other (List.mem_cons_of_mem input hother)
      exact ⟨himp s input (h input (by simp)), ih hrest _⟩

theorem Meets.append_iff {Cond : σ → ι → Prop} {s : σ} {first second : List ι} :
    Meets step Cond s (first ++ second) ↔
      Meets step Cond s first ∧ Meets step Cond (run step s first) second := by
  induction first generalizing s with
  | nil => simp [Meets]
  | cons input inputs ih => simp [Meets, ih, and_assoc]

theorem Meets.imp {Cond Other : σ → ι → Prop} {s : σ} {inputs : List ι}
    (h : Meets step Cond s inputs)
    (himp : ∀ s input, Cond s input → Other s input) :
    Meets step Other s inputs := by
  induction inputs generalizing s with
  | nil => trivial
  | cons input inputs ih => exact ⟨himp s input h.1, ih h.2⟩

/-- What every step preserves under its condition holds at the end of the run. -/
theorem Meets.preserves {Cond : σ → ι → Prop} (Inv : σ → Prop)
    (hstep : ∀ s input, Inv s → Cond s input → Inv (step s input))
    {s : σ} {inputs : List ι} (h : Meets step Cond s inputs) (hs : Inv s) :
    Inv (run step s inputs) := by
  induction inputs generalizing s with
  | nil => exact hs
  | cons input inputs ih => exact ih h.2 (hstep s input hs h.1)

/-- The steps of a run that keeps an invariant meet what the invariant promises. -/
theorem Meets.imp_of_invariant {Cond Other : σ → ι → Prop} (Inv : σ → Prop)
    (hstep : ∀ s input, Inv s → Cond s input → Inv (step s input))
    (himp : ∀ s input, Inv s → Cond s input → Other s input)
    {s : σ} {inputs : List ι} (h : Meets step Cond s inputs) (hs : Inv s) :
    Meets step Other s inputs := by
  induction inputs generalizing s with
  | nil => trivial
  | cons input inputs ih =>
      exact ⟨himp s input hs h.1, ih h.2 (hstep s input hs h.1)⟩

/-- What every step preserves holds at the end of every run. -/
theorem run_preserves (Inv : σ → Prop) (hstep : ∀ s input, Inv s → Inv (step s input))
    {s : σ} (hs : Inv s) (inputs : List ι) : Inv (run step s inputs) := by
  induction inputs generalizing s with
  | nil => exact hs
  | cons input inputs ih => exact ih (hstep s input hs)

/-- A relation that each step of two machines preserves relates their runs. -/
theorem run_simulates {other : τ → ι → τ} (Rel : σ → τ → Prop) {Ok : ι → Prop}
    (hstep : ∀ s t input, Rel s t → Ok input →
      Rel (step s input) (other t input))
    {s : σ} {t : τ} {inputs : List ι} (hinputs : ∀ input ∈ inputs, Ok input)
    (h : Rel s t) : Rel (run step s inputs) (run other t inputs) := by
  induction inputs generalizing s t with
  | nil => exact h
  | cons input inputs ih =>
      have hrest := fun other hother =>
        hinputs other (List.mem_cons_of_mem input hother)
      exact ih hrest (hstep s t input h (hinputs input (by simp)))

/-- What one step brings about or keeps holds at the end of a run if and only if it held at the
start and was kept throughout, or some step brought it about and all later ones kept it. -/
theorem run_since_iff {Holds : σ → Prop} {Sets Clears : σ → ι → Prop}
    (hstep : ∀ s input, Holds (step s input) ↔ Sets s input ∨ (Holds s ∧ ¬Clears s input))
    (s : σ) (inputs : List ι) :
    Holds (run step s inputs) ↔
      (Holds s ∧ Meets step (fun s input => ¬Clears s input) s inputs) ∨
        ∃ before input after, inputs = before ++ input :: after ∧
          Sets (run step s before) input ∧
          Meets step (fun s input => ¬Clears s input) (run step s (before ++ [input])) after := by
  induction inputs generalizing s with
  | nil => simp [Meets]
  | cons first inputs ih =>
      rw [run_cons, ih (step s first), hstep s first]
      constructor
      · rintro (⟨hsets | ⟨hholds, hkept⟩, hrest⟩ | ⟨before, input, after, rfl, hlater⟩)
        · exact .inr ⟨[], first, inputs, rfl, hsets, hrest⟩
        · exact .inl ⟨hholds, hkept, hrest⟩
        · exact .inr ⟨first :: before, input, after, rfl, hlater⟩
      · rintro (⟨hholds, hkept, hrest⟩ | ⟨before, input, after, heq, hsets, hlater⟩)
        · exact .inl ⟨.inr ⟨hholds, hkept⟩, hrest⟩
        · cases before with
          | nil =>
              obtain ⟨rfl, rfl⟩ := List.cons.inj heq
              exact .inl ⟨.inl hsets, hlater⟩
          | cons other before =>
              obtain ⟨rfl, rfl⟩ := List.cons.inj heq
              exact .inr ⟨before, input, after, rfl, hsets, hlater⟩

end Run

end Qmk.Lib
