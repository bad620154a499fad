import Mathlib.Logic.Function.Basic

/-!
# Loops over independent cells

A counted loop whose body `i` works on some cells of the state only.  When the
bodies work on different cells, the loop acts on each cell once, and a flag that
the bodies raise is raised when one of the cells called for it.
-/

namespace Qmk.Lib

variable {σ τ ι α φ ρ : Type _}

/-- `for (i = 0; i < n; i++) body(i)`. -/
def forRange (n : Nat) (body : Nat → σ → σ) (s : σ) : σ :=
  (List.range n).foldl (fun s i => body i s) s

@[simp] theorem forRange_zero (body : Nat → σ → σ) (s : σ) :
    forRange 0 body s = s := rfl

theorem forRange_succ (n : Nat) (body : Nat → σ → σ) (s : σ) :
    forRange (n + 1) body s = body n (forRange n body s) := by
  simp [forRange, List.range_succ]

/-- How a state is cut into cells, flags and a rest. -/
structure Parts (σ ι α φ ρ : Type _) where
  view : σ → ι → α
  flag : σ → φ → Bool
  rest : σ → ρ

/-- The same cut, seen through a map into the state. -/
def Parts.comap (parts : Parts σ ι α φ ρ) (f : τ → σ) : Parts τ ι α φ ρ where
  view t := parts.view (f t)
  flag t := parts.flag (f t)
  rest t := parts.rest (f t)

/-- `s'` is `s` after `act` has worked once on each cell of `units`. -/
structure Sweeps (parts : Parts σ ι α φ ρ) (act : α → α) (mark : φ → α → Bool)
    (units : ι → Prop) (s s' : σ) : Prop where
  inside : ∀ i, units i → parts.view s' i = act (parts.view s i)
  outside : ∀ i, ¬units i → parts.view s' i = parts.view s i
  flag : ∀ k, parts.flag s' k = true ↔
    parts.flag s k = true ∨ ∃ i, units i ∧ mark k (parts.view s i) = true
  rest : parts.rest s' = parts.rest s

theorem Sweeps.of_comap {parts : Parts σ ι α φ ρ} {act : α → α} {mark : φ → α → Bool}
    {units : ι → Prop} {f : τ → σ} {t t' : τ}
    (h : Sweeps (parts.comap f) act mark units t t') :
    Sweeps parts act mark units (f t) (f t') :=
  ⟨h.inside, h.outside, h.flag, h.rest⟩

theorem Sweeps.comap {parts : Parts σ ι α φ ρ} {act : α → α} {mark : φ → α → Bool}
    {units : ι → Prop} {f : τ → σ} {t t' : τ}
    (h : Sweeps parts act mark units (f t) (f t')) :
    Sweeps (parts.comap f) act mark units t t' :=
  ⟨h.inside, h.outside, h.flag, h.rest⟩

section Sweeps

variable {parts : Parts σ ι α φ ρ} {act : α → α} {mark : φ → α → Bool}
variable {units more : ι → Prop} {s s' s'' : σ}

/-- A step that leaves alone cells that `act` would leave alone. -/
theorem Sweeps.same (hact : ∀ i, units i → act (parts.view s i) = parts.view s i)
    (hmark : ∀ i, units i → ∀ k, mark k (parts.view s i) = false) :
    Sweeps parts act mark units s s where
  inside i hi := (hact i hi).symm
  outside _ _ := rfl
  flag k := by
    refine (or_iff_left ?_).symm
    rintro ⟨i, hi, hmarked⟩
    rw [hmark i hi k] at hmarked
    contradiction
  rest := rfl

theorem Sweeps.none (hnone : ∀ i, ¬units i) : Sweeps parts act mark units s s :=
  .same (fun i hi => absurd hi (hnone i)) (fun i hi => absurd hi (hnone i))

theorem Sweeps.flag_all (h : Sweeps parts act mark (fun _ => True) s s') (k : φ) :
    parts.flag s' k = true ↔
      parts.flag s k = true ∨ ∃ i, mark k (parts.view s i) = true := by
  simpa using h.flag k

theorem Sweeps.one (i : ι) (hunits : ∀ j, units j ↔ j = i)
    (hinside : parts.view s' i = act (parts.view s i))
    (houtside : ∀ j, j ≠ i → parts.view s' j = parts.view s j)
    (hflag : ∀ k, parts.flag s' k = (parts.flag s k || mark k (parts.view s i)))
    (hrest : parts.rest s' = parts.rest s) : Sweeps parts act mark units s s' where
  inside j hj := by
    obtain rfl := (hunits j).mp hj
    exact hinside
  outside j hj := houtside j (mt (hunits j).mpr hj)
  flag k := by simp [hflag, hunits]
  rest := hrest

theorem Sweeps.append (first : Sweeps parts act mark units s s')
    (second : Sweeps parts act mark more s' s'')
    (hdisjoint : ∀ i, units i → ¬more i) :
    Sweeps parts act mark (fun i => units i ∨ more i) s s'' where
  inside i hi := by
    cases hi with
    | inl hunit => rw [second.outside i (hdisjoint i hunit), first.inside i hunit]
    | inr hmore =>
        have hfresh : ¬units i := fun hunit => hdisjoint i hunit hmore
        rw [second.inside i hmore, first.outside i hfresh]
  outside i hi := by
    have hboth := not_or.mp hi
    rw [second.outside i hboth.2, first.outside i hboth.1]
  flag k := by
    have hview : ∀ i, more i → parts.view s' i = parts.view s i := fun i hmore =>
      first.outside i (fun hunit => hdisjoint i hunit hmore)
    rw [second.flag k, first.flag k]
    constructor
    · rintro ((hflag | ⟨i, hunit, hmark⟩) | ⟨i, hmore, hmark⟩)
      · exact .inl hflag
      · exact .inr ⟨i, .inl hunit, hmark⟩
      · exact .inr ⟨i, .inr hmore, hview i hmore ▸ hmark⟩
    · rintro (hflag | ⟨i, hunit | hmore, hmark⟩)
      · exact .inl (.inl hflag)
      · exact .inl (.inr ⟨i, hunit, hmark⟩)
      · exact .inr ⟨i, hmore, (hview i hmore).symm ▸ hmark⟩
  rest := second.rest.trans first.rest

theorem Sweeps.congr (h : Sweeps parts act mark units s s')
    (hunits : ∀ i, units i ↔ more i) : Sweeps parts act mark more s s' := by
  have hsame : units = more := funext fun i => propext (hunits i)
  exact hsame ▸ h

/-- A loop sweeps the cells of its bodies.  A body may rely on what the bodies
before it have left alone. -/
theorem Sweeps.forRange {n : Nat} {body : Nat → σ → σ} (cells : Nat → ι → Prop)
    (hdisjoint : ∀ i j u, cells i u → cells j u → i = j)
    (hbody : ∀ i s', i < n →
      Sweeps parts act mark (fun u => ∃ j < i, cells j u) s s' →
      Sweeps parts act mark (cells i) s' (body i s')) :
    Sweeps parts act mark (fun u => ∃ i < n, cells i u) s (forRange n body s) := by
  induction n with
  | zero => exact Sweeps.none (by simp)
  | succ n ih =>
      have hbefore := ih fun i s' hi => hbody i s' (by omega)
      have hlast := hbody n _ (Nat.lt_succ_self n) hbefore
      rw [forRange_succ]
      refine (hbefore.append hlast ?_).congr fun u => ?_
      · rintro u ⟨j, hj, hcell⟩ hcell'
        have := hdisjoint j n u hcell hcell'
        omega
      · constructor
        · rintro (⟨i, hi, hcell⟩ | hcell)
          · exact ⟨i, by omega, hcell⟩
          · exact ⟨n, by omega, hcell⟩
        · rintro ⟨i, hi, hcell⟩
          rcases Nat.lt_succ_iff_lt_or_eq.mp hi with hlt | rfl
          · exact .inl ⟨i, hlt, hcell⟩
          · exact .inr hcell

end Sweeps

end Qmk.Lib
