import Mathlib.Algebra.Field.ZMod
import Mathlib.Algebra.Polynomial.FieldDivision
import Mathlib.Tactic.LinearCombination

/-!
# Cyclic redundancy checks

A word of `w` bits is a polynomial of degree below `w` over the field of two elements.  A
shift register with a generator of degree `w` leaves the remainder of what is shifted in.
-/

namespace Qmk.Lib

open Polynomial

variable {w : Nat}

/-! ## Words as polynomials -/

noncomputable def toPoly (v : BitVec w) : (ZMod 2)[X] :=
  ∑ i ∈ Finset.range w, if v.getLsbD i = true then X ^ i else 0

theorem coeff_toPoly (v : BitVec w) (i : Nat) :
    (toPoly v).coeff i = if v.getLsbD i = true then 1 else 0 := by
  have hterm (j : Nat) : (if v.getLsbD j = true then (X : (ZMod 2)[X]) ^ j else 0).coeff i =
      if j = i then (if v.getLsbD i = true then 1 else 0) else 0 := by
    by_cases hj : j = i
    · rw [if_pos hj, hj]
      split <;> simp
    · rw [if_neg hj]
      split
      · rw [coeff_X_pow, if_neg (Ne.symm hj)]
      · exact coeff_zero i
  rw [toPoly, finsetSum_coeff, Finset.sum_congr rfl fun j _ => hterm j, Finset.sum_ite_eq']
  by_cases hi : i < w
  · rw [if_pos (Finset.mem_range.mpr hi)]
  · rw [if_neg (mt Finset.mem_range.mp hi), BitVec.getLsbD_of_ge v i (Nat.le_of_not_lt hi),
      if_neg Bool.false_ne_true]

theorem toPoly_injective : Function.Injective (toPoly : BitVec w → (ZMod 2)[X]) := by
  intro u v h
  apply BitVec.eq_of_getLsbD_eq
  intro i _
  have hcoeff := congrArg (fun p : (ZMod 2)[X] => p.coeff i) h
  simp only [coeff_toPoly] at hcoeff
  cases hu : u.getLsbD i <;> cases hv : v.getLsbD i <;> simp_all

theorem degree_toPoly (v : BitVec w) : (toPoly v).degree < w := by
  refine (degree_lt_iff_coeff_zero _ w).mpr fun i hi => ?_
  rw [coeff_toPoly, BitVec.getLsbD_of_ge v i hi, if_neg Bool.false_ne_true]

@[simp] theorem toPoly_xor (u v : BitVec w) : toPoly (u ^^^ v) = toPoly u + toPoly v := by
  ext i
  have htwo : (1 : ZMod 2) + 1 = 0 := rfl
  rw [coeff_add, coeff_toPoly, coeff_toPoly, coeff_toPoly, BitVec.getLsbD_xor]
  cases u.getLsbD i <;> cases v.getLsbD i <;> simp [htwo]

/-- Shifting a word multiplies it with `X`, less the bit that is shifted out. -/
theorem X_mul_toPoly (v : BitVec w) :
    X * toPoly v = toPoly (v <<< 1) + if v.msb = true then X ^ w else 0 := by
  ext i
  have hout : (if v.msb = true then (X : (ZMod 2)[X]) ^ w else 0).coeff i =
      if i = w ∧ v.msb = true then 1 else 0 := by
    cases v.msb <;> simp [coeff_X_pow]
  rw [coeff_add, hout, coeff_toPoly, BitVec.getLsbD_shiftLeft]
  cases i with
  | zero =>
      have hzero : ¬(0 = w ∧ v.msb = true) := by
        rintro ⟨rfl, hmsb⟩
        rw [BitVec.msb_zero_length] at hmsb
        contradiction
      rw [if_neg hzero, mul_coeff_zero, coeff_X_zero, zero_mul]
      simp
  | succ i =>
      rw [coeff_X_mul, coeff_toPoly]
      by_cases hi : i + 1 = w
      · have hmsb : v.msb = v.getLsbD i := by
          have hlast : w - 1 = i := by omega
          rw [BitVec.msb_eq_getLsbD_last, hlast]
        rw [hmsb]
        cases v.getLsbD i <;> simp [hi]
      · by_cases hlt : i + 1 < w
        · simp [hi, hlt]
        · rw [BitVec.getLsbD_of_ge v i (by omega)]
          simp [hi, hlt]

/-! ## The shift register -/

/-- One step of a register whose generator is `X ^ w` and the bits of `g`. -/
def shiftStep (g v : BitVec w) : BitVec w :=
  if v.msb = true then (v <<< 1) ^^^ g else v <<< 1

noncomputable def generator (g : BitVec w) : (ZMod 2)[X] := X ^ w + toPoly g

theorem degree_generator (g : BitVec w) : (generator g).degree = w := by
  rw [generator, degree_add_eq_left_of_degree_lt, degree_X_pow]
  rw [degree_X_pow]
  exact degree_toPoly g

theorem generator_dvd_shiftStep (g v : BitVec w) :
    generator g ∣ X * toPoly v - toPoly (shiftStep g v) := by
  unfold shiftStep
  rw [X_mul_toPoly]
  split
  · refine ⟨1, ?_⟩
    have htwo : toPoly g + toPoly g = 0 := CharTwo.add_self_eq_zero _
    rw [toPoly_xor, generator]
    linear_combination -htwo
  · rw [add_zero, sub_self]
    exact dvd_zero _

theorem generator_dvd_iterate (g v : BitVec w) (n : Nat) :
    generator g ∣ X ^ n * toPoly v - toPoly ((shiftStep g)^[n] v) := by
  induction n with
  | zero => simp
  | succ n ih =>
      rw [Function.iterate_succ_apply']
      have hstep := generator_dvd_shiftStep g ((shiftStep g)^[n] v)
      have hsum := dvd_add (dvd_mul_of_dvd_right ih X) hstep
      have heq : X * (X ^ n * toPoly v - toPoly ((shiftStep g)^[n] v)) +
          (X * toPoly ((shiftStep g)^[n] v) - toPoly (shiftStep g ((shiftStep g)^[n] v))) =
          X ^ (n + 1) * toPoly v - toPoly (shiftStep g ((shiftStep g)^[n] v)) := by
        ring
      rwa [heq] at hsum

/-! ## Whole messages -/

/-- A word is added to the register, which then takes `w` steps. -/
def crcStep (g crc word : BitVec w) : BitVec w := (shiftStep g)^[w] (crc ^^^ word)

/-- What has been shifted in: every word behind the ones before it, and `w` zeros at the end. -/
noncomputable def messagePoly (init : BitVec w) (words : List (BitVec w)) : (ZMod 2)[X] :=
  words.foldl (fun p word => X ^ w * (p + toPoly word)) (toPoly init)

theorem generator_dvd_foldl (g : BitVec w) (words : List (BitVec w)) {p : (ZMod 2)[X]}
    {crc : BitVec w} (h : generator g ∣ p - toPoly crc) :
    generator g ∣ words.foldl (fun p word => X ^ w * (p + toPoly word)) p -
      toPoly (words.foldl (crcStep g) crc) := by
  induction words generalizing p crc with
  | nil => exact h
  | cons word words ih =>
      refine ih ?_
      have hsteps := generator_dvd_iterate g (crc ^^^ word) w
      have hsum := dvd_add (dvd_mul_of_dvd_right h (X ^ w)) hsteps
      have heq : X ^ w * (p - toPoly crc) +
          (X ^ w * toPoly (crc ^^^ word) - toPoly ((shiftStep g)^[w] (crc ^^^ word))) =
          X ^ w * (p + toPoly word) - toPoly (crcStep g crc word) := by
        rw [toPoly_xor, crcStep]
        ring
      rwa [heq] at hsum

theorem generator_dvd_message (g init : BitVec w) (words : List (BitVec w)) :
    generator g ∣ messagePoly init words - toPoly (words.foldl (crcStep g) init) :=
  generator_dvd_foldl g words (by simp)

/-- Two remainders of one polynomial are the same just when its remainder by a common
multiple of the divisors is as short as they are. -/
theorem remainder_eq_iff {p q s a b : (ZMod 2)[X]} (hp : p.degree = w) (hq : q.degree = w)
    (ha : a.degree < w) (hb : b.degree < w) (hpa : p ∣ s - a) (hqb : q ∣ s - b) :
    a = b ↔ (s % EuclideanDomain.lcm p q).degree < w := by
  have hp0 : p ≠ 0 := fun h => by simp [h] at hp
  have hq0 : q ≠ 0 := fun h => by simp [h] at hq
  have hpl := EuclideanDomain.dvd_lcm_left p q
  have hql := EuclideanDomain.dvd_lcm_right p q
  have hl0 : EuclideanDomain.lcm p q ≠ 0 := fun h =>
    (EuclideanDomain.lcm_eq_zero_iff.mp h).elim hp0 hq0
  have hls : EuclideanDomain.lcm p q ∣ s - s % EuclideanDomain.lcm p q :=
    ⟨s / EuclideanDomain.lcm p q, by rw [sub_eq_iff_eq_add, EuclideanDomain.div_add_mod]⟩
  have hsmall {d r r' : (ZMod 2)[X]} (hd : d.degree = w) (hr : r.degree < w)
      (hr' : r'.degree < w) (hdvd : d ∣ r - r') : r = r' := by
    refine sub_eq_zero.mp (eq_zero_of_dvd_of_degree_lt hdvd ?_)
    rw [hd]
    exact (degree_sub_le r r').trans_lt (max_lt hr hr')
  constructor
  · rintro rfl
    have hdvd : EuclideanDomain.lcm p q ∣ s - a := EuclideanDomain.lcm_dvd hpa hqb
    have hle : (w : WithBot Nat) ≤ (EuclideanDomain.lcm p q).degree := by
      rw [← hp]
      exact degree_le_of_dvd hpl hl0
    have hrem : s % EuclideanDomain.lcm p q = a := by
      have hdiff : EuclideanDomain.lcm p q ∣ s % EuclideanDomain.lcm p q - a := by
        have hsub := dvd_sub hdvd hls
        rwa [sub_sub_sub_cancel_left] at hsub
      refine sub_eq_zero.mp (eq_zero_of_dvd_of_degree_lt hdiff ?_)
      have hmod := EuclideanDomain.mod_lt s hl0
      exact (degree_sub_le _ _).trans_lt (max_lt hmod (ha.trans_le hle))
    rwa [hrem]
  · intro hdegree
    have har : p ∣ a - s % EuclideanDomain.lcm p q := by
      have hsub := dvd_sub (hpl.trans hls) hpa
      rwa [sub_sub_sub_cancel_left] at hsub
    have hbr : q ∣ b - s % EuclideanDomain.lcm p q := by
      have hsub := dvd_sub (hql.trans hls) hqb
      rwa [sub_sub_sub_cancel_left] at hsub
    exact (hsmall hp ha hdegree har).trans (hsmall hq hb hdegree hbr).symm

/-! ## Bursts -/

/-- Bit `i` of a row of words, in each of which the highest bit comes first. -/
def bitAt (words : List (BitVec w)) (i : Nat) : Bool :=
  (words.getD (i / w) 0).getMsbD (i % w)

/-- The rows differ only within `w` consecutive bits. -/
def BurstFrom (start : Nat) (u v : List (BitVec w)) : Prop :=
  ∀ i, bitAt u i ≠ bitAt v i → start ≤ i ∧ i < start + w

noncomputable def wordsPoly : List (BitVec w) → (ZMod 2)[X]
  | [] => 0
  | word :: words => X ^ (w * words.length) * toPoly word + wordsPoly words

theorem foldl_words (words : List (BitVec w)) (p : (ZMod 2)[X]) :
    words.foldl (fun p word => X ^ w * (p + toPoly word)) p =
      X ^ (w * words.length) * p + X ^ w * wordsPoly words := by
  induction words generalizing p with
  | nil => simp [wordsPoly]
  | cons word words ih =>
      rw [List.foldl_cons, ih, wordsPoly, List.length_cons, Nat.mul_succ, pow_add]
      ring

theorem messagePoly_eq (init : BitVec w) (words : List (BitVec w)) :
    messagePoly init words =
      X ^ (w * words.length) * toPoly init + X ^ w * wordsPoly words :=
  foldl_words words (toPoly init)

theorem bitAt_cons_of_lt (word : BitVec w) (words : List (BitVec w)) {i : Nat} (hi : i < w) :
    bitAt (word :: words) i = word.getMsbD i := by
  rw [bitAt, Nat.div_eq_of_lt hi, Nat.mod_eq_of_lt hi, List.getD_cons_zero]

theorem bitAt_cons_add (word : BitVec w) (words : List (BitVec w)) (i : Nat) :
    bitAt (word :: words) (i + w) = bitAt words i := by
  rcases Nat.eq_zero_or_pos w with rfl | hw
  · simp [bitAt, BitVec.getMsbD]
  · rw [bitAt, Nat.add_div_right _ hw, Nat.add_mod_right, List.getD_cons_succ]
    rfl

theorem degree_wordsPoly (words : List (BitVec w)) :
    (wordsPoly words).degree < (w * words.length : Nat) := by
  induction words with
  | nil => simp [wordsPoly]
  | cons word words ih =>
      refine (degree_lt_iff_coeff_zero _ _).mpr fun k hk => ?_
      rw [List.length_cons, Nat.mul_succ] at hk
      have htail : (wordsPoly words).coeff k = 0 :=
        (degree_lt_iff_coeff_zero _ _).mp ih k (by omega)
      rw [wordsPoly, coeff_add, htail, coeff_X_pow_mul', if_pos (by omega), coeff_toPoly,
        BitVec.getLsbD_of_ge word _ (by omega)]
      simp

/-- The last bit of the row is the constant coefficient. -/
theorem coeff_wordsPoly (words : List (BitVec w)) {k : Nat} (hk : k < w * words.length) :
    (wordsPoly words).coeff k =
      if bitAt words (w * words.length - 1 - k) = true then 1 else 0 := by
  induction words with
  | nil => exact absurd hk (Nat.not_lt_zero k)
  | cons word words ih =>
      rw [List.length_cons, Nat.mul_succ] at hk ⊢
      rw [wordsPoly, coeff_add, coeff_X_pow_mul']
      by_cases hlast : k < w * words.length
      · have hindex : w * words.length + w - 1 - k = w * words.length - 1 - k + w := by omega
        rw [if_neg (Nat.not_le_of_lt hlast), zero_add, ih hlast, hindex, bitAt_cons_add]
      · have htail : (wordsPoly words).coeff k = 0 :=
          (degree_lt_iff_coeff_zero _ _).mp (degree_wordsPoly words) k (by omega)
        have hmsb : word.getMsbD (w * words.length + w - 1 - k) =
            word.getLsbD (k - w * words.length) := by
          have hbit : w - 1 - (w * words.length + w - 1 - k) = k - w * words.length := by omega
          rw [BitVec.getMsbD_eq_getLsbD, decide_eq_true (by omega), Bool.true_and, hbit]
        rw [if_pos (Nat.le_of_not_lt hlast), htail, add_zero, coeff_toPoly,
          bitAt_cons_of_lt _ _ (by omega), hmsb]

theorem wordsPoly_injective {u v : List (BitVec w)} (hlen : u.length = v.length)
    (h : wordsPoly u = wordsPoly v) : u = v := by
  induction u generalizing v with
  | nil => exact (List.length_eq_zero_iff.mp hlen.symm).symm
  | cons a u ih =>
      cases v with
      | nil => exact absurd hlen (Nat.succ_ne_zero _)
      | cons b v =>
          have hrest : u.length = v.length := Nat.succ.inj hlen
          rw [wordsPoly, wordsPoly, hrest] at h
          have htop : toPoly a = toPoly b := by
            ext k
            have hcoeff := congrArg (fun p => p.coeff (k + w * v.length)) h
            have hu := degree_wordsPoly u
            rw [hrest] at hu
            simp only [coeff_add, coeff_X_pow_mul] at hcoeff
            rwa [(degree_lt_iff_coeff_zero _ _).mp hu _ (by omega),
              (degree_lt_iff_coeff_zero _ _).mp (degree_wordsPoly v) _ (by omega), add_zero,
              add_zero] at hcoeff
          rw [htop] at h
          rw [toPoly_injective htop, ih hrest (add_left_cancel h)]

theorem coprime_generator_X {g : BitVec w} (hg : g.getLsbD 0 = true) :
    IsCoprime X (generator g) := by
  have hX : Irreducible (X : (ZMod 2)[X]) := irreducible_X
  rw [hX.coprime_iff_not_dvd, X_dvd_iff, generator, coeff_add, coeff_toPoly, if_pos hg]
  cases w with
  | zero => simp at hg
  | succ w => simp

/-- What lies within a burst is a power of `X` times a polynomial shorter than the generator. -/
theorem BurstFrom.factor {start : Nat} {u v : List (BitVec w)} (hburst : BurstFrom start u v)
    (hlen : u.length = v.length) :
    ∃ q : (ZMod 2)[X], q.degree < w ∧
      wordsPoly u - wordsPoly v = X ^ (w * u.length - (start + w)) * q := by
  have hzero (k : Nat) (hk : k < w * u.length - (start + w) ∨
      w * u.length - (start + w) + w ≤ k) : (wordsPoly u - wordsPoly v).coeff k = 0 := by
    by_cases hlast : k < w * u.length
    · have hbit : bitAt u (w * u.length - 1 - k) = bitAt v (w * u.length - 1 - k) := by
        by_contra hne
        have hwithin := hburst _ hne
        omega
      rw [coeff_sub, coeff_wordsPoly u hlast, coeff_wordsPoly v (hlen ▸ hlast), ← hlen, hbit,
        sub_self]
    · rw [coeff_sub, (degree_lt_iff_coeff_zero _ _).mp (degree_wordsPoly u) k (by omega),
        (degree_lt_iff_coeff_zero _ _).mp (degree_wordsPoly v) k (by rw [← hlen]; omega), sub_self]
  obtain ⟨q, hq⟩ := X_pow_dvd_iff.mpr fun k hk => hzero k (.inl hk)
  refine ⟨q, (degree_lt_iff_coeff_zero _ _).mpr fun k hk => ?_, hq⟩
  have hcoeff := hzero (k + (w * u.length - (start + w))) (.inr (by omega))
  rwa [hq, coeff_X_pow_mul] at hcoeff

/-- A register whose generator has a constant term tells rows apart that differ in a burst. -/
theorem crc_ne_of_burst {g : BitVec w} (hg : g.getLsbD 0 = true) (init : BitVec w) {start : Nat}
    {u v : List (BitVec w)} (hlen : u.length = v.length) (hburst : BurstFrom start u v)
    (hne : u ≠ v) : u.foldl (crcStep g) init ≠ v.foldl (crcStep g) init := by
  intro heq
  obtain ⟨q, hdegree, hq⟩ := hburst.factor hlen
  have hdvd : generator g ∣ X ^ w * (wordsPoly u - wordsPoly v) := by
    have hsub := dvd_sub (generator_dvd_message g init u) (generator_dvd_message g init v)
    rw [heq, sub_sub_sub_cancel_right, messagePoly_eq, messagePoly_eq, hlen,
      add_sub_add_left_eq_sub, ← mul_sub] at hsub
    exact hsub
  have hcoprime := (coprime_generator_X hg).symm
  rw [hq] at hdvd
  have hdvd_q : generator g ∣ q :=
    (hcoprime.pow_right).dvd_of_dvd_mul_left ((hcoprime.pow_right).dvd_of_dvd_mul_left hdvd)
  have hq_zero : q = 0 := by
    refine eq_zero_of_dvd_of_degree_lt hdvd_q ?_
    rwa [degree_generator]
  rw [hq_zero, mul_zero, sub_eq_zero] at hq
  exact hne (wordsPoly_injective hlen hq)

theorem bitAt_append_left (pre words : List (BitVec w)) {i : Nat} (hi : i < w * pre.length) :
    bitAt (pre ++ words) i = bitAt pre i := by
  have hword : i / w < pre.length := Nat.div_lt_of_lt_mul hi
  rw [bitAt, bitAt, List.getD_eq_getElem?_getD, List.getElem?_append_left hword,
    List.getD_eq_getElem?_getD]

theorem bitAt_append_right (pre words : List (BitVec w)) (i : Nat) :
    bitAt (pre ++ words) (w * pre.length + i) = bitAt words i := by
  induction pre with
  | nil => simp
  | cons word pre ih =>
      have hindex : w * (pre.length + 1) + i = w * pre.length + i + w := by
        rw [Nat.mul_succ]
        omega
      rw [List.cons_append, List.length_cons, hindex, bitAt_cons_add, ih]

/-- A change of a single word is a burst. -/
theorem burstFrom_single (pre suf : List (BitVec w)) (a b : BitVec w) :
    BurstFrom (w * pre.length) (pre ++ a :: suf) (pre ++ b :: suf) := by
  intro i hne
  by_cases hpre : i < w * pre.length
  · rw [bitAt_append_left _ _ hpre, bitAt_append_left _ _ hpre] at hne
    exact absurd rfl hne
  · refine ⟨Nat.le_of_not_lt hpre, Nat.lt_of_not_le fun hsuf => hne ?_⟩
    have hindex : i = w * pre.length + (i - w * pre.length - w + w) := by omega
    rw [hindex, bitAt_append_right, bitAt_append_right, bitAt_cons_add, bitAt_cons_add]

end Qmk.Lib
