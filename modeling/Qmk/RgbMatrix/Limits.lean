import Mathlib.Data.List.Basic
import Mathlib.Tactic.Linarith

/-!
# The LEDs of one iteration

A frame of an RGB Matrix effect is rendered in iterations, each of which takes as many LEDs as the
process limit allows.  Their indices are computed in bytes, so a chunk that ends behind 255 is empty.
-/

namespace Qmk.RgbMatrix

/-! ## The code -/

/-- The half that a board is, with `k_rgb_matrix_split[0]`; `whole` is without `RGB_MATRIX_SPLIT`. -/
inductive Half where
  | whole
  | left (split : Nat)
  | right (split : Nat)

def Half.split : Half → Nat
  | .whole => 0
  | .left split | .right split => split

structure Board where
  ledCount : Nat
  processLimit : Nat
  half : Half
  ledCount_pos : 0 < ledCount
  ledCount_le : ledCount ≤ 255
  processLimit_pos : 0 < processLimit
  split_le : half.split ≤ ledCount

/-- `rgb_matrix_limits_t`. -/
structure Limits where
  ledMinIndex : Nat
  ledMaxIndex : Nat

namespace Board

variable (b : Board)

def getLimits (iter : Nat) : Limits :=
  if b.processLimit < b.ledCount then
    let ledMinIndex := b.processLimit * iter % 256
    let ledMaxIndex := (ledMinIndex + b.processLimit) % 256
    let ledMaxIndex := if ledMaxIndex > b.ledCount then b.ledCount else ledMaxIndex
    match b.half with
    | .whole => ⟨ledMinIndex, ledMaxIndex⟩
    | .left split => ⟨ledMinIndex, if ledMaxIndex > split then split else ledMaxIndex⟩
    | .right split => ⟨if ledMinIndex < split then split else ledMinIndex, ledMaxIndex⟩
  else
    match b.half with
    | .whole => ⟨0, b.ledCount⟩
    | .left split => ⟨0, if b.ledCount > split then split else b.ledCount⟩
    | .right split => ⟨if 0 < split then split else 0, b.ledCount⟩

/-- There is more work to do. -/
def checkFinishedLeds (ledIdx : Nat) : Bool :=
  match b.half with
  | .left split => ledIdx < split
  | .whole | .right _ => ledIdx < b.ledCount

/-- The LEDs that the loop of the runner renders, and whether there are more. -/
def effectRunnerI (iter : Nat) : List Nat × Bool :=
  let limits := b.getLimits iter
  (List.range' limits.ledMinIndex (limits.ledMaxIndex - limits.ledMinIndex),
    b.checkFinishedLeds limits.ledMaxIndex)

/-- What iteration `n` of a frame renders; `iter` is a byte. -/
def leds (n : Nat) : List Nat := (b.effectRunnerI (n % 256)).1

def more (n : Nat) : Bool := (b.effectRunnerI (n % 256)).2

/-! ## Frames -/

/-- The first LED of this half, and the one behind its last. -/
def base : Nat :=
  match b.half with
  | .right split => split
  | .whole | .left _ => 0

def top : Nat :=
  match b.half with
  | .left split => split
  | .whole | .right _ => b.ledCount

/-- A frame ends; its iterations render increasing ranges, which together are the half's LEDs. -/
def RendersOnce : Prop :=
  ∃ last, (∀ n < last, b.more n = true) ∧ b.more last = false ∧
    (∀ m n, m < n → n ≤ last → ∀ i ∈ b.leds m, ∀ j ∈ b.leds n, i < j) ∧
    ∀ i, (∃ n ≤ last, i ∈ b.leds n) ↔ b.base ≤ i ∧ i < b.top

/-- Where the chunk of iteration `n` begins. -/
def start (n : Nat) : Nat := b.processLimit * n % 256

/-- The end of the half, rounded up to whole chunks. -/
def roundedTop : Nat := b.processLimit * ((b.top + b.processLimit - 1) / b.processLimit)

/-- The first chunk that ends inside the half, or behind it, and does not run over 255 takes all of
the half. -/
def OneChunk : Prop :=
  ∃ n, b.top ≤ b.start n + b.processLimit ∧ b.start n + b.processLimit ≤ 255 ∧
    ∀ m < n, 255 < b.start m + b.processLimit ∨
      b.start m + b.processLimit ≤ b.base ∧ b.start m + b.processLimit < b.top

/-- The limit does not take part, or the chunks end before 256, or a single one is enough. -/
def LimitFits : Prop :=
  b.ledCount ≤ b.processLimit ∨ b.roundedTop ≤ 255 ∨ b.OneChunk

/-! ## What an iteration renders -/

theorem top_le : b.top ≤ b.ledCount := by
  have hsplit := b.split_le
  unfold top
  cases hhalf : b.half <;> simp_all [Half.split]

variable {b}

theorem start_mod (n : Nat) : b.processLimit * (n % 256) % 256 = b.start n := by
  rw [start, Nat.mul_mod_mod]

theorem mem_leds (hlimit : b.processLimit < b.ledCount) (n i : Nat) :
    i ∈ b.leds n ↔ b.base ≤ i ∧ b.start n ≤ i ∧
      i < (b.start n + b.processLimit) % 256 ∧ i < b.top := by
  have hsplit := b.split_le
  unfold leds effectRunnerI getLimits base top
  rw [if_pos hlimit, start_mod]
  cases hhalf : b.half <;> rw [hhalf] at hsplit <;> simp only [Half.split] at hsplit <;>
    simp only [List.mem_range'_1] <;> split_ifs <;> omega

theorem more_iff (hlimit : b.processLimit < b.ledCount) (n : Nat) :
    b.more n = true ↔ (b.start n + b.processLimit) % 256 < b.top := by
  have hsplit := b.split_le
  unfold more effectRunnerI getLimits checkFinishedLeds top
  rw [if_pos hlimit, start_mod]
  cases hhalf : b.half <;> rw [hhalf] at hsplit <;> simp only [Half.split] at hsplit <;>
    simp only [decide_eq_true_eq] <;> split_ifs <;> omega

theorem start_lt (n : Nat) : b.start n < 256 := Nat.mod_lt _ (by omega)

/-- An iteration whose chunk runs over 255 renders nothing. -/
theorem leds_of_over (hlimit : b.processLimit < b.ledCount) {n : Nat}
    (hover : 255 < b.start n + b.processLimit) (i : Nat) : i ∉ b.leds n := by
  have hstart := b.start_lt n
  have hcount := b.ledCount_le
  rw [mem_leds hlimit]
  omega

/-! ## When the chunks fit -/

/-- The last chunk that begins before the end of the half. -/
theorem roundedTop_eq (htop : 0 < b.top) :
    ∃ q, b.processLimit * q < b.top ∧ b.top ≤ b.processLimit * (q + 1) ∧
      b.roundedTop = b.processLimit * (q + 1) := by
  have hpos := b.processLimit_pos
  refine ⟨(b.top - 1) / b.processLimit, ?_, ?_, ?_⟩
  · have hle := Nat.mul_div_le (b.top - 1) b.processLimit
    omega
  · have hlt := Nat.lt_mul_div_succ (b.top - 1) hpos
    omega
  · have hsum : b.top + b.processLimit - 1 = b.top - 1 + b.processLimit := by omega
    rw [roundedTop, hsum, Nat.add_div_right _ hpos]

theorem start_of_le {n m : Nat} (hnm : n ≤ m) (hm : b.processLimit * m ≤ 255) :
    b.start n = b.processLimit * n := by
  have hle := Nat.mul_le_mul_left b.processLimit hnm
  exact Nat.mod_eq_of_lt (by omega)

/-- The chunks before the last one end where the next one begins. -/
theorem stop_of_lt {n q : Nat} (hnq : n < q) (hq : b.processLimit * q ≤ 255) :
    b.start n + b.processLimit = b.processLimit * (n + 1) ∧
      b.processLimit * (n + 1) ≤ b.processLimit * q := by
  have hle : b.processLimit * (n + 1) ≤ b.processLimit * q :=
    Nat.mul_le_mul_left b.processLimit hnq
  rw [start_of_le (Nat.le_of_lt hnq) hq, Nat.mul_succ]
  exact ⟨rfl, hle⟩

theorem rendersOnce_of_unlimited (hlimit : b.ledCount ≤ b.processLimit) : b.RendersOnce := by
  have hsplit := b.split_le
  have hleds (i : Nat) : i ∈ b.leds 0 ↔ b.base ≤ i ∧ i < b.top := by
    unfold leds effectRunnerI getLimits base top
    rw [if_neg (Nat.not_lt.mpr hlimit)]
    cases hhalf : b.half with
    | whole =>
        simp only [List.mem_range'_1]
        omega
    | left split | right split =>
        rw [hhalf] at hsplit
        simp only [Half.split] at hsplit
        simp only [List.mem_range'_1]
        split_ifs <;> omega
  have hmore : b.more 0 = false := by
    unfold more effectRunnerI getLimits checkFinishedLeds
    rw [if_neg (Nat.not_lt.mpr hlimit)]
    cases hhalf : b.half with
    | whole | right split => simp
    | left split =>
        rw [hhalf] at hsplit
        simp only [Half.split] at hsplit
        simp only [decide_eq_false_iff_not]
        split_ifs <;> omega
  refine ⟨0, fun n hn => absurd hn (Nat.not_lt_zero n), hmore, fun m n hmn hn => by omega,
    fun i => ?_⟩
  rw [← hleds]
  constructor
  · rintro ⟨n, hn, hi⟩
    rwa [Nat.le_zero.mp hn] at hi
  · exact fun hi => ⟨0, Nat.le_refl 0, hi⟩

theorem rendersOnce_of_roundedTop (hlimit : b.processLimit < b.ledCount)
    (hround : b.roundedTop ≤ 255) : b.RendersOnce := by
  have hpos := b.processLimit_pos
  rcases Nat.eq_zero_or_pos b.top with htop | htop
  · refine ⟨0, fun n hn => absurd hn (Nat.not_lt_zero n), ?_, fun m n hmn hn => by omega,
      fun i => ?_⟩
    · have hmore := more_iff hlimit 0
      rw [htop] at hmore
      simpa using hmore
    · simp only [mem_leds hlimit, htop]
      omega
  · obtain ⟨q, hlast, hend, hrounded⟩ := roundedTop_eq htop
    rw [hrounded] at hround
    have hstop (n : Nat) (hn : n < q + 1) : (b.start n + b.processLimit) % 256 =
        b.processLimit * (n + 1) ∧ b.processLimit * (n + 1) ≤ b.processLimit * (q + 1) := by
      obtain ⟨heq, hle⟩ := stop_of_lt hn hround
      rw [heq]
      exact ⟨Nat.mod_eq_of_lt (by omega), hle⟩
    refine ⟨q, fun n hn => ?_, ?_, fun m n hmn hn i hi j hj => ?_, fun i => ⟨?_, fun hi => ?_⟩⟩
    · have hle : b.processLimit * (n + 1) ≤ b.processLimit * q :=
        Nat.mul_le_mul_left b.processLimit hn
      rw [more_iff hlimit, (hstop n (by omega)).1]
      omega
    · have hmore := more_iff hlimit q
      rw [(hstop q (by omega)).1] at hmore
      rw [← Bool.not_eq_true, hmore]
      omega
    · -- the chunk of `m` ends before the one of `n` begins
      rw [mem_leds hlimit, (hstop m (by omega)).1] at hi
      rw [mem_leds hlimit, start_of_le (by omega : n ≤ q + 1) hround] at hj
      have hle : b.processLimit * (m + 1) ≤ b.processLimit * n :=
        Nat.mul_le_mul_left b.processLimit hmn
      omega
    · rintro ⟨n, -, hi⟩
      rw [mem_leds hlimit] at hi
      exact ⟨hi.1, hi.2.2.2⟩
    · have hdiv := Nat.mul_div_le i b.processLimit
      have hnext := Nat.lt_mul_div_succ i hpos
      have hchunk : i / b.processLimit < q + 1 :=
        Nat.div_lt_of_lt_mul (by omega)
      refine ⟨i / b.processLimit, Nat.le_of_lt_succ hchunk, ?_⟩
      rw [mem_leds hlimit, (hstop _ hchunk).1, start_of_le (Nat.le_of_lt hchunk) hround]
      omega

/-! ## When they do not -/

/-- Some chunk begins inside the half and runs over 255, and the ones before it do not. -/
theorem lastChunk_of_over (hlimit : b.processLimit < b.ledCount) (hround : 255 < b.roundedTop) :
    ∃ q, b.processLimit < b.top ∧ b.processLimit * (q + 1) < b.top ∧
      255 < b.processLimit * (q + 1) + b.processLimit ∧
      ∀ n ≤ q, b.start n + b.processLimit ≤ b.processLimit * (q + 1) := by
  have hcount := b.ledCount_le
  have htopcount := b.top_le
  have htop : 0 < b.top := by
    rcases Nat.eq_zero_or_pos b.top with htop | htop
    · have hsmall : (b.top + b.processLimit - 1) / b.processLimit = 0 :=
        Nat.div_eq_of_lt (by have hpos := b.processLimit_pos; omega)
      rw [roundedTop, hsmall] at hround
      omega
    · exact htop
  obtain ⟨q, hlast, hend, hrounded⟩ := roundedTop_eq htop
  rw [hrounded, Nat.mul_succ] at hround
  cases q with
  | zero => omega
  | succ q =>
      have hone : b.processLimit ≤ b.processLimit * (q + 1) :=
        Nat.le_mul_of_pos_right b.processLimit (Nat.succ_pos q)
      have hfit : b.processLimit * (q + 1) ≤ 255 := by omega
      refine ⟨q, by omega, hlast, hround, fun n hn => ?_⟩
      have hle : b.processLimit * (n + 1) ≤ b.processLimit * (q + 1) :=
        Nat.mul_le_mul_left b.processLimit (Nat.succ_le_succ hn)
      have heq := (stop_of_lt (Nat.lt_succ_of_le hn) hfit).1
      omega

theorem rendersOnce_of_oneChunk (hlimit : b.processLimit < b.ledCount)
    (hround : 255 < b.roundedTop) (hone : b.OneChunk) : b.RendersOnce := by
  have hcount := b.ledCount_le
  have htopcount := b.top_le
  obtain ⟨q, hsmall, hinside, hover, hearly⟩ := lastChunk_of_over hlimit hround
  obtain ⟨n, hreach, hfit, hbefore⟩ := hone
  -- the chunks up to `q` end before the end of the half, and so before the half begins
  have hqn : q < n := by
    by_contra hqn
    have hle := hearly n (Nat.le_of_not_lt hqn)
    omega
  have hbase : b.start n ≤ b.base := by
    have hend : b.start q + b.processLimit = b.processLimit * (q + 1) :=
      (stop_of_lt (Nat.lt_succ_self q) (by omega : b.processLimit * (q + 1) ≤ 255)).1
    have hq := hbefore q hqn
    omega
  have hnothing (m : Nat) (hm : m < n) (i : Nat) : i ∉ b.leds m := by
    rcases hbefore m hm with hover | ⟨hle, -⟩
    · exact leds_of_over hlimit hover i
    · rw [mem_leds hlimit]
      omega
  have hstop : (b.start n + b.processLimit) % 256 = b.start n + b.processLimit :=
    Nat.mod_eq_of_lt (by omega)
  refine ⟨n, fun m hm => ?_, ?_, fun m k hmk hk i hi => ?_, fun i => ⟨?_, fun hi => ?_⟩⟩
  · have hstart := b.start_lt m
    rw [more_iff hlimit]
    rcases hbefore m hm with hover | ⟨-, hlt⟩ <;> omega
  · have hmore := more_iff hlimit n
    rw [hstop] at hmore
    rw [← Bool.not_eq_true, hmore]
    omega
  · exact absurd hi (hnothing m (by omega) i)
  · rintro ⟨m, -, hi⟩
    rw [mem_leds hlimit] at hi
    exact ⟨hi.1, hi.2.2.2⟩
  · refine ⟨n, Nat.le_refl n, ?_⟩
    rw [mem_leds hlimit, hstop]
    omega

theorem oneChunk_of_rendersOnce (hlimit : b.processLimit < b.ledCount)
    (hround : 255 < b.roundedTop) (h : b.RendersOnce) : b.OneChunk := by
  have hcount := b.ledCount_le
  have htopcount := b.top_le
  have hpos := b.processLimit_pos
  obtain ⟨q, hsmall, hinside, hover, hearly⟩ := lastChunk_of_over hlimit hround
  obtain ⟨last, hmore, hdone, hincreasing, hunion⟩ := h
  rw [← Bool.not_eq_true, more_iff hlimit] at hdone
  have hlast := b.start_lt last
  have hreach : b.top ≤ b.start last + b.processLimit ∧
      b.start last + b.processLimit ≤ 255 := by omega
  have hql : q < last := by
    by_contra hql
    have hle := hearly last (Nat.le_of_not_lt hql)
    omega
  refine ⟨last, hreach.1, hreach.2, fun m hm => ?_⟩
  have hm_more := (more_iff hlimit m).mp (hmore m hm)
  have hm_start := b.start_lt m
  by_cases hm_over : 255 < b.start m + b.processLimit
  · exact .inl hm_over
  · refine .inr ⟨?_, by omega⟩
    by_contra hm_base
    -- the last LED of chunk `m` comes before those of the last iteration, which overlaps chunk `q`
    have hmem : b.start m + b.processLimit - 1 ∈ b.leds m := by
      rw [mem_leds hlimit]
      omega
    have hfirst : max b.base (b.start last) ∈ b.leds last := by
      rw [mem_leds hlimit]
      omega
    have hbefore := hincreasing m last hm (Nat.le_refl last) _ hmem _ hfirst
    have hend := (stop_of_lt (Nat.lt_succ_self q) (by omega : b.processLimit * (q + 1) ≤ 255)).1
    have hmem_q : b.processLimit * (q + 1) - 1 ∈ b.leds q := by
      rw [mem_leds hlimit]
      omega
    have hmem_last : b.processLimit * (q + 1) - 1 ∈ b.leds last := by
      rw [mem_leds hlimit]
      omega
    exact absurd (hincreasing q last hql (Nat.le_refl last) _ hmem_q _ hmem_last) (Nat.lt_irrefl _)

theorem rendersOnce_iff_limitFits (b : Board) : b.RendersOnce ↔ b.LimitFits := by
  by_cases hlimit : b.processLimit < b.ledCount
  · by_cases hround : b.roundedTop ≤ 255
    · exact iff_of_true (rendersOnce_of_roundedTop hlimit hround) (.inr (.inl hround))
    · have hover := Nat.lt_of_not_le hround
      refine ⟨fun h => .inr (.inr (oneChunk_of_rendersOnce hlimit hover h)), fun h => ?_⟩
      rcases h with h | h | h
      · omega
      · exact absurd h hround
      · exact rendersOnce_of_oneChunk hlimit hover h
  · have hle := Nat.le_of_not_lt hlimit
    exact iff_of_true (rendersOnce_of_unlimited hle) (.inl hle)

/-- The third chunk of 100 LEDs would end at 300. -/
def hundreds : Board :=
  ⟨250, 100, .whole, by decide, by decide, by decide, by decide⟩

theorem hundreds_not_rendersOnce : ¬hundreds.RendersOnce := by
  intro h
  obtain ⟨n, hreach, hfit, hbefore⟩ := oneChunk_of_rendersOnce (by decide) (by decide) h
  have htop : hundreds.top = 250 := rfl
  have hbase : hundreds.base = 0 := rfl
  have hstart : hundreds.start 0 + hundreds.processLimit = 100 := rfl
  rcases Nat.eq_zero_or_pos n with rfl | hn
  · omega
  · have hfirst := hbefore 0 hn
    omega

/-- With the process limit that is set without one of its own, every frame is rendered. -/
theorem limitFits_of_default (b : Board) (hdefault : b.processLimit = (b.ledCount + 4) / 5) :
    b.LimitFits := by
  have hcount := b.ledCount_le
  have htop := b.top_le
  have hpos := b.processLimit_pos
  refine .inr (.inl ?_)
  have hchunks : (b.top + b.processLimit - 1) / b.processLimit ≤ 5 := by
    refine Nat.lt_succ_iff.mp (Nat.div_lt_of_lt_mul ?_)
    omega
  have hle := Nat.mul_le_mul_left b.processLimit hchunks
  rw [roundedTop]
  omega

end Board

end Qmk.RgbMatrix
