import Mathlib.Algebra.Group.Nat.Defs
import Mathlib.Data.List.Basic

/-!
# Run-length compression

The compressed bytes are a list of runs: a byte that is repeated up to 127 times,
or up to 128 bytes that stand for themselves.
-/

namespace Qmk.Painter

/-- What a marker byte announces. -/
inductive Run
  | repeated (count value : Nat) (pos : 0 < count) (fits : count ≤ 127)
  | literal (values : List Nat) (nonempty : values ≠ []) (fits : values.length ≤ 128)

def Run.expand : Run → List Nat
  | .repeated count value _ _ => List.replicate count value
  | .literal values _ _ => values

def Run.bytes : Run → List Nat
  | .repeated count value _ _ => [count, value]
  | .literal values _ _ => (127 + values.length) :: values

def expandRuns (runs : List Run) : List Nat := runs.flatMap Run.expand

def runBytes (runs : List Run) : List Nat := runs.flatMap Run.bytes

@[simp] theorem expandRuns_nil : expandRuns [] = [] := rfl

@[simp] theorem expandRuns_cons (r : Run) (runs : List Run) :
    expandRuns (r :: runs) = r.expand ++ expandRuns runs := List.flatMap_cons

@[simp] theorem expandRuns_append (first second : List Run) :
    expandRuns (first ++ second) = expandRuns first ++ expandRuns second :=
  List.flatMap_append

@[simp] theorem runBytes_nil : runBytes [] = [] := rfl

@[simp] theorem runBytes_cons (r : Run) (runs : List Run) :
    runBytes (r :: runs) = r.bytes ++ runBytes runs := List.flatMap_cons

@[simp] theorem runBytes_append (first second : List Run) :
    runBytes (first ++ second) = runBytes first ++ runBytes second :=
  List.flatMap_append

theorem Run.bytes_lt {r : Run} (h : ∀ value ∈ r.expand, value < 2 ^ 8) :
    ∀ byte ∈ r.bytes, byte < 2 ^ 8 := by
  cases r with
  | repeated count value pos fits =>
      have hvalue : value < 2 ^ 8 := h value (by simp [expand]; omega)
      intro byte hbyte
      simp only [bytes, List.mem_cons, List.not_mem_nil, or_false] at hbyte
      omega
  | literal values nonempty fits =>
      intro byte hbyte
      rcases List.mem_cons.mp hbyte with rfl | hmem
      · omega
      · exact h byte hmem

theorem runBytes_lt {runs : List Run} (h : ∀ value ∈ expandRuns runs, value < 2 ^ 8) :
    ∀ byte ∈ runBytes runs, byte < 2 ^ 8 := by
  intro byte hbyte
  obtain ⟨r, hr, hmem⟩ := List.mem_flatMap.mp hbyte
  exact r.bytes_lt (fun value hvalue => h value (List.mem_flatMap.mpr ⟨r, hr, hvalue⟩))
    byte hmem

/-! ## The compressor -/

/-- The variables of `compress_bytes_qmk_rle`; `repeating` is its `repeat`. -/
structure Compressor where
  output : List Nat := []
  temp : List Nat := []
  repeating : Bool := false

def appendRange (output r : List Nat) : List Nat :=
  output ++ (127 + r.length) :: r

/-- `temp[-1] == temp[-2]`. -/
def lastTwoEqual (temp : List Nat) : Bool :=
  temp[temp.length - 1]? == temp[temp.length - 2]?

/-- The loop body once the byte, if there is one, has joined `temp`. -/
def Compressor.flush (atEnd : Bool) (s : Compressor) : Compressor :=
  let last := s.temp.getLastD 0
  if s.repeating then
    if ¬ lastTwoEqual s.temp ∨ s.temp.length = 128 ∨ atEnd then
      let count := if atEnd then s.temp.length else s.temp.length - 1
      { output := s.output ++ [count, s.temp.headD 0]
        temp := [last]
        repeating := false }
    else s
  else if 2 ≤ s.temp.length ∧ lastTwoEqual s.temp then
    if 2 < s.temp.length then
      { output := appendRange s.output (s.temp.take (s.temp.length - 2))
        temp := [last, last]
        repeating := true }
    else
      { s with repeating := true }
  else if s.temp.length = 128 ∨ atEnd then
    { output := appendRange s.output s.temp, temp := [], repeating := false }
  else s

def Compressor.takeByte (s : Compressor) (c : Nat) : Compressor :=
  let s := { s with temp := s.temp ++ [c] }
  if s.temp.length ≤ 1 then s else s.flush false

def compressBytesQmkRle (bytes : List Nat) : List Nat :=
  ((bytes.foldl Compressor.takeByte {}).flush true).output

/--
The output is made of runs, and `temp` holds what they leave of the bytes: either
at least two equal bytes, or bytes of which the last two differ.
-/
inductive Compressor.Holds (bytes : List Nat) : Compressor → Prop
  | literal {runs : List Run} {temp : List Nat}
      (covered : expandRuns runs ++ temp = bytes) (short : temp.length < 128)
      (apart : ∀ before x y, temp = before ++ [x, y] → x ≠ y) :
      Holds bytes ⟨runBytes runs, temp, false⟩
  | repeating {runs : List Run} {count value : Nat}
      (covered : expandRuns runs ++ List.replicate (count + 2) value = bytes)
      (short : count + 2 ≤ 127) :
      Holds bytes ⟨runBytes runs, List.replicate (count + 2) value, true⟩

theorem lastTwoEqual_concat (before : List Nat) (x y : Nat) :
    lastTwoEqual (before ++ [x, y]) = (x == y) := by
  simp [lastTwoEqual, Bool.beq_comm]

theorem replicate_succ_concat (count value c : Nat) :
    List.replicate (count + 2) value ++ [c] =
      List.replicate (count + 1) value ++ [value, c] := by
  rw [List.replicate_succ' (n := count + 1), List.append_assoc]
  rfl

namespace Compressor

theorem flush_literal (atEnd : Bool) (output before : List Nat) (x y : Nat) :
    flush atEnd ⟨output, before ++ [x, y], false⟩ =
      if x = y then
        ⟨if before = [] then output else appendRange output before, [y, y], true⟩
      else if before.length + 2 = 128 ∨ atEnd then
        ⟨appendRange output (before ++ [x, y]), [], false⟩
      else ⟨output, before ++ [x, y], false⟩ := by
  have hlast : (before ++ [x, y]).getLastD 0 = y := by
    simp [List.getLastD_eq_getLast?]
  have htake : (before ++ [x, y]).take (before.length + 2 - 2) = before := by simp
  have hlength : (before ++ [x, y]).length = before.length + 2 := by simp
  simp only [flush, lastTwoEqual_concat, hlast, hlength, htake, beq_iff_eq]
  by_cases hxy : x = y
  · subst hxy
    cases before <;> simp
  · simp [hxy]

theorem flush_repeating (atEnd : Bool) (output before : List Nat) (x y : Nat) :
    flush atEnd ⟨output, before ++ [x, y], true⟩ =
      if x ≠ y ∨ before.length + 2 = 128 ∨ atEnd then
        ⟨output ++ [if atEnd then before.length + 2 else before.length + 1,
          (before ++ [x, y]).headD 0], [y], false⟩
      else ⟨output, before ++ [x, y], true⟩ := by
  have hlength : (before ++ [x, y]).length = before.length + 2 := by simp
  simp [flush, lastTwoEqual_concat, hlength]

theorem Holds.takeByte_literal {runs : List Run} {temp bytes : List Nat} {c : Nat}
    (covered : expandRuns runs ++ temp = bytes) (short : temp.length < 128) :
    Holds (bytes ++ [c]) (takeByte ⟨runBytes runs, temp, false⟩ c) := by
  subst covered
  rcases List.eq_nil_or_concat temp with rfl | ⟨before, x, rfl⟩
  · refine .literal (by simp) (by simp) ?_
    intro before x y hpair
    have hlength := congrArg List.length hpair
    simp at hlength
  · rw [List.concat_eq_append] at *
    have htemp : before ++ [x] ++ [c] = before ++ [x, c] := by simp
    have hlength : ¬ (before ++ [x, c]).length ≤ 1 := by simp
    rw [takeByte, htemp]
    simp only [hlength, if_false, flush_literal]
    rw [List.length_append, List.length_singleton] at short
    by_cases hsame : x = c
    · subst hsame
      rw [if_pos rfl]
      by_cases hbefore : before = []
      · subst hbefore
        exact @Holds.repeating _ runs 0 x (by simp) (by decide)
      · have hrun := @Holds.repeating (expandRuns runs ++ before ++ [x, x])
          (runs ++ [.literal before hbefore (by omega)]) 0 x
          (by simp [Run.expand]) (by decide)
        simpa [hbefore, appendRange, Run.bytes] using hrun
    · rw [if_neg hsame]
      by_cases hfull : before.length + 2 = 128
      · have hrun := @Holds.literal (expandRuns runs ++ before ++ [x, c])
          (runs ++ [.literal (before ++ [x, c]) (by simp) (by simp [hfull])]) []
          (by simp [Run.expand]) (by simp) (by simp)
        simpa [hfull, appendRange, Run.bytes] using hrun
      · rw [if_neg (by simp [hfull])]
        refine .literal (by simp) (by simp; omega) ?_
        intro other x' y' hpair
        obtain ⟨-, hpair⟩ := List.append_inj' hpair rfl
        simp only [List.cons.injEq, and_true] at hpair
        obtain ⟨rfl, rfl⟩ := hpair
        exact hsame

theorem Holds.takeByte_repeating {runs : List Run} {count value c : Nat}
    {bytes : List Nat}
    (covered : expandRuns runs ++ List.replicate (count + 2) value = bytes)
    (short : count + 2 ≤ 127) :
    Holds (bytes ++ [c])
      (takeByte ⟨runBytes runs, List.replicate (count + 2) value, true⟩ c) := by
  subst covered
  have hlength : ¬ (List.replicate (count + 1) value ++ [value, c]).length ≤ 1 := by simp
  rw [takeByte, replicate_succ_concat]
  simp only [hlength, if_false, flush_repeating]
  have hhead : (List.replicate (count + 1) value ++ [value, c]).headD 0 = value := by
    simp [List.replicate_succ]
  by_cases hgrow : value = c ∧ count + 3 ≠ 128
  · obtain ⟨rfl, hshort⟩ := hgrow
    have hrun := @Holds.repeating
      (expandRuns runs ++ (List.replicate (count + 2) value ++ [value])) runs (count + 1)
      value (by rw [List.replicate_succ' (n := count + 2)]) (by omega)
    rw [if_neg (by simp; omega), ← replicate_succ_concat, ← List.replicate_succ',
      List.append_assoc]
    exact hrun
  · rw [if_pos (by simp; omega), hhead]
    have hrun := @Holds.literal
      (expandRuns runs ++ (List.replicate (count + 2) value ++ [c]))
      (runs ++ [.repeated (count + 2) value (by omega) short]) [c]
      (by simp [Run.expand]) (by simp)
      (fun before x y hpair => by simpa using congrArg List.length hpair)
    simpa [Run.bytes] using hrun

theorem Holds.takeByte {bytes : List Nat} {s : Compressor} (h : Holds bytes s) (c : Nat) :
    Holds (bytes ++ [c]) (s.takeByte c) := by
  cases h with
  | literal covered short apart => exact takeByte_literal covered short
  | repeating covered short => exact takeByte_repeating covered short

theorem holds_foldl {before : List Nat} {s : Compressor} (h : Holds before s)
    (bytes : List Nat) : Holds (before ++ bytes) (bytes.foldl Compressor.takeByte s) := by
  induction bytes generalizing before s with
  | nil => simpa using h
  | cons c bytes ih => simpa using ih (h.takeByte c)

theorem flush_apart {temp : List Nat}
    (apart : ∀ before x y, temp = before ++ [x, y] → x ≠ y) (output : List Nat) :
    (flush true ⟨output, temp, false⟩).output = appendRange output temp := by
  rcases List.eq_nil_or_concat temp with rfl | ⟨rest, y, rfl⟩
  · simp [flush]
  · rcases List.eq_nil_or_concat rest with rfl | ⟨before, x, rfl⟩
    · simp [flush]
    · have hpair : (before.concat x).concat y = before ++ [x, y] := by simp
      rw [hpair, flush_literal, if_neg (apart before x y hpair), if_pos (.inr rfl)]

/-- After the last byte, a marker byte without a run may trail the runs. -/
theorem Holds.flush_end {bytes : List Nat} {s : Compressor} (h : Holds bytes s) :
    ∃ runs tail, (s.flush true).output = runBytes runs ++ tail ∧
      expandRuns runs = bytes ∧ ∀ byte ∈ tail, byte < 2 ^ 8 := by
  cases h with
  | @literal runs temp covered short apart =>
      rw [flush_apart apart, appendRange]
      by_cases htemp : temp = []
      · subst htemp
        exact ⟨runs, [127], rfl, by simpa using covered, by simp⟩
      · exact ⟨runs ++ [.literal temp htemp (by omega)], [], by simp [Run.bytes],
          by simpa [Run.expand], by simp⟩
  | @repeating runs count value covered short =>
      refine ⟨runs ++ [.repeated (count + 2) value (by omega) short], [], ?_,
        by simpa [Run.expand], by simp⟩
      have hpair : List.replicate (count + 2) value =
          List.replicate count value ++ [value, value] := by
        rw [List.replicate_add]
        rfl
      have hhead : (List.replicate count value ++ [value, value]).headD 0 = value := by
        rw [← hpair]
        rfl
      rw [hpair, flush_repeating, if_pos (.inr (.inr rfl)), hhead]
      simp [Run.bytes]

end Compressor

theorem compressBytesQmkRle_runs (bytes : List Nat) :
    ∃ runs tail, compressBytesQmkRle bytes = runBytes runs ++ tail ∧
      expandRuns runs = bytes ∧ ∀ byte ∈ tail, byte < 2 ^ 8 := by
  have hstart : Compressor.Holds [] {} :=
    @Compressor.Holds.literal [] [] [] rfl (by simp) (by simp)
  have hend := Compressor.holds_foldl hstart bytes
  rw [List.nil_append] at hend
  exact hend.flush_end

end Qmk.Painter
