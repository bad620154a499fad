import Qmk.KeymapC.Generate

/-!
# `_gen_led_config`

The lines of `keyboard_c.py` that define `g_led_config` for an LED or RGB matrix.
-/

namespace Qmk.LedConfig

open Qmk.KeymapC

inductive ConfigType where
  | rgbMatrix
  | ledMatrix
  deriving DecidableEq

/-- An LED of the `layout` in `info.json`. -/
structure LedData where
  matrix : Option (Nat × Nat)
  x : Option Nat
  y : Option Nat
  flags : Option Nat
  deriving DecidableEq

structure InfoData where
  cols : Nat
  rows : Nat
  layout : List LedData

/-- `str` of a number. -/
def str (n : Nat) : Text := Nat.toDigits 10 n

def noLed : Text := "NO_LED".toList

/-- `matrix[row][col] = cell`; an index that is out of range raises. -/
def setCell (matrix : List (List Text)) (row col : Nat) (cell : Text) : Option (List (List Text)) :=
  match matrix[row]? with
  | none => none
  | some line => if col < line.length then some (matrix.set row (line.set col cell)) else none

/-- `f'{{{x}, {y}}}'`. -/
def posText (x y : Nat) : Text := ['\x7b'] ++ str x ++ [',', ' '] ++ str y ++ ['\x7d']

/-- The variables of the loop over the LEDs. -/
structure Tables where
  matrix : List (List Text)
  pos : List Text
  flags : List Text

def addLed (tables : Tables) (entry : LedData × Nat) : Option Tables := do
  let (ledData, index) := entry
  let matrix ← match ledData.matrix with
    | some (row, col) => setCell tables.matrix row col (str index)
    | none => some tables.matrix
  some ⟨matrix, tables.pos ++ [posText (ledData.x.getD 0) (ledData.y.getD 0)],
    tables.flags ++ [str (ledData.flags.getD 0)]⟩

def ifdefLines : ConfigType → List Text
  | .rgbMatrix => ["#ifdef RGB_MATRIX_ENABLE".toList, "#include \"rgb_matrix.h\"".toList]
  | .ledMatrix => ["#ifdef LED_MATRIX_ENABLE".toList, "#include \"led_matrix.h\"".toList]

/-- `f'{indent}{{ {", ".join(parts)} }},'`. -/
def braceLine (indent : Text) (parts : List Text) : Text :=
  indent ++ ['\x7b', ' '] ++ join [',', ' '] parts ++ [' ', '\x7d', ',']

def genLedConfig (infoData : InfoData) (configType : ConfigType) : Option (List Text) := do
  let tables ← infoData.layout.zipIdx.foldlM addLed
    ⟨List.replicate infoData.rows (List.replicate infoData.cols noLed), [], []⟩
  some (ifdefLines configType ++
    ["__attribute__ ((weak)) led_config_t g_led_config = \x7b".toList, "  \x7b".toList] ++
    tables.matrix.map (braceLine "    ".toList) ++
    ["  \x7d,".toList, braceLine "  ".toList tables.pos, braceLine "  ".toList tables.flags,
      "\x7d;".toList, "#endif".toList, []])

/-! ## The tables -/

/-- The indices of the LEDs at their places. -/
def placeLed (matrix : List (List (Option Nat))) (entry : LedData × Nat) :
    List (List (Option Nat)) :=
  match entry.1.matrix with
  | some (row, col) => matrix.modify row fun line => line.set col (some entry.2)
  | none => matrix

def ledMatrix (infoData : InfoData) : List (List (Option Nat)) :=
  infoData.layout.zipIdx.foldl placeLed
    (List.replicate infoData.rows (List.replicate infoData.cols none))

def cellText : Option Nat → Text
  | none => noLed
  | some index => str index

/-- The positions are those of the matrix. -/
def InRange (infoData : InfoData) : Prop :=
  ∀ ledData ∈ infoData.layout, ∀ place ∈ ledData.matrix,
    place.1 < infoData.rows ∧ place.2 < infoData.cols

/-- No two LEDs have one position. -/
def Distinct (layout : List LedData) : Prop :=
  (layout.filterMap LedData.matrix).Nodup

structure Sized (infoData : InfoData) (matrix : List (List (Option Nat))) : Prop where
  rows : matrix.length = infoData.rows
  cols : ∀ line ∈ matrix, line.length = infoData.cols

theorem placeLed_sized {infoData : InfoData} {matrix : List (List (Option Nat))}
    (h : Sized infoData matrix) (entry : LedData × Nat) :
    Sized infoData (placeLed matrix entry) := by
  unfold placeLed
  cases entry.1.matrix with
  | none => exact h
  | some place =>
      refine ⟨by simpa using h.rows, fun line hline => ?_⟩
      obtain ⟨row, hrow, rfl⟩ := List.mem_iff_getElem.mp hline
      rw [List.length_modify] at hrow
      have hlength := h.cols _ (List.getElem_mem hrow)
      rw [List.getElem_modify]
      split
      · rwa [List.length_set]
      · exact hlength

theorem initial_sized (infoData : InfoData) : Sized infoData
    (List.replicate infoData.rows (List.replicate infoData.cols none)) :=
  ⟨List.length_replicate, fun line hline => by
    rw [List.eq_of_mem_replicate hline, List.length_replicate]⟩

theorem addLed_eq {infoData : InfoData} {matrix : List (List (Option Nat))}
    (hsized : Sized infoData matrix) {pos flags : List Text} {entry : LedData × Nat}
    (hrange : ∀ place ∈ entry.1.matrix, place.1 < infoData.rows ∧ place.2 < infoData.cols) :
    addLed ⟨matrix.map (List.map cellText), pos, flags⟩ entry =
      some ⟨(placeLed matrix entry).map (List.map cellText),
        pos ++ [posText (entry.1.x.getD 0) (entry.1.y.getD 0)],
        flags ++ [str (entry.1.flags.getD 0)]⟩ := by
  obtain ⟨⟨place, x, y, flag⟩, index⟩ := entry
  cases place with
  | none => rfl
  | some place =>
      obtain ⟨hrow, hcol⟩ := hrange place rfl
      rw [← hsized.rows] at hrow
      have hline := hsized.cols _ (List.getElem_mem hrow)
      have hset : setCell (matrix.map (List.map cellText)) place.1 place.2 (str index) =
          some ((matrix.modify place.1 fun line => line.set place.2 (some index)).map
            (List.map cellText)) := by
        have hget : (matrix.map (List.map cellText))[place.1]? =
            some ((matrix[place.1]).map cellText) := by
          simp [List.getElem?_eq_getElem hrow]
        have hcell : ((matrix[place.1]).map cellText).set place.2 (str index) =
            ((matrix[place.1]).set place.2 (some index)).map cellText := by
          rw [List.map_set]
          rfl
        rw [setCell, hget]
        simp only [List.length_map, hline, hcol, if_true, hcell]
        rw [List.modify_eq_set_getElem?, List.getElem?_eq_getElem hrow]
        simp [List.map_set]
      simp [addLed, placeLed, hset]

theorem foldlM_addLed {infoData : InfoData} {entries : List (LedData × Nat)}
    (hrange : ∀ entry ∈ entries, ∀ place ∈ entry.1.matrix,
      place.1 < infoData.rows ∧ place.2 < infoData.cols)
    {matrix : List (List (Option Nat))} (hsized : Sized infoData matrix) (pos flags : List Text) :
    entries.foldlM addLed ⟨matrix.map (List.map cellText), pos, flags⟩ =
      some ⟨(entries.foldl placeLed matrix).map (List.map cellText),
        pos ++ entries.map fun entry => posText (entry.1.x.getD 0) (entry.1.y.getD 0),
        flags ++ entries.map fun entry => str (entry.1.flags.getD 0)⟩ := by
  induction entries generalizing matrix pos flags with
  | nil => simp
  | cons entry entries ih =>
      have hentry := @addLed_eq _ _ hsized pos flags _ (hrange entry List.mem_cons_self)
      have hrest := ih (fun other hother => hrange other (List.mem_cons_of_mem _ hother))
        (placeLed_sized hsized entry)
        (pos ++ [posText (entry.1.x.getD 0) (entry.1.y.getD 0)])
        (flags ++ [str (entry.1.flags.getD 0)])
      rw [List.foldlM_cons, hentry]
      simpa using hrest

theorem foldl_placeLed_sized {infoData : InfoData} (entries : List (LedData × Nat))
    {matrix : List (List (Option Nat))} (h : Sized infoData matrix) :
    Sized infoData (entries.foldl placeLed matrix) := by
  induction entries generalizing matrix with
  | nil => exact h
  | cons entry entries ih => exact ih (placeLed_sized h entry)

theorem ledMatrix_sized (infoData : InfoData) : Sized infoData (ledMatrix infoData) :=
  foldl_placeLed_sized _ (initial_sized infoData)

theorem genLedConfig_eq {infoData : InfoData} (hrange : InRange infoData)
    (configType : ConfigType) :
    genLedConfig infoData configType = some (ifdefLines configType ++
      ["__attribute__ ((weak)) led_config_t g_led_config = \x7b".toList, "  \x7b".toList] ++
      (ledMatrix infoData).map (fun line => braceLine "    ".toList (line.map cellText)) ++
      ["  \x7d,".toList,
        braceLine "  ".toList
          (infoData.layout.map fun led => posText (led.x.getD 0) (led.y.getD 0)),
        braceLine "  ".toList (infoData.layout.map fun led => str (led.flags.getD 0)),
        "\x7d;".toList, "#endif".toList, []]) := by
  have hentries : ∀ entry ∈ infoData.layout.zipIdx, ∀ place ∈ entry.1.matrix,
      place.1 < infoData.rows ∧ place.2 < infoData.cols := fun entry hentry =>
    hrange entry.1 (List.fst_mem_of_mem_zipIdx hentry)
  have htables := foldlM_addLed hentries (initial_sized infoData) [] []
  have hinitial : (List.replicate infoData.rows (List.replicate infoData.cols none)).map
      (List.map cellText) = List.replicate infoData.rows (List.replicate infoData.cols noLed) := by
    simp [cellText]
  have hmap {α : Type} (f : LedData → α) :
      (infoData.layout.zipIdx.map fun entry => f entry.1) = infoData.layout.map f := by
    conv_rhs => rw [← List.zipIdx_map_fst 0 infoData.layout, List.map_map]
    rfl
  rw [hinitial, hmap fun led => posText (led.x.getD 0) (led.y.getD 0),
    hmap fun led => str (led.flags.getD 0)] at htables
  rw [genLedConfig, htables]
  simp [ledMatrix]

/-! ## Which index is where -/

theorem getElem?_placeLed {infoData : InfoData} {matrix : List (List (Option Nat))}
    (hsized : Sized infoData matrix) {entry : LedData × Nat}
    (hrange : ∀ place ∈ entry.1.matrix, place.1 < infoData.rows ∧ place.2 < infoData.cols)
    (row col index : Nat) :
    (∃ cells, (placeLed matrix entry)[row]? = some cells ∧ cells[col]? = some (some index)) ↔
      (entry.1.matrix = some (row, col) ∧ entry.2 = index) ∨
        (entry.1.matrix ≠ some (row, col) ∧
          ∃ cells, matrix[row]? = some cells ∧ cells[col]? = some (some index)) := by
  unfold placeLed
  cases hmatrix : entry.1.matrix with
  | none => simp
  | some place =>
      obtain ⟨r, c⟩ := place
      obtain ⟨hrow, hcol⟩ := hrange (r, c) hmatrix
      have hrow' : r < matrix.length := by rw [hsized.rows]; exact hrow
      have hline := hsized.cols _ (List.getElem_mem hrow')
      simp only [Option.some.injEq, Prod.mk.injEq, ne_eq]
      by_cases hr : r = row
      · subst hr
        rw [List.getElem?_modify, List.getElem?_eq_getElem hrow']
        by_cases hc : c = col
        · subst hc
          have hlt : c < (matrix[r]).length := by rw [hline]; exact hcol
          simp [hlt]
        · simp [hc]
      · rw [List.getElem?_modify]
        simp [hr]

/-- Every LED is at its place, unless a later one is there too. -/
theorem mem_foldl_placeLed {infoData : InfoData} {entries : List (LedData × Nat)}
    (hrange : ∀ entry ∈ entries, ∀ place ∈ entry.1.matrix,
      place.1 < infoData.rows ∧ place.2 < infoData.cols)
    (hdistinct : (entries.filterMap fun entry => entry.1.matrix).Nodup)
    {matrix : List (List (Option Nat))} (hsized : Sized infoData matrix) (row col index : Nat) :
    (∃ cells, (entries.foldl placeLed matrix)[row]? = some cells ∧
        cells[col]? = some (some index)) ↔
      (∃ entry ∈ entries, entry.1.matrix = some (row, col) ∧ entry.2 = index) ∨
        ((∀ entry ∈ entries, entry.1.matrix ≠ some (row, col)) ∧
          ∃ cells, matrix[row]? = some cells ∧ cells[col]? = some (some index)) := by
  induction entries generalizing matrix with
  | nil => simp
  | cons entry entries ih =>
      have hrest : (entries.filterMap fun entry => entry.1.matrix).Nodup := by
        rw [List.filterMap_cons] at hdistinct
        cases hmatrix : entry.1.matrix with
        | none => simpa only [hmatrix] using hdistinct
        | some place =>
            simp only [hmatrix] at hdistinct
            exact (List.nodup_cons.mp hdistinct).2
      have hother (hmatrix : entry.1.matrix = some (row, col)) :
          ∀ other ∈ entries, other.1.matrix ≠ some (row, col) := by
        intro other hother heq
        rw [List.filterMap_cons] at hdistinct
        simp only [hmatrix] at hdistinct
        exact (List.nodup_cons.mp hdistinct).1
          (List.mem_filterMap.mpr ⟨other, hother, heq⟩)
      rw [List.foldl_cons, ih (fun other hother => hrange other (List.mem_cons_of_mem _ hother))
        hrest (placeLed_sized hsized entry),
        getElem?_placeLed hsized (hrange entry List.mem_cons_self)]
      simp only [List.mem_cons, exists_eq_or_imp, forall_eq_or_imp]
      constructor
      · rintro (h | ⟨hnone, h | h⟩)
        · exact .inl (.inr h)
        · exact .inl (.inl h)
        · exact .inr ⟨⟨h.1, hnone⟩, h.2⟩
      · rintro ((h | h) | ⟨⟨hentry, hnone⟩, h⟩)
        · exact .inr ⟨hother h.1, .inl h⟩
        · exact .inl h
        · exact .inr ⟨hnone, .inr ⟨hentry, h⟩⟩

theorem ledMatrix_iff {infoData : InfoData} (hrange : InRange infoData)
    (hdistinct : Distinct infoData.layout) (row col index : Nat) :
    (∃ cells, (ledMatrix infoData)[row]? = some cells ∧ cells[col]? = some (some index)) ↔
      ∃ led, infoData.layout[index]? = some led ∧ led.matrix = some (row, col) := by
  have hentries : (infoData.layout.zipIdx.filterMap fun entry => entry.1.matrix).Nodup := by
    have heq : (infoData.layout.zipIdx.filterMap fun entry => entry.1.matrix) =
        infoData.layout.filterMap LedData.matrix := by
      conv_rhs => rw [← List.zipIdx_map_fst 0 infoData.layout, List.filterMap_map]
      rfl
    rw [heq]
    exact hdistinct
  have hinitial : ¬ ∃ cells, (List.replicate infoData.rows
      (List.replicate infoData.cols (none : Option Nat)))[row]? = some cells ∧
        cells[col]? = some (some index) := by
    rintro ⟨line, hline, hcell⟩
    have hmem := List.eq_of_mem_replicate (List.mem_of_getElem? hline)
    rw [hmem] at hcell
    have hnone := List.eq_of_mem_replicate (List.mem_of_getElem? hcell)
    cases hnone
  have hplaces : ∀ entry ∈ infoData.layout.zipIdx, ∀ place ∈ entry.1.matrix,
      place.1 < infoData.rows ∧ place.2 < infoData.cols := fun entry hentry =>
    hrange entry.1 (List.fst_mem_of_mem_zipIdx hentry)
  rw [ledMatrix, mem_foldl_placeLed hplaces hentries (initial_sized infoData)]
  constructor
  · rintro (⟨entry, hentry, hmatrix, rfl⟩ | ⟨-, h⟩)
    · exact ⟨entry.1, List.mem_zipIdx_iff_getElem?.mp hentry, hmatrix⟩
    · exact absurd h hinitial
  · rintro ⟨led, hled, hmatrix⟩
    exact .inl ⟨(led, index), List.mem_zipIdx_iff_getElem?.mpr hled, hmatrix, rfl⟩

end Qmk.LedConfig
