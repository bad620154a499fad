import Qmk.KeymapC.RoundTrip
import Qmk.LedConfig.Generate
import Qmk.LedConfig.Parse

/-!
# `find_led_config` after `_gen_led_config`

The generated text is cut into the pieces of `configPieces`.  The parser counts brackets to know
which table it reads, and each table leaves the count as it was.
-/

namespace Qmk.LedConfig

open Qmk.KeymapC hiding Token TokenType CLexer smallToken smallLexer

/-! ## The pieces of the text -/

def spaced (parts : List (Text × List Piece)) : List Piece :=
  parts.flatMap fun part => .space part.1 :: part.2

/-- A line with a list in braces. -/
def listParts (indent : Text) (cells : List (List Piece)) : List (Text × List Piece) :=
  ('\n' :: indent, [.punct '\x7b']) ::
    if cells = [] then [([' ', ' '], [.punct '\x7d', .punct ','])]
    else [([' '], joinPieces cells), ([' '], [.punct '\x7d', .punct ','])]

def cellPieces : Option Nat → List Piece
  | none => [.word noLed]
  | some index => [.number (str index)]

def posPieces (led : LedData) : List Piece :=
  [.punct '\x7b', .number (str (led.x.getD 0)), .punct ',', .space [' '],
    .number (str (led.y.getD 0)), .punct '\x7d']

def flagPieces (led : LedData) : List Piece := [.number (str (led.flags.getD 0))]

def headerParts : List (Text × List Piece) :=
  [([' '], [.punct '(', .punct '(', .word "weak".toList, .punct ')', .punct ')']),
    ([' '], [.word "led_config_t".toList]), ([' '], [.word "g_led_config".toList])]

def openParts : List (Text × List Piece) :=
  [([' '], [.operator '=']), ([' '], [.punct '\x7b']),
    (['\n', ' ', ' '], [.punct '\x7b'])]

def matrixParts (matrix : List (List (Option Nat))) : List (Text × List Piece) :=
  matrix.flatMap fun line => listParts "    ".toList (line.map cellPieces)

def closeMatrixParts : List (Text × List Piece) :=
  [(['\n', ' ', ' '], [.punct '\x7d', .punct ','])]

def endParts : List (Text × List Piece) := [(['\n'], [.punct '\x7d', .punct ';'])]

/-- What stands between the name and the end. -/
def bodyParts (infoData : InfoData) : List (Text × List Piece) :=
  openParts ++ matrixParts (ledMatrix infoData) ++ closeMatrixParts ++
    listParts "  ".toList (infoData.layout.map posPieces) ++
    listParts "  ".toList (infoData.layout.map flagPieces) ++ endParts

def directivePieces : ConfigType → List Piece
  | .rgbMatrix =>
      [.rest "#ifdef RGB_MATRIX_ENABLE\n".toList, .rest "#include \"rgb_matrix.h\"\n".toList]
  | .ledMatrix =>
      [.rest "#ifdef LED_MATRIX_ENABLE\n".toList, .rest "#include \"led_matrix.h\"\n".toList]

def endifPieces : List Piece := [.space ['\n'], .rest "#endif\n".toList]

def configPieces (infoData : InfoData) (configType : ConfigType) : List Piece :=
  directivePieces configType ++ .word "__attribute__".toList ::
    spaced (headerParts ++ bodyParts infoData) ++ endifPieces

theorem spaced_append (parts others : List (Text × List Piece)) :
    spaced (parts ++ others) = spaced parts ++ spaced others := List.flatMap_append

theorem join_lines (line : Text) (lines : List Text) :
    join ['\n'] (line :: lines) = line ++ lines.flatMap fun line => '\n' :: line := by
  induction lines generalizing line with
  | nil => simp [join]
  | cons next lines ih =>
      rw [join_cons _ _ (List.cons_ne_nil next lines), ih]
      simp

theorem textOf_listParts (indent : Text) (cells : List (List Piece)) :
    textOf (spaced (listParts indent cells)) =
      '\n' :: braceLine indent (cells.map textOf) := by
  unfold listParts braceLine spaced
  by_cases hcells : cells = []
  · subst hcells
    simp [Piece.text, join]
  · simp [if_neg hcells, textOf_joinPieces, Piece.text]

theorem textOf_cellPieces (cell : Option Nat) : textOf (cellPieces cell) = cellText cell := by
  cases cell <;> simp [cellPieces, cellText, Piece.text]

theorem textOf_matrixParts (matrix : List (List (Option Nat))) :
    textOf (spaced (matrixParts matrix)) =
      matrix.flatMap fun line => '\n' :: braceLine "    ".toList (line.map cellText) := by
  have hcells (line : List (Option Nat)) :
      (line.map cellPieces).map textOf = line.map cellText := by
    rw [List.map_map]
    exact List.map_congr_left fun cell _ => textOf_cellPieces cell
  induction matrix with
  | nil => rfl
  | cons line matrix ih =>
      have hparts : matrixParts (line :: matrix) =
          listParts "    ".toList (line.map cellPieces) ++ matrixParts matrix := rfl
      rw [hparts, spaced_append, textOf_append, ih, textOf_listParts, hcells]
      rfl

theorem textOf_directivePieces (configType : ConfigType) :
    textOf (directivePieces configType) =
      (ifdefLines configType).flatMap fun line => line ++ ['\n'] := by
  cases configType <;> decide

theorem textOf_configPieces {infoData : InfoData} (hrange : InRange infoData)
    (configType : ConfigType) :
    ∃ lines, genLedConfig infoData configType = some lines ∧
      join ['\n'] lines = textOf (configPieces infoData configType) := by
  refine ⟨_, genLedConfig_eq hrange configType, ?_⟩
  have hattribute : "__attribute__ ((weak)) led_config_t g_led_config = \x7b".toList ++
      '\n' :: "  \x7b".toList =
      textOf (.word "__attribute__".toList :: spaced (headerParts ++ openParts)) := by
    decide
  have hclose : '\n' :: "  \x7d,".toList = textOf (spaced closeMatrixParts) := by decide
  have hend : '\n' :: "\x7d;".toList = textOf (spaced endParts) := by decide
  have hendif : '\n' :: "#endif".toList ++ ['\n'] = textOf endifPieces := by decide
  have hpos : (infoData.layout.map posPieces).map textOf =
      infoData.layout.map fun led => posText (led.x.getD 0) (led.y.getD 0) := by
    rw [List.map_map]
    refine List.map_congr_left fun led _ => ?_
    simp [posPieces, posText, Piece.text]
  have hflags : (infoData.layout.map flagPieces).map textOf =
      infoData.layout.map fun led => str (led.flags.getD 0) := by
    rw [List.map_map]
    refine List.map_congr_left fun led _ => ?_
    simp [flagPieces, Piece.text]
  have hjoin (first second third fourth : Text) (rest : List Text) :
      join ['\n'] ([first, second] ++ [third, fourth] ++ rest) =
        (first ++ ['\n']) ++ (second ++ ['\n']) ++ (third ++ '\n' :: fourth) ++
          rest.flatMap fun line => '\n' :: line := by
    simp [join_lines]
  have hmatrix : ((ledMatrix infoData).map fun line =>
      braceLine "    ".toList (line.map cellText)).flatMap (fun line => '\n' :: line) =
      textOf (spaced (matrixParts (ledMatrix infoData))) := by
    rw [textOf_matrixParts, List.flatMap_map]
  have hdirectives := textOf_directivePieces configType
  have hpieces : textOf (configPieces infoData configType) =
      textOf (directivePieces configType) ++
        textOf (.word "__attribute__".toList :: spaced (headerParts ++ openParts)) ++
        (textOf (spaced (matrixParts (ledMatrix infoData))) ++ textOf (spaced closeMatrixParts) ++
          textOf (spaced (listParts "  ".toList (infoData.layout.map posPieces))) ++
          textOf (spaced (listParts "  ".toList (infoData.layout.map flagPieces))) ++
          textOf (spaced endParts) ++ textOf endifPieces) := by
    simp only [configPieces, bodyParts, spaced_append, textOf_append, textOf_cons,
      List.append_assoc, List.cons_append]
  rw [hpieces, ← hmatrix, ← hattribute, ← hclose, ← hend, ← hendif, textOf_listParts,
    textOf_listParts, hpos, hflags, hdirectives]
  cases configType <;>
    · simp only [ifdefLines]
      rw [List.append_assoc _ _ (_ :: _), hjoin]
      simp

/-! ## The pieces are separated -/

def Blank (w : Text) : Prop := w ≠ [] ∧ ∀ c ∈ w, isBlank c = true

instance (w : Text) : Decidable (Blank w) := inferInstanceAs (Decidable (_ ∧ _))

/-- What may follow the end of a solid stretch. -/
inductive Loose : Piece → Prop where
  | space {w : Text} (h : Blank w) : Loose (.space w)
  | punct {c : Char} (h : c ∈ punctuationChars) : Loose (.punct c)

/-- A stretch that space or punctuation may follow, and that space may precede. -/
structure Solid (pieces : List Piece) : Prop where
  separated : Separated pieces
  ne_nil : pieces ≠ []
  starts : ∀ w, pieces.head? ≠ some (.space w)
  ends : ∀ p ∈ pieces.getLast?, ∀ q, Loose q → Apart p q

theorem Loose.not_wordChar {q : Piece} (h : Loose q) :
    ∀ c ∈ q.text.head?, isWordChar c = false := by
  intro c hc
  cases h with
  | space h =>
      have hblank := h.2 c (List.mem_of_mem_head? hc)
      simp only [isBlank, Bool.or_eq_true, decide_eq_true_eq] at hblank
      rcases hblank with (rfl | rfl) | rfl <;> decide
  | punct h =>
      have hall : ∀ c ∈ punctuationChars, isWordChar c = false := by decide
      rw [← Option.some.inj hc]
      exact hall _ h

theorem solid_single {p : Piece} (hvalid : p.Valid) (hstart : ∀ w, p ≠ .space w)
    (hends : ∀ q, Loose q → Apart p q) : Solid [p] where
  separated := ⟨fun q hq => by rwa [List.mem_singleton.mp hq], List.isChain_singleton p⟩
  ne_nil := List.cons_ne_nil _ _
  starts w h := hstart w (Option.some.inj h)
  ends q hq := by rwa [← Option.some.inj hq]

theorem solid_word {w : Text} (h : IsWord w) : Solid [.word w] :=
  solid_single h (fun _ hw => Piece.noConfusion hw) fun _ hq => hq.not_wordChar

theorem solid_number (n : Nat) : Solid [.number (str n)] :=
  solid_single (isNumber_toDigits n) (fun _ hw => Piece.noConfusion hw) fun _ hq => hq.not_wordChar

theorem solid_punct {c : Char} (h : c ∈ punctuationChars) : Solid [.punct c] :=
  solid_single h (fun _ hw => Piece.noConfusion hw) fun _ _ => trivial

theorem Solid.append_punct {pieces : List Piece} (h : Solid pieces) {c : Char}
    (hc : c ∈ punctuationChars) : Solid (pieces ++ [.punct c]) where
  separated := by
    refine separated_append h.separated (solid_punct hc).separated fun p hp q hq => ?_
    rw [← Option.some.inj hq]
    exact h.ends p hp _ (.punct hc)
  ne_nil := List.append_ne_nil_of_left_ne_nil h.ne_nil _
  starts w := by
    rw [List.head?_append_of_ne_nil _ h.ne_nil]
    exact h.starts w
  ends p hp q _ := by
    rw [List.getLast?_concat] at hp
    rw [← Option.some.inj hp]
    trivial

theorem Solid.cons_punct {pieces : List Piece} (h : Solid pieces) {c : Char}
    (hc : c ∈ punctuationChars) : Solid (.punct c :: pieces) where
  separated := h.separated.cons_punct hc
  ne_nil := List.cons_ne_nil _ _
  starts _ hw := Piece.noConfusion (Option.some.inj hw)
  ends p hp := h.ends p (by rwa [List.getLast?_cons_of_ne_nil h.ne_nil] at hp)

theorem Solid.append_space {pieces others : List Piece} (h : Solid pieces) {w : Text}
    (hw : Blank w) (hothers : Solid others) : Solid (pieces ++ .space w :: others) where
  separated := by
    have hspace : Separated (.space w :: others) := by
      refine ⟨fun piece hpiece => ?_,
        List.isChain_cons.mpr ⟨fun q hq => ?_, hothers.separated.apart⟩⟩
      · rcases List.mem_cons.mp hpiece with rfl | hpiece
        · exact hw
        · exact hothers.separated.valid piece hpiece
      · cases q with
        | space v => exact absurd hq (hothers.starts v)
        | word _ | number _ | punct _ | operator _ | rest _ => trivial
    refine separated_append h.separated hspace fun p hp q hq => ?_
    rw [← Option.some.inj hq]
    exact h.ends p hp _ (.space hw)
  ne_nil := List.append_ne_nil_of_left_ne_nil h.ne_nil _
  starts v := by
    rw [List.head?_append_of_ne_nil _ h.ne_nil]
    exact h.starts v
  ends p hp := by
    rw [List.getLast?_append_of_ne_nil _ (List.cons_ne_nil _ _),
      List.getLast?_cons_of_ne_nil hothers.ne_nil] at hp
    exact hothers.ends p hp

theorem joinPieces_solid {cells : List (List Piece)} (hne : cells ≠ [])
    (h : ∀ cell ∈ cells, Solid cell) : Solid (joinPieces cells) := by
  induction cells with
  | nil => exact absurd rfl hne
  | cons cell cells ih =>
      have hcell := h cell List.mem_cons_self
      cases cells with
      | nil => exact hcell
      | cons next cells =>
          have hrest := ih (List.cons_ne_nil _ _) fun other hother =>
            h other (List.mem_cons_of_mem _ hother)
          have hjoin : joinPieces (cell :: next :: cells) =
              cell ++ [.punct ','] ++ .space [' '] :: joinPieces (next :: cells) := by
            rw [List.append_assoc]
            rfl
          rw [hjoin]
          exact (hcell.append_punct (by decide)).append_space (by decide) hrest

theorem Solid.append_spaced {pieces : List Piece} (h : Solid pieces)
    {parts : List (Text × List Piece)} (hparts : ∀ part ∈ parts, Blank part.1 ∧ Solid part.2) :
    Solid (pieces ++ spaced parts) := by
  induction parts generalizing pieces with
  | nil => simpa [spaced] using h
  | cons part parts ih =>
      obtain ⟨hblank, hsolid⟩ := hparts part List.mem_cons_self
      have hnext := ih (h.append_space hblank hsolid) fun other hother =>
        hparts other (List.mem_cons_of_mem _ hother)
      have hspaced : spaced (part :: parts) = .space part.1 :: part.2 ++ spaced parts := rfl
      rwa [hspaced, ← List.append_assoc]

theorem closing_solid : Solid [.punct '\x7d', .punct ','] :=
  (solid_punct (by decide)).cons_punct (by decide)

theorem listParts_solid {indent : Text} (hindent : ∀ c ∈ indent, isBlank c = true)
    {cells : List (List Piece)} (h : ∀ cell ∈ cells, Solid cell) :
    ∀ part ∈ listParts indent cells, Blank part.1 ∧ Solid part.2 := by
  intro part hpart
  rcases List.mem_cons.mp hpart with rfl | hpart
  · refine ⟨⟨List.cons_ne_nil _ _, fun c hc => ?_⟩, solid_punct (by decide)⟩
    rcases List.mem_cons.mp hc with rfl | hc
    · decide
    · exact hindent c hc
  · split at hpart
    · rw [List.mem_singleton.mp hpart]
      exact ⟨by decide, closing_solid⟩
    · rcases List.mem_pair.mp hpart with rfl | rfl
      · exact ⟨(by decide : Blank [' ']), joinPieces_solid ‹_› h⟩
      · exact ⟨by decide, closing_solid⟩

theorem bodyParts_solid (infoData : InfoData) :
    ∀ part ∈ bodyParts infoData, Blank part.1 ∧ Solid part.2 := by
  have hopen : ∀ part ∈ openParts, Blank part.1 ∧ Solid part.2 := by
    have hequals : Solid [.operator '='] := by
      refine solid_single (by decide) (fun _ hw => Piece.noConfusion hw) fun q _ => ?_
      exact ⟨fun h => absurd h (by decide), fun h => absurd h (by decide)⟩
    have hbrace : Solid [.punct '\x7b'] := solid_punct (by decide)
    simp only [openParts, List.mem_cons, List.not_mem_nil, or_false, forall_eq_or_imp, forall_eq]
    exact ⟨⟨by decide, hequals⟩, ⟨by decide, hbrace⟩, ⟨by decide, hbrace⟩⟩
  have hmatrix : ∀ part ∈ matrixParts (ledMatrix infoData), Blank part.1 ∧ Solid part.2 := by
    intro part hpart
    obtain ⟨line, -, hpart⟩ := List.mem_flatMap.mp hpart
    refine listParts_solid (by decide) (fun cell hcell => ?_) part hpart
    obtain ⟨index, -, rfl⟩ := List.mem_map.mp hcell
    cases index with
    | none => exact solid_word ⟨by decide, by decide, by decide⟩
    | some index => exact solid_number index
  have hclose : ∀ part ∈ closeMatrixParts, Blank part.1 ∧ Solid part.2 := by
    intro part hpart
    rw [List.mem_singleton.mp hpart]
    exact ⟨by decide, closing_solid⟩
  have hpos : ∀ part ∈ listParts "  ".toList (infoData.layout.map posPieces),
      Blank part.1 ∧ Solid part.2 := by
    refine listParts_solid (by decide) fun cell hcell => ?_
    obtain ⟨led, -, rfl⟩ := List.mem_map.mp hcell
    exact ((((solid_number _).append_punct (by decide)).append_space (by decide)
      (solid_number _)).append_punct (by decide)).cons_punct (by decide)
  have hflags : ∀ part ∈ listParts "  ".toList (infoData.layout.map flagPieces),
      Blank part.1 ∧ Solid part.2 := by
    refine listParts_solid (by decide) fun cell hcell => ?_
    obtain ⟨led, -, rfl⟩ := List.mem_map.mp hcell
    exact solid_number _
  have hend : ∀ part ∈ endParts, Blank part.1 ∧ Solid part.2 := by
    intro part hpart
    rw [List.mem_singleton.mp hpart]
    exact ⟨by decide, (solid_punct (by decide)).cons_punct (by decide)⟩
  intro part hpart
  simp only [bodyParts, List.mem_append] at hpart
  rcases hpart with ((((h | h) | h) | h) | h) | h
  · exact hopen part h
  · exact hmatrix part h
  · exact hclose part h
  · exact hpos part h
  · exact hflags part h
  · exact hend part h

theorem configPieces_separated (infoData : InfoData) (configType : ConfigType) :
    Separated (configPieces infoData configType) := by
  have hheader : ∀ part ∈ headerParts, Blank part.1 ∧ Solid part.2 := by
    have hweak : Solid [.word "weak".toList] := solid_word ⟨by decide, by decide, by decide⟩
    have htype : Solid [.word "led_config_t".toList] :=
      solid_word ⟨by decide, by decide, by decide⟩
    have hname : Solid [.word "g_led_config".toList] :=
      solid_word ⟨by decide, by decide, by decide⟩
    simp only [headerParts, List.mem_cons, List.not_mem_nil, or_false, forall_eq_or_imp, forall_eq]
    exact ⟨⟨by decide, (((hweak.append_punct (by decide)).append_punct (by decide)).cons_punct
      (by decide)).cons_punct (by decide)⟩, ⟨by decide, htype⟩, ⟨by decide, hname⟩⟩
  have hattribute : Solid [.word "__attribute__".toList] :=
    solid_word ⟨by decide, by decide, by decide⟩
  have hparts : ∀ part ∈ headerParts ++ bodyParts infoData, Blank part.1 ∧ Solid part.2 :=
    fun part hpart => (List.mem_append.mp hpart).elim (hheader part) (bodyParts_solid infoData part)
  have hbody := hattribute.append_spaced hparts
  have hendif : Separated endifPieces := ⟨by decide, by decide⟩
  have hdirectives : Separated (directivePieces configType) := by
    cases configType <;> exact ⟨by decide, by decide⟩
  have htail := separated_append hbody.separated hendif fun p hp q hq => by
    rw [← Option.some.inj hq]
    exact hbody.ends p hp _ (.space (by decide))
  rw [configPieces, List.append_assoc]
  refine separated_append hdirectives htail fun p hp q _ => ?_
  cases configType <;>
    · obtain rfl := Option.some.inj hp
      trivial

/-! ## Comments and line continuations -/

/-- No piece of the configuration has a slash or a backslash. -/
def Plain (pieces : List Piece) : Prop := '/' ∉ textOf pieces ∧ '\\' ∉ textOf pieces

theorem plain_append {pieces others : List Piece} :
    Plain (pieces ++ others) ↔ Plain pieces ∧ Plain others := by
  simp only [Plain, textOf_append, List.mem_append, not_or]
  exact and_and_and_comm

theorem isDigit_of_mem_str {n : Nat} {c : Char} (h : c ∈ str n) : c.isDigit = true :=
  Nat.isDigit_of_mem_toDigits (b := 10) (by decide) (by decide) h

theorem plain_number (n : Nat) : Plain [.number (str n)] := by
  have hdigit : ∀ c ∈ textOf [.number (str n)], c.isDigit = true := fun c hc =>
    isDigit_of_mem_str (n := n) (by simpa [Piece.text] using hc)
  exact ⟨fun h => absurd (hdigit _ h) (by decide), fun h => absurd (hdigit _ h) (by decide)⟩

theorem plain_cons {piece : Piece} {pieces : List Piece} :
    Plain (piece :: pieces) ↔ Plain [piece] ∧ Plain pieces :=
  @plain_append [piece] pieces

theorem plain_joinPieces {cells : List (List Piece)} (h : ∀ cell ∈ cells, Plain cell) :
    Plain (joinPieces cells) := by
  induction cells with
  | nil => exact ⟨List.not_mem_nil, List.not_mem_nil⟩
  | cons cell cells ih =>
      have hcell := h cell List.mem_cons_self
      cases cells with
      | nil => exact hcell
      | cons next cells =>
          have hrest := ih fun other hother => h other (List.mem_cons_of_mem _ hother)
          have hjoin : joinPieces (cell :: next :: cells) =
              cell ++ ([.punct ',', .space [' ']] ++ joinPieces (next :: cells)) := rfl
          rw [hjoin, plain_append, plain_append]
          exact ⟨hcell, by unfold Plain; decide, hrest⟩

theorem plain_listParts {indent : Text} (hindent : Plain [.space ('\n' :: indent)])
    {cells : List (List Piece)} (h : ∀ cell ∈ cells, Plain cell) :
    Plain (spaced (listParts indent cells)) := by
  have hopen : Plain [.punct '\x7b'] := by unfold Plain; decide
  have hspace : Plain [.space [' ']] := by unfold Plain; decide
  have hclose : Plain [.space [' '], .punct '\x7d', .punct ','] := by unfold Plain; decide
  have hempty : Plain [.space [' ', ' '], .punct '\x7d', .punct ','] := by unfold Plain; decide
  unfold listParts
  by_cases hcells : cells = []
  · rw [if_pos hcells]
    exact plain_cons.mpr ⟨hindent, plain_cons.mpr ⟨hopen, hempty⟩⟩
  · rw [if_neg hcells]
    have hspaced : spaced [('\n' :: indent, [.punct '\x7b']), ([' '], joinPieces cells),
        ([' '], [.punct '\x7d', .punct ','])] =
        .space ('\n' :: indent) :: .punct '\x7b' :: .space [' '] ::
          (joinPieces cells ++ [.space [' '], .punct '\x7d', .punct ',']) := rfl
    rw [hspaced]
    exact plain_cons.mpr ⟨hindent, plain_cons.mpr ⟨hopen, plain_cons.mpr ⟨hspace,
      plain_append.mpr ⟨plain_joinPieces h, hclose⟩⟩⟩⟩

theorem configPieces_plain (infoData : InfoData) (configType : ConfigType) :
    Plain (configPieces infoData configType) := by
  have hdirectives : Plain (directivePieces configType) := by
    unfold Plain
    cases configType <;> decide
  have hattribute : Plain [.word "__attribute__".toList] := by unfold Plain; decide
  have hheader : Plain (spaced headerParts) := by unfold Plain; decide
  have hopen : Plain (spaced openParts) := by unfold Plain; decide
  have hclose : Plain (spaced closeMatrixParts) := by unfold Plain; decide
  have hend : Plain (spaced endParts) := by unfold Plain; decide
  have hendif : Plain endifPieces := by unfold Plain; decide
  have hmatrix : Plain (spaced (matrixParts (ledMatrix infoData))) := by
    induction ledMatrix infoData with
    | nil => exact ⟨List.not_mem_nil, List.not_mem_nil⟩
    | cons line matrix ih =>
        have hparts : matrixParts (line :: matrix) =
            listParts "    ".toList (line.map cellPieces) ++ matrixParts matrix := rfl
        rw [hparts, spaced_append, plain_append]
        refine ⟨plain_listParts (by unfold Plain; decide) fun cell hcell => ?_, ih⟩
        obtain ⟨index, -, rfl⟩ := List.mem_map.mp hcell
        cases index with
        | none => unfold Plain; decide
        | some index => exact plain_number index
  have hpos : Plain (spaced (listParts "  ".toList (infoData.layout.map posPieces))) := by
    refine plain_listParts (by unfold Plain; decide) fun cell hcell => ?_
    obtain ⟨led, -, rfl⟩ := List.mem_map.mp hcell
    have hopen : Plain [.punct '\x7b'] := by unfold Plain; decide
    have hcomma : Plain [.punct ',', .space [' ']] := by unfold Plain; decide
    have hclose : Plain [.punct '\x7d'] := by unfold Plain; decide
    have hpieces : posPieces led = [.punct '\x7b'] ++ ([.number (str (led.x.getD 0))] ++
        ([.punct ',', .space [' ']] ++ ([.number (str (led.y.getD 0))] ++ [.punct '\x7d']))) := rfl
    rw [hpieces, plain_append, plain_append, plain_append, plain_append]
    exact ⟨hopen, plain_number _, hcomma, plain_number _, hclose⟩
  have hflags : Plain (spaced (listParts "  ".toList (infoData.layout.map flagPieces))) := by
    refine plain_listParts (by unfold Plain; decide) fun cell hcell => ?_
    obtain ⟨led, -, rfl⟩ := List.mem_map.mp hcell
    exact plain_number _
  simp only [configPieces, bodyParts, spaced_append, plain_append, @plain_cons _ (_ ++ _)]
  exact ⟨⟨hdirectives, hattribute, hheader, ⟨⟨⟨⟨hopen, hmatrix⟩, hclose⟩, hpos⟩, hflags⟩, hend⟩,
    hendif⟩

/-- The text of the configuration reaches the lexer as it is. -/
theorem preprocessCFile_eq {text : Text} (hslash : '/' ∉ text) (hbackslash : '\\' ∉ text) :
    preprocessCFile text = text := by
  rw [preprocessCFile, commentRemover, removeComments_eq hslash]
  exact replace_absent [] fun hinside => hbackslash (hinside.subset List.mem_cons_self)

/-! ## Feeding the parser -/

variable {lexer : CLexer} {s : Parser}

def feed (lexer : CLexer) (s : Parser) (pieces : List Piece) : Except Exit Parser :=
  (pieces.flatMap lexer.tokens).foldlM Parser.step s

theorem feed_append (pieces others : List Piece) :
    feed lexer s (pieces ++ others) = feed lexer s pieces >>= fun s => feed lexer s others := by
  rw [feed, List.flatMap_append, List.foldlM_append]
  rfl

theorem feed_append_ok {pieces : List Piece} {t : Parser} (h : feed lexer s pieces = .ok t)
    (others : List Piece) : feed lexer s (pieces ++ others) = feed lexer t others := by
  rw [feed_append, h]
  rfl

theorem feed_cons_ok {piece : Piece} {t : Parser} (h : feed lexer s [piece] = .ok t)
    (others : List Piece) : feed lexer s (piece :: others) = feed lexer t others := by
  rw [← List.singleton_append, feed_append_ok h]

/-- Tokens that the parser passes over. -/
theorem foldlM_step_of_forall {tokens : List Token}
    (h : ∀ token ∈ tokens, Parser.step s token = .ok s) : tokens.foldlM Parser.step s = .ok s := by
  induction tokens with
  | nil => rfl
  | cons token tokens ih =>
      rw [List.foldlM_cons, h token List.mem_cons_self]
      exact ih fun other hother => h other (List.mem_cons_of_mem _ hother)

theorem infix_restTokens {w : Text} {token : Token} (h : token ∈ lexer.restTokens w) :
    token.value <:+: w := by
  rw [← lexer.rest_text w]
  obtain ⟨before, after, hsplit⟩ := List.append_of_mem h
  rw [hsplit, List.flatMap_append, List.flatMap_cons]
  exact ⟨_, _, List.append_assoc _ _ _⟩

theorem step_outside (hfound : s.foundGLedConfig = false) {token : Token}
    (htype : token.value ≠ "led_config_t".toList) (hname : token.value ≠ "g_led_config".toList) :
    Parser.step s token = .ok s := by
  rw [Parser.step, if_pos (by rw [hfound]; rfl), if_neg htype, if_neg fun h => hname h.2]

/-- Before the name of the configuration only the two names count. -/
theorem feed_outside (hfound : s.foundGLedConfig = false) {w : Text}
    (htype : ¬ "led_config_t".toList <:+: w) (hname : ¬ "g_led_config".toList <:+: w) :
    feed lexer s [.rest w] = .ok s := by
  rw [feed, List.flatMap_cons, List.flatMap_nil, List.append_nil]
  refine foldlM_step_of_forall fun token htoken => ?_
  have hinside := infix_restTokens htoken
  exact step_outside hfound (fun h => htype (h ▸ hinside)) fun h => hname (h ▸ hinside)

/-- Within the configuration a token that is neither a bracket nor a value is passed over. -/
theorem step_other (hfound : s.foundGLedConfig = true) {token : Token} (htype : token.type = .other)
    (hend : token.value ≠ [';']) (hopen : token.value ≠ ['\x7b'])
    (hclose : token.value ≠ ['\x7d']) : Parser.step s token = .ok s := by
  rw [Parser.step, if_neg (by rw [hfound]; decide), if_neg hend, if_neg hopen, if_neg hclose, htype,
    if_neg (by decide), if_neg (by decide)]

theorem feed_space {w : Text} (hblank : ∀ c ∈ w, isBlank c = true) :
    feed lexer s [.space w] = .ok s := by
  rw [feed, List.flatMap_cons, List.flatMap_nil, List.append_nil]
  refine foldlM_step_of_forall fun token htoken => ?_
  have hchars : ∀ c ∈ token.value, isBlank c = true := fun c hc =>
    hblank c ((infix_restTokens htoken).subset hc)
  have hne (first : Char) (text : Text) (hfirst : isBlank first = false) :
      token.value ≠ first :: text := fun h => by
    have hchar := hchars first (h ▸ List.mem_cons_self)
    rw [hfirst] at hchar
    cases hchar
  cases hfound : s.foundGLedConfig with
  | false => exact step_outside hfound (hne 'l' _ (by decide)) (hne 'g' _ (by decide))
  | true =>
      exact step_other hfound (lexer.blank_type w hblank token htoken) (hne ';' [] (by decide))
        (hne '\x7b' [] (by decide)) (hne '\x7d' [] (by decide))

theorem feed_equals (hfound : s.foundGLedConfig = true) : feed lexer s [.operator '='] = .ok s := by
  rw [feed, List.flatMap_cons, List.flatMap_nil, List.append_nil]
  refine foldlM_step_of_forall fun token htoken => ?_
  have hinside : token.value <:+: ['='] := infix_restTokens htoken
  have hne (c : Char) (hc : c ≠ '=') : token.value ≠ [c] := fun h =>
    hc (List.mem_singleton.mp (hinside.subset (h ▸ List.mem_cons_self)))
  exact step_other hfound (lexer.operator_type token htoken) (hne ';' (by decide))
    (hne '\x7b' (by decide)) (hne '\x7d' (by decide))

theorem feed_open (hfound : s.foundGLedConfig = true) :
    feed lexer s [.punct '\x7b'] = .ok s.openBracket := by
  simp [feed, CLexer.tokens, Parser.step, hfound, bind, Except.bind, pure, Except.pure]

theorem feed_close (hfound : s.foundGLedConfig = true) :
    feed lexer s [.punct '\x7d'] = .ok s.closeBracket := by
  simp [feed, CLexer.tokens, Parser.step, hfound, bind, Except.bind, pure, Except.pure]

theorem feed_comma (hfound : s.foundGLedConfig = true) : feed lexer s [.punct ','] = .ok s := by
  simp [feed, CLexer.tokens, Parser.step, hfound, bind, Except.bind, pure, Except.pure]

/-! ### Numbers -/

theorem digitValue_of_isDigit {c : Char} (h : c.isDigit = true) :
    ∃ digit, digit < 10 ∧ digitValue c = some digit ∧ digit = c.toNat - '0'.toNat := by
  refine ⟨_, ?_, if_pos h, rfl⟩
  have hnine : c.val ≤ 57 := by
    simp only [Char.isDigit, Bool.and_eq_true, decide_eq_true_eq] at h
    exact h.2
  have hle : c.toNat ≤ 57 := UInt32.le_iff_toNat_le.mp hnine
  have hzero : '0'.toNat = 48 := rfl
  omega

theorem digitsValue_str (n : Nat) : digitsValue 10 (str n) = .ok n := by
  have hne : str n ≠ [] := Nat.toDigits_ne_nil
  have hvalue : Nat.ofDigitChars 10 (str n) 0 = n := Nat.ofDigitChars_ten_toDigits
  rw [digitsValue, if_neg hne]
  conv_rhs => rw [← hvalue]
  have hdigits : ∀ c ∈ str n, c.isDigit = true := fun c hc => isDigit_of_mem_str hc
  generalize str n = text at hdigits
  generalize 0 = value
  induction text generalizing value with
  | nil => rfl
  | cons c text ih =>
      obtain ⟨digit, hsmall, hdigit, heq⟩ := digitValue_of_isDigit (hdigits c List.mem_cons_self)
      rw [List.foldlM_cons, hdigit]
      simp only [if_pos hsmall, bind, Except.bind]
      rw [ih (fun d hd => hdigits d (List.mem_cons_of_mem _ hd)), heq]
      rfl

theorem intOf_str (n : Nat) : intOf (str n) = .ok (n : Int) := by
  have hdigits : ∀ c ∈ str n, c.isDigit = true := fun c hc => isDigit_of_mem_str hc
  have hvalue := digitsValue_str n
  unfold intOf
  generalize str n = text at *
  match text, hdigits, hvalue with
  | [], _, hvalue => cases hvalue
  | [c], hdigits, hvalue =>
      have hc : c ≠ '-' := fun h => absurd (hdigits c List.mem_cons_self) (by rw [h]; decide)
      simp [hc, hvalue, bind, Except.bind]
  | c :: d :: rest, hdigits, hvalue =>
      have hc : c ≠ '-' := fun h => absurd (hdigits c List.mem_cons_self) (by rw [h]; decide)
      have hd := hdigits d (by simp)
      have hx : d ≠ 'x' := fun h => absurd hd (by rw [h]; decide)
      have hX : d ≠ 'X' := fun h => absurd hd (by rw [h]; decide)
      simp [hc, hx, hX, hvalue, bind, Except.bind]

theorem feed_number (hfound : s.foundGLedConfig = true) (n : Nat) :
    feed lexer s [.number (str n)] = .ok (s.stash (some (.int n))) := by
  have hdigits : ∀ c ∈ str n, c.isDigit = true := fun c hc => isDigit_of_mem_str hc
  have hne (c : Char) (hc : c.isDigit = false) : str n ≠ [c] := fun h => by
    have hdigit := hdigits c (h ▸ List.mem_cons_self)
    rw [hc] at hdigit
    cases hdigit
  have htype : lexer.numberType (str n) = .integer := lexer.decimal_type n
  simp [feed, CLexer.tokens, Parser.step, hfound, hne ';' (by decide), hne '\x7b' (by decide),
    hne '\x7d' (by decide), htype, coerceLedToken, intOf_str, Except.map, bind, Except.bind, pure,
    Except.pure]

/-- What the parser stores for a cell of the matrix. -/
def cellValue (cell : Option Nat) : Option Coerced := cell.map fun index => .int index

theorem feed_cell (hfound : s.foundGLedConfig = true) (cell : Option Nat) :
    feed lexer s (cellPieces cell) = .ok (s.stash (cellValue cell)) := by
  cases cell with
  | none =>
      have hlookup : valueMap.lookup noLed = some none := by decide
      have htype : lexer.wordType noLed = .name := lexer.noLed_type
      have hlength : noLed.length = 6 := by decide
      have hne (c : Char) : noLed ≠ [c] := fun h => by
        rw [h] at hlength
        cases hlength
      simp [feed, cellPieces, CLexer.tokens, Parser.step, hfound, hne, htype, coerceLedToken,
        hlookup, Except.map, bind, Except.bind, pure, Except.pure, cellValue]
  | some index => exact feed_number hfound index

/-! ### Lists in braces -/

@[simp] theorem Parser.openBracket_found (s : Parser) :
    s.openBracket.foundGLedConfig = s.foundGLedConfig := rfl

@[simp] theorem Parser.closeBracket_found (s : Parser) :
    s.closeBracket.foundGLedConfig = s.foundGLedConfig := by
  unfold Parser.closeBracket
  split <;> rfl

@[simp] theorem Parser.stash_found (s : Parser) (value : Option Coerced) :
    (s.stash value).foundGLedConfig = s.foundGLedConfig := rfl

/-- Within the configuration these pieces do to the parser what `effect` says. -/
structure Does (lexer : CLexer) (pieces : List Piece) (effect : Parser → Parser) : Prop where
  feed_eq : ∀ s, s.foundGLedConfig = true → feed lexer s pieces = .ok (effect s)
  found : ∀ s, s.foundGLedConfig = true → (effect s).foundGLedConfig = true

theorem Does.append {pieces others : List Piece} {effect next : Parser → Parser}
    (h : Does lexer pieces effect) (hnext : Does lexer others next) :
    Does lexer (pieces ++ others) (next ∘ effect) where
  feed_eq s hfound := by
    rw [feed_append_ok (h.feed_eq s hfound)]
    exact hnext.feed_eq _ (h.found s hfound)
  found s hfound := hnext.found _ (h.found s hfound)

theorem does_space {w : Text} (hblank : ∀ c ∈ w, isBlank c = true) : Does lexer [.space w] id :=
  ⟨fun _ _ => feed_space hblank, fun _ h => h⟩

theorem does_equals : Does lexer [.operator '='] id := ⟨fun _ => feed_equals, fun _ h => h⟩

theorem does_open : Does lexer [.punct '\x7b'] Parser.openBracket :=
  ⟨fun _ => feed_open, fun _ h => h⟩

theorem does_close : Does lexer [.punct '\x7d'] Parser.closeBracket :=
  ⟨fun _ => feed_close, fun s h => by rwa [Parser.closeBracket_found]⟩

theorem does_comma : Does lexer [.punct ','] id := ⟨fun _ => feed_comma, fun _ h => h⟩

theorem does_number (n : Nat) :
    Does lexer [.number (str n)] fun s => s.stash (some (.int n)) :=
  ⟨fun _ hfound => feed_number hfound n, fun _ h => h⟩

theorem does_cell (cell : Option Nat) :
    Does lexer (cellPieces cell) fun s => s.stash (cellValue cell) :=
  ⟨fun _ hfound => feed_cell hfound cell, fun _ h => h⟩

theorem does_closeComma : Does lexer [.punct '\x7d', .punct ','] Parser.closeBracket :=
  does_close.append does_comma

theorem does_joinPieces {α : Type} {piecesOf : α → List Piece} {effect : α → Parser → Parser}
    (h : ∀ x, Does lexer (piecesOf x) (effect x)) (xs : List α) :
    Does lexer (joinPieces (xs.map piecesOf)) fun s => xs.foldl (fun s x => effect x s) s := by
  induction xs with
  | nil => exact ⟨fun _ _ => rfl, fun _ h => h⟩
  | cons x xs ih =>
      cases xs with
      | nil => exact h x
      | cons y xs =>
          have hcomma : Does lexer [.punct ',', .space [' ']] id :=
            does_comma.append (does_space (by decide))
          have hjoin : joinPieces ((x :: y :: xs).map piecesOf) =
              piecesOf x ++ ([.punct ',', .space [' ']] ++ joinPieces ((y :: xs).map piecesOf)) :=
            rfl
          rw [hjoin]
          exact (h x).append (hcomma.append ih)

theorem does_listParts {indent : Text} (hindent : ∀ c ∈ indent, isBlank c = true) {α : Type}
    {piecesOf : α → List Piece} {effect : α → Parser → Parser}
    (h : ∀ x, Does lexer (piecesOf x) (effect x)) (xs : List α) :
    Does lexer (spaced (listParts indent (xs.map piecesOf)))
      fun s => (xs.foldl (fun s x => effect x s) s.openBracket).closeBracket := by
  have hline : Does lexer [.space ('\n' :: indent)] id :=
    does_space (List.forall_mem_cons.mpr ⟨by decide, hindent⟩)
  have hopen : Does lexer [.space ('\n' :: indent), .punct '\x7b'] Parser.openBracket :=
    hline.append does_open
  cases xs with
  | nil =>
      have hempty : Does lexer [.space [' ', ' '], .punct '\x7d', .punct ',']
          Parser.closeBracket := (does_space (by decide)).append does_closeComma
      exact hopen.append hempty
  | cons x xs =>
      have hclose : Does lexer [.space [' '], .punct '\x7d', .punct ','] Parser.closeBracket :=
        (does_space (by decide)).append does_closeComma
      have hspace : Does lexer [.space [' ']] id := does_space (by decide)
      have hcells := hspace.append (does_joinPieces h (x :: xs))
      have hspaced : spaced (listParts indent ((x :: xs).map piecesOf)) =
          [.space ('\n' :: indent), .punct '\x7b'] ++
            (([.space [' ']] ++ joinPieces ((x :: xs).map piecesOf)) ++
              [.space [' '], .punct '\x7d', .punct ',']) := by
        simp [listParts, spaced]
      rw [hspaced]
      exact hopen.append (hcells.append hclose)

/-! ### The three tables -/

/-- Between the rows of the matrix. -/
def inMatrix (matrix : List (List (Option Coerced))) : Parser :=
  ⟨true, true, 2, 1, matrix, [], [], []⟩

theorem foldl_stash_row (matrix : List (List (Option Coerced))) (row : List (Option Coerced))
    (cells : List (Option Nat)) :
    cells.foldl (fun (s : Parser) cell => s.stash (cellValue cell)) ⟨true, true, 3, 1, matrix, row, [], []⟩ =
      ⟨true, true, 3, 1, matrix, row ++ cells.map cellValue, [], []⟩ := by
  induction cells generalizing row with
  | nil => simp
  | cons cell cells ih =>
      have hstash : Parser.stash ⟨true, true, 3, 1, matrix, row, [], []⟩ (cellValue cell) =
          ⟨true, true, 3, 1, matrix, row ++ [cellValue cell], [], []⟩ := by
        simp [Parser.stash]
      rw [List.foldl_cons, hstash, ih]
      simp

theorem feed_matrixLine (matrix : List (List (Option Coerced))) (line : List (Option Nat)) :
    feed lexer (inMatrix matrix) (spaced (listParts "    ".toList (line.map cellPieces))) =
      .ok (inMatrix (matrix ++ [line.map cellValue])) := by
  rw [(does_listParts (by decide) does_cell line).feed_eq _ rfl]
  have hopen : (inMatrix matrix).openBracket = ⟨true, true, 3, 1, matrix, [], [], []⟩ := rfl
  rw [hopen, foldl_stash_row]
  simp [Parser.closeBracket, inMatrix]

theorem feed_matrixParts (matrix : List (List (Option Coerced))) (lines : List (List (Option Nat))) :
    feed lexer (inMatrix matrix) (spaced (matrixParts lines)) =
      .ok (inMatrix (matrix ++ lines.map (List.map cellValue))) := by
  induction lines generalizing matrix with
  | nil => simp [matrixParts, spaced, feed, pure, Except.pure]
  | cons line lines ih =>
      have hparts : matrixParts (line :: lines) =
          listParts "    ".toList (line.map cellPieces) ++ matrixParts lines := rfl
      rw [hparts, spaced_append, feed_append_ok (feed_matrixLine matrix line), ih]
      simp

/-- The parser reads a position. -/
def posEffect (led : LedData) (s : Parser) : Parser :=
  ((s.openBracket.stash (some (.int (led.x.getD 0)))).stash
    (some (.int (led.y.getD 0)))).closeBracket

theorem does_pos (led : LedData) : Does lexer (posPieces led) (posEffect led) :=
  does_open.append ((does_number _).append (does_comma.append
    ((does_space (w := [' ']) (by decide)).append ((does_number _).append does_close))))

def positionValues (led : LedData) : List (Option Coerced) :=
  [some (.int (led.x.getD 0)), some (.int (led.y.getD 0))]

def flagValue (led : LedData) : Option Coerced := some (.int (led.flags.getD 0))

theorem does_flag (led : LedData) :
    Does lexer (flagPieces led) fun s => s.stash (flagValue led) := does_number _

theorem foldl_posEffect (matrix : List (List (Option Coerced)))
    (positionRaw : List (Option Coerced)) (layout : List LedData) :
    layout.foldl (fun s led => posEffect led s) ⟨true, true, 2, 2, matrix, [], positionRaw, []⟩ =
      ⟨true, true, 2, 2, matrix, [], positionRaw ++ layout.flatMap positionValues, []⟩ := by
  induction layout generalizing positionRaw with
  | nil => simp
  | cons led layout ih =>
      have hled : posEffect led ⟨true, true, 2, 2, matrix, [], positionRaw, []⟩ =
          ⟨true, true, 2, 2, matrix, [], positionRaw ++ positionValues led, []⟩ := by
        simp [posEffect, Parser.openBracket, Parser.stash, Parser.closeBracket, positionValues]
      rw [List.foldl_cons, hled, ih]
      simp

theorem foldl_stash_flags (matrix : List (List (Option Coerced)))
    (positionRaw flags : List (Option Coerced)) (layout : List LedData) :
    layout.foldl (fun (s : Parser) led => s.stash (flagValue led))
        ⟨true, true, 2, 3, matrix, [], positionRaw, flags⟩ =
      ⟨true, true, 2, 3, matrix, [], positionRaw, flags ++ layout.map flagValue⟩ := by
  induction layout generalizing flags with
  | nil => simp
  | cons led layout ih =>
      have hled : Parser.stash ⟨true, true, 2, 3, matrix, [], positionRaw, flags⟩ (flagValue led) =
          ⟨true, true, 2, 3, matrix, [], positionRaw, flags ++ [flagValue led]⟩ := by
        simp [Parser.stash]
      rw [List.foldl_cons, hled, ih]
      simp

/-! ### The whole text -/

theorem feed_single {piece : Piece} {token : Token} (htokens : lexer.tokens piece = [token]) :
    feed lexer s [piece] = Parser.step s token := by
  rw [feed, List.flatMap_cons, List.flatMap_nil, List.append_nil, htokens, List.foldlM_cons]
  cases Parser.step s token <;> rfl

theorem feed_word_outside (hfound : s.foundGLedConfig = false) {w : Text}
    (htype : w ≠ "led_config_t".toList) (hname : w ≠ "g_led_config".toList) :
    feed lexer s [.word w] = .ok s := by
  rw [feed_single rfl]
  exact step_outside hfound htype hname

theorem feed_punct_outside (hfound : s.foundGLedConfig = false) (c : Char) :
    feed lexer s [.punct c] = .ok s := by
  have htype : "led_config_t".toList.length = 12 := by decide
  have hname : "g_led_config".toList.length = 12 := by decide
  rw [feed_single rfl]
  refine step_outside hfound (fun h => ?_) fun h => ?_
  · rw [← h] at htype
    cases htype
  · rw [← h] at hname
    cases hname

theorem step_type (hfound : s.foundGLedConfig = false) {token : Token}
    (h : token.value = "led_config_t".toList) :
    Parser.step s token = .ok { s with foundLedConfigT := true } := by
  rw [Parser.step, if_pos (by rw [hfound]; rfl), if_pos h]

theorem step_name (hfound : s.foundGLedConfig = false) (htype : s.foundLedConfigT = true)
    {token : Token} (h : token.value = "g_led_config".toList) :
    Parser.step s token = .ok { s with foundGLedConfig := true } := by
  rw [Parser.step, if_pos (by rw [hfound]; rfl), if_neg (by rw [h]; decide),
    if_pos ⟨htype, h⟩]

theorem step_semicolon (hfound : s.foundGLedConfig = true) {token : Token}
    (h : token.value = [';']) :
    Parser.step s token = .ok { s with foundGLedConfig := false } := by
  rw [Parser.step, if_neg (by rw [hfound]; decide), if_pos h]

theorem feed_type (hfound : s.foundGLedConfig = false) :
    feed lexer s [.word "led_config_t".toList] = .ok { s with foundLedConfigT := true } := by
  rw [feed_single rfl]
  exact step_type hfound rfl

theorem feed_name (hfound : s.foundGLedConfig = false) (htype : s.foundLedConfigT = true) :
    feed lexer s [.word "g_led_config".toList] = .ok { s with foundGLedConfig := true } := by
  rw [feed_single rfl]
  exact step_name hfound htype rfl

theorem feed_semicolon (hfound : s.foundGLedConfig = true) :
    feed lexer s [.punct ';'] = .ok { s with foundGLedConfig := false } := by
  rw [feed_single rfl]
  exact step_semicolon hfound rfl

theorem feed_directivePieces (configType : ConfigType) :
    feed lexer Parser.initial (directivePieces configType) = .ok Parser.initial := by
  cases configType <;>
    · rw [directivePieces,
        feed_cons_ok (feed_outside rfl (by decide) (by decide))]
      exact feed_outside rfl (by decide) (by decide)

theorem feed_headerParts :
    feed lexer Parser.initial (.word "__attribute__".toList :: spaced headerParts) =
      .ok { Parser.initial with foundLedConfigT := true, foundGLedConfig := true } := by
  have hspace {s : Parser} : feed lexer s [.space [' ']] = .ok s := feed_space (by decide)
  have hpunct (c : Char) : feed lexer Parser.initial [.punct c] = .ok Parser.initial :=
    feed_punct_outside rfl c
  have hattribute : feed lexer Parser.initial [.word "__attribute__".toList] =
      .ok Parser.initial := feed_word_outside rfl (by decide) (by decide)
  have hweak : feed lexer Parser.initial [.word "weak".toList] = .ok Parser.initial :=
    feed_word_outside rfl (by decide) (by decide)
  have htype : feed lexer Parser.initial [.word "led_config_t".toList] =
      .ok { Parser.initial with foundLedConfigT := true } := feed_type rfl
  have hpieces : spaced headerParts =
      [.space [' '], .punct '(', .punct '(', .word "weak".toList, .punct ')', .punct ')',
        .space [' '], .word "led_config_t".toList, .space [' '], .word "g_led_config".toList] :=
    rfl
  rw [hpieces, feed_cons_ok hattribute, feed_cons_ok hspace, feed_cons_ok (hpunct '('),
    feed_cons_ok (hpunct '('), feed_cons_ok hweak, feed_cons_ok (hpunct ')'),
    feed_cons_ok (hpunct ')'), feed_cons_ok hspace, feed_cons_ok htype, feed_cons_ok hspace]
  exact feed_name rfl rfl

theorem does_openParts :
    Does lexer (spaced openParts) (Parser.openBracket ∘ Parser.openBracket) := by
  have hspace : Does lexer [.space [' ']] id := does_space (by decide)
  have hline : Does lexer [.space ['\n', ' ', ' ']] id := does_space (by decide)
  exact hspace.append (does_equals.append (hspace.append (does_open.append
    (hline.append does_open))))

theorem does_closeMatrixParts : Does lexer (spaced closeMatrixParts) Parser.closeBracket :=
  (does_space (w := ['\n', ' ', ' ']) (by decide)).append does_closeComma

/-- The variables when the loop is done. -/
def parsed (infoData : InfoData) : Parser :=
  ⟨true, false, 0, 3, (ledMatrix infoData).map (List.map cellValue), [],
    infoData.layout.flatMap positionValues, infoData.layout.map flagValue⟩

theorem feed_endParts {matrix : List (List (Option Coerced))}
    {positionRaw flags : List (Option Coerced)} :
    feed lexer ⟨true, true, 1, 3, matrix, [], positionRaw, flags⟩ (spaced endParts) =
      .ok ⟨true, false, 0, 3, matrix, [], positionRaw, flags⟩ := by
  have hpieces : spaced endParts = [.space ['\n'], .punct '\x7d', .punct ';'] := rfl
  rw [hpieces, feed_cons_ok (feed_space (by decide)), feed_cons_ok (feed_close rfl)]
  exact feed_semicolon rfl

theorem feed_endifPieces (hfound : s.foundGLedConfig = false) :
    feed lexer s endifPieces = .ok s := by
  rw [endifPieces, feed_cons_ok (feed_space (by decide))]
  exact feed_outside hfound (by decide) (by decide)

theorem feed_positions (matrix : List (List (Option Coerced))) (layout : List LedData) :
    feed lexer ⟨true, true, 1, 1, matrix, [], [], []⟩
        (spaced (listParts "  ".toList (layout.map posPieces))) =
      .ok ⟨true, true, 1, 2, matrix, [], layout.flatMap positionValues, []⟩ := by
  rw [(does_listParts (by decide) does_pos layout).feed_eq _ rfl]
  have hopen : Parser.openBracket ⟨true, true, 1, 1, matrix, [], [], []⟩ =
      ⟨true, true, 2, 2, matrix, [], [], []⟩ := rfl
  rw [hopen, foldl_posEffect, List.nil_append]
  rfl

theorem feed_flags (matrix : List (List (Option Coerced))) (positionRaw : List (Option Coerced))
    (layout : List LedData) :
    feed lexer ⟨true, true, 1, 2, matrix, [], positionRaw, []⟩
        (spaced (listParts "  ".toList (layout.map flagPieces))) =
      .ok ⟨true, true, 1, 3, matrix, [], positionRaw, layout.map flagValue⟩ := by
  rw [(does_listParts (by decide) does_flag layout).feed_eq _ rfl]
  have hopen : Parser.openBracket ⟨true, true, 1, 2, matrix, [], positionRaw, []⟩ =
      ⟨true, true, 2, 3, matrix, [], positionRaw, []⟩ := rfl
  rw [hopen, foldl_stash_flags, List.nil_append]
  rfl

theorem feed_configPieces (infoData : InfoData) (configType : ConfigType) :
    feed lexer Parser.initial (configPieces infoData configType) = .ok (parsed infoData) := by
  have hopen : feed lexer { Parser.initial with foundLedConfigT := true, foundGLedConfig := true }
      (spaced openParts) = .ok (inMatrix []) := does_openParts.feed_eq _ rfl
  have hclose (matrix : List (List (Option Coerced))) :
      feed lexer (inMatrix matrix) (spaced closeMatrixParts) =
        .ok ⟨true, true, 1, 1, matrix, [], [], []⟩ := does_closeMatrixParts.feed_eq _ rfl
  have hpieces : configPieces infoData configType =
      directivePieces configType ++ ((.word "__attribute__".toList :: spaced headerParts) ++
        (spaced openParts ++ (spaced (matrixParts (ledMatrix infoData)) ++
          (spaced closeMatrixParts ++
            (spaced (listParts "  ".toList (infoData.layout.map posPieces)) ++
              (spaced (listParts "  ".toList (infoData.layout.map flagPieces)) ++
                (spaced endParts ++ endifPieces))))))) := by
    simp only [configPieces, bodyParts, spaced_append, List.append_assoc, List.cons_append]
  rw [hpieces, feed_append_ok (feed_directivePieces configType), feed_append_ok feed_headerParts,
    feed_append_ok hopen, feed_append_ok (feed_matrixParts [] _), List.nil_append,
    feed_append_ok (hclose _), feed_append_ok (feed_positions _ _),
    feed_append_ok (feed_flags _ _ _), feed_append_ok feed_endParts]
  exact feed_endifPieces rfl

/-! ## The tables are valid -/

theorem getChunks_positions (layout : List LedData) :
    getChunks (layout.flatMap positionValues) = layout.map positionValues := by
  induction layout with
  | nil => rfl
  | cons led layout ih =>
      rw [List.flatMap_cons, List.map_cons, ← ih]
      rfl

theorem length_positions (layout : List LedData) :
    (layout.flatMap positionValues).length = 2 * layout.length := by
  induction layout with
  | nil => rfl
  | cons led layout ih =>
      have hled : (positionValues led).length = 2 := rfl
      rw [List.flatMap_cons, List.length_append, ih, hled, List.length_cons]
      omega

theorem matrixIndexes_lt {infoData : InfoData} (hrange : InRange infoData)
    (hdistinct : Distinct infoData.layout) :
    ∀ index ∈ matrixIndexes ((ledMatrix infoData).map (List.map cellValue)),
      ∃ i : Nat, index = .int i ∧ i < infoData.layout.length := by
  intro index hindex
  obtain ⟨value, hvalue, hsome⟩ := List.mem_filterMap.mp hindex
  obtain ⟨row, hrow, hcell⟩ := List.mem_flatten.mp hvalue
  obtain ⟨line, hline, rfl⟩ := List.mem_map.mp hrow
  obtain ⟨cell, hmem, rfl⟩ := List.mem_map.mp hcell
  cases cell with
  | none => cases hsome
  | some i =>
      obtain ⟨r, hr⟩ := List.mem_iff_getElem?.mp hline
      obtain ⟨c, hc⟩ := List.mem_iff_getElem?.mp hmem
      obtain ⟨led, hled, -⟩ := (ledMatrix_iff hrange hdistinct r c i).mp ⟨line, hr, hc⟩
      exact ⟨i, (Option.some.inj hsome).symm, (List.getElem?_eq_some_iff.mp hled).1⟩

theorem validateLedConfig_parsed {infoData : InfoData} (hrange : InRange infoData)
    (hdistinct : Distinct infoData.layout) :
    validateLedConfig (parsed infoData).matrix infoData.rows infoData.cols
      (getChunks (parsed infoData).positionRaw) (parsed infoData).positionRaw
      (parsed infoData).flags = true := by
  have hsized := ledMatrix_sized infoData
  have hrows : ((ledMatrix infoData).map (List.map cellValue)).length = infoData.rows := by
    rw [List.length_map, hsized.rows]
  have hcols : ((ledMatrix infoData).map (List.map cellValue)).all
      (fun row => row.length = infoData.cols) = true := by
    refine List.all_eq_true.mpr fun row hrow => ?_
    obtain ⟨line, hline, rfl⟩ := List.mem_map.mp hrow
    simp [hsized.cols line hline]
  have hindexes : (matrixIndexes ((ledMatrix infoData).map (List.map cellValue))).all
      (indexFits infoData.layout.length) = true := by
    refine List.all_eq_true.mpr fun index hindex => ?_
    obtain ⟨i, rfl, hi⟩ := matrixIndexes_lt hrange hdistinct index hindex
    simpa [indexFits] using hi
  have heven : (infoData.layout.flatMap positionValues).length % 2 = 0 := by
    rw [length_positions]
    omega
  simp only [validateLedConfig, parsed, hrows, hcols, getChunks_positions, heven,
    List.length_map, hindexes, decide_true, Bool.true_or, Bool.and_self]

/-! ## The places of the LEDs -/

/-- An LED of the result. -/
def entryOf (led : LedData) (place : Option (Nat × Nat)) : LedEntry :=
  ⟨some (.int (led.x.getD 0)), some (.int (led.y.getD 0)), flagValue led, place⟩

theorem mapM_eq_map {α β : Type} {f : α → Except Exit β} {g : α → β} {xs : List α}
    (h : ∀ x ∈ xs, f x = .ok (g x)) : xs.mapM f = .ok (xs.map g) := by
  induction xs with
  | nil => rfl
  | cons x xs ih =>
      rw [List.mapM_cons, h x List.mem_cons_self, ih fun y hy => h y (List.mem_cons_of_mem x hy)]
      rfl

/-- The result, when the places of the LEDs are known. -/
def placed (layout : List LedData) (places : Nat → Option (Nat × Nat)) : List LedEntry :=
  layout.mapIdx fun index led => entryOf led (places index)

theorem ledEntries_eq (layout : List LedData) :
    ledEntries (layout.map positionValues) (layout.map flagValue) =
      .ok (placed layout fun _ => none) := by
  have hentry : ∀ entry ∈ (layout.map positionValues).zipIdx,
      ledEntry (layout.map flagValue) entry =
        .ok ((layout[entry.2]?.map fun led => entryOf led none).getD
          ⟨none, none, none, none⟩) := by
    rintro ⟨item, index⟩ hmem
    have hitem := List.mem_zipIdx_iff_getElem?.mp hmem
    rw [List.getElem?_map] at hitem
    obtain ⟨led, hled, rfl⟩ := Option.map_eq_some_iff.mp hitem
    simp [ledEntry, hled, positionValues, entryOf]
  rw [ledEntries]
  refine (mapM_eq_map hentry).trans (congrArg Except.ok ?_)
  apply List.ext_getElem?
  intro index
  rw [placed, List.getElem?_mapIdx, List.getElem?_map, List.getElem?_zipIdx, List.getElem?_map]
  cases hled : layout[index]? <;> simp [hled]

theorem setMatrix_placed {layout : List LedData} (places : Nat → Option (Nat × Nat))
    (place : Nat × Nat) {index : Nat} (h : index < layout.length) :
    setMatrix (placed layout places) place (some (.int index)) =
      .ok (placed layout (Function.update places index (some place))) := by
  have hlength : (placed layout places).length = layout.length := List.length_mapIdx
  have hindex : listIndex (placed layout places).length index = some index := by
    rw [listIndex, if_pos (by rw [hlength]; omega)]
    rfl
  rw [setMatrix, hindex]
  refine congrArg Except.ok (List.ext_getElem? fun i => ?_)
  rw [List.getElem?_modify, placed, placed, List.getElem?_mapIdx, List.getElem?_mapIdx]
  by_cases hi : index = i
  · subst hi
    simp only [if_true, Function.update_self]
    rw [Option.map_eq_map, Option.map_map]
    rfl
  · simp [hi, Function.update_of_ne (Ne.symm hi)]

/-- Which place the parser gives to an LED that stands at this cell. -/
def placeCell (places : Nat → Option (Nat × Nat)) (cell : (Nat × Nat) × Option Nat) :
    Nat → Option (Nat × Nat) :=
  match cell.2 with
  | none => places
  | some index => Function.update places index (some cell.1)

def rowCells (line : List (Option Nat)) (r : Nat) : List ((Nat × Nat) × Option Nat) :=
  line.zipIdx.map fun (cell, c) => ((r, c), cell)

def matrixCells (matrix : List (List (Option Nat))) : List ((Nat × Nat) × Option Nat) :=
  matrix.zipIdx.flatMap fun (line, r) => rowCells line r

theorem mem_matrixCells {matrix : List (List (Option Nat))} {r c : Nat} {cell : Option Nat} :
    ((r, c), cell) ∈ matrixCells matrix ↔
      ∃ cells, matrix[r]? = some cells ∧ cells[c]? = some cell := by
  simp only [matrixCells, rowCells, List.mem_flatMap, List.mem_map, Prod.exists, Prod.mk.injEq,
    List.mem_zipIdx_iff_getElem?]
  constructor
  · rintro ⟨line, r', hline, cell', c', hcell, ⟨rfl, rfl⟩, rfl⟩
    exact ⟨line, hline, hcell⟩
  · rintro ⟨line, hline, hcell⟩
    exact ⟨line, r, hline, cell, c, hcell, ⟨rfl, rfl⟩, rfl⟩

theorem foldl_placeCell_none {cells : List ((Nat × Nat) × Option Nat)} {index : Nat}
    (h : ∀ place, (place, some index) ∉ cells) (places : Nat → Option (Nat × Nat)) :
    cells.foldl placeCell places index = places index := by
  induction cells generalizing places with
  | nil => rfl
  | cons cell cells ih =>
      obtain ⟨place, other⟩ := cell
      rw [List.foldl_cons, ih fun place hplace => h place (List.mem_cons_of_mem _ hplace)]
      cases other with
      | none => rfl
      | some i =>
          have hne : index ≠ i := fun heq => h place (heq ▸ List.mem_cons_self)
          exact Function.update_of_ne hne _ _

theorem foldl_placeCell_some {cells : List ((Nat × Nat) × Option Nat)} {index : Nat}
    {place : Nat × Nat} (hmem : (place, some index) ∈ cells)
    (hunique : ∀ other, (other, some index) ∈ cells → other = place)
    (places : Nat → Option (Nat × Nat)) :
    cells.foldl placeCell places index = some place := by
  induction cells generalizing places with
  | nil => cases hmem
  | cons cell cells ih =>
      rw [List.foldl_cons]
      by_cases hlater : (place, some index) ∈ cells
      · exact ih hlater (fun other hother => hunique other (List.mem_cons_of_mem _ hother)) _
      · have hnone : ∀ other, (other, some index) ∉ cells := fun other hother =>
          hlater (hunique other (List.mem_cons_of_mem _ hother) ▸ hother)
        have hcell : (place, some index) = cell := (List.mem_cons.mp hmem).resolve_right hlater
        rw [foldl_placeCell_none hnone, ← hcell]
        exact Function.update_self index _ places

theorem foldlM_rowCells {layout : List LedData} {line : List (Option Nat)} {r : Nat}
    (h : ∀ index : Nat, some index ∈ line → index < layout.length)
    (places : Nat → Option (Nat × Nat)) :
    (line.map cellValue).zipIdx.foldlM
        (fun ledConfig (index, c) => setMatrix ledConfig (r, c) index) (placed layout places) =
      .ok (placed layout ((rowCells line r).foldl placeCell places)) := by
  unfold rowCells
  generalize 0 = start
  induction line generalizing start places with
  | nil => rfl
  | cons cell line ih =>
      have hcell : setMatrix (placed layout places) (r, start) (cellValue cell) =
          .ok (placed layout (placeCell places ((r, start), cell))) := by
        cases cell with
        | none => rfl
        | some index => exact setMatrix_placed places (r, start) (h index List.mem_cons_self)
      rw [List.map_cons, List.zipIdx_cons, List.foldlM_cons]
      simp only [hcell, bind, Except.bind]
      exact ih (fun index hindex => h index (List.mem_cons_of_mem _ hindex)) _ _

theorem foldlM_matrixCells {layout : List LedData} {matrix : List (List (Option Nat))}
    (h : ∀ line ∈ matrix, ∀ index : Nat, some index ∈ line → index < layout.length)
    (start : Nat) (places : Nat → Option (Nat × Nat)) :
    ((matrix.map (List.map cellValue)).zipIdx start).foldlM (fun ledConfig (row, r) =>
        row.zipIdx.foldlM (fun ledConfig (index, c) => setMatrix ledConfig (r, c) index)
          ledConfig) (placed layout places) =
      .ok (placed layout (((matrix.zipIdx start).flatMap fun (line, r) => rowCells line r).foldl
        placeCell places)) := by
  induction matrix generalizing start places with
  | nil => rfl
  | cons line matrix ih =>
      have hline := foldlM_rowCells (r := start) (h line List.mem_cons_self) places
      rw [List.map_cons, List.zipIdx_cons, List.foldlM_cons]
      simp only [hline, bind, Except.bind]
      rw [List.zipIdx_cons, List.flatMap_cons, List.foldl_append]
      exact ih (fun other hother => h other (List.mem_cons_of_mem _ hother)) _ _

theorem foldl_ledMatrix {infoData : InfoData} (hrange : InRange infoData)
    (hdistinct : Distinct infoData.layout) {index : Nat} {led : LedData}
    (hled : infoData.layout[index]? = some led) :
    (matrixCells (ledMatrix infoData)).foldl placeCell (fun _ => none) index = led.matrix := by
  have hmem (place : Nat × Nat) :
      (place, some index) ∈ matrixCells (ledMatrix infoData) ↔ led.matrix = some place := by
    rw [mem_matrixCells, ledMatrix_iff hrange hdistinct]
    simp [hled]
  cases hmatrix : led.matrix with
  | none =>
      refine foldl_placeCell_none (fun place hplace => ?_) _
      rw [(hmem place).mp hplace] at hmatrix
      cases hmatrix
  | some place =>
      refine foldl_placeCell_some ((hmem place).mpr hmatrix) (fun other hother => ?_) _
      have heq := (hmem other).mp hother
      rw [hmatrix] at heq
      exact (Option.some.inj heq).symm

/-- What was generated is found again. -/
theorem findLedConfig_genLedConfig (lexer : CLexer) (infoData : InfoData)
    (configType : ConfigType) (hlex : lexer.Separates (configPieces infoData configType))
    (hrange : InRange infoData) (hdistinct : Distinct infoData.layout) :
    ∃ lines, genLedConfig infoData configType = some lines ∧
      findLedConfig lexer (join ['\n'] lines) infoData.cols infoData.rows =
        .ok (infoData.layout.map fun led => ⟨some (.int (led.x.getD 0)),
          some (.int (led.y.getD 0)), some (.int (led.flags.getD 0)), led.matrix⟩) := by
  obtain ⟨lines, hlines, htext⟩ := textOf_configPieces hrange configType
  refine ⟨lines, hlines, ?_⟩
  have hplain := configPieces_plain infoData configType
  have htokens : (lexer.lex (preprocessCFile (join ['\n'] lines))).foldlM Parser.step
      Parser.initial = .ok (parsed infoData) := by
    rw [htext, preprocessCFile_eq hplain.1 hplain.2,
      hlex (configPieces_separated infoData configType)]
    exact feed_configPieces infoData configType
  have hparse : parseLedConfig lexer (join ['\n'] lines) infoData.cols infoData.rows =
      .ok ⟨(ledMatrix infoData).map (List.map cellValue), infoData.layout.map positionValues,
        infoData.layout.map flagValue⟩ := by
    have hvalid := validateLedConfig_parsed hrange hdistinct
    have hsections : (parsed infoData).sections ≠ 0 := Nat.succ_ne_zero 2
    rw [parseLedConfig, htokens]
    simp only [bind, Except.bind, if_neg hsections, hvalid, if_true]
    rw [← getChunks_positions]
    rfl
  have hindexes : ∀ line ∈ ledMatrix infoData, ∀ index : Nat, some index ∈ line →
      index < infoData.layout.length := by
    intro line hline index hindex
    obtain ⟨r, hr⟩ := List.mem_iff_getElem?.mp hline
    obtain ⟨c, hc⟩ := List.mem_iff_getElem?.mp hindex
    obtain ⟨led, hled, -⟩ := (ledMatrix_iff hrange hdistinct r c index).mp ⟨line, hr, hc⟩
    exact (List.getElem?_eq_some_iff.mp hled).1
  have hplaces := foldlM_matrixCells hindexes 0 fun _ => none
  rw [findLedConfig, hparse]
  simp only [bind, Except.bind, ledEntries_eq]
  refine hplaces.trans (congrArg Except.ok (List.ext_getElem? fun index => ?_))
  rw [placed, List.getElem?_mapIdx, List.getElem?_map]
  cases hled : infoData.layout[index]? with
  | none => rfl
  | some led =>
      have hplace := foldl_ledMatrix hrange hdistinct hled
      exact congrArg (fun place => some (entryOf led place)) hplace

/-! ### A small lexer -/

def smallToken : Piece → Token
  | .word w => ⟨.name, w⟩
  | .number w => ⟨.integer, w⟩
  | .punct c | .operator c => ⟨.other, [c]⟩
  | .space w | .rest w => ⟨.other, w⟩

def smallLexer : CLexer where
  lex text := (cutAll text.length text).map smallToken
  wordType _ := .name
  numberType _ := .integer
  restTokens w := [⟨.other, w⟩]
  noLed_type := rfl
  decimal_type _ := rfl
  rest_text w := List.append_nil w
  blank_type _ _ token htoken := by rw [List.mem_singleton.mp htoken]
  operator_type token htoken := by rw [List.mem_singleton.mp htoken]

/-- One row of keys, an LED between them, and an LED without flags. -/
def smallBoard : InfoData where
  cols := 3
  rows := 1
  layout := [⟨some (0, 2), some 224, some 10, some 4⟩, ⟨none, some 112, some 0, some 255⟩,
    ⟨some (0, 0), some 0, some 64, none⟩]

theorem smallBoard_found : ∃ lines, genLedConfig smallBoard .rgbMatrix = some lines ∧
    findLedConfig smallLexer (join ['\n'] lines) 3 1 =
      .ok [⟨some (.int 224), some (.int 10), some (.int 4), some (0, 2)⟩,
        ⟨some (.int 112), some (.int 0), some (.int 255), none⟩,
        ⟨some (.int 0), some (.int 64), some (.int 0), some (0, 0)⟩] :=
  findLedConfig_genLedConfig smallLexer smallBoard .rgbMatrix (fun _ => by decide +kernel)
    (by unfold InRange; decide) (by unfold Distinct; decide)

end Qmk.LedConfig
