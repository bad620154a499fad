import Qmk.KeymapC.Reading

/-!
# `c2json` after `json2c`

The parser reads back the layers that `generate_c` wrote.  The short names of `KC_TRNS` and `KC_NO`
come back as the long ones, and the white space before the arguments of a keycode is dropped.
-/

namespace Qmk.KeymapC

section Keycodes

variable {lexer : CLexer}

theorem IsKeycode.cell {keycode : List Piece} (h : IsKeycode lexer keycode)
    (hseparated : Separated keycode) : Cell keycode := by
  cases h with
  | @ident w hw =>
      refine ⟨hseparated, ⟨w, [], rfl⟩, fun p hp => ?_⟩
      obtain rfl : .word w = p := Option.some.inj hp
      exact closed_word w
  | @call w gap args hw hany hgap hargs =>
      refine ⟨hseparated, ⟨w, gap ++ .punct '(' :: args ++ [.punct ')'], rfl⟩, fun p hp => ?_⟩
      rw [List.getLast?_concat] at hp
      obtain rfl : .punct ')' = p := Option.some.inj hp
      exact closed_punct ')'

theorem takeWhile_word {w : Text} (hw : IsWord w) {text : Text}
    (htext : ∀ c ∈ text.head?, isWordChar c = false) :
    (w ++ text).takeWhile isWordChar = w := by
  rw [List.takeWhile_append_of_pos hw.2.1]
  cases text with
  | nil => exact List.append_nil w
  | cons c text => rw [List.takeWhile_cons_of_neg (by simp [htext c rfl]), List.append_nil]

theorem blank_not_word {c : Char} (h : isBlank c = true) : isWordChar c = false := by
  simp only [isBlank, Bool.or_eq_true, decide_eq_true_eq] at h
  rcases h with (rfl | rfl) | rfl
  · decide
  · decide
  · decide

theorem IsKeycode.stripAny_eq {keycode : List Piece} (h : IsKeycode lexer keycode)
    (hseparated : Separated keycode) : stripAny (textOf keycode) = textOf keycode := by
  refine if_neg fun hstrip => ?_
  obtain ⟨tail, htail⟩ := List.isPrefixOf_iff_prefix.mp hstrip.1
  have hany : (textOf keycode).takeWhile isWordChar = ['A', 'N', 'Y'] := by
    rw [← htail]
    rfl
  cases h with
  | @ident w hw =>
      have htext : textOf [.word w] = w ++ [] := rfl
      rw [htext, takeWhile_word hw.word (by simp)] at hany
      subst hany
      cases htail
  | @call w gap args hw hgapAny hgap hargs =>
      cases gap with
      | nil =>
          have htext : textOf (.word w :: [] ++ .punct '(' :: args ++ [.punct ')']) =
              w ++ '(' :: (textOf args ++ [')']) := by
            simp [Piece.text]
          have hparen : ∀ c ∈ ('(' :: (textOf args ++ [')'])).head?, isWordChar c = false := by
            intro c hc
            obtain rfl : '(' = c := Option.some.inj hc
            decide
          rw [htext, takeWhile_word hw.word hparen] at hany
          exact hgapAny hany rfl
      | cons piece gap =>
          obtain ⟨v, rfl⟩ := hgap piece List.mem_cons_self
          have hspace : (Piece.space v).Valid := hseparated.valid _ (by simp)
          obtain ⟨c, v, rfl⟩ := List.exists_cons_of_ne_nil hspace.1
          have hblank : isBlank c = true := hspace.2 c List.mem_cons_self
          have htext : textOf (.word w :: (.space (c :: v) :: gap) ++ .punct '(' :: args ++
              [.punct ')']) = w ++ c :: (v ++ (textOf gap ++ '(' :: (textOf args ++ [')']))) := by
            simp [Piece.text]
          rw [htext, takeWhile_word hw.word ?_] at hany
          · rw [htext, hany] at htail
            have hrest := (List.cons.inj (List.cons.inj (List.cons.inj htail).2).2).2
            obtain rfl : '(' = c := (List.cons.inj hrest).1
            exact absurd hblank (by decide)
          · rintro d hd
            obtain rfl : c = d := Option.some.inj hd
            exact blank_not_word hblank

end Keycodes

/-! ## The round trip -/

theorem assemble_eq {layout : Text} (hlayout : layout ≠ []) {parsed : List Layer}
    {written : List (List (List Piece))} (h : List.Forall₂ (LayerKept layout) parsed written)
    (keycodes : List (List Text)) :
    assemble parsed ⟨[], [], layout, keycodes⟩ =
      ⟨[], [], layout, keycodes ++ parsed.map Layer.keycodes⟩ := by
  induction h generalizing keycodes with
  | nil =>
      rw [List.map_nil, List.append_nil]
      rfl
  | cons hlayer hrest ih =>
      rw [assemble, List.map_cons]
      dsimp only
      rw [if_neg hlayout, ih, List.append_assoc]
      rfl

theorem generatedPieces_separated {layout : Text} (hlayout : IsWord layout)
    {layers : List (List (List Piece))}
    (hcells : ∀ layer ∈ layers, ∀ keycode ∈ layer, Cell keycode) :
    Separated (generatedPieces layout layers) := by
  have hfront : Separated (includePieces ++ noticePieces) :=
    ⟨by decide, by decide⟩
  have hfooter : Separated (.punct ';' :: footerPieces) :=
    ⟨by decide, by decide⟩
  have hall := template_separated hlayout hcells hfront hfooter
  rw [generatedPieces, List.append_assoc]
  exact hall

/-- `json2c` and then `c2json` gives the layout and the keycodes back. -/
theorem c2json_generateC (lexer : CLexer) (keyboard keymap : Text) {layout : Text}
    (hlayout : IsIdent lexer layout) (hmarked : Unmarked [.word layout])
    {layers : List (List (List Piece))} (hlayers : layers ≠ [])
    (hkeycodes : ∀ layer ∈ layers, ∀ keycode ∈ layer,
      IsKeycode lexer keycode ∧ Separated keycode ∧ Unmarked keycode)
    (hlexer : lexer.Separates (generatedPieces layout layers)) :
    ∃ keptLayers, List.Forall₂ (List.Forall₂ Kept) keptLayers layers ∧
      c2json lexer keyboard keymap
          (generateC ⟨keyboard, keymap, layout, layers.map (List.map textOf)⟩) =
        some ⟨keyboard, keymap, layout, keptLayers⟩ := by
  have hcells : ∀ layer ∈ layers, ∀ keycode ∈ layer, Cell keycode :=
    fun layer hlayer keycode hkeycode =>
      (hkeycodes layer hlayer keycode hkeycode).1.cell (hkeycodes layer hlayer keycode hkeycode).2.1
  have htext := generateC_eq keyboard keymap hlayout.word hcells hmarked
    (fun layer hlayer keycode hkeycode => (hkeycodes layer hlayer keycode hkeycode).2.2)
    fun layer hlayer keycode hkeycode =>
      (hkeycodes layer hlayer keycode hkeycode).1.stripAny_eq
        (hkeycodes layer hlayer keycode hkeycode).2.1
  have hlex := hlexer (generatedPieces_separated hlayout.word hcells)
  obtain ⟨parsed, hparsed, hparse⟩ := parse_generatedPieces hlayout
    (fun layer hlayer keycode hkeycode => (hkeycodes layer hlayer keycode hkeycode).1)
    fun layer hlayer keycode hkeycode => (hkeycodes layer hlayer keycode hkeycode).2.1.valid
  have hget : getLayers lexer (generateC ⟨keyboard, keymap, layout,
      layers.map (List.map textOf)⟩) = some parsed := by
    rw [getLayers, htext, hlex]
    exact hparse
  refine ⟨parsed.map Layer.keycodes, ?_, ?_⟩
  · exact List.forall₂_map_left_iff.mpr (hparsed.imp fun _ _ hlayer => hlayer.keycodes)
  · rw [c2json, hget]
    cases hparsed with
    | nil => exact absurd rfl hlayers
    | @cons first written parsed others hfirst hothers =>
        have hassemble : assemble (first :: parsed) ⟨[], [], [], []⟩ =
            assemble parsed ⟨[], [], layout, [first.keycodes]⟩ := by
          rw [assemble]
          dsimp only
          rw [if_pos rfl, hfirst.layout, List.nil_append]
        rw [Option.map_some, hassemble, assemble_eq hlayout.word.1 hothers]
        rfl

/-! ### A small lexer -/

/-- The text up to the end of a comment, and the text behind it. -/
def cutComment : Text → Text × Text
  | [] => ([], [])
  | [c] => ([c], [])
  | c :: d :: text =>
      if c = '*' ∧ d = '/' then ([c, d], text)
      else
        match cutComment (d :: text) with
        | (comment, rest) => (c :: comment, rest)

/-- The first piece of a text that starts with `c`. -/
def cut (c : Char) (text : Text) : Piece × Text :=
  if c = '#' then
    (.rest (c :: (text.takeWhile (· ≠ '\n') ++ ['\n'])), (text.dropWhile (· ≠ '\n')).tail)
  else if c = '/' ∧ text.head? = some '*' then
    match cutComment text with
    | (comment, rest) => (.rest (c :: comment), rest)
  else if c.isDigit ∨ c = '-' ∧ text.head?.any Char.isDigit then
    (.number (c :: text.takeWhile isWordChar), text.dropWhile isWordChar)
  else if isWordChar c then
    (.word (c :: text.takeWhile isWordChar), text.dropWhile isWordChar)
  else if isBlank c then (.space (c :: text.takeWhile isBlank), text.dropWhile isBlank)
  else if c ∈ punctuationChars then (.punct c, text)
  else (.operator c, text)

def cutAll : Nat → Text → List Piece
  | 0, _ | _, [] => []
  | fuel + 1, c :: text =>
      match cut c text with
      | (piece, rest) => piece :: cutAll fuel rest

def smallWordType (w : Text) : TokenType :=
  if w = "const".toList then .keyword
  else if w = "uint16_t".toList then .keywordType
  else .name

def smallToken : Piece → Token
  | .word w => ⟨smallWordType w, w⟩
  | .number w => ⟨.integer, w⟩
  | .punct c => ⟨.punctuation, [c]⟩
  | .operator c => ⟨.other, [c]⟩
  | .space w | .rest w => ⟨.other, w⟩

def smallLexer : CLexer where
  lex text := (cutAll text.length text).map smallToken
  wordType := smallWordType
  numberType _ := .integer
  restTokens w := [⟨.other, w⟩]
  const_type := by decide
  uint16_type := by decide
  progmem_type := by decide
  keymaps_type := by decide
  matrixRows_type := by decide
  matrixCols_type := by decide
  number_type _ := .inl rfl
  decimal_type _ := rfl
  rest_type _ token htoken := by rw [List.mem_singleton.mp htoken]
  rest_text w := List.append_nil w

/-- `LT(1, MT(MOD_LCTL | MOD_LSFT, KC_ESC))` -/
def layerTapPieces : List Piece :=
  .word "LT".toList :: [] ++ .punct '(' ::
    (.number ['1'] :: .punct ',' :: .space [' '] :: .word "MT".toList :: .punct '(' ::
      [.word "MOD_LCTL".toList, .space [' '], .operator '|', .space [' '],
        .word "MOD_LSFT".toList, .punct ',', .space [' '], .word "KC_ESC".toList] ++
      .punct ')' :: []) ++ [.punct ')']

/-- A name, that keycode, and a short name in a second layer. -/
def smallLayers : List (List (List Piece)) :=
  [[[.word "KC_A".toList], layerTapPieces], [[.word "_______".toList]]]

theorem isIdent_small {w : Text} (hword : (Piece.word w).Valid) (htype : smallWordType w = .name) :
    IsIdent smallLexer w :=
  ⟨hword, htype⟩

theorem isKeycode_layerTap : IsKeycode smallLexer layerTapPieces := by
  have hinner : Arguments smallLexer [.word "MOD_LCTL".toList, .space [' '], .operator '|',
      .space [' '], .word "MOD_LSFT".toList, .punct ',', .space [' '], .word "KC_ESC".toList] :=
    .word (isIdent_small (by decide) (by decide)) <| .space <| .operator <|
      .space <| .word (isIdent_small (by decide) (by decide)) <| .comma <|
      .space <| .word (isIdent_small (by decide) (by decide)) .nil
  have hargs : Arguments smallLexer (.number ['1'] :: .punct ',' :: .space [' '] ::
      .word "MT".toList :: .punct '(' :: _ ++ .punct ')' :: []) :=
    .number <| .comma <| .space <|
      .word (isIdent_small (by decide) (by decide)) <| .nested hinner .nil
  exact .call (isIdent_small (by decide) (by decide)) (fun h => nomatch h)
    (fun _ h => nomatch h) hargs

theorem smallLayers_roundTrip :
    "LAYOUT".toList ≠ [] ∧ ∃ keptLayers, List.Forall₂ (List.Forall₂ Kept) keptLayers smallLayers ∧
      c2json smallLexer "planck".toList "default".toList
          (generateC ⟨"planck".toList, "default".toList, "LAYOUT".toList,
            smallLayers.map (List.map textOf)⟩) =
        some ⟨"planck".toList, "default".toList, "LAYOUT".toList, keptLayers⟩ := by
  refine ⟨by decide, c2json_generateC smallLexer _ _
    (isIdent_small (by decide) (by decide)) (by decide)
    (List.cons_ne_nil _ _) ?_ fun _ => by decide +kernel⟩
  have hmarks : ∀ layer ∈ smallLayers, ∀ keycode ∈ layer, Unmarked keycode := by decide
  have hvalid : ∀ layer ∈ smallLayers, ∀ keycode ∈ layer, ∀ piece ∈ keycode, piece.Valid := by
    decide
  have hapart : ∀ layer ∈ smallLayers, ∀ keycode ∈ layer, keycode.IsChain Apart := by
    decide
  have hgrammar : ∀ layer ∈ smallLayers, ∀ keycode ∈ layer, IsKeycode smallLexer keycode := by
    intro layer hlayer keycode hkeycode
    rcases List.mem_pair.mp hlayer with rfl | rfl
    · rcases List.mem_pair.mp hkeycode with rfl | rfl
      · exact .ident (isIdent_small (by decide) (by decide))
      · exact isKeycode_layerTap
    · obtain rfl := List.mem_singleton.mp hkeycode
      exact .ident (isIdent_small (by decide) (by decide))
  exact fun layer hlayer keycode hkeycode => ⟨hgrammar layer hlayer keycode hkeycode,
    ⟨hvalid layer hlayer keycode hkeycode, hapart layer hlayer keycode hkeycode⟩,
    hmarks layer hlayer keycode hkeycode⟩

/-- A short name comes back as the long one. -/
theorem shortName_expanded :
    IsKeycode smallLexer [.word "_______".toList] ∧
      smallLexer.Separates
        (generatedPieces "LAYOUT".toList [[[.word "_______".toList]]]) ∧
      c2json smallLexer [] [] (generateC ⟨[], [], "LAYOUT".toList, [["_______".toList]]⟩) =
        some ⟨[], [], "LAYOUT".toList, [["KC_TRNS".toList]]⟩ ∧
      ¬ SameButSpace "KC_TRNS".toList "_______".toList := by
  exact ⟨.ident (isIdent_small (by decide) (by decide)),
    fun _ => by decide +kernel, by decide +kernel, by unfold SameButSpace; decide +kernel⟩

end Qmk.KeymapC
