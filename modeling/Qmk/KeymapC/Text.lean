import Qmk.KeymapC.Parse

/-!
# The generated text

`generate_c` writes the pieces of `generatedPieces`, unless a keycode or the layout holds one of the
placeholders that it replaces after the keymap.
-/

namespace Qmk.KeymapC

/-! ## Placeholders -/

/-- The placeholders that are replaced after the keymap is in the text. -/
def laterMarks : List Text := [encoderMapMark, dipSwitchMapMark, macroOutputMark, includesMark]

theorem replaceFrom_skip (old new : Text) (skip : Nat) (text : Text) :
    replaceFrom old new skip text = replaceFrom old new 0 (text.drop skip) := by
  induction text generalizing skip with
  | nil => cases skip <;> rfl
  | cons c text ih =>
      cases skip with
      | zero => rfl
      | succ skip => exact ih skip

theorem replace_absent {old text : Text} (new : Text) (h : ¬ old <:+: text) :
    replace text old new = text := by
  unfold replace
  induction text with
  | nil => rfl
  | cons c text ih =>
      have hprefix : ¬ old.isPrefixOf (c :: text) = true :=
        fun hprefix => h (List.isPrefixOf_iff_prefix.mp hprefix).isInfix
      rw [replaceFrom, if_neg hprefix,
        ih fun hinside => h (hinside.trans (List.suffix_cons c text).isInfix)]

/-- A placeholder that starts a line is replaced if it is not in the text before. -/
theorem replace_line {old : Text} (hold : old ≠ []) (hline : '\n' ∉ old) (new : Text)
    {before : Text} (h : ¬ old <:+: before) (after : Text) :
    replace (before ++ '\n' :: (old ++ after)) old new =
      before ++ '\n' :: (new ++ replace after old new) := by
  have hat : replaceFrom old new 0 (old ++ after) = new ++ replaceFrom old new 0 after := by
    cases old with
    | nil => exact absurd rfl hold
    | cons c old =>
        have hprefix : (c :: old).isPrefixOf (c :: (old ++ after)) = true :=
          List.isPrefixOf_iff_prefix.mpr (List.prefix_append (c :: old) after)
        rw [List.cons_append, replaceFrom, if_pos hprefix, List.length_cons, Nat.add_sub_cancel,
          replaceFrom_skip, List.drop_left]
  unfold replace
  induction before with
  | nil =>
      have hprefix : ¬ old.isPrefixOf ('\n' :: (old ++ after)) = true := by
        intro hprefix
        cases old with
        | nil => exact hold rfl
        | cons c old =>
            obtain ⟨rfl, -⟩ := List.cons_prefix_cons.mp (List.isPrefixOf_iff_prefix.mp hprefix)
            exact hline List.mem_cons_self
      rw [List.nil_append, List.nil_append, replaceFrom, if_neg hprefix, hat]
  | cons c before ih =>
      have hprefix : ¬ old.isPrefixOf (c :: (before ++ '\n' :: (old ++ after))) = true := by
        intro hprefix
        have hprefix := List.isPrefixOf_iff_prefix.mp hprefix
        rw [← List.cons_append] at hprefix
        rcases Nat.lt_or_ge (c :: before).length old.length with hlong | hshort
        · -- The placeholder would hold the end of the line.
          have hwhole : (c :: before) ++ ['\n'] <+: (c :: before) ++ '\n' :: (old ++ after) :=
            ⟨old ++ after, by rw [List.append_assoc]; rfl⟩
          have hinside : (c :: before) ++ ['\n'] <+: old :=
            List.prefix_of_prefix_length_le hwhole hprefix (by
              rw [List.length_append]
              exact hlong)
          exact hline (hinside.subset (List.mem_append_right _ List.mem_cons_self))
        · exact h (List.prefix_of_prefix_length_le hprefix (List.prefix_append _ _) hshort).isInfix
      rw [List.cons_append, replaceFrom, if_neg hprefix,
        ih fun hinside => h (hinside.trans (List.suffix_cons c before).isInfix)]
      rfl

/-! ## Placeholders in pieces -/

theorem Apart.boundary {p q : Piece} (hp : p.Valid) (h : Apart p q) :
    (∀ c ∈ p.text.getLast?, isWordChar c = false) ∨ ∀ c ∈ q.text.head?, isWordChar c = false := by
  cases p with
  | word w => exact .inr h
  | number w => exact .inr h
  | punct c =>
      have hall : ∀ c ∈ punctuationChars, isWordChar c = false := by decide
      exact .inl fun d hd => by
        obtain rfl : c = d := Option.some.inj hd
        exact hall c hp
  | operator c =>
      have hall : ∀ c ∈ operatorChars, isWordChar c = false := by decide
      exact .inl fun d hd => by
        obtain rfl : c = d := Option.some.inj hd
        exact hall c hp
  | space w =>
      refine .inl fun c hc => ?_
      have hblank := hp.2 c (List.mem_of_getLast? hc)
      simp only [isBlank, Bool.or_eq_true, decide_eq_true_eq] at hblank
      rcases hblank with (rfl | rfl) | rfl
      · decide
      · decide
      · decide
  | rest w => exact .inl hp.2

theorem textOf_head? {pieces : List Piece} (hvalid : ∀ piece ∈ pieces, piece.Valid) {c : Char}
    (h : (textOf pieces).head? = some c) : ∃ q ∈ pieces.head?, q.text.head? = some c := by
  cases pieces with
  | nil => cases h
  | cons q pieces =>
      refine ⟨q, rfl, ?_⟩
      have hne := (hvalid q List.mem_cons_self).text_ne_nil
      rwa [textOf_cons, List.head?_append_of_ne_nil _ hne] at h

theorem not_infix_textOf {mark : Text} (hne : mark ≠ []) (hword : ∀ c ∈ mark, isWordChar c = true)
    {pieces : List Piece} (h : Separated pieces)
    (hpieces : ∀ piece ∈ pieces, ¬ mark <:+: piece.text) : ¬ mark <:+: textOf pieces := by
  induction pieces with
  | nil => exact fun hinside => hne (List.infix_nil.mp hinside)
  | cons p pieces ih =>
      have hp := h.valid p List.mem_cons_self
      have hrest : Separated pieces :=
        ⟨fun piece hpiece => h.valid piece (List.mem_cons_of_mem _ hpiece), h.apart.tail⟩
      have hnot := ih hrest fun piece hpiece => hpieces piece (List.mem_cons_of_mem _ hpiece)
      rw [textOf_cons, List.infix_append_iff]
      rintro (hinside | hinside | ⟨front, back, rfl, hfront, hback⟩)
      · exact hpieces p List.mem_cons_self hinside
      · exact hnot hinside
      · -- The placeholder would cross the border of two pieces.
        rcases front.eq_nil_or_concat with rfl | ⟨front, last, rfl⟩
        · exact hnot hback.isInfix
        cases back with
        | nil =>
            rw [List.append_nil] at hpieces
            exact hpieces p List.mem_cons_self hfront.isInfix
        | cons first back =>
            obtain ⟨q, hq, hfirst⟩ := textOf_head? hrest.valid (c := first) (by
              obtain ⟨tail, htail⟩ := hback
              rw [← htail]
              rfl)
            have hapart : Apart p q := (List.isChain_cons.mp h.apart).1 q hq
            have hlast : p.text.getLast? = some last := by
              obtain ⟨head, hhead⟩ := hfront
              rw [← hhead, List.concat_eq_append, ← List.append_assoc, List.getLast?_concat]
            rcases hapart.boundary hp with hp | hq
            · have hchar := hword last (by simp)
              rw [hp last hlast] at hchar
              cases hchar
            · have hchar := hword first (by simp)
              rw [hq first hfirst] at hchar
              cases hchar

/-! ## The pieces of the text -/

def joinPieces : List (List Piece) → List Piece
  | [] => []
  | [keycode] => keycode
  | keycode :: keycodes => keycode ++ .punct ',' :: .space [' '] :: joinPieces keycodes

def layerPieces (layout : Text) (layerNum : Nat) (layer : List (List Piece)) : List Piece :=
  [.punct '[', .number (Nat.toDigits 10 layerNum), .punct ']', .space [' '], .operator '=',
    .space [' '], .word layout, .punct '('] ++ joinPieces layer ++ [.punct ')']

def layersPieces (layout : Text) : Nat → List (List (List Piece)) → List Piece
  | _, [] => []
  | layerNum, layer :: layers =>
      (if layerNum ≠ 0 then [.punct ','] else []) ++
        .space ['\n', ' ', ' ', ' ', ' '] :: layerPieces layout layerNum layer ++
          layersPieces layout (layerNum + 1) layers

def signaturePieces : List Piece :=
  [.word "const".toList, .space [' '], .word "uint16_t".toList, .space [' '],
    .word "PROGMEM".toList, .space [' '], .word "keymaps".toList, .punct '[', .punct ']',
    .punct '[', .word "MATRIX_ROWS".toList, .punct ']', .punct '[', .word "MATRIX_COLS".toList,
    .punct ']', .space [' '], .operator '=', .space [' '], .punct '\x7b']

def tablePieces (layout : Text) (layers : List (List (List Piece))) : List Piece :=
  signaturePieces ++ layersPieces layout 0 layers ++ [.space ['\n'], .punct '\x7d', .punct ';']

/-- What stands before the placeholder for includes. -/
def includePieces : List Piece :=
  [.rest "#include QMK_KEYBOARD_H\n".toList, .rest "#if __has_include(\"keymap.h\")\n".toList,
    .rest "#    include \"keymap.h\"\n".toList, .rest "#endif\n".toList]

def noticePieces : List Piece :=
  [.space "\n\n".toList,
    .rest ("/* THIS FILE WAS GENERATED!\n *\n".toList ++
      " * This file was generated by qmk json2c. You may or may not want to\n".toList ++
      " * edit it directly.\n */".toList),
    .space "\n\n".toList]

def footerPieces : List Piece :=
  [.space "\n\n\n\n\n".toList, .rest "#ifdef OTHER_KEYMAP_C\n".toList,
    .rest "#    include OTHER_KEYMAP_C\n".toList,
    .rest "#endif // OTHER_KEYMAP_C\n".toList]

/-- The pieces of a generated `keymap.c`. -/
def generatedPieces (layout : Text) (layers : List (List (List Piece))) : List Piece :=
  includePieces ++ noticePieces ++ tablePieces layout layers ++ footerPieces

/-! ### The array -/

theorem join_cons (sep part : Text) {parts : List Text} (h : parts ≠ []) :
    join sep (part :: parts) = part ++ sep ++ join sep parts := by
  cases parts with
  | nil => exact absurd rfl h
  | cons next parts => rfl

theorem join_concat (sep : Text) {lines : List Text} (h : lines ≠ []) (line : Text) :
    join sep (lines ++ [line]) = join sep lines ++ sep ++ line := by
  induction lines with
  | nil => exact absurd rfl h
  | cons first lines ih =>
      cases lines with
      | nil => rfl
      | cons second lines =>
          have hne := List.cons_ne_nil second lines
          rw [List.cons_append, join_cons _ _ (List.append_ne_nil_of_left_ne_nil hne [line]),
            join_cons _ _ hne, ih hne]
          simp only [List.append_assoc]

theorem addComma_ne_nil {lines : List Text} (h : lines ≠ []) : addComma lines ≠ [] := by
  cases lines with
  | nil => exact absurd rfl h
  | cons first lines => cases lines <;> exact List.cons_ne_nil _ _

theorem join_addComma (sep : Text) {lines : List Text} (h : lines ≠ []) :
    join sep (addComma lines) = join sep lines ++ [','] := by
  induction lines with
  | nil => exact absurd rfl h
  | cons first lines ih =>
      cases lines with
      | nil => rfl
      | cons second lines =>
          have hne := List.cons_ne_nil second lines
          rw [addComma, join_cons _ _ (addComma_ne_nil hne), join_cons _ _ hne, ih hne]
          · simp only [List.append_assoc]
          · exact List.cons_ne_nil _ _

theorem textOf_joinPieces (keycodes : List (List Piece)) :
    textOf (joinPieces keycodes) = join [',', ' '] (keycodes.map textOf) := by
  induction keycodes with
  | nil => rfl
  | cons keycode keycodes ih =>
      cases keycodes with
      | nil => rfl
      | cons next keycodes =>
          have hne : (next :: keycodes).map textOf ≠ [] := List.cons_ne_nil _ _
          rw [List.map_cons, join_cons _ _ hne, ← ih, joinPieces, textOf_append]
          · rw [List.append_assoc]
            rfl
          · exact List.cons_ne_nil _ _

theorem textOf_layerPieces (layout : Text) (layerNum : Nat) {layer : List (List Piece)}
    (hstrip : ∀ keycode ∈ layer, stripAny (textOf keycode) = textOf keycode) :
    [' ', ' ', ' ', ' '] ++ textOf (layerPieces layout layerNum layer) =
      layerLine layout layerNum (layer.map textOf) := by
  have hkeycodes : (layer.map textOf).map stripAny = layer.map textOf := by
    rw [List.map_map]
    exact List.map_congr_left hstrip
  rw [layerLine, hkeycodes, ← textOf_joinPieces, layerPieces]
  simp only [textOf_append, textOf_cons, textOf_nil, Piece.text, List.append_assoc,
    List.cons_append, List.nil_append, List.append_nil]

theorem join_addLayers (layout : Text) {layers : List (List (List Piece))}
    (hstrip : ∀ layer ∈ layers, ∀ keycode ∈ layer, stripAny (textOf keycode) = textOf keycode)
    (layerNum : Nat) {lines : List Text} (h : lines ≠ []) :
    join ['\n'] (addLayers layout layerNum (layers.map (List.map textOf)) lines) =
      join ['\n'] lines ++ textOf (layersPieces layout layerNum layers) := by
  induction layers generalizing layerNum lines with
  | nil => exact (List.append_nil _).symm
  | cons layer layers ih =>
      have hline := textOf_layerPieces layout layerNum (hstrip layer List.mem_cons_self)
      have hcomma : (if layerNum ≠ 0 then addComma lines else lines) ≠ [] := by
        split
        · exact addComma_ne_nil h
        · exact h
      have hjoin : join ['\n'] (if layerNum ≠ 0 then addComma lines else lines) =
          join ['\n'] lines ++ textOf (if layerNum ≠ 0 then [.punct ','] else []) := by
        split
        · exact join_addComma _ h
        · exact (List.append_nil _).symm
      rw [List.map_cons, addLayers, layersPieces,
        ih (fun layer hlayer => hstrip layer (List.mem_cons_of_mem _ hlayer)) (layerNum + 1)
        (List.append_ne_nil_of_left_ne_nil hcomma _), join_concat _ hcomma, hjoin, ← hline]
      rw [textOf_append, textOf_append, textOf_cons, Piece.text]
      simp only [List.append_assoc, List.cons_append, List.nil_append]

theorem addLayers_ne_nil (layout : Text) (layerNum : Nat) (layers : List (List Text))
    {lines : List Text} (h : lines ≠ []) : addLayers layout layerNum layers lines ≠ [] := by
  induction layers generalizing layerNum lines with
  | nil => exact h
  | cons layer layers ih =>
      exact ih (layerNum + 1) (List.append_ne_nil_of_right_ne_nil _ (List.cons_ne_nil _ _))

theorem join_generateKeymapTable (keyboard keymap layout : Text)
    {layers : List (List (List Piece))}
    (hstrip : ∀ layer ∈ layers, ∀ keycode ∈ layer, stripAny (textOf keycode) = textOf keycode) :
    join ['\n'] (generateKeymapTable ⟨keyboard, keymap, layout, layers.map (List.map textOf)⟩) =
      textOf (tablePieces layout layers) := by
  have hsignature : keymapsSignature = textOf signaturePieces := by decide
  have hne := List.cons_ne_nil keymapsSignature []
  rw [generateKeymapTable, join_concat _ (addLayers_ne_nil _ _ _ hne),
    join_addLayers layout hstrip 0 hne, join, hsignature, tablePieces, textOf_append,
    textOf_append, List.append_assoc]
  rfl

/-! ### Separated pieces -/

/-- A piece that punctuation may follow; a comma or a space may follow it too. -/
def Closed (p : Piece) : Prop := ∀ q : Piece, (∃ c ∈ punctuationChars, q = .punct c) → Apart p q

/-- Pieces that stand in a list of arguments: they start with a word and end before punctuation. -/
structure Cell (pieces : List Piece) : Prop where
  separated : Separated pieces
  starts : ∃ w rest, pieces = .word w :: rest
  ends : ∀ p ∈ pieces.getLast?, Closed p

theorem closed_word (w : Text) : Closed (.word w) := by
  have hall : ∀ c ∈ punctuationChars, isWordChar c = false := by decide
  rintro q ⟨c, hc, rfl⟩ d hd
  obtain rfl : c = d := Option.some.inj hd
  exact hall c hc

theorem closed_punct (c : Char) : Closed (.punct c) := fun _ _ => trivial

theorem Separated.cons_punct {pieces : List Piece} (h : Separated pieces) {c : Char}
    (hc : c ∈ punctuationChars) : Separated (.punct c :: pieces) where
  valid piece hpiece := by
    rcases List.mem_cons.mp hpiece with rfl | hpiece
    · exact hc
    · exact h.valid piece hpiece
  apart := List.isChain_cons.mpr ⟨fun _ _ => trivial, h.apart⟩

theorem Separated.append_punct {pieces : List Piece} (h : Separated pieces)
    (hends : ∀ p ∈ pieces.getLast?, Closed p) {c : Char} (hc : c ∈ punctuationChars)
    {others : List Piece} (hothers : Separated others) :
    Separated (pieces ++ .punct c :: others) := by
  refine separated_append h (hothers.cons_punct hc) fun p hp q hq => ?_
  obtain rfl : .punct c = q := Option.some.inj hq
  exact hends p hp _ ⟨c, hc, rfl⟩

theorem joinPieces_separated {keycodes : List (List Piece)} (h : ∀ keycode ∈ keycodes, Cell keycode) :
    Separated (joinPieces keycodes) ∧ (∀ p ∈ (joinPieces keycodes).getLast?, Closed p) ∧
      (keycodes = [] ∨ ∃ w rest, joinPieces keycodes = .word w :: rest) := by
  induction keycodes with
  | nil => exact ⟨⟨List.forall_mem_nil _, .nil⟩, (fun _ h => nomatch h), .inl rfl⟩
  | cons keycode keycodes ih =>
      have hcell := h keycode List.mem_cons_self
      obtain ⟨w, rest, hstart⟩ := hcell.starts
      cases keycodes with
      | nil => exact ⟨hcell.separated, hcell.ends, .inr ⟨w, rest, hstart⟩⟩
      | cons next keycodes =>
          obtain ⟨hseparated, hends, hnext⟩ :=
            ih fun other hother => h other (List.mem_cons_of_mem _ hother)
          obtain ⟨v, others, hothers⟩ := hnext.resolve_left (List.cons_ne_nil _ _)
          have hspace : Separated (.space [' '] :: joinPieces (next :: keycodes)) := by
            refine ⟨fun piece hpiece => ?_, List.isChain_cons.mpr ⟨fun q hq => ?_, hseparated.apart⟩⟩
            · rcases List.mem_cons.mp hpiece with rfl | hpiece
              · exact ⟨List.cons_ne_nil _ _, by decide⟩
              · exact hseparated.valid piece hpiece
            · rw [hothers] at hq
              obtain rfl : .word v = q := Option.some.inj hq
              trivial
          have hjoin : joinPieces (keycode :: next :: keycodes) =
              keycode ++ .punct ',' :: .space [' '] :: joinPieces (next :: keycodes) := rfl
          rw [hjoin]
          refine ⟨hcell.separated.append_punct hcell.ends (by decide) hspace, fun p hp => ?_,
            .inr ⟨w, rest ++ _, by rw [hstart]; rfl⟩⟩
          have hne : joinPieces (next :: keycodes) ≠ [] := by
            rw [hothers]
            exact List.cons_ne_nil _ _
          rw [List.getLast?_append_of_ne_nil _ (List.cons_ne_nil _ _),
            List.getLast?_cons_of_ne_nil (List.cons_ne_nil _ _),
            List.getLast?_cons_of_ne_nil hne] at hp
          exact hends p hp

theorem Separated.append_of_punct {front : List Piece} {c : Char}
    (h : Separated (front ++ [.punct c])) {others : List Piece} (hothers : Separated others) :
    Separated (front ++ .punct c :: others) := by
  have happend := separated_append h hothers fun p hp q _ => by
    rw [List.getLast?_concat] at hp
    obtain rfl : .punct c = p := Option.some.inj hp
    trivial
  rwa [List.append_assoc] at happend

theorem isNumber_toDigits (n : Nat) : IsNumber (Nat.toDigits 10 n) := by
  have hdigit : ∀ c ∈ Nat.toDigits 10 n, c.isDigit = true :=
    fun c hc => Nat.isDigit_of_mem_toDigits (by decide) (by decide) hc
  have hne : Nat.toDigits 10 n ≠ [] := Nat.toDigits_ne_nil
  have hunsigned : unsigned (Nat.toDigits 10 n) = Nat.toDigits 10 n := by
    refine if_neg fun hsign => ?_
    have hminus := hdigit '-' (List.mem_of_mem_head? hsign)
    exact absurd hminus (by decide)
  unfold IsNumber
  rw [hunsigned]
  refine ⟨hne, fun c hc => ?_, fun c hc => hdigit c (List.mem_of_mem_head? hc)⟩
  simp [isWordChar, Char.isAlphanum, hdigit c hc]

theorem layerPieces_separated {layout : Text} (hlayout : IsWord layout) (layerNum : Nat)
    {layer : List (List Piece)} (h : ∀ keycode ∈ layer, Cell keycode) :
    Separated (layerPieces layout layerNum layer) := by
  obtain ⟨hkeycodes, hends, -⟩ := joinPieces_separated h
  have hopen : Separated ([.punct '[', .number (Nat.toDigits 10 layerNum), .punct ']',
      .space [' '], .operator '=', .space [' '], .word layout] ++ [.punct '(']) := by
    refine ⟨fun piece hpiece => ?_, ?_⟩
    · simp only [List.cons_append, List.nil_append, List.mem_cons, List.not_mem_nil,
        or_false] at hpiece
      rcases hpiece with rfl | rfl | rfl | rfl | rfl | rfl | rfl | rfl
      · decide
      · exact isNumber_toDigits layerNum
      · decide
      · decide
      · decide
      · decide
      · exact hlayout
      · decide
    · simp [Apart, Piece.text, isWordChar]
  have hlist : Separated (joinPieces layer ++ [.punct ')']) :=
    hkeycodes.append_punct hends (by decide) ⟨List.forall_mem_nil _, .nil⟩
  have hall := hopen.append_of_punct hlist
  rw [layerPieces, List.append_assoc]
  exact hall

theorem layersPieces_separated {layout : Text} (hlayout : IsWord layout)
    {layers : List (List (List Piece))} (h : ∀ layer ∈ layers, ∀ keycode ∈ layer, Cell keycode)
    (layerNum : Nat) {others : List Piece} (hothers : Separated others) :
    Separated (layersPieces layout layerNum layers ++ others) := by
  induction layers generalizing layerNum with
  | nil => exact hothers
  | cons layer layers ih =>
      have hrest := ih (fun layer hlayer => h layer (List.mem_cons_of_mem _ hlayer)) (layerNum + 1)
      have hlayer : Separated (layerPieces layout layerNum layer ++
          (layersPieces layout (layerNum + 1) layers ++ others)) := by
        have hpieces := layerPieces_separated hlayout layerNum (h layer List.mem_cons_self)
        rw [layerPieces] at hpieces ⊢
        have hall := hpieces.append_of_punct hrest
        rwa [List.append_assoc _ [_]]
      have hspace : Separated (.space ['\n', ' ', ' ', ' ', ' '] ::
          (layerPieces layout layerNum layer ++
            (layersPieces layout (layerNum + 1) layers ++ others))) := by
        refine ⟨fun piece hpiece => ?_, List.isChain_cons.mpr ⟨fun q hq => ?_, hlayer.apart⟩⟩
        · rcases List.mem_cons.mp hpiece with rfl | hpiece
          · exact ⟨List.cons_ne_nil _ _, by decide⟩
          · exact hlayer.valid piece hpiece
        · obtain rfl : .punct '[' = q := Option.some.inj hq
          trivial
      rw [layersPieces, List.append_assoc, List.append_assoc]
      split
      · exact hspace.cons_punct (by decide)
      · exact hspace

theorem tablePieces_separated {layout : Text} (hlayout : IsWord layout)
    {layers : List (List (List Piece))} (h : ∀ layer ∈ layers, ∀ keycode ∈ layer, Cell keycode)
    {others : List Piece} (hothers : Separated (.punct ';' :: others)) :
    Separated (tablePieces layout layers ++ others) := by
  have hend : Separated (.space ['\n'] :: .punct '\x7d' :: .punct ';' :: others) := by
    have hbrace := hothers.cons_punct (c := '\x7d') (by decide)
    refine ⟨fun piece hpiece => ?_, List.isChain_cons.mpr ⟨fun q hq => ?_, hbrace.apart⟩⟩
    · rcases List.mem_cons.mp hpiece with rfl | hpiece
      · exact ⟨List.cons_ne_nil _ _, by decide⟩
      · exact hbrace.valid piece hpiece
    · obtain rfl : .punct '\x7d' = q := Option.some.inj hq
      trivial
  have hsignature : Separated signaturePieces := ⟨by decide, by decide⟩
  rw [tablePieces, List.append_assoc, List.append_assoc]
  exact @Separated.append_of_punct signaturePieces.dropLast '\x7b' hsignature _
    (layersPieces_separated hlayout h 0 hend)

/-! ### The text -/

/-- No placeholder that is still to be replaced stands in the pieces. -/
def Unmarked (pieces : List Piece) : Prop :=
  ∀ mark ∈ laterMarks, ∀ piece ∈ pieces, ¬ mark <:+: piece.text

instance (pieces : List Piece) : Decidable (Unmarked pieces) :=
  inferInstanceAs (Decidable (∀ _ ∈ _, _))

theorem unmarked_append {pieces others : List Piece} :
    Unmarked (pieces ++ others) ↔ Unmarked pieces ∧ Unmarked others := by
  constructor
  · intro h
    exact ⟨fun mark hmark piece hpiece => h mark hmark piece (List.mem_append_left _ hpiece),
      fun mark hmark piece hpiece => h mark hmark piece (List.mem_append_right _ hpiece)⟩
  · rintro ⟨hpieces, hothers⟩ mark hmark piece hpiece
    exact (List.mem_append.mp hpiece).elim (hpieces mark hmark piece) (hothers mark hmark piece)

theorem unmarked_number (n : Nat) : Unmarked [.number (Nat.toDigits 10 n)] := by
  have hunderscore : ∀ mark ∈ laterMarks, '_' ∈ mark := by decide
  intro mark hmark piece hpiece hinside
  obtain rfl := List.mem_singleton.mp hpiece
  have hmem := hinside.subset (hunderscore mark hmark)
  exact absurd (Nat.isDigit_of_mem_toDigits (by decide) (by decide) hmem) (by decide)

theorem joinPieces_unmarked {keycodes : List (List Piece)}
    (h : ∀ keycode ∈ keycodes, Unmarked keycode) : Unmarked (joinPieces keycodes) := by
  induction keycodes with
  | nil => exact fun _ _ _ h => nomatch h
  | cons keycode keycodes ih =>
      cases keycodes with
      | nil => exact h keycode List.mem_cons_self
      | cons next keycodes =>
          have hcomma : Unmarked [.punct ',', .space [' ']] := by decide
          have hrest := ih fun other hother => h other (List.mem_cons_of_mem _ hother)
          exact unmarked_append.mpr ⟨h keycode List.mem_cons_self,
            unmarked_append.mpr ⟨hcomma, hrest⟩⟩

theorem layersPieces_unmarked {layout : Text} (hlayout : Unmarked [.word layout])
    {layers : List (List (List Piece))} (h : ∀ layer ∈ layers, ∀ keycode ∈ layer, Unmarked keycode)
    (layerNum : Nat) : Unmarked (layersPieces layout layerNum layers) := by
  induction layers generalizing layerNum with
  | nil => exact fun _ _ _ h => nomatch h
  | cons layer layers ih =>
      have hrest := ih (fun layer hlayer => h layer (List.mem_cons_of_mem _ hlayer)) (layerNum + 1)
      have hcomma : Unmarked (if layerNum ≠ 0 then [.punct ','] else []) := by
        split
        · decide
        · decide
      have hspace : Unmarked [.space ['\n', ' ', ' ', ' ', ' '], .punct '['] := by decide
      have hassign : Unmarked [.punct ']', .space [' '], .operator '=', .space [' ']] := by decide
      have hopen : Unmarked [.punct '('] := by decide
      have hclose : Unmarked [.punct ')'] := by decide
      have hkeycodes := joinPieces_unmarked (h layer List.mem_cons_self)
      have hlayer := unmarked_append.mpr ⟨hspace, unmarked_append.mpr ⟨unmarked_number layerNum,
        unmarked_append.mpr ⟨hassign, unmarked_append.mpr ⟨hlayout, unmarked_append.mpr ⟨hopen,
          unmarked_append.mpr ⟨hkeycodes, hclose⟩⟩⟩⟩⟩⟩
      rw [layersPieces, List.append_assoc]
      exact unmarked_append.mpr ⟨hcomma, unmarked_append.mpr ⟨hlayer, hrest⟩⟩

theorem tablePieces_unmarked {layout : Text} (hlayout : Unmarked [.word layout])
    {layers : List (List (List Piece))}
    (h : ∀ layer ∈ layers, ∀ keycode ∈ layer, Unmarked keycode) :
    Unmarked (tablePieces layout layers) := by
  have hsignature : Unmarked signaturePieces := by decide
  have hend : Unmarked [.space ['\n'], .punct '\x7d', .punct ';'] := by decide
  exact unmarked_append.mpr ⟨unmarked_append.mpr ⟨hsignature, layersPieces_unmarked hlayout h 0⟩,
    hend⟩

theorem not_laterMark_infix {pieces : List Piece} (h : Separated pieces) (hmarks : Unmarked pieces)
    {mark : Text} (hmark : mark ∈ laterMarks) : ¬ mark <:+: textOf pieces := by
  have hwords : ∀ mark ∈ laterMarks, mark ≠ [] ∧ ∀ c ∈ mark, isWordChar c = true := by
    decide
  exact not_infix_textOf (hwords mark hmark).1 (hwords mark hmark).2 h (hmarks mark hmark)

/-- The text of the template before the line of the keymap. -/
def beforeKeymap : Text :=
  textOf includePieces ++ includesMark ++ (textOf noticePieces).dropLast

/-- The text of the template after its placeholders. -/
def footer : Text := '\n' :: '\n' :: textOf footerPieces.tail

theorem defaultKeymapC_eq :
    defaultKeymapC = beforeKeymap ++ '\n' :: (keymapMark ++ '\n' :: (encoderMapMark ++
      '\n' :: (dipSwitchMapMark ++ '\n' :: (macroOutputMark ++ footer)))) := by
  decide +kernel

theorem beforeKeymap_eq :
    beforeKeymap ++ ['\n'] = (textOf includePieces).dropLast ++
      '\n' :: (includesMark ++ textOf noticePieces) := by
  decide +kernel

theorem replace_empty {mark : Text} (hmark : mark ∈ laterMarks) {before after : Text}
    (hbefore : ¬ mark <:+: before) (hafter : ¬ mark <:+: after) :
    replace (before ++ '\n' :: (mark ++ after)) mark [] = before ++ '\n' :: after := by
  have hmarks : ∀ mark ∈ laterMarks, mark ≠ [] ∧ '\n' ∉ mark := by decide
  rw [replace_line (hmarks mark hmark).1 (hmarks mark hmark).2 [] hbefore,
    replace_absent [] hafter, List.nil_append]

section Template

variable {layout : Text} {layers : List (List (List Piece))}

theorem template_separated (hlayout : IsWord layout)
    (hcells : ∀ layer ∈ layers, ∀ keycode ∈ layer, Cell keycode) {front : List Piece}
    (hfront : Separated (front ++ noticePieces)) {others : List Piece}
    (hothers : Separated (.punct ';' :: others)) :
    Separated (front ++ noticePieces ++ (tablePieces layout layers ++ others)) := by
  refine separated_append hfront (tablePieces_separated hlayout hcells hothers) fun p hp q hq => ?_
  obtain rfl : .word "const".toList = q := Option.some.inj hq
  have hne : noticePieces ≠ [] := by decide
  rw [List.getLast?_append_of_ne_nil _ hne] at hp
  obtain rfl : .space "\n\n".toList = p := Option.some.inj hp
  trivial

/-- The three placeholders behind the keymap are not in the text before them. -/
theorem not_mark_infix_before (hlayout : IsWord layout)
    (hcells : ∀ layer ∈ layers, ∀ keycode ∈ layer, Cell keycode)
    (htable : Unmarked (tablePieces layout layers)) :
    ∀ mark ∈ [encoderMapMark, dipSwitchMapMark, macroOutputMark],
      ¬ mark <:+: beforeKeymap ++
        '\n' :: (textOf (tablePieces layout layers) ++ ['\n', '\n']) := by
  intro mark hmark
  have hlater : mark ∈ laterMarks := List.mem_append_left [includesMark] hmark
  have hwords : ∀ mark ∈ laterMarks, mark ≠ [] ∧ ∀ c ∈ mark, isWordChar c = true := by
    decide
  have hfront : ∀ mark ∈ [encoderMapMark, dipSwitchMapMark, macroOutputMark],
      ∀ piece ∈ includePieces ++ [.word includesMark] ++ noticePieces, ¬ mark <:+: piece.text := by
    decide +kernel
  have hspace : ∀ mark ∈ laterMarks, ¬ mark <:+: ['\n', '\n'] := by decide
  have hseparated : Separated (includePieces ++ [.word includesMark] ++ noticePieces ++
      (tablePieces layout layers ++ [.space ['\n', '\n']])) :=
    template_separated hlayout hcells ⟨by decide, by decide⟩
      ⟨by decide, by decide⟩
  have hnot := not_infix_textOf (hwords mark hlater).1 (hwords mark hlater).2 hseparated
    fun piece hpiece => by
      rcases List.mem_append.mp hpiece with hpiece | hpiece
      · exact hfront mark hmark piece hpiece
      rcases List.mem_append.mp hpiece with hpiece | hpiece
      · exact htable mark hlater piece hpiece
      · obtain rfl := List.mem_singleton.mp hpiece
        exact hspace mark hlater
  have hnotice : textOf noticePieces = (textOf noticePieces).dropLast ++ ['\n'] := by
    decide
  have htext : textOf (includePieces ++ [.word includesMark] ++ noticePieces ++
      (tablePieces layout layers ++ [.space ['\n', '\n']])) =
      beforeKeymap ++ '\n' :: (textOf (tablePieces layout layers) ++ ['\n', '\n']) := by
    rw [textOf_append, textOf_append, textOf_append, textOf_append, hnotice, beforeKeymap]
    simp only [textOf_cons, textOf_nil, Piece.text, List.append_nil, List.append_assoc,
      List.cons_append, List.nil_append]
  rwa [htext] at hnot

/-- The generated text, if no placeholder stands in the layout or in a keycode. -/
theorem generateC_eq (keyboard keymap : Text) (hlayout : IsWord layout)
    (hcells : ∀ layer ∈ layers, ∀ keycode ∈ layer, Cell keycode)
    (hmarked : Unmarked [.word layout])
    (hkeycodes : ∀ layer ∈ layers, ∀ keycode ∈ layer, Unmarked keycode)
    (hstrip : ∀ layer ∈ layers, ∀ keycode ∈ layer, stripAny (textOf keycode) = textOf keycode) :
    generateC ⟨keyboard, keymap, layout, layers.map (List.map textOf)⟩ =
      textOf (generatedPieces layout layers) := by
  have htable := tablePieces_unmarked hmarked hkeycodes
  have hbefore := not_mark_infix_before hlayout hcells htable
  have hjoin := join_generateKeymapTable keyboard keymap layout hstrip
  generalize htext : textOf (tablePieces layout layers) = table at hbefore hjoin
  have hkeymap : replace defaultKeymapC keymapMark table =
      (beforeKeymap ++ '\n' :: table) ++ '\n' :: (encoderMapMark ++
        '\n' :: (dipSwitchMapMark ++ '\n' :: (macroOutputMark ++ footer))) := by
    rw [defaultKeymapC_eq, replace_line (by decide) (by decide) table
      (by decide +kernel), replace_absent table (by decide +kernel)]
    simp only [List.append_assoc, List.cons_append]
  have hencoder : replace ((beforeKeymap ++ '\n' :: table) ++ '\n' :: (encoderMapMark ++
      '\n' :: (dipSwitchMapMark ++ '\n' :: (macroOutputMark ++ footer)))) encoderMapMark [] =
      (beforeKeymap ++ '\n' :: table ++ ['\n']) ++ '\n' :: (dipSwitchMapMark ++
        '\n' :: (macroOutputMark ++ footer)) := by
    rw [replace_empty (by decide) (fun hinside => ?_) (by decide +kernel)]
    · simp only [List.append_assoc, List.cons_append, List.nil_append]
    · refine hbefore encoderMapMark (by decide) (hinside.trans ⟨[], ['\n', '\n'], ?_⟩)
      simp only [List.append_assoc, List.cons_append, List.nil_append]
  have hdip : replace ((beforeKeymap ++ '\n' :: table ++ ['\n']) ++ '\n' :: (dipSwitchMapMark ++
        '\n' :: (macroOutputMark ++ footer))) dipSwitchMapMark [] =
      (beforeKeymap ++ '\n' :: (table ++ ['\n', '\n'])) ++ '\n' :: (macroOutputMark ++ footer) := by
    rw [replace_empty (by decide) (fun hinside => ?_) (by decide +kernel)]
    · simp only [List.append_assoc, List.cons_append, List.nil_append]
    · refine hbefore dipSwitchMapMark (by decide) (hinside.trans ⟨[], ['\n'], ?_⟩)
      simp only [List.append_assoc, List.cons_append, List.nil_append]
  have hmacro : replace ((beforeKeymap ++ '\n' :: (table ++ ['\n', '\n'])) ++
      '\n' :: (macroOutputMark ++ footer)) macroOutputMark [] =
      (textOf includePieces).dropLast ++ '\n' :: (includesMark ++
        (textOf noticePieces ++ table ++ '\n' :: '\n' :: '\n' :: footer)) := by
    rw [replace_empty (by decide) (hbefore macroOutputMark (by decide)) (by decide +kernel)]
    have hline := congrArg (· ++ (table ++ '\n' :: '\n' :: '\n' :: footer)) beforeKeymap_eq
    simpa only [List.append_assoc, List.cons_append, List.nil_append] using hline
  have hafter : textOf noticePieces ++ table ++ '\n' :: '\n' :: '\n' :: footer =
      textOf (noticePieces ++ (tablePieces layout layers ++ footerPieces)) := by
    have hfooter : '\n' :: '\n' :: '\n' :: footer = textOf footerPieces := by decide
    rw [hfooter, ← htext, textOf_append, textOf_append, List.append_assoc]
  have hincludes : ¬ includesMark <:+:
      textOf (noticePieces ++ (tablePieces layout layers ++ footerPieces)) := by
    have hnotice : Separated ([] ++ noticePieces) := ⟨by decide, by decide⟩
    have hfooter : Separated (.punct ';' :: footerPieces) :=
      ⟨by decide, by decide⟩
    have hunmarked : Unmarked (noticePieces ++ (tablePieces layout layers ++ footerPieces)) :=
      unmarked_append.mpr ⟨by decide +kernel,
        unmarked_append.mpr ⟨htable, by decide⟩⟩
    exact not_laterMark_infix (template_separated hlayout hcells hnotice hfooter) hunmarked
      (by decide)
  have hinclude : textOf includePieces = (textOf includePieces).dropLast ++ ['\n'] := by
    decide
  rw [generateC, hjoin, hkeymap, hencoder, hdip, hmacro, hafter,
    replace_empty (by decide) (by decide +kernel) hincludes, generatedPieces, List.append_assoc,
    List.append_assoc, textOf_append includePieces, hinclude, List.append_assoc]
  rfl

end Template

end Qmk.KeymapC
