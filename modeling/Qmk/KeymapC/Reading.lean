import Mathlib.Data.List.Forall2
import Qmk.KeymapC.Text

/-!
# Reading the pieces

What the parser of `keymap.c` does with the pieces of a generated text, for any lexer.
-/

namespace Qmk.KeymapC

/-! ## Keycodes -/

/-- A name in C that is no keyword. -/
structure IsIdent (lexer : CLexer) (w : Text) : Prop where
  word : IsWord w
  name : lexer.wordType w = .name

/-- Arguments, with balanced parentheses. -/
inductive Arguments (lexer : CLexer) : List Piece → Prop where
  | nil : Arguments lexer []
  | word {w : Text} {rest : List Piece} :
      IsIdent lexer w → Arguments lexer rest → Arguments lexer (.word w :: rest)
  | number {w : Text} {rest : List Piece} :
      Arguments lexer rest → Arguments lexer (.number w :: rest)
  | operator {c : Char} {rest : List Piece} :
      Arguments lexer rest → Arguments lexer (.operator c :: rest)
  | comma {rest : List Piece} : Arguments lexer rest → Arguments lexer (.punct ',' :: rest)
  | space {w : Text} {rest : List Piece} :
      Arguments lexer rest → Arguments lexer (.space w :: rest)
  | nested {inner rest : List Piece} :
      Arguments lexer inner → Arguments lexer rest →
        Arguments lexer (.punct '(' :: inner ++ .punct ')' :: rest)

/-- A name, or a name with arguments, but not `ANY(...)`. -/
inductive IsKeycode (lexer : CLexer) : List Piece → Prop where
  | ident {w : Text} : IsIdent lexer w → IsKeycode lexer [.word w]
  | call {w : Text} {gap args : List Piece} :
      IsIdent lexer w → (w = ['A', 'N', 'Y'] → gap ≠ []) →
        (∀ piece ∈ gap, ∃ v, piece = .space v) → Arguments lexer args →
        IsKeycode lexer (.word w :: gap ++ .punct '(' :: args ++ [.punct ')'])

def Piece.expand : Piece → Piece
  | .word w => .word (expandKeycode w)
  | piece => piece

/-- The text of a keycode with the long names of `_______` and `XXXXXXX`. -/
def expanded (keycode : List Piece) : Text := textOf (keycode.map Piece.expand)

/-- The texts differ in white space only. -/
def SameButSpace (text other : Text) : Prop :=
  text.filter (fun c => !isBlank c) = other.filter (fun c => !isBlank c)

/-! ## Parsing pieces -/

section Parse

variable {lexer : CLexer}

def parsePieces (lexer : CLexer) (s : ParseState) (pieces : List Piece) : Option ParseState :=
  (pieces.flatMap lexer.tokens).foldlM parseToken s

theorem parsePieces_cons (s : ParseState) (piece : Piece) (pieces : List Piece) :
    parsePieces lexer s (piece :: pieces) =
      ((lexer.tokens piece).foldlM parseToken s).bind fun t => parsePieces lexer t pieces := by
  rw [parsePieces, List.flatMap_cons, List.foldlM_append]
  rfl

theorem parseOthers_skip {s : ParseState} (h : s.isAdvKc = false) {tokens : List Token}
    (htokens : ∀ token ∈ tokens, token.type = .other) : tokens.foldlM parseToken s = some s := by
  induction tokens with
  | nil => rfl
  | cons token tokens ih =>
      have htoken : parseToken s token = some s := by
        rw [parseToken, htokens token List.mem_cons_self]
        simp [parseOther, h]
      rw [List.foldlM_cons, htoken]
      exact ih fun other hother => htokens other (List.mem_cons_of_mem _ hother)

/-- A piece of which the lexer makes other tokens. -/
def Piece.IsRest : Piece → Prop
  | .operator _ | .space _ | .rest _ => True
  | .word _ | .number _ | .punct _ => False

instance (piece : Piece) : Decidable piece.IsRest :=
  match piece with
  | .operator _ | .space _ | .rest _ => .isTrue trivial
  | .word _ | .number _ | .punct _ => .isFalse id

theorem tokens_rest {piece : Piece} (h : piece.IsRest) :
    ∃ w, lexer.tokens piece = lexer.restTokens w ∧ piece.text = w := by
  cases piece with
  | word w => cases h
  | number w => cases h
  | punct c => cases h
  | operator c => exact ⟨[c], rfl, rfl⟩
  | space w => exact ⟨w, rfl, rfl⟩
  | rest w => exact ⟨w, rfl, rfl⟩

theorem parsePieces_rest {s : ParseState} (h : s.isAdvKc = false) {piece : Piece}
    (hpiece : piece.IsRest) (pieces : List Piece) :
    parsePieces lexer s (piece :: pieces) = parsePieces lexer s pieces := by
  obtain ⟨w, htokens, -⟩ := @tokens_rest lexer piece hpiece
  rw [parsePieces_cons, htokens, parseOthers_skip h (lexer.rest_type w)]
  rfl

theorem parse_rests {s : ParseState} (h : s.isAdvKc = false) {rests : List Piece}
    (hrests : ∀ piece ∈ rests, piece.IsRest) (pieces : List Piece) :
    parsePieces lexer s (rests ++ pieces) = parsePieces lexer s pieces := by
  induction rests with
  | nil => rfl
  | cons piece rests ih =>
      rw [List.cons_append, parsePieces_rest h (hrests piece List.mem_cons_self)]
      exact ih fun other hother => hrests other (List.mem_cons_of_mem _ hother)

/-! ### Inside an advanced keycode -/

theorem appendLast_concat (text : Text) (keycodes : List Text) (keycode : Text) :
    appendLast text (keycodes ++ [keycode]) = some (keycodes ++ [keycode ++ text]) := by
  induction keycodes with
  | nil => rfl
  | cons first keycodes ih =>
      cases keycodes with
      | nil => rfl
      | cons second keycodes =>
          rw [List.cons_append, List.cons_append, appendLast, ← List.cons_append, ih]
          · rfl
          · exact List.cons_ne_nil _ _

/-- Inside an advanced keycode, of which `keycode` is read. -/
def advState (layers : List Layer) (name layout : Text) (keycodes : List Text) (keycode : Text)
    (braceDepth : Int) : ParseState :=
  ⟨layers, 6, braceDepth, true, true, true, ⟨name, layout, keycodes ++ [keycode]⟩⟩

variable {layers : List Layer} {name layout : Text} {keycodes : List Text}

theorem extend_advState (keycode text : Text) (braceDepth : Int) :
    (advState layers name layout keycodes keycode braceDepth).extendKeycode text =
      some (advState layers name layout keycodes (keycode ++ text) braceDepth) := by
  rw [ParseState.extendKeycode, advState, appendLast_concat]
  rfl

theorem parseOthers_adv (keycode : Text) (braceDepth : Int) {tokens : List Token}
    (htokens : ∀ token ∈ tokens, token.type = .other) :
    tokens.foldlM parseToken (advState layers name layout keycodes keycode braceDepth) =
      some (advState layers name layout keycodes (keycode ++ tokens.flatMap Token.value)
        braceDepth) := by
  induction tokens generalizing keycode with
  | nil => simp
  | cons token tokens ih =>
      have htoken : parseToken (advState layers name layout keycodes keycode braceDepth) token =
          some (advState layers name layout keycodes (keycode ++ token.value) braceDepth) := by
        rw [parseToken, htokens token List.mem_cons_self]
        exact extend_advState keycode token.value braceDepth
      rw [List.foldlM_cons, htoken, List.flatMap_cons, ← List.append_assoc]
      exact ih (keycode ++ token.value) fun other hother =>
        htokens other (List.mem_cons_of_mem _ hother)

theorem parsePieces_adv_rest (keycode : Text) (braceDepth : Int) {piece : Piece}
    (hpiece : piece.IsRest) (pieces : List Piece) :
    parsePieces lexer (advState layers name layout keycodes keycode braceDepth)
        (piece :: pieces) =
      parsePieces lexer (advState layers name layout keycodes (keycode ++ piece.text) braceDepth)
        pieces := by
  obtain ⟨w, htokens, htext⟩ := @tokens_rest lexer piece hpiece
  rw [parsePieces_cons, htokens, parseOthers_adv keycode braceDepth (lexer.rest_type w),
    lexer.rest_text, htext]
  rfl

theorem parsePieces_token {s t : ParseState} {piece : Piece} {token : Token}
    (htokens : lexer.tokens piece = [token]) (htoken : parseToken s token = some t)
    (pieces : List Piece) :
    parsePieces lexer s (piece :: pieces) = parsePieces lexer t pieces := by
  rw [parsePieces_cons, htokens, List.foldlM_cons, htoken]
  rfl

theorem parse_adv_word (hname : name ≠ []) (hlayout : layout ≠ []) {w : Text}
    (hw : IsIdent lexer w) (keycode : Text) (braceDepth : Int) (pieces : List Piece) :
    parsePieces lexer (advState layers name layout keycodes keycode braceDepth)
        (.word w :: pieces) =
      parsePieces lexer
        (advState layers name layout keycodes (keycode ++ expandKeycode w) braceDepth) pieces := by
  refine parsePieces_token rfl ?_ pieces
  rw [hw.name]
  refine Eq.trans ?_ (extend_advState keycode (expandKeycode w) braceDepth)
  simp [parseToken, parseKeymapName, advState, hname, hlayout]

theorem parse_adv_number (w keycode : Text) (braceDepth : Int) (pieces : List Piece) :
    parsePieces lexer (advState layers name layout keycodes keycode braceDepth)
        (.number w :: pieces) =
      parsePieces lexer (advState layers name layout keycodes (keycode ++ w) braceDepth)
        pieces := by
  refine parsePieces_token rfl ?_ pieces
  refine Eq.trans ?_ (extend_advState keycode w braceDepth)
  rcases lexer.number_type w with htype | htype
  · rw [htype]
    rfl
  · rw [htype]
    rfl

theorem parse_adv_comma (keycode : Text) (braceDepth : Int) (pieces : List Piece) :
    parsePieces lexer (advState layers name layout keycodes keycode braceDepth)
        (.punct ',' :: pieces) =
      parsePieces lexer (advState layers name layout keycodes (keycode ++ [',']) braceDepth)
        pieces := by
  have hopening : ¬ [','] <:+: openingBraces := by decide
  have hclosing : ¬ [','] <:+: closingBraces := by decide
  refine parsePieces_token rfl ?_ pieces
  rw [parseToken]
  dsimp only
  rw [if_neg hopening, if_neg hclosing]
  exact extend_advState keycode [','] braceDepth

theorem parse_adv_open (keycode : Text) (braceDepth : Int) (pieces : List Piece) :
    parsePieces lexer (advState layers name layout keycodes keycode braceDepth)
        (.punct '(' :: pieces) =
      parsePieces lexer (advState layers name layout keycodes (keycode ++ ['(']) (braceDepth + 1))
        pieces := by
  have hopening : ['('] <:+: openingBraces := by decide
  refine parsePieces_token rfl ?_ pieces
  rw [parseToken]
  dsimp only
  rw [if_pos hopening]
  exact extend_advState keycode ['('] (braceDepth + 1)

theorem parse_adv_close (keycode : Text) {braceDepth : Int} (hdepth : braceDepth ≠ 3)
    (pieces : List Piece) :
    parsePieces lexer (advState layers name layout keycodes keycode braceDepth)
        (.punct ')' :: pieces) =
      parsePieces lexer (advState layers name layout keycodes (keycode ++ [')']) (braceDepth - 1))
        pieces := by
  have hopening : ¬ [')'] <:+: openingBraces := by decide
  have hclosing : [')'] <:+: closingBraces := by decide
  have hdeep : ¬ braceDepth - 1 = 2 := by omega
  have hextend : (advState layers name layout keycodes keycode (braceDepth - 1)).extendKeycode
      [')'] = some (advState layers name layout keycodes (keycode ++ [')']) (braceDepth - 1)) :=
    extend_advState keycode [')'] (braceDepth - 1)
  refine parsePieces_token rfl ?_ pieces
  rw [parseToken]
  dsimp only
  rw [if_neg hopening, if_pos hclosing]
  change Option.map _ ((advState layers name layout keycodes keycode
    (braceDepth - 1)).extendKeycode [')']) = _
  rw [hextend]
  exact congrArg some (if_neg hdeep)

@[simp] theorem expanded_nil : expanded [] = [] := rfl

@[simp] theorem expanded_cons (piece : Piece) (pieces : List Piece) :
    expanded (piece :: pieces) = piece.expand.text ++ expanded pieces := rfl

@[simp] theorem expanded_append (pieces others : List Piece) :
    expanded (pieces ++ others) = expanded pieces ++ expanded others := by
  rw [expanded, List.map_append, textOf_append]
  rfl

theorem parse_arguments (hname : name ≠ []) (hlayout : layout ≠ []) {args : List Piece}
    (h : Arguments lexer args) (keycode : Text) {braceDepth : Int} (hdepth : 3 ≤ braceDepth)
    (pieces : List Piece) :
    parsePieces lexer (advState layers name layout keycodes keycode braceDepth)
        (args ++ pieces) =
      parsePieces lexer (advState layers name layout keycodes (keycode ++ expanded args)
        braceDepth) pieces := by
  induction h generalizing keycode braceDepth pieces with
  | nil => rw [expanded_nil, List.append_nil, List.nil_append]
  | word hw hrest ih =>
      rw [List.cons_append, parse_adv_word hname hlayout hw, ih _ hdepth, List.append_assoc]
      rfl
  | number hrest ih =>
      rw [List.cons_append, parse_adv_number, ih _ hdepth, List.append_assoc]
      rfl
  | operator hrest ih =>
      rw [List.cons_append, parsePieces_adv_rest keycode braceDepth (by trivial), ih _ hdepth,
        List.append_assoc]
      rfl
  | comma hrest ih =>
      rw [List.cons_append, parse_adv_comma, ih _ hdepth, List.append_assoc]
      rfl
  | space hrest ih =>
      rw [List.cons_append, parsePieces_adv_rest keycode braceDepth (by trivial), ih _ hdepth,
        List.append_assoc]
      rfl
  | @nested inner rest hinner hrest ihInner ihRest =>
      have hdeeper : 3 ≤ braceDepth + 1 := by omega
      have hinside : braceDepth + 1 ≠ 3 := by omega
      have hpieces : .punct '(' :: inner ++ .punct ')' :: rest ++ pieces =
          .punct '(' :: (inner ++ .punct ')' :: (rest ++ pieces)) := by
        simp only [List.append_assoc, List.cons_append]
      have htext : expanded (.punct '(' :: inner ++ .punct ')' :: rest) =
          ['('] ++ expanded inner ++ [')'] ++ expanded rest := by
        simp [Piece.expand, Piece.text]
      rw [hpieces, parse_adv_open, ihInner _ hdeeper, parse_adv_close _ hinside,
        Int.add_sub_cancel, ihRest _ hdepth, htext]
      simp only [List.append_assoc]

/-! ### Inside a layer -/

/-- Inside a layer, of which `keycodes` are read. -/
def layerState (layers : List Layer) (name layout : Text) (keycodes : List Text) : ParseState :=
  ⟨layers, 6, 2, true, true, false, ⟨name, layout, keycodes⟩⟩

theorem parse_keycode_word (hname : name ≠ []) (hlayout : layout ≠ []) {w : Text}
    (hw : IsIdent lexer w) (pieces : List Piece) :
    parsePieces lexer (layerState layers name layout keycodes) (.word w :: pieces) =
      parsePieces lexer (layerState layers name layout (keycodes ++ [expandKeycode w]))
        pieces := by
  refine parsePieces_token rfl ?_ pieces
  rw [hw.name]
  simp [parseToken, parseKeymapName, layerState, hname, hlayout]

theorem parse_keycode_open (keycode : Text) (pieces : List Piece) :
    parsePieces lexer (layerState layers name layout (keycodes ++ [keycode]))
        (.punct '(' :: pieces) =
      parsePieces lexer (advState layers name layout keycodes (keycode ++ ['(']) 3) pieces := by
  have hopening : ['('] <:+: openingBraces := by decide
  refine parsePieces_token rfl ?_ pieces
  rw [parseToken]
  dsimp only
  rw [if_pos hopening]
  exact extend_advState keycode ['('] 3

theorem parse_keycode_close (keycode : Text) (pieces : List Piece) :
    parsePieces lexer (advState layers name layout keycodes keycode 3) (.punct ')' :: pieces) =
      parsePieces lexer (layerState layers name layout (keycodes ++ [keycode ++ [')']]))
        pieces := by
  have hopening : ¬ [')'] <:+: openingBraces := by decide
  have hclosing : [')'] <:+: closingBraces := by decide
  have hextend : (advState layers name layout keycodes keycode 2).extendKeycode [')'] =
      some (advState layers name layout keycodes (keycode ++ [')']) 2) :=
    extend_advState keycode [')'] 2
  refine parsePieces_token rfl ?_ pieces
  rw [parseToken]
  dsimp only
  rw [if_neg hopening, if_pos hclosing]
  change Option.map _ ((advState layers name layout keycodes keycode 2).extendKeycode [')']) = _
  rw [hextend]
  rfl

theorem gap_blank {gap : List Piece} (hvalid : ∀ piece ∈ gap, piece.Valid)
    (hgap : ∀ piece ∈ gap, ∃ v, piece = .space v) :
    (expanded gap).filter (fun c => !isBlank c) = [] := by
  induction gap with
  | nil => rfl
  | cons piece gap ih =>
      obtain ⟨v, rfl⟩ := hgap piece List.mem_cons_self
      have hblank := (hvalid _ List.mem_cons_self).2
      have hv : v.filter (fun c => !isBlank c) = [] :=
        List.filter_eq_nil_iff.mpr fun c hc => by simp [hblank c hc]
      have hrest := ih (fun other hother => hvalid other (List.mem_cons_of_mem _ hother))
        fun other hother => hgap other (List.mem_cons_of_mem _ hother)
      rw [expanded_cons, List.filter_append, hrest, List.append_nil]
      exact hv

theorem parse_keycode (hname : name ≠ []) (hlayout : layout ≠ []) {keycode : List Piece}
    (h : IsKeycode lexer keycode) (hvalid : ∀ piece ∈ keycode, piece.Valid) :
    ∃ kept, SameButSpace kept (expanded keycode) ∧ ∀ keycodes pieces,
      parsePieces lexer (layerState layers name layout keycodes) (keycode ++ pieces) =
        parsePieces lexer (layerState layers name layout (keycodes ++ [kept])) pieces := by
  cases h with
  | @ident w hw =>
      refine ⟨expandKeycode w, ?_, fun keycodes pieces => ?_⟩
      · rw [expanded_cons, expanded_nil, List.append_nil]
        rfl
      · exact parse_keycode_word hname hlayout hw pieces
  | @call w gap args hw hany hgap hargs =>
      have hblank := gap_blank (fun piece hpiece => hvalid piece (by simp [hpiece])) hgap
      refine ⟨expandKeycode w ++ ['('] ++ expanded args ++ [')'], ?_, fun keycodes pieces => ?_⟩
      · have htext : expanded (.word w :: gap ++ .punct '(' :: args ++ [.punct ')']) =
            expandKeycode w ++ (expanded gap ++ (['('] ++ (expanded args ++ [')']))) := by
          simp [Piece.expand, Piece.text]
        rw [SameButSpace, htext]
        simp only [List.filter_append, hblank, List.nil_append, List.append_assoc]
      · have hpieces : .word w :: gap ++ .punct '(' :: args ++ [.punct ')'] ++ pieces =
            .word w :: (gap ++ .punct '(' :: (args ++ .punct ')' :: pieces)) := by
          simp only [List.append_assoc, List.cons_append, List.nil_append]
        have hrests : ∀ piece ∈ gap, piece.IsRest := by
          intro piece hpiece
          obtain ⟨v, rfl⟩ := hgap piece hpiece
          trivial
        rw [hpieces, parse_keycode_word hname hlayout hw, parse_rests rfl hrests, parse_keycode_open,
          parse_arguments hname hlayout hargs _ (by decide), parse_keycode_close]

theorem parse_skip_comma {s : ParseState} (h : s.isAdvKc = false) (pieces : List Piece) :
    parsePieces lexer s (.punct ',' :: pieces) = parsePieces lexer s pieces := by
  have hopening : ¬ [','] <:+: openingBraces := by decide
  have hclosing : ¬ [','] <:+: closingBraces := by decide
  refine parsePieces_token rfl ?_ pieces
  rw [parseToken]
  dsimp only
  rw [if_neg hopening, if_neg hclosing, parseOther, h]
  rfl

/-- A parsed keycode and the keycode that was written. -/
def Kept (kept : Text) (keycode : List Piece) : Prop := SameButSpace kept (expanded keycode)

theorem parse_joinPieces (hname : name ≠ []) (hlayout : layout ≠ []) {layer : List (List Piece)}
    (h : ∀ keycode ∈ layer, IsKeycode lexer keycode)
    (hvalid : ∀ keycode ∈ layer, ∀ piece ∈ keycode, piece.Valid) :
    ∃ kept, List.Forall₂ Kept kept layer ∧ ∀ keycodes pieces,
      parsePieces lexer (layerState layers name layout keycodes) (joinPieces layer ++ pieces) =
        parsePieces lexer (layerState layers name layout (keycodes ++ kept)) pieces := by
  induction layer with
  | nil => exact ⟨[], .nil, fun keycodes pieces => by rw [List.append_nil]; rfl⟩
  | cons keycode layer ih =>
      obtain ⟨first, hfirst, hparse⟩ := @parse_keycode lexer layers _ _ hname hlayout _
        (h keycode List.mem_cons_self) (hvalid keycode List.mem_cons_self)
      obtain ⟨kept, hkept, hrest⟩ := ih
        (fun other hother => h other (List.mem_cons_of_mem _ hother))
        fun other hother => hvalid other (List.mem_cons_of_mem _ hother)
      refine ⟨first :: kept, .cons hfirst hkept, fun keycodes pieces => ?_⟩
      cases layer with
      | nil =>
          obtain rfl := List.forall₂_nil_right_iff.mp hkept
          exact hparse keycodes pieces
      | cons next layer =>
          have hpieces : joinPieces (keycode :: next :: layer) ++ pieces =
              keycode ++ .punct ',' :: .space [' '] :: (joinPieces (next :: layer) ++ pieces) := by
            rw [joinPieces]
            · simp only [List.append_assoc, List.cons_append]
            · exact List.cons_ne_nil _ _
          rw [hpieces, hparse, parse_skip_comma rfl, parsePieces_rest rfl (by trivial), hrest,
            List.append_assoc]
          rfl

/-! ### Inside the array -/

/-- Between two layers. -/
def arrayState (layers : List Layer) : ParseState := ⟨layers, 6, 1, true, false, false, .fresh⟩

theorem parse_layerHead (hlayout : IsIdent lexer layout) (layerNum : Nat)
    (pieces : List Piece) :
    parsePieces lexer (arrayState layers)
        (.punct '[' :: .number (Nat.toDigits 10 layerNum) :: .punct ']' :: .space [' '] ::
          .operator '=' :: .space [' '] :: .word layout :: .punct '(' :: pieces) =
      parsePieces lexer (layerState layers (Nat.toDigits 10 layerNum) layout []) pieces := by
  have hname : Nat.toDigits 10 layerNum ≠ [] := Nat.toDigits_ne_nil
  have hbracket : parseToken (arrayState layers) ⟨.punctuation, ['[']⟩ =
      some ⟨layers, 6, 2, true, false, false, .fresh⟩ := by
    rfl
  have hnumber : parseToken ⟨layers, 6, 2, true, false, false, .fresh⟩
      ⟨lexer.numberType (Nat.toDigits 10 layerNum), Nat.toDigits 10 layerNum⟩ =
      some ⟨layers, 6, 2, true, false, false, ⟨Nat.toDigits 10 layerNum, [], []⟩⟩ := by
    rw [lexer.decimal_type]
    rfl
  have hclose : parseToken
      ⟨layers, 6, 2, true, false, false, ⟨Nat.toDigits 10 layerNum, [], []⟩⟩
      ⟨.punctuation, [']']⟩ =
      some ⟨layers, 6, 1, true, false, false, ⟨Nat.toDigits 10 layerNum, [], []⟩⟩ := by
    rfl
  have hword : parseToken ⟨layers, 6, 1, true, false, false, ⟨Nat.toDigits 10 layerNum, [], []⟩⟩
      ⟨lexer.wordType layout, layout⟩ =
      some ⟨layers, 6, 1, true, false, false, ⟨Nat.toDigits 10 layerNum, layout, []⟩⟩ := by
    rw [hlayout.name]
    simp [parseToken, parseKeymapName, hname]
  have hopen : parseToken
      ⟨layers, 6, 1, true, false, false, ⟨Nat.toDigits 10 layerNum, layout, []⟩⟩
      ⟨.punctuation, ['(']⟩ = some (layerState layers (Nat.toDigits 10 layerNum) layout []) := by
    rfl
  rw [parsePieces_token rfl hbracket, parsePieces_token rfl hnumber, parsePieces_token rfl hclose,
    parsePieces_rest rfl (by trivial), parsePieces_rest rfl (by trivial),
    parsePieces_rest rfl (by trivial), parsePieces_token rfl hword, parsePieces_token rfl hopen]

theorem parse_layerEnd (pieces : List Piece) :
    parsePieces lexer (layerState layers name layout keycodes) (.punct ')' :: pieces) =
      parsePieces lexer (arrayState (layers ++ [⟨name, layout, keycodes⟩])) pieces :=
  parsePieces_token rfl rfl pieces

/-- A parsed layer and the layer that was written. -/
structure LayerKept (layout : Text) (parsed : Layer) (layer : List (List Piece)) : Prop where
  layout : parsed.layout = layout
  keycodes : List.Forall₂ Kept parsed.keycodes layer

theorem parse_layersPieces (hlayout : IsIdent lexer layout) {written : List (List (List Piece))}
    (h : ∀ layer ∈ written, ∀ keycode ∈ layer, IsKeycode lexer keycode)
    (hvalid : ∀ layer ∈ written, ∀ keycode ∈ layer, ∀ piece ∈ keycode, piece.Valid)
    (layers : List Layer) (layerNum : Nat) :
    ∃ parsed, List.Forall₂ (LayerKept layout) parsed written ∧ ∀ pieces,
      parsePieces lexer (arrayState layers) (layersPieces layout layerNum written ++ pieces) =
        parsePieces lexer (arrayState (layers ++ parsed)) pieces := by
  induction written generalizing layers layerNum with
  | nil => exact ⟨[], .nil, fun pieces => by rw [List.append_nil]; rfl⟩
  | cons layer written ih =>
      obtain ⟨kept, hkept, hkeycodes⟩ := @parse_joinPieces lexer layers _ _
        (Nat.toDigits_ne_nil (b := 10) (n := layerNum)) hlayout.word.1 _
        (h layer List.mem_cons_self) (hvalid layer List.mem_cons_self)
      obtain ⟨parsed, hparsed, hrest⟩ := ih
        (fun other hother => h other (List.mem_cons_of_mem _ hother))
        (fun other hother => hvalid other (List.mem_cons_of_mem _ hother))
        (layers ++ [⟨Nat.toDigits 10 layerNum, layout, kept⟩]) (layerNum + 1)
      refine ⟨⟨Nat.toDigits 10 layerNum, layout, kept⟩ :: parsed, .cons ⟨rfl, hkept⟩ hparsed,
        fun pieces => ?_⟩
      have hcomma : ∀ others, parsePieces lexer (arrayState layers)
          ((if layerNum ≠ 0 then [.punct ','] else []) ++ others) =
          parsePieces lexer (arrayState layers) others := by
        intro others
        split
        · exact parse_skip_comma rfl others
        · rfl
      have hpieces : layersPieces layout layerNum (layer :: written) ++ pieces =
          (if layerNum ≠ 0 then [.punct ','] else []) ++
            .space ['\n', ' ', ' ', ' ', ' '] :: .punct '[' ::
              .number (Nat.toDigits 10 layerNum) :: .punct ']' :: .space [' '] :: .operator '=' ::
              .space [' '] :: .word layout :: .punct '(' :: (joinPieces layer ++ .punct ')' ::
              (layersPieces layout (layerNum + 1) written ++ pieces)) := by
        simp only [layersPieces, layerPieces, List.append_assoc, List.cons_append,
          List.nil_append]
      rw [hpieces, hcomma, parsePieces_rest rfl (by trivial), parse_layerHead hlayout, hkeycodes,
        parse_layerEnd, List.nil_append, hrest, List.append_assoc]
      rfl

/-! ### The file -/

/-- Outside the array. -/
def fileState (keymapCertainty : Nat) (braceDepth : Int) : ParseState :=
  ⟨[], keymapCertainty, braceDepth, false, false, false, .fresh⟩

theorem parse_signature (pieces : List Piece) :
    parsePieces lexer .start (signaturePieces ++ pieces) =
      parsePieces lexer (arrayState []) pieces := by
  have hconst : parseToken (fileState 0 0) ⟨lexer.wordType "const".toList, "const".toList⟩ =
      some (fileState 1 0) := by
    rw [lexer.const_type]
    decide
  have huint16 : parseToken (fileState 1 0)
      ⟨lexer.wordType "uint16_t".toList, "uint16_t".toList⟩ = some (fileState 2 0) := by
    rw [lexer.uint16_type]
    decide
  have hprogmem : parseToken (fileState 2 0)
      ⟨lexer.wordType "PROGMEM".toList, "PROGMEM".toList⟩ = some (fileState 3 0) := by
    rw [lexer.progmem_type]
    decide
  have hkeymaps : parseToken (fileState 3 0)
      ⟨lexer.wordType "keymaps".toList, "keymaps".toList⟩ = some (fileState 4 0) := by
    rw [lexer.keymaps_type]
    decide
  have hrows : parseToken (fileState 4 1)
      ⟨lexer.wordType "MATRIX_ROWS".toList, "MATRIX_ROWS".toList⟩ = some (fileState 5 1) := by
    rw [lexer.matrixRows_type]
    decide
  have hcols : parseToken (fileState 5 1)
      ⟨lexer.wordType "MATRIX_COLS".toList, "MATRIX_COLS".toList⟩ = some (fileState 6 1) := by
    rw [lexer.matrixCols_type]
    decide
  have hopen : ∀ certainty, parseToken (fileState certainty 0) ⟨.punctuation, ['[']⟩ =
      some (fileState certainty 1) := fun _ => rfl
  have hclose : ∀ certainty, parseToken (fileState certainty 1) ⟨.punctuation, [']']⟩ =
      some (fileState certainty 0) := fun _ => rfl
  have hbrace : parseToken (fileState 6 0) ⟨.punctuation, ['\x7b']⟩ = some (arrayState []) := rfl
  change parsePieces lexer (fileState 0 0) (signaturePieces ++ pieces) = _
  rw [signaturePieces]
  simp only [List.cons_append, List.nil_append]
  rw [parsePieces_token rfl hconst, parsePieces_rest rfl (by trivial),
    parsePieces_token rfl huint16, parsePieces_rest rfl (by trivial),
    parsePieces_token rfl hprogmem, parsePieces_rest rfl (by trivial),
    parsePieces_token rfl hkeymaps, parsePieces_token rfl (hopen 4),
    parsePieces_token rfl (hclose 4), parsePieces_token rfl (hopen 4),
    parsePieces_token rfl hrows, parsePieces_token rfl (hclose 5),
    parsePieces_token rfl (hopen 5), parsePieces_token rfl hcols,
    parsePieces_token rfl (hclose 6), parsePieces_rest rfl (by trivial),
    parsePieces_rest rfl (by trivial), parsePieces_rest rfl (by trivial),
    parsePieces_token rfl hbrace]

theorem parse_arrayEnd (layers : List Layer) (pieces : List Piece) :
    parsePieces lexer (arrayState layers)
        (.space ['\n'] :: .punct '\x7d' :: .punct ';' :: pieces) =
      parsePieces lexer ⟨layers, 0, 0, false, false, false, .fresh⟩ pieces := by
  have hbrace : parseToken (arrayState layers) ⟨.punctuation, ['\x7d']⟩ =
      some ⟨layers, 0, 0, false, false, false, .fresh⟩ := rfl
  have hsemicolon : parseToken ⟨layers, 0, 0, false, false, false, .fresh⟩
      ⟨.punctuation, [';']⟩ = some ⟨layers, 0, 0, false, false, false, .fresh⟩ := rfl
  rw [parsePieces_rest rfl (by trivial), parsePieces_token rfl hbrace,
    parsePieces_token rfl hsemicolon]

theorem parse_generatedPieces (hlayout : IsIdent lexer layout)
    {written : List (List (List Piece))}
    (h : ∀ layer ∈ written, ∀ keycode ∈ layer, IsKeycode lexer keycode)
    (hvalid : ∀ layer ∈ written, ∀ keycode ∈ layer, ∀ piece ∈ keycode, piece.Valid) :
    ∃ parsed, List.Forall₂ (LayerKept layout) parsed written ∧
      (parsePieces lexer .start (generatedPieces layout written)).map ParseState.layers =
        some parsed := by
  obtain ⟨parsed, hparsed, hparse⟩ := parse_layersPieces hlayout h hvalid [] 0
  refine ⟨parsed, hparsed, ?_⟩
  have hheader : ∀ piece ∈ includePieces ++ noticePieces, piece.IsRest := by decide
  have hfooter : ∀ piece ∈ footerPieces, piece.IsRest := by decide
  have hend : parsePieces lexer ⟨parsed, 0, 0, false, false, false, .fresh⟩
      (footerPieces ++ []) = some ⟨parsed, 0, 0, false, false, false, .fresh⟩ := by
    rw [parse_rests rfl hfooter]
    rfl
  rw [List.append_nil] at hend
  rw [generatedPieces, tablePieces, List.append_assoc, parse_rests rfl hheader,
    List.append_assoc, List.append_assoc, parse_signature, hparse, List.nil_append]
  change Option.map _ (parsePieces lexer (arrayState parsed)
    (.space ['\n'] :: .punct '\x7d' :: .punct ';' :: footerPieces)) = _
  rw [parse_arrayEnd, hend]
  rfl

end Parse

end Qmk.KeymapC
