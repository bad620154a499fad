import Mathlib.Data.List.Chain
import Mathlib.Data.List.Infix

/-!
# C text and its tokens

What the keymap parser takes for granted of pygments: a text is cut into identifiers, numbers,
punctuation, and a rest of which nothing is lost.
-/

namespace Qmk.KeymapC

abbrev Text := List Char

/-- All characters of a text are tried, not all characters there are. -/
instance (priority := high) decidableForallMemText (text : Text) (p : Char → Prop) [DecidablePred p] :
    Decidable (∀ c ∈ text, p c) :=
  List.decidableBAll p text

instance (priority := high) decidableForallMemChar (char : Option Char) (p : Char → Prop) [DecidablePred p] :
    Decidable (∀ c ∈ char, p c) :=
  Option.decidableForallMem char

/-- The token types of pygments that the parser tells apart. -/
inductive TokenType where
  | name
  | keyword
  | keywordType
  | punctuation
  | integer
  | other
  deriving DecidableEq

structure Token where
  type : TokenType
  value : Text
  deriving DecidableEq

def isWordChar (c : Char) : Bool := c.isAlphanum || c = '_'

def isBlank (c : Char) : Bool := c = ' ' || c = '\t' || c = '\n'

def punctuationChars : Text := "()[]\x7b\x7d,;".toList

def operatorChars : Text := "~!%^&*+=|?:<>/-".toList

/-- A stretch of C text; `rest` is a directive or a comment. -/
inductive Piece where
  | word (w : Text)
  | number (w : Text)
  | punct (c : Char)
  | operator (c : Char)
  | space (w : Text)
  | rest (w : Text)
  deriving DecidableEq

def Piece.text : Piece → Text
  | .word w | .number w | .space w | .rest w => w
  | .punct c | .operator c => [c]

def textOf (pieces : List Piece) : Text := pieces.flatMap Piece.text

/-- The word is an identifier or a keyword. -/
def IsWord (w : Text) : Prop :=
  w ≠ [] ∧ (∀ c ∈ w, isWordChar c = true) ∧ ∀ c ∈ w.head?, c.isDigit = false

/-- A number without its sign. -/
def unsigned (w : Text) : Text := if w.head? = some '-' then w.tail else w

def IsNumber (w : Text) : Prop :=
  unsigned w ≠ [] ∧ (∀ c ∈ unsigned w, isWordChar c = true) ∧
    ∀ c ∈ (unsigned w).head?, c.isDigit = true

/-- A directive ends with its line, and a comment with its mark. -/
def Piece.Valid : Piece → Prop
  | .word w => IsWord w
  | .number w => IsNumber w
  | .punct c => c ∈ punctuationChars
  | .operator c => c ∈ operatorChars
  | .space w => w ≠ [] ∧ ∀ c ∈ w, isBlank c = true
  | .rest w => w ≠ [] ∧ ∀ c ∈ w.getLast?, isWordChar c = false

/-- The next piece does not run on from this one. -/
def Apart : Piece → Piece → Prop
  | .word _, q | .number _, q => ∀ c ∈ q.text.head?, isWordChar c = false
  | .operator c, q =>
      (c = '-' → ∀ d ∈ q.text.head?, d.isDigit = false) ∧
        (c = '/' → ∀ d ∈ q.text.head?, d ≠ '/' ∧ d ≠ '*')
  | .space _, .space _ => False
  | _, _ => True

instance (piece : Piece) : Decidable piece.Valid := by
  cases piece with
  | word w => exact inferInstanceAs (Decidable (_ ∧ _ ∧ _))
  | number w => exact inferInstanceAs (Decidable (_ ∧ _ ∧ _))
  | punct c => exact inferInstanceAs (Decidable (_ ∈ _))
  | operator c => exact inferInstanceAs (Decidable (_ ∈ _))
  | space w => exact inferInstanceAs (Decidable (_ ∧ _))
  | rest w => exact inferInstanceAs (Decidable (_ ∧ _))

instance (p q : Piece) : Decidable (Apart p q) :=
  match p, q with
  | .word _, q | .number _, q =>
      inferInstanceAs (Decidable (∀ c ∈ q.text.head?, isWordChar c = false))
  | .operator c, q =>
      inferInstanceAs (Decidable ((c = '-' → ∀ d ∈ q.text.head?, d.isDigit = false) ∧
        (c = '/' → ∀ d ∈ q.text.head?, d ≠ '/' ∧ d ≠ '*')))
  | .space _, .space _ => .isFalse id
  | .space _, .word _ | .space _, .number _ | .space _, .punct _ | .space _, .operator _
  | .space _, .rest _ | .punct _, _ | .rest _, _ => .isTrue trivial

/-- The pieces are those that the text is cut into. -/
structure Separated (pieces : List Piece) : Prop where
  valid : ∀ piece ∈ pieces, piece.Valid
  apart : pieces.IsChain Apart

/-- The lexer of pygments for C.  White space, operators, directives and comments are cut into
tokens of other types, of which no text is lost. -/
structure CLexer where
  lex : Text → List Token
  wordType : Text → TokenType
  numberType : Text → TokenType
  restTokens : Text → List Token
  const_type : wordType "const".toList = .keyword
  uint16_type : wordType "uint16_t".toList = .keywordType
  progmem_type : wordType "PROGMEM".toList = .name
  keymaps_type : wordType "keymaps".toList = .name
  matrixRows_type : wordType "MATRIX_ROWS".toList = .name
  matrixCols_type : wordType "MATRIX_COLS".toList = .name
  number_type : ∀ w, numberType w = .integer ∨ numberType w = .other
  decimal_type : ∀ n, numberType (Nat.toDigits 10 n) = .integer
  rest_type : ∀ w, ∀ token ∈ restTokens w, token.type = .other
  rest_text : ∀ w, (restTokens w).flatMap Token.value = w

def CLexer.tokens (lexer : CLexer) : Piece → List Token
  | .word w => [⟨lexer.wordType w, w⟩]
  | .number w => [⟨lexer.numberType w, w⟩]
  | .punct c => [⟨.punctuation, [c]⟩]
  | .operator c => lexer.restTokens [c]
  | .space w | .rest w => lexer.restTokens w

/-- The lexer cuts the text of these pieces into them. -/
def CLexer.Separates (lexer : CLexer) (pieces : List Piece) : Prop :=
  Separated pieces → lexer.lex (textOf pieces) = pieces.flatMap lexer.tokens

/-! ## Texts of pieces -/

@[simp] theorem textOf_nil : textOf [] = [] := rfl

@[simp] theorem textOf_cons (piece : Piece) (pieces : List Piece) :
    textOf (piece :: pieces) = piece.text ++ textOf pieces := rfl

@[simp] theorem textOf_append (pieces others : List Piece) :
    textOf (pieces ++ others) = textOf pieces ++ textOf others :=
  List.flatMap_append

theorem Piece.Valid.text_ne_nil {piece : Piece} (h : piece.Valid) : piece.text ≠ [] := by
  cases piece with
  | word w => exact h.1
  | number w =>
      intro hnil
      obtain rfl : w = [] := hnil
      exact h.1 rfl
  | punct c => exact List.cons_ne_nil _ _
  | operator c => exact List.cons_ne_nil _ _
  | space w => exact h.1
  | rest w => exact h.1

theorem separated_append {pieces others : List Piece} (h : Separated pieces)
    (hothers : Separated others)
    (hapart : ∀ p ∈ pieces.getLast?, ∀ q ∈ others.head?, Apart p q) :
    Separated (pieces ++ others) where
  valid piece hpiece := (List.mem_append.mp hpiece).elim (h.valid piece) (hothers.valid piece)
  apart := List.isChain_append.mpr ⟨h.apart, hothers.apart, hapart⟩

end Qmk.KeymapC
