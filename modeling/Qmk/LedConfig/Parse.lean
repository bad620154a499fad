import Qmk.KeymapC.Generate

/-!
# `find_led_config`

The parser of `c_parse.py` for `g_led_config`, over the tokens of any lexer for C.
-/

namespace Qmk.LedConfig

open Qmk.KeymapC (Text replace Piece Separated textOf isBlank)

/-! ## Removing comments -/

/-- What is left behind the next quotation mark that is not escaped. -/
def afterString (quote : Char) : Text → Option Text
  | [] => none
  | c :: text =>
      if c = '\\' then
        match text with
        | [] => none
        | _ :: rest => afterString quote rest
      else if c = quote then some text
      else afterString quote text

/-- What is left behind the end of a comment. -/
def afterComment : Text → Option Text
  | [] => none
  | c :: text => if c = '*' ∧ text.head? = some '/' then some text.tail else afterComment text

/-- `re.sub(comment_pattern, _comment_stripper, text)`; every match is shorter than the text. -/
def removeComments : Nat → Text → Text
  | 0, text => text
  | _, [] => []
  | fuel + 1, c :: text =>
      if c = '/' ∧ text.head? = some '/' then
        ' ' :: removeComments fuel (text.dropWhile (· ≠ '\n'))
      else if c = '/' ∧ text.head? = some '*' then
        match afterComment text.tail with
        | some rest => ' ' :: removeComments fuel rest
        | none => c :: removeComments fuel text
      else if c = '\'' ∨ c = '"' then
        match afterString c text with
        | some rest => c :: text.take (text.length - rest.length) ++ removeComments fuel rest
        | none => c :: removeComments fuel text
      else c :: removeComments fuel text

def commentRemover (text : Text) : Text := removeComments text.length text

def preprocessCFile (fileContents : Text) : Text :=
  replace (commentRemover fileContents) ['\\', '\n'] []

/-! ## Tokens -/

/-- The token types that the parser tells apart. -/
inductive TokenType where
  | name
  | integer
  | float
  | hex
  | preproc
  | other
  deriving DecidableEq

structure Token where
  type : TokenType
  value : Text
  deriving DecidableEq

/-- The lexer of pygments for C.  A directive is cut into any tokens of which no text is lost. -/
structure CLexer where
  lex : Text → List Token
  wordType : Text → TokenType
  numberType : Text → TokenType
  restTokens : Text → List Token
  noLed_type : wordType "NO_LED".toList = .name
  decimal_type : ∀ n, numberType (Nat.toDigits 10 n) = .integer
  rest_text : ∀ w, (restTokens w).flatMap Token.value = w
  blank_type : ∀ w, (∀ c ∈ w, isBlank c = true) → ∀ token ∈ restTokens w, token.type = .other
  operator_type : ∀ token ∈ restTokens ['='], token.type = .other

def CLexer.tokens (lexer : CLexer) : Piece → List Token
  | .word w => [⟨lexer.wordType w, w⟩]
  | .number w => [⟨lexer.numberType w, w⟩]
  | .punct c => [⟨.other, [c]⟩]
  | .operator c => lexer.restTokens [c]
  | .space w | .rest w => lexer.restTokens w

/-- The lexer cuts the text of these pieces into them. -/
def CLexer.Separates (lexer : CLexer) (pieces : List Piece) : Prop :=
  Separated pieces → lexer.lex (textOf pieces) = pieces.flatMap lexer.tokens

/-! ## The parser -/

/-- A number of the configuration; a floating-point number keeps its text. -/
inductive Coerced where
  | int (value : Int)
  | float (text : Text)
  deriving DecidableEq

/-- A `None` that is returned, or an exception. -/
inductive Exit where
  | noConfig
  | valueError
  | indexError
  deriving DecidableEq

def digitValue (c : Char) : Option Nat :=
  if c.isDigit then some (c.toNat - '0'.toNat)
  else if 'a' ≤ c ∧ c ≤ 'f' then some (c.toNat - 'a'.toNat + 10)
  else if 'A' ≤ c ∧ c ≤ 'F' then some (c.toNat - 'A'.toNat + 10)
  else none

/-- The number with these digits. -/
def digitsValue (base : Nat) (text : Text) : Except Exit Nat :=
  if text = [] then .error .valueError
  else text.foldlM (fun value c =>
    match digitValue c with
    | some digit => if digit < base then .ok (base * value + digit) else .error .valueError
    | none => .error .valueError) 0

/-- `int(value)`, and `int(value, 0)` for a number that begins with `0x`. -/
def intOf (text : Text) : Except Exit Int := do
  let (negative, digits) := match text with
    | '-' :: digits => (true, digits)
    | digits => (false, digits)
  let value ← match digits with
    | '0' :: 'x' :: digits | '0' :: 'X' :: digits => digitsValue 16 digits
    | digits => digitsValue 10 digits
  .ok (if negative then -(value : Int) else value)

def valueMap : List (Text × Option Coerced) :=
  [("NO_LED".toList, none), ("LED_FLAG_ALL".toList, some (.int 0xFF)),
    ("LED_FLAG_NONE".toList, some (.int 0x00)), ("LED_FLAG_MODIFIER".toList, some (.int 0x01)),
    ("LED_FLAG_UNDERGLOW".toList, some (.int 0x02)), ("LED_FLAG_KEYLIGHT".toList, some (.int 0x04)),
    ("LED_FLAG_INDICATOR".toList, some (.int 0x08))]

/-- A name that is not in the map gives `None` as `NO_LED` does. -/
def coerceLedToken (token : Token) : Except Exit (Option Coerced) :=
  match token.type with
  | .integer | .hex => (intOf token.value).map fun value => some (.int value)
  | .float => .ok (some (.float token.value))
  | .name => .ok ((valueMap.lookup token.value).getD none)
  | .preproc | .other => .ok none

/-- The variables of `_parse_led_config`. -/
structure Parser where
  foundLedConfigT : Bool
  foundGLedConfig : Bool
  bracketCount : Int
  sections : Nat
  matrix : List (List (Option Coerced))
  currentRow : List (Option Coerced)
  positionRaw : List (Option Coerced)
  flags : List (Option Coerced)
  deriving DecidableEq

def Parser.initial : Parser := ⟨false, false, 0, 0, [], [], [], []⟩

def Parser.openBracket (s : Parser) : Parser :=
  { s with
    bracketCount := s.bracketCount + 1
    sections := if s.bracketCount + 1 = 2 then s.sections + 1 else s.sections }

def Parser.closeBracket (s : Parser) : Parser :=
  let s := if s.sections = 1 ∧ s.bracketCount = 3 then
    { s with matrix := s.matrix ++ [s.currentRow], currentRow := [] } else s
  { s with bracketCount := s.bracketCount - 1 }

def Parser.stash (s : Parser) (value : Option Coerced) : Parser :=
  { s with
    currentRow := if s.sections = 1 ∧ s.bracketCount = 3 then s.currentRow ++ [value]
      else s.currentRow
    positionRaw := if s.sections = 2 ∧ s.bracketCount = 3 then s.positionRaw ++ [value]
      else s.positionRaw
    flags := if s.sections = 3 ∧ s.bracketCount = 2 then s.flags ++ [value] else s.flags }

/-- The body of the loop over the tokens. -/
def Parser.step (s : Parser) (token : Token) : Except Exit Parser :=
  if !s.foundGLedConfig then
    if token.value = "led_config_t".toList then .ok { s with foundLedConfigT := true }
    else if s.foundLedConfigT ∧ token.value = "g_led_config".toList then
      .ok { s with foundGLedConfig := true }
    else .ok s
  else if token.value = [';'] then .ok { s with foundGLedConfig := false }
  else if token.value = ['\x7b'] then .ok s.openBracket
  else if token.value = ['\x7d'] then .ok s.closeBracket
  else if token.type ∈ [.integer, .float, .hex, .name] then
    (coerceLedToken token).map s.stash
  else if token.type = .preproc then .error .noConfig
  else .ok s

/-- `list(_get_chunks(position_raw, 2))`, of which an odd last chunk is shorter. -/
def getChunks : List (Option Coerced) → List (List (Option Coerced))
  | x :: y :: rest => [x, y] :: getChunks rest
  | [x] => [[x]]
  | [] => []

def matrixIndexes (matrix : List (List (Option Coerced))) : List Coerced :=
  matrix.flatten.filterMap id

def indexFits (count : Nat) : Coerced → Bool
  | .int value => value < count
  | .float _ => false

/-- `_validate_led_config`; whichever check fails, it raises a `ValueError`. -/
def validateLedConfig (matrix : List (List (Option Coerced))) (matrixRows matrixCols : Nat)
    (position : List (List (Option Coerced))) (positionRaw flags : List (Option Coerced)) : Bool :=
  (matrix.length = matrixRows || 2 * matrix.length = matrixRows) &&
    matrix.all (fun row => row.length = matrixCols) &&
    position.length = flags.length &&
    (matrixIndexes matrix).all (indexFits flags.length) &&
    positionRaw.length % 2 = 0

/-- The tables of a configuration that was found. -/
structure Found where
  matrix : List (List (Option Coerced))
  position : List (List (Option Coerced))
  flags : List (Option Coerced)

def parseLedConfig (lexer : CLexer) (file : Text) (matrixCols matrixRows : Nat) :
    Except Exit Found := do
  let s ← (lexer.lex (preprocessCFile file)).foldlM Parser.step Parser.initial
  let position := getChunks s.positionRaw
  if s.sections = 0 then .error .noConfig
  else if validateLedConfig s.matrix matrixRows matrixCols position s.positionRaw s.flags then
    .ok ⟨s.matrix, position, s.flags⟩
  else .error .valueError

/-- An entry of the result. -/
structure LedEntry where
  x : Option Coerced
  y : Option Coerced
  flags : Option Coerced
  matrix : Option (Nat × Nat)
  deriving DecidableEq

/-- `{'x': item[0], 'y': item[1], 'flags': flags[index]}`. -/
def ledEntry (flags : List (Option Coerced)) (entry : List (Option Coerced) × Nat) :
    Except Exit LedEntry :=
  match entry.1, flags[entry.2]? with
  | x :: y :: _, some flag => .ok ⟨x, y, flag, none⟩
  | _, _ => .error .indexError

def ledEntries (position : List (List (Option Coerced))) (flags : List (Option Coerced)) :
    Except Exit (List LedEntry) :=
  position.zipIdx.mapM (ledEntry flags)

/-- Where an index leads in a list; a negative one counts from the end. -/
def listIndex (length : Nat) (index : Int) : Option Nat :=
  if 0 ≤ index ∧ index < length then some index.toNat
  else if index < 0 ∧ 0 ≤ index + length then some (index + length).toNat
  else none

/-- `led_config[index]['matrix'] = [r, c]`, unless the index is `None`. -/
def setMatrix (ledConfig : List LedEntry) (place : Nat × Nat) :
    Option Coerced → Except Exit (List LedEntry)
  | none => .ok ledConfig
  | some (.float _) => .error .valueError
  | some (.int index) =>
      match listIndex ledConfig.length index with
      | some i => .ok (ledConfig.modify i fun entry => { entry with matrix := some place })
      | none => .error .indexError

def findLedConfig (lexer : CLexer) (file : Text) (matrixCols matrixRows : Nat) :
    Except Exit (List LedEntry) := do
  let found ← parseLedConfig lexer file matrixCols matrixRows
  let ledConfig ← ledEntries found.position found.flags
  found.matrix.zipIdx.foldlM (fun ledConfig (row, r) =>
    row.zipIdx.foldlM (fun ledConfig (index, c) => setMatrix ledConfig (r, c) index) ledConfig)
    ledConfig

/-! ## Texts without comments -/

theorem afterString_suffix (quote : Char) (text rest : Text)
    (h : afterString quote text = some rest) : rest <:+ text := by
  fun_induction afterString quote text with
  | case1 => cases h
  | case2 => cases h
  | case3 _ text ih => exact (ih h).trans ((List.suffix_cons _ text).trans (List.suffix_cons _ _))
  | case4 c text =>
      rw [← Option.some.inj h]
      exact List.suffix_cons _ _
  | case5 c text _ _ ih => exact (ih h).trans (List.suffix_cons c text)

theorem removeComments_eq {text : Text} (h : '/' ∉ text) (fuel : Nat) :
    removeComments fuel text = text := by
  induction fuel generalizing text with
  | zero => rfl
  | succ fuel ih =>
      cases text with
      | nil => rfl
      | cons c text =>
          have hslash : c ≠ '/' := fun hc => h (hc ▸ List.mem_cons_self)
          have htext : '/' ∉ text := fun hin => h (List.mem_cons_of_mem c hin)
          have hrest := ih htext
          rw [removeComments, if_neg fun hboth => hslash hboth.1,
            if_neg fun hboth => hslash hboth.1]
          split
          · cases hstring : afterString c text with
            | none => simp [hrest]
            | some rest =>
                have hsuffix := afterString_suffix c text rest hstring
                have htail := ih fun hin => htext (hsuffix.subset hin)
                simp only [htail, List.cons_append]
                rw [List.suffix_iff_eq_append.mp hsuffix]
          · rw [hrest]

end Qmk.LedConfig
