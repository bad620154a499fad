import Qmk.KeymapC.Text

/-!
# `_generate_macros_function`

The macros of a `keymap.json` become calls of `SEND_STRING`.  Their arguments are string literals
beside one another, and the `SS_` macros, which stand for string literals too.
-/

namespace Qmk.JsonMacros

open Qmk.KeymapC (Text replace isWordChar isBlank)

/-! ## The generator -/

/-- The actions that have keycodes. -/
inductive Kind where
  | tap
  | down
  | up
  deriving DecidableEq

/-- `action.upper()`. -/
def Kind.upper : Kind → Text
  | .tap => "TAP".toList
  | .down => "DOWN".toList
  | .up => "UP".toList

inductive Fragment where
  | text (t : Text)
  | delay (duration : Nat)
  | beep
  | keys (kind : Kind) (keycodes : List Text)
  deriving DecidableEq

abbrev Macro := List Fragment

def escapeText (macroFragment : Text) : Text :=
  let macroFragment := replace macroFragment ['\\'] ['\\', '\\']
  let macroFragment := replace macroFragment ['\r', '\n'] ['\\', 'n']
  let macroFragment := replace macroFragment ['\n'] ['\\', 'n']
  let macroFragment := replace macroFragment ['\r'] ['\\', 'n']
  let macroFragment := replace macroFragment ['\t'] ['\\', 't']
  replace macroFragment ['"'] ['\\', '"']

/-- `f'SS_DOWN(X_{keycode})'`, and the others. -/
def keyCall (kind : Kind) (keycode : Text) : Text :=
  "SS_".toList ++ kind.upper ++ "(X_".toList ++ keycode ++ [')']

def delayCall (duration : Nat) : Text :=
  "SS_DELAY(".toList ++ Nat.toDigits 10 duration ++ [')']

/-- What is appended to `macro`, and the fragment that is left behind. -/
def generateFragment : Fragment → Text × Fragment
  | .text t => ('"' :: escapeText t ++ ['"'], .text t)
  | .delay duration => (delayCall duration, .delay duration)
  | .beep => ("\"\\a\"".toList, .beep)
  | .keys .tap keycodes =>
      if 1 < keycodes.length then
        -- `keycodes.pop()`
        let lastKeycode := keycodes.getLastD []
        let keycodes := keycodes.dropLast
        (keycodes.flatMap (keyCall .down) ++ keyCall .tap lastKeycode ++
          keycodes.reverse.flatMap (keyCall .up), .keys .tap keycodes)
      else (keycodes.flatMap (keyCall .tap), .keys .tap keycodes)
  | .keys kind keycodes => (keycodes.flatMap (keyCall kind), .keys kind keycodes)

/-- The text of a macro before the clean-up. -/
def rawMacro (macroArray : Macro) : Text :=
  macroArray.flatMap fun macroFragment => (generateFragment macroFragment).1

def newMacro (macroArray : Macro) : Text := replace (rawMacro macroArray) ['"', '"'] []

def caseLine (i : Nat) : Text :=
  "            case QK_MACRO_".toList ++ Nat.toDigits 10 i ++ [':']

def sendLine (argument : Text) : Text :=
  "                SEND_STRING(".toList ++ argument ++ [')', ';']

def macroLines (macroArray : Macro) (i : Nat) : List Text :=
  [caseLine i, sendLine (newMacro macroArray), "                return false;".toList]

def headLines : List Text :=
  ["bool process_record_user(uint16_t keycode, keyrecord_t *record) \x7b".toList,
    "    if (record->event.pressed) \x7b".toList, "        switch (keycode) \x7b".toList]

def footLines : List Text :=
  ["        \x7d".toList, "    \x7d".toList, "\n    return true;".toList, "\x7d;".toList, []]

/-- The lines, and the macros that are left behind. -/
def generateMacrosFunction (macros : List Macro) : List Text × List Macro :=
  (headLines ++ (macros.zipIdx.flatMap fun (macroArray, i) => macroLines macroArray i) ++ footLines,
    macros.map (List.map fun macroFragment => (generateFragment macroFragment).2))

/-! ## What the macros say -/

/-- A character of the string, or an `SS_` sequence in it. -/
inductive Item where
  | char (c : Char)
  | key (kind : Kind) (keycode : Text)
  | delay (duration : Nat)
  deriving DecidableEq

/-- CR LF and CR turned into LF. -/
def unixLines : Text → Text
  | '\r' :: '\n' :: text => '\n' :: unixLines text
  | '\r' :: text => '\n' :: unixLines text
  | c :: text => c :: unixLines text
  | [] => []

def bell : Char := '\x07'

/-- Keys that are tapped together go down in order and up in reverse order. -/
def Fragment.sequence : Fragment → List Item
  | .text t => (unixLines t).map .char
  | .delay duration => [.delay duration]
  | .beep => [.char bell]
  | .keys .tap keycodes =>
      match keycodes.getLast? with
      | none => []
      | some lastKeycode => keycodes.dropLast.map (.key .down) ++ .key .tap lastKeycode ::
          keycodes.dropLast.reverse.map (.key .up)
  | .keys kind keycodes => keycodes.map (.key kind)

def sequence (macroArray : Macro) : List Item := macroArray.flatMap Fragment.sequence

/-! ## Reading the argument -/

/-- The simple escapes of C. -/
def escapeValue : Char → Option Char
  | '\'' => some '\''
  | '"' => some '"'
  | '?' => some '?'
  | '\\' => some '\\'
  | 'a' => some bell
  | 'b' => some '\x08'
  | 'f' => some '\x0c'
  | 'n' => some '\n'
  | 'r' => some '\r'
  | 't' => some '\t'
  | 'v' => some '\x0b'
  | _ => none

def kindOf (name : Text) : Option Kind :=
  [Kind.tap, .down, .up].find? fun kind => "SS_".toList ++ kind.upper = name

/-- The `SS_` macro of this name, with its argument. -/
def callItem (name argument : Text) : Option Item :=
  if name = "SS_DELAY".toList then
    if argument ≠ [] ∧ argument.all Char.isDigit then
      some (.delay (Nat.ofDigitChars 10 argument 0))
    else none
  else
    match kindOf name, argument with
    | some kind, 'X' :: '_' :: keycode => some (.key kind keycode)
    | _, _ => none

inductive Mode where
  | outside
  | literal
  | escape
  | name (w : Text)
  | argument (name w : Text)
  deriving DecidableEq

/-- What has been read, and whether it was anything. -/
structure Reader where
  mode : Mode
  items : List Item
  started : Bool
  deriving DecidableEq

def Reader.initial : Reader := ⟨.outside, [], false⟩

/-- Reads a character of the argument. -/
def Reader.step (s : Reader) (c : Char) : Option Reader :=
  match s.mode with
  | .outside =>
      if c = '"' then some { s with mode := .literal, started := true }
      else if isBlank c then some s
      else if isWordChar c then some { s with mode := .name [c] }
      else none
  | .literal =>
      if c = '"' then some { s with mode := .outside }
      else if c = '\\' then some { s with mode := .escape }
      else if c = '\n' then none
      else some { s with items := s.items ++ [.char c] }
  | .escape => (escapeValue c).map fun value =>
      { s with mode := .literal, items := s.items ++ [.char value] }
  | .name w =>
      if isWordChar c then some { s with mode := .name (w ++ [c]) }
      else if c = '(' then some { s with mode := .argument w [] }
      else none
  | .argument name w =>
      if isWordChar c then some { s with mode := .argument name (w ++ [c]) }
      else if c = ')' then (callItem name w).map fun item =>
        { s with mode := .outside, items := s.items ++ [item], started := true }
      else none

/-- The end of the argument; there has to be a literal. -/
def Reader.finish (s : Reader) : Option (List Item) :=
  if s.mode = .outside ∧ s.started = true then some s.items else none

/-- The string that the argument of `SEND_STRING` stands for. -/
def readArgument (argument : Text) : Option (List Item) :=
  (argument.foldlM Reader.step Reader.initial).bind Reader.finish

/-- Every macro is compiled to its string, and the macros stay as they are. -/
def Faithful (macros : List Macro) : Prop :=
  (∀ i macroArray, macros[i]? = some macroArray →
    ∃ argument, (generateMacrosFunction macros).1[3 * i + 3]? = some (caseLine i) ∧
      (generateMacrosFunction macros).1[3 * i + 4]? = some (sendLine argument) ∧
      readArgument argument = some (sequence macroArray)) ∧
    (generateMacrosFunction macros).2 = macros

/-! ## Quotation marks -/

/-- Nothing stands in the generated text for it. -/
def Fragment.Silent : Fragment → Bool
  | .text t => t.isEmpty
  | .delay _ | .beep => false
  | .keys _ keycodes => keycodes.isEmpty

/-- A string literal stands in the generated text for it. -/
def Fragment.isLiteral : Fragment → Bool
  | .text _ | .beep => true
  | .delay _ | .keys _ _ => false

def Fragment.endsInQuote : Fragment → Bool
  | .text t => t.getLast? = some '"'
  | .delay _ | .beep | .keys _ _ => false

/-- The generated text begins with a literal that stays. -/
def opensLiteral : Macro → Bool
  | [] => false
  | fragment :: rest => if fragment.Silent then opensLiteral rest else fragment.isLiteral

/-- A literal comes after every text that ends in a quotation mark. -/
def quotesFollowed : Macro → Bool
  | [] => true
  | fragment :: rest => (!fragment.endsInQuote || opensLiteral rest) && quotesFollowed rest

def Fragment.keycodes : Fragment → List Text
  | .keys _ keycodes => keycodes
  | .text _ | .delay _ | .beep => []

def Fragment.Chord : Fragment → Prop
  | .keys .tap keycodes => 1 < keycodes.length
  | .keys _ _ | .text _ | .delay _ | .beep => False

/-- The macros that the generator compiles. -/
structure Compilable (macroArray : Macro) : Prop where
  heard : ∃ fragment ∈ macroArray, fragment.Silent = false
  followed : quotesFollowed macroArray = true
  keycodes : ∀ fragment ∈ macroArray, ∀ keycode ∈ fragment.keycodes, ∀ c ∈ keycode,
    isWordChar c = true
  noChord : ∀ fragment ∈ macroArray, ¬ fragment.Chord

end Qmk.JsonMacros
