import Qmk.KeymapC.Generate

/-!
# `c2json`

The parser of `keymap.py` for the layers of a `keymap.c`, and what `c2json` makes of them.
-/

namespace Qmk.KeymapC

/-- The dictionary of a layer; a name or layout that is `False` is empty. -/
structure Layer where
  name : Text
  layout : Text
  keycodes : List Text
  deriving DecidableEq

def Layer.fresh : Layer := ⟨[], [], []⟩

/-- The variables of `_get_layers`. -/
structure ParseState where
  layers : List Layer
  keymapCertainty : Nat
  braceDepth : Int
  isKeymap : Bool
  isLayer : Bool
  isAdvKc : Bool
  layer : Layer
  deriving DecidableEq

def ParseState.start : ParseState := ⟨[], 0, 0, false, false, false, .fresh⟩

/-- `keycodes[-1] += text`; the list must not be empty. -/
def appendLast (text : Text) : List Text → Option (List Text)
  | [] => none
  | [keycode] => some [keycode ++ text]
  | keycode :: keycodes => (appendLast text keycodes).map (keycode :: ·)

def ParseState.extendKeycode (s : ParseState) (text : Text) : Option ParseState :=
  (appendLast text s.layer.keycodes).map fun keycodes =>
    { s with layer := { s.layer with keycodes } }

def openingBraces : Text := "(\x7b[".toList

def closingBraces : Text := ")\x7d]".toList

/-- The short names of two keycodes. -/
def expandKeycode (value : Text) : Text :=
  if value = "_______".toList then "KC_TRNS".toList
  else if value = "XXXXXXX".toList then "KC_NO".toList
  else value

/-- A name inside the keymaps array. -/
def parseKeymapName (s : ParseState) (value : Text) : Option ParseState :=
  if s.layer.name = [] then
    if "LAYOUT".toList.isPrefixOf value ∨ "KEYMAP".toList.isPrefixOf value then
      -- a keymap array that has only one layer
      some { s with layer := { s.layer with name := ['0'], layout := value } }
    else some { s with layer := { s.layer with name := value } }
  else if s.layer.layout = [] then some { s with layer := { s.layer with layout := value } }
  else if s.isLayer then
    if s.isAdvKc then s.extendKeycode (expandKeycode value)
    else
      some { s with
        layer := { s.layer with keycodes := s.layer.keycodes ++ [expandKeycode value] } }
  else some s

/-- A name outside the keymaps array, which may be part of its signature. -/
def parseSignatureName (s : ParseState) (value : Text) : ParseState :=
  if value = "PROGMEM".toList ∧ s.keymapCertainty = 2 then { s with keymapCertainty := 3 }
  else if value = "keymaps".toList ∧ s.keymapCertainty = 3 then { s with keymapCertainty := 4 }
  else if value = "MATRIX_ROWS".toList ∧ s.keymapCertainty = 4 then { s with keymapCertainty := 5 }
  else if value = "MATRIX_COLS".toList ∧ s.keymapCertainty = 5 then { s with keymapCertainty := 6 }
  else s

def parseOpening (s : ParseState) (value : Text) : Option ParseState :=
  let s := { s with braceDepth := s.braceDepth + 1 }
  if s.isKeymap then
    if s.isLayer then ParseState.extendKeycode { s with isAdvKc := true } value
    else if value = ['('] ∧ s.braceDepth = 2 then some { s with isLayer := true }
    else some s
  else if value = ['\x7b'] ∧ s.keymapCertainty = 6 then some { s with isKeymap := true }
  else some s

def parseClosing (s : ParseState) (value : Text) : Option ParseState :=
  let s := { s with braceDepth := s.braceDepth - 1 }
  if s.isKeymap then
    if s.isAdvKc then
      (s.extendKeycode value).map fun t => if t.braceDepth = 2 then { t with isAdvKc := false } else t
    else if value = [')'] ∧ s.braceDepth = 1 then
      some { s with isLayer := false, layers := s.layers ++ [s.layer], layer := .fresh }
    else if value = ['\x7d'] ∧ s.braceDepth = 0 then
      some { s with isKeymap := false, keymapCertainty := 0 }
    else some s
  else some s

/-- Other text is kept inside an advanced keycode only. -/
def parseOther (s : ParseState) (value : Text) : Option ParseState :=
  if s.isAdvKc then s.extendKeycode value else some s

def parseToken (s : ParseState) (token : Token) : Option ParseState :=
  match token.type with
  | .name =>
      if s.isKeymap then parseKeymapName s token.value
      else some (parseSignatureName s token.value)
  | .keyword =>
      some (if token.value = "const".toList ∧ s.keymapCertainty = 0 then
        { s with keymapCertainty := 1 } else s)
  | .keywordType =>
      some (if token.value = "uint16_t".toList ∧ s.keymapCertainty = 1 then
        { s with keymapCertainty := 2 } else s)
  | .punctuation =>
      if token.value <:+: openingBraces then parseOpening s token.value
      else if token.value <:+: closingBraces then parseClosing s token.value
      else parseOther s token.value
  | .integer =>
      if s.isKeymap ∧ s.isAdvKc = false then
        some (if s.layer.name = [] then { s with layer := { s.layer with name := token.value } }
          else s)
      else parseOther s token.value
  | .other => parseOther s token.value

def getLayers (lexer : CLexer) (keymap : Text) : Option (List Layer) :=
  ((lexer.lex keymap).foldlM parseToken ParseState.start).map ParseState.layers

/-- The loop of `c2json` over the layers. -/
def assemble : List Layer → KeymapJson → KeymapJson
  | [], keymapJson => keymapJson
  | layer :: layers, keymapJson =>
      assemble layers
        { keymapJson with
          layout := if keymapJson.layout = [] then layer.layout else keymapJson.layout
          layers := keymapJson.layers ++ [layer.keycodes] }

/-- `c2json`, without the preprocessor. -/
def c2json (lexer : CLexer) (keyboard keymap keymapFile : Text) : Option KeymapJson :=
  (getLayers lexer keymapFile).map fun dirtyLayers =>
    { assemble dirtyLayers ⟨[], [], [], []⟩ with keyboard, keymap }

end Qmk.KeymapC
