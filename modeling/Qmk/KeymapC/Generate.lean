import Qmk.KeymapC.Lexing

/-!
# `generate_c`

The part of `keymap.py` that writes a `keymap.c`, for a keymap without encoders, DIP switches, macros
and a host language: the placeholders of their sections are replaced by nothing.
-/

namespace Qmk.KeymapC

structure KeymapJson where
  keyboard : Text
  keymap : Text
  layout : Text
  layers : List (List Text)
  deriving DecidableEq

/-! ## Text -/

/-- `str.replace`, for an `old` that is not empty; the first characters are skipped. -/
def replaceFrom (old new : Text) : Nat → Text → Text
  | _, [] => []
  | skip + 1, _ :: text => replaceFrom old new skip text
  | 0, c :: text =>
      if old.isPrefixOf (c :: text) then new ++ replaceFrom old new (old.length - 1) text
      else c :: replaceFrom old new 0 text

def replace (text old new : Text) : Text := replaceFrom old new 0 text

/-- `sep.join(parts)`. -/
def join (sep : Text) : List Text → Text
  | [] => []
  | [part] => part
  | part :: parts => part ++ sep ++ join sep parts

def includesMark : Text := "__INCLUDES__".toList

def keymapMark : Text := "__KEYMAP_GOES_HERE__".toList

def encoderMapMark : Text := "__ENCODER_MAP_GOES_HERE__".toList

def dipSwitchMapMark : Text := "__DIP_SWITCH_MAP_GOES_HERE__".toList

def macroOutputMark : Text := "__MACRO_OUTPUT_GOES_HERE__".toList

def defaultKeymapC : Text :=
  "#include QMK_KEYBOARD_H\n".toList ++
    "#if __has_include(\"keymap.h\")\n".toList ++
    "#    include \"keymap.h\"\n".toList ++
    "#endif\n".toList ++
    "__INCLUDES__\n".toList ++
    "\n".toList ++
    "/* THIS FILE WAS GENERATED!\n".toList ++
    " *\n".toList ++
    " * This file was generated by qmk json2c. You may or may not want to\n".toList ++
    " * edit it directly.\n".toList ++
    " */\n".toList ++
    "\n".toList ++
    "__KEYMAP_GOES_HERE__\n".toList ++
    "__ENCODER_MAP_GOES_HERE__\n".toList ++
    "__DIP_SWITCH_MAP_GOES_HERE__\n".toList ++
    "__MACRO_OUTPUT_GOES_HERE__\n".toList ++
    "\n".toList ++
    "#ifdef OTHER_KEYMAP_C\n".toList ++
    "#    include OTHER_KEYMAP_C\n".toList ++
    "#endif // OTHER_KEYMAP_C\n".toList

/-! ## The keymaps array -/

def stripAny (keycode : Text) : Text :=
  if "ANY(".toList.isPrefixOf keycode ∧ ")".toList.isSuffixOf keycode then
    (keycode.drop 4).dropLast
  else keycode

/-- `lines[-1] = lines[-1] + ','`. -/
def addComma : List Text → List Text
  | [] => []
  | [line] => [line ++ [',']]
  | line :: lines => line :: addComma lines

/-- `'    [%s] = %s(%s)' % (layer_num, layout, layer_keys)`. -/
def layerLine (layout : Text) (layerNum : Nat) (layer : List Text) : Text :=
  [' ', ' ', ' ', ' ', '['] ++ Nat.toDigits 10 layerNum ++ [']', ' ', '=', ' '] ++ layout ++
    ['('] ++ join [',', ' '] (layer.map stripAny) ++ [')']

/-- The loop of `_generate_keymap_table` over the layers. -/
def addLayers (layout : Text) : Nat → List (List Text) → List Text → List Text
  | _, [], lines => lines
  | layerNum, layer :: layers, lines =>
      let lines := if layerNum ≠ 0 then addComma lines else lines
      addLayers layout (layerNum + 1) layers (lines ++ [layerLine layout layerNum layer])

def keymapsSignature : Text :=
  "const uint16_t PROGMEM keymaps[][MATRIX_ROWS][MATRIX_COLS] = \x7b".toList

def generateKeymapTable (keymapJson : KeymapJson) : List Text :=
  addLayers keymapJson.layout 0 keymapJson.layers [keymapsSignature] ++ ["\x7d;".toList]

def generateC (keymapJson : KeymapJson) : Text :=
  let newKeymap := defaultKeymapC
  let newKeymap := replace newKeymap keymapMark (join ['\n'] (generateKeymapTable keymapJson))
  let newKeymap := replace newKeymap encoderMapMark []
  let newKeymap := replace newKeymap dipSwitchMapMark []
  let newKeymap := replace newKeymap macroOutputMark []
  replace newKeymap includesMark []

end Qmk.KeymapC
