import Mathlib.Algebra.Group.Nat.Defs
import Mathlib.Logic.Function.Basic
import Qmk.Lib.Run

/-!
# The dynamic keymap in the EEPROM

The accessors of `nvm_dynamic_keymap.c` for the keymap, the encoders and the macro buffer,
which lie one after the other.
-/

namespace Qmk.DynamicKeymap

abbrev Byte := BitVec 8

abbrev Eeprom := Nat → Byte

def kcNo : BitVec 16 := 0

structure Config where
  /-- `DYNAMIC_KEYMAP_EEPROM_ADDR`. -/
  eepromAddr : Nat
  /-- `DYNAMIC_KEYMAP_EEPROM_MAX_ADDR`. -/
  maxAddr : Nat
  layerCount : Nat
  matrixRows : Nat
  matrixCols : Nat
  /-- `NUM_ENCODERS`, with 0 for a keyboard without an encoder map. -/
  numEncoders : Nat
  maxAddr_le : maxAddr ≤ 65535
  /-- The room that a `STATIC_ASSERT` leaves for macros. -/
  room : eepromAddr + layerCount * matrixRows * matrixCols * 2 +
    layerCount * numEncoders * 2 * 2 + 100 ≤ maxAddr

section Accessors

variable (cfg : Config)

def Config.keymapSize : Nat := cfg.layerCount * cfg.matrixRows * cfg.matrixCols * 2

/-- `DYNAMIC_KEYMAP_ENCODER_EEPROM_ADDR`. -/
def Config.encoderAddr : Nat := cfg.eepromAddr + cfg.keymapSize

/-- `DYNAMIC_KEYMAP_MACRO_EEPROM_ADDR`. -/
def Config.macroAddr : Nat := cfg.encoderAddr + cfg.layerCount * cfg.numEncoders * 2 * 2

/-- `DYNAMIC_KEYMAP_MACRO_EEPROM_SIZE`. -/
def Config.macroSize : Nat := cfg.maxAddr - cfg.macroAddr + 1

def keyToEepromAddress (layer row column : Nat) : Nat :=
  cfg.eepromAddr + layer * cfg.matrixRows * cfg.matrixCols * 2 + row * cfg.matrixCols * 2 +
    column * 2

def encoderToEepromAddress (layer encoderId : Nat) : Nat :=
  cfg.encoderAddr + layer * cfg.numEncoders * 2 * 2 + encoderId * 2 * 2

/-- The position is one of the keymap. -/
def InKeymap (layer row column : Nat) : Prop :=
  layer < cfg.layerCount ∧ row < cfg.matrixRows ∧ column < cfg.matrixCols

instance (layer row column : Nat) : Decidable (InKeymap cfg layer row column) :=
  inferInstanceAs (Decidable (_ ∧ _ ∧ _))

def InEncoders (layer encoderId : Nat) : Prop :=
  layer < cfg.layerCount ∧ encoderId < cfg.numEncoders

instance (layer encoderId : Nat) : Decidable (InEncoders cfg layer encoderId) :=
  inferInstanceAs (Decidable (_ ∧ _))

/-- Big endian. -/
def word (hi lo : Byte) : BitVec 16 := (hi.setWidth 16 <<< 8) ||| lo.setWidth 16

def readWord (eeprom : Eeprom) (address : Nat) : BitVec 16 :=
  word (eeprom address) (eeprom (address + 1))

def high (keycode : BitVec 16) : Byte := (keycode >>> 8).setWidth 8

/-- `(uint8_t)(keycode & 0xFF)`. -/
def low (keycode : BitVec 16) : Byte := keycode.setWidth 8

def updateWord (eeprom : Eeprom) (address : Nat) (keycode : BitVec 16) : Eeprom :=
  Function.update (Function.update eeprom address (high keycode)) (address + 1) (low keycode)

def nvmDynamicKeymapReadKeycode (layer row column : Nat) (eeprom : Eeprom) : BitVec 16 :=
  if InKeymap cfg layer row column then
    readWord eeprom (keyToEepromAddress cfg layer row column)
  else kcNo

def nvmDynamicKeymapUpdateKeycode (layer row column : Nat) (keycode : BitVec 16)
    (eeprom : Eeprom) : Eeprom :=
  if InKeymap cfg layer row column then
    updateWord eeprom (keyToEepromAddress cfg layer row column) keycode
  else eeprom

/-- The two directions of an encoder. -/
def directionOffset (clockwise : Bool) : Nat := if clockwise = true then 0 else 2

def nvmDynamicKeymapReadEncoder (layer encoderId : Nat) (clockwise : Bool)
    (eeprom : Eeprom) : BitVec 16 :=
  if InEncoders cfg layer encoderId then
    readWord eeprom (encoderToEepromAddress cfg layer encoderId + directionOffset clockwise)
  else kcNo

def nvmDynamicKeymapUpdateEncoder (layer encoderId : Nat) (clockwise : Bool)
    (keycode : BitVec 16) (eeprom : Eeprom) : Eeprom :=
  if InEncoders cfg layer encoderId then
    updateWord eeprom (encoderToEepromAddress cfg layer encoderId + directionOffset clockwise)
      keycode
  else eeprom

/-- The loop of the read accessors; `limit` is the size of the region at `base`. -/
def readBuffer (base limit offset size : Nat) (eeprom : Eeprom) : List Byte :=
  (List.range size).map fun i =>
    if offset + i < limit then eeprom (base + offset + i) else 0

/-- The loop of the update accessors, in which every byte is checked by itself. -/
def updateBuffer (base limit offset : Nat) (data : Nat → Byte) (eeprom : Eeprom) :
    Nat → Eeprom
  | 0 => eeprom
  | i + 1 =>
      let eeprom := updateBuffer base limit offset data eeprom i
      if offset + i < limit then Function.update eeprom (base + offset + i) (data i)
      else eeprom

def nvmDynamicKeymapReadBuffer (offset size : BitVec 16) (eeprom : Eeprom) : List Byte :=
  readBuffer cfg.eepromAddr cfg.keymapSize offset.toNat size.toNat eeprom

def nvmDynamicKeymapUpdateBuffer (offset size : BitVec 16) (data : Nat → Byte)
    (eeprom : Eeprom) : Eeprom :=
  updateBuffer cfg.eepromAddr cfg.keymapSize offset.toNat data eeprom size.toNat

/-- The index of this loop has 16 bits, as the sizes that `dynamic_keymap.c` passes on. -/
def nvmDynamicKeymapMacroReadBuffer (offset size : BitVec 16) (eeprom : Eeprom) : List Byte :=
  readBuffer cfg.macroAddr cfg.macroSize offset.toNat size.toNat eeprom

def nvmDynamicKeymapMacroUpdateBuffer (offset size : BitVec 16) (data : Nat → Byte)
    (eeprom : Eeprom) : Eeprom :=
  updateBuffer cfg.macroAddr cfg.macroSize offset.toNat data eeprom size.toNat

/-- The operations of `dynamic_keymap.c`; the bytes of a buffer are at `data`. -/
inductive Op
  | setKeycode (layer row column : Nat) (keycode : BitVec 16)
  | setEncoder (layer encoderId : Nat) (clockwise : Bool) (keycode : BitVec 16)
  | setBuffer (offset size : BitVec 16) (data : Nat → Byte)
  | macroSetBuffer (offset size : BitVec 16) (data : Nat → Byte)

def step (eeprom : Eeprom) : Op → Eeprom
  | .setKeycode layer row column keycode =>
      nvmDynamicKeymapUpdateKeycode cfg layer row column keycode eeprom
  | .setEncoder layer encoderId clockwise keycode =>
      nvmDynamicKeymapUpdateEncoder cfg layer encoderId clockwise keycode eeprom
  | .setBuffer offset size data => nvmDynamicKeymapUpdateBuffer cfg offset size data eeprom
  | .macroSetBuffer offset size data =>
      nvmDynamicKeymapMacroUpdateBuffer cfg offset size data eeprom

end Accessors

/-! ## Words and buffers -/

@[simp] theorem high_word (hi lo : Byte) : high (word hi lo) = hi := by
  ext i hi
  have hlow : ¬8 + i < 8 := by omega
  have hhigh : 8 + i < 16 := by omega
  have hwide : i < 16 := by omega
  simp [high, word, hi, hlow, hhigh, hwide]

@[simp] theorem low_word (hi lo : Byte) : low (word hi lo) = lo := by
  ext i hi
  simp [low, word]

@[simp] theorem word_high_low (keycode : BitVec 16) : word (high keycode) (low keycode) = keycode := by
  ext i hi
  by_cases hlow : i < 8
  · simp [word, high, low, hi, hlow, ← BitVec.getLsbD_eq_getElem]
  · have hbyte : i - 8 < 8 := by omega
    have hwide : i - 8 < 16 := by omega
    have hsum : 8 + (i - 8) = i := by omega
    simp [word, high, low, hi, hlow, hbyte, hwide, hsum, ← BitVec.getLsbD_eq_getElem]

theorem readWord_updateWord (eeprom : Eeprom) (address : Nat) (keycode : BitVec 16) :
    readWord (updateWord eeprom address keycode) address = keycode := by
  have hne : address ≠ address + 1 := by omega
  rw [readWord, updateWord, Function.update_of_ne hne, Function.update_self,
    Function.update_self, word_high_low]

theorem updateWord_outside (eeprom : Eeprom) {address a : Nat} (keycode : BitVec 16)
    (h : a < address ∨ address + 2 ≤ a) : updateWord eeprom address keycode a = eeprom a := by
  rw [updateWord, Function.update_of_ne (by omega), Function.update_of_ne (by omega)]

theorem readWord_congr {eeprom other : Eeprom} {address : Nat}
    (h : ∀ a, address ≤ a → a < address + 2 → eeprom a = other a) :
    readWord eeprom address = readWord other address := by
  rw [readWord, readWord, h address (by omega) (by omega),
    h (address + 1) (by omega) (by omega)]

/-- The byte at `index` of a region after `data` was written to it at `offset`. -/
def patch (offset size : Nat) (data : Nat → Byte) (index : Nat) (old : Byte) : Byte :=
  if offset ≤ index ∧ index < offset + size then data (index - offset) else old

theorem patch_succ (offset size : Nat) (data : Nat → Byte) {index : Nat} (old : Byte)
    (h : index ≠ offset + size) :
    patch offset (size + 1) data index old = patch offset size data index old := by
  have hiff : (offset ≤ index ∧ index < offset + (size + 1)) ↔
      offset ≤ index ∧ index < offset + size := by omega
  simp only [patch, hiff]

theorem updateBuffer_inside (base offset : Nat) {limit index : Nat} (data : Nat → Byte)
    (eeprom : Eeprom) (size : Nat) (hindex : index < limit) :
    updateBuffer base limit offset data eeprom size (base + index) =
      patch offset size data index (eeprom (base + index)) := by
  induction size with
  | zero => rw [updateBuffer, patch, if_neg (by omega)]
  | succ size ih =>
      rw [updateBuffer]
      by_cases hlast : index = offset + size
      · subst hlast
        rw [if_pos hindex, ← Nat.add_assoc, Function.update_self, patch, if_pos (by omega)]
        congr 1
        omega
      · rw [patch_succ _ _ _ _ hlast, ← ih]
        split
        · rw [Function.update_of_ne (by omega)]
        · rfl

theorem updateBuffer_outside (base limit offset : Nat) (data : Nat → Byte) (eeprom : Eeprom)
    (size : Nat) {a : Nat} (h : a < base ∨ base + limit ≤ a) :
    updateBuffer base limit offset data eeprom size a = eeprom a := by
  induction size with
  | zero => rfl
  | succ size ih =>
      rw [updateBuffer]
      split
      · rw [Function.update_of_ne (by omega), ih]
      · exact ih

end Qmk.DynamicKeymap
