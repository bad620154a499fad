import Qmk.DynamicKeymap.Regions
import Qmk.Lib.Footprint

/-!
# Commands of the host

`raw_hid_receive` of `via.c`, which finds a command in a packet of 32 bytes and answers in place.
The commands of the keyboard itself are the weak ones, which handle nothing.
-/

namespace Qmk.Via

open Qmk.Lib
open Qmk.Lib.Access
open DynamicKeymap (Byte Eeprom word high low)

/-- The EEPROM, and the rest of the firmware. -/
structure Device (ρ : Type) where
  eeprom : Eeprom
  rest : ρ

/-- The accessors of a lighting or audio module, by the id of a value. -/
structure Module (ρ : Type) where
  enable : Bool
  set : Byte → List Byte → ρ → ρ
  get : Byte → Nat → ρ → Byte
  save : Device ρ → Device ρ

structure Config (ρ : Type) extends DynamicKeymap.Config where
  matrixCols_pos : 0 < matrixCols
  matrixCols_le : matrixCols ≤ 32
  encoderMap : Bool
  /-- `VIA_EEPROM_ALLOW_RESET`. -/
  eepromAllowReset : Bool
  /-- `DYNAMIC_KEYMAP_MACRO_COUNT`. -/
  macroCount : Byte
  firmwareVersion : BitVec 32
  keycodesVersion : BitVec 32
  timerRead32 : ρ → BitVec 32
  viaGetLayoutOptions : Device ρ → BitVec 32
  viaSetLayoutOptions : BitVec 32 → Device ρ → Device ρ
  viaSetDeviceIndication : Byte → ρ → ρ
  /-- 0 where the state of the matrix is not to be told. -/
  matrixGetRow : ρ → Nat → BitVec 32
  dynamicKeymapReset : Device ρ → Device ρ
  dynamicKeymapMacroReset : Device ρ → Device ρ
  /-- `via_eeprom_set_valid(false)` and `eeconfig_init_via`. -/
  eepromReset : Device ρ → Device ρ
  /-- `BACKLIGHT_BREATHING`. -/
  backlightBreathing : Bool
  backlight : Module ρ
  rgblight : Module ρ
  rgbMatrix : Module ρ
  ledMatrix : Module ρ
  audio : Module ρ

variable {ρ : Type}

abbrev Handler (ρ : Type) := Access Byte (Device ρ)

/-- `*command_id = id_unhandled`. -/
def unhandled : Handler ρ Unit := write 0 0xFF

def tellRest (f : ρ → ρ) : Handler ρ Unit := tell fun device => { device with rest := f device.rest }

def tellEeprom (f : Eeprom → Eeprom) : Handler ρ Unit :=
  tell fun device => { device with eeprom := f device.eeprom }

/-- A value of 32 bits, in `command_data[1]` and the bytes behind it. -/
def put32 (value : BitVec 32) : Handler ρ Unit := do
  write 2 ((value >>> 24).setWidth 8)
  write 3 ((value >>> 16).setWidth 8)
  write 4 ((value >>> 8).setWidth 8)
  write 5 (value.setWidth 8)

section Functions

variable (cfg : Config ρ)

/-! ## Keyboard values -/

/-- The bytes of a row, as far as the matrix has columns. -/
def rowShifts : List Nat :=
  (if 24 < cfg.matrixCols then [24] else []) ++ (if 16 < cfg.matrixCols then [16] else []) ++
    (if 8 < cfg.matrixCols then [8] else []) ++ [0]

/-- The bytes of a row from `command_data[i]` on. -/
def writeRow (value : BitVec 32) (i : Nat) : List Nat → Handler ρ Unit
  | [] => pure ()
  | shift :: shifts => do
      write (i + 1) ((value >>> shift).setWidth 8)
      writeRow value (i + 1) shifts

/-- The loop of `id_switch_matrix_state`: `rows` are those that are left. -/
def writeRows (offset : Nat) : Nat → Nat → Nat → Handler ρ Unit
  | 0, _, _ => pure ()
  | rows + 1, row, i =>
      if row + offset < cfg.matrixRows then do
        let value ← ask fun device => cfg.matrixGetRow device.rest (row + offset)
        writeRow value i (rowShifts cfg)
        writeRows offset rows (row + 1) (i + (rowShifts cfg).length)
      else pure ()

def switchMatrixState : Handler ρ Unit := do
  let offset ← read 2
  writeRows cfg offset.toNat (28 / ((cfg.matrixCols + 7) / 8)) 0 2

def getKeyboardValue : Handler ρ Unit := do
  let valueId ← read 1
  match valueId.toNat with
  | 0x01 => do
      let value ← ask fun device => cfg.timerRead32 device.rest
      put32 value
  | 0x02 => do
      let value ← ask cfg.viaGetLayoutOptions
      put32 value
  | 0x03 => switchMatrixState cfg
  | 0x04 => put32 cfg.firmwareVersion
  | 0x06 => put32 cfg.keycodesVersion
  | _ => unhandled

def setKeyboardValue : Handler ρ Unit := do
  let valueId ← read 1
  match valueId.toNat with
  | 0x02 => do
      let a ← read 2
      let b ← read 3
      let c ← read 4
      let d ← read 5
      tell (cfg.viaSetLayoutOptions (a ++ b ++ c ++ d))
  | 0x05 => do
      let value ← read 2
      tellRest (cfg.viaSetDeviceIndication value)
  | _ => unhandled

/-! ## Modules -/

/-- The number of bytes of a value; `none` is a value that the module does not have. -/
def valueBytes (values : List (Nat × Nat)) (valueId : Byte) : Option Nat :=
  (values.find? (·.1 = valueId.toNat)).map (·.2)

def setValue (module : Module ρ) (values : List (Nat × Nat)) : Handler ρ Unit := do
  let valueId ← read 2
  match valueBytes values valueId with
  | some n => do
      let valueData ← readMany 3 n
      tellRest (module.set valueId valueData)
  | none => pure ()

def getValue (module : Module ρ) (values : List (Nat × Nat)) : Handler ρ Unit := do
  let valueId ← read 2
  match valueBytes values valueId with
  | some n =>
      loop (fun k => do
        let value ← ask fun device => module.get valueId k device.rest
        write (3 + k) value) 0 n
  | none => pure ()

/-- The commands of a module. -/
def moduleCommand (module : Module ρ) (setValues getValues : List (Nat × Nat)) : Handler ρ Unit := do
  let commandId ← read 0
  match commandId.toNat with
  | 0x07 => setValue module setValues
  | 0x08 => getValue module getValues
  | 0x09 => tell module.save
  | _ => unhandled

/-- The brightness, and the effect, of which a set needs breathing. -/
def viaQmkBacklightCommand : Handler ρ Unit :=
  moduleCommand cfg.backlight [(1, 1), (2, if cfg.backlightBreathing then 1 else 0)]
    [(1, 1), (2, 1)]

/-- The brightness, the effect, its speed, and the colour. -/
def viaQmkRgblightCommand : Handler ρ Unit :=
  moduleCommand cfg.rgblight [(1, 1), (2, 1), (3, 1), (4, 2)] [(1, 1), (2, 1), (3, 1), (4, 2)]

def viaQmkRgbMatrixCommand : Handler ρ Unit :=
  moduleCommand cfg.rgbMatrix [(1, 1), (2, 1), (3, 1), (4, 2)] [(1, 1), (2, 1), (3, 1), (4, 2)]

def viaQmkLedMatrixCommand : Handler ρ Unit :=
  moduleCommand cfg.ledMatrix [(1, 1), (2, 1), (3, 1)] [(1, 1), (2, 1), (3, 1)]

/-- Whether audio, and whether its clicks are enabled. -/
def viaQmkAudioCommand : Handler ρ Unit :=
  moduleCommand cfg.audio [(1, 1), (2, 1)] [(1, 1), (2, 1)]

def viaCustomValueCommand : Handler ρ Unit := do
  let channelId ← read 1
  if cfg.backlight.enable = true ∧ channelId = 1 then viaQmkBacklightCommand cfg
  else if cfg.rgblight.enable = true ∧ channelId = 2 then viaQmkRgblightCommand cfg
  else if cfg.rgbMatrix.enable = true ∧ channelId = 3 then viaQmkRgbMatrixCommand cfg
  else if cfg.ledMatrix.enable = true ∧ channelId = 5 then viaQmkLedMatrixCommand cfg
  else if cfg.audio.enable = true ∧ channelId = 4 then viaQmkAudioCommand cfg
  else unhandled

/-! ## The dynamic keymap -/

def getKeycode : Handler ρ Unit := do
  let layer ← read 1
  let row ← read 2
  let column ← read 3
  let keycode ← ask fun device => DynamicKeymap.nvmDynamicKeymapReadKeycode
    cfg.toConfig layer.toNat row.toNat column.toNat device.eeprom
  write 4 (high keycode)
  write 5 (low keycode)

def setKeycode : Handler ρ Unit := do
  let layer ← read 1
  let row ← read 2
  let column ← read 3
  let hi ← read 4
  let lo ← read 5
  tellEeprom (DynamicKeymap.nvmDynamicKeymapUpdateKeycode cfg.toConfig layer.toNat row.toNat
    column.toNat (word hi lo))

def getEncoder : Handler ρ Unit := do
  let layer ← read 1
  let encoderId ← read 2
  let clockwise ← read 3
  let keycode ← ask fun device => DynamicKeymap.nvmDynamicKeymapReadEncoder
    cfg.toConfig layer.toNat encoderId.toNat (clockwise ≠ 0) device.eeprom
  write 4 (high keycode)
  write 5 (low keycode)

def setEncoder : Handler ρ Unit := do
  let layer ← read 1
  let encoderId ← read 2
  let clockwise ← read 3
  let hi ← read 4
  let lo ← read 5
  tellEeprom (DynamicKeymap.nvmDynamicKeymapUpdateEncoder cfg.toConfig layer.toNat
    encoderId.toNat (clockwise ≠ 0) (word hi lo))

/-- The read accessor of the region at `base`, into `command_data[3]` and behind. -/
def readBuffer (base limit offset size : Nat) : Handler ρ Unit :=
  loop (fun i => do
    let value ← ask fun device =>
      if offset + i < limit then device.eeprom (base + offset + i) else 0
    write (4 + i) value) 0 size

/-- The update accessor of the region at `base`, of which `size` bytes are given. -/
def updateBuffer (base limit offset size : Nat) : Handler ρ Unit :=
  loop (fun i =>
    if offset + i < limit then do
      let value ← read (4 + i)
      tellEeprom fun eeprom => Function.update eeprom (base + offset + i) value
    else pure ()) 0 size

/-- A buffer command: the offset and the size are the host's. -/
def bufferCommand (access : Nat → Nat → Handler ρ Unit) : Handler ρ Unit := do
  let hi ← read 1
  let lo ← read 2
  let size ← read 3
  access (word hi lo).toNat size.toNat

def macroGetBuffer : Handler ρ Unit := bufferCommand (readBuffer cfg.macroAddr cfg.macroSize)

def macroSetBuffer : Handler ρ Unit := bufferCommand (updateBuffer cfg.macroAddr cfg.macroSize)

def getBuffer : Handler ρ Unit := bufferCommand (readBuffer cfg.eepromAddr cfg.keymapSize)

def setBuffer : Handler ρ Unit := bufferCommand (updateBuffer cfg.eepromAddr cfg.keymapSize)

def macroGetBufferSize : Handler ρ Unit := do
  let size := BitVec.ofNat 16 cfg.macroSize
  write 1 (high size)
  write 2 (low size)

/-! ## Commands -/

def getProtocolVersion : Handler ρ Unit := do
  write 1 0x00
  write 2 0x0D

def command : Nat → Handler ρ Unit
  | 0x01 => getProtocolVersion
  | 0x02 => getKeyboardValue cfg
  | 0x03 => setKeyboardValue cfg
  | 0x04 => getKeycode cfg
  | 0x05 => setKeycode cfg
  | 0x06 => tell cfg.dynamicKeymapReset
  | 0x07 => viaCustomValueCommand cfg
  | 0x08 => viaCustomValueCommand cfg
  | 0x09 => viaCustomValueCommand cfg
  | 0x0A => if cfg.eepromAllowReset then tell cfg.eepromReset else unhandled
  | 0x0C => write 1 cfg.macroCount
  | 0x0D => macroGetBufferSize cfg
  | 0x0E => macroGetBuffer cfg
  | 0x0F => macroSetBuffer cfg
  | 0x10 => tell cfg.dynamicKeymapMacroReset
  | 0x11 => write 1 (BitVec.ofNat 8 cfg.layerCount)
  | 0x12 => getBuffer cfg
  | 0x13 => setBuffer cfg
  | 0x14 => if cfg.encoderMap then getEncoder cfg else unhandled
  | 0x15 => if cfg.encoderMap then setEncoder cfg else unhandled
  | _ => unhandled

/-- `RAW_EPSIZE`. -/
def packetSize : Nat := 32

/-- `raw_hid_send(data, length)`. -/
def rawHidSend : Handler ρ Unit := loop (fun i => do let _ ← read i) 0 packetSize

def rawHidReceive : Handler ρ Unit := do
  let commandId ← read 0
  command cfg commandId.toNat
  rawHidSend

/-- The packet is behind a pointer: nothing is known of the bytes from `packetSize` on. -/
def received (data : Nat → Byte) (device : Device ρ) : Traced Byte (Device ρ) :=
  ⟨data, [], device⟩

end Functions

end Qmk.Via
