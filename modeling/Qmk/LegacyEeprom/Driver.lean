import Qmk.Lib.Memory

/-!
# The emulated-flash EEPROM

The functions of `eeprom_legacy_emulated_flash.c`, over the flash operations of
`legacy_flash_ops_mock.c`.  Flash is addressed by half-words from
`FEE_PAGE_BASE_ADDRESS` on: first the compacted area, then the write log.
`FLASH_Unlock` and `FLASH_Lock` surround every use of the flash and are left
out, and so are the debug prints.
-/

namespace Qmk.LegacyEeprom

open Qmk.Lib

/-- The sizes, with the checks of `eeprom_legacy_emulated_flash_defs.h`. -/
structure Config where
  densityBytes : Nat
  writeLogBytes : Nat
  densityBytes_ge : 128 ≤ densityBytes
  densityBytes_le : densityBytes ≤ 0x4000
  densityBytes_even : densityBytes % 2 = 0
  writeLogBytes_even : writeLogBytes % 2 = 0

/-- The values of `FLASH_Status` that occur; `none` is the 0 of the driver. -/
inductive FlashStatus where
  | none
  | errorPg
  | complete
  | badAddress
  deriving DecidableEq, Repr

inductive FlashOp where
  | erase
  | program (address : Nat) (data : UInt16)
  deriving DecidableEq, Repr

/-- The flash, the statics of the driver, and the operations made, last first. -/
structure State where
  flash : Nat → UInt16
  dataBuf : Nat → UInt8
  emptySlot : Nat
  ops : List FlashOp

def feeWordEncoding : UInt16 := 0x8000

def feeValueNext : UInt16 := 0x6000

def feeValueReserved : UInt16 := 0x4000

def feeValueEncoded : UInt16 := 0x2000

def feeByteRange : UInt16 := 0x80

def feeEmptyWord : UInt16 := 0xFFFF

/-! ## Flash operations -/

/-- What an operation makes of the flash. -/
def FlashOp.apply (flash : Nat → UInt16) : FlashOp → Nat → UInt16
  | .erase => fun _ => feeEmptyWord
  | .program address data =>
      if flash address = feeEmptyWord ∨ data = 0 then
        Function.update flash address data
      else flash

def State.record (s : State) (op : FlashOp) : State :=
  { s with flash := op.apply s.flash, ops := op :: s.ops }

def flashProgramHalfWord (address : Nat) (data : UInt16) (s : State) :
    FlashStatus × State :=
  (if s.flash address = feeEmptyWord ∨ data = 0 then .complete else .errorPg,
    s.record (.program address data))

/-! ## Words in the buffer -/

/-- `*(uint16_t *)(&DataBuf[address])`, little-endian. -/
def loadWord (buf : Nat → UInt8) (address : Nat) : UInt16 :=
  (buf address).toUInt16 ||| ((buf (address + 1)).toUInt16 <<< 8)

def storeByte (buf : Nat → UInt8) (address : Nat) (value : UInt8) :
    Nat → UInt8 :=
  overlay buf address [value]

def storeWord (buf : Nat → UInt8) (address : Nat) (value : UInt16) :
    Nat → UInt8 :=
  overlay buf address [value.toUInt8, (value >>> 8).toUInt8]

section Driver

variable (c : Config)

/-- `FEE_WRITE_LOG_BASE_ADDRESS`, which is also the end of the compacted area. -/
def Config.writeLogBase : Nat := c.densityBytes / 2

/-- `FEE_WRITE_LOG_LAST_ADDRESS`, the end of the write log. -/
def Config.writeLogLast : Nat := c.densityBytes / 2 + c.writeLogBytes / 2

/-! ## Initialization -/

def loadCompacted (flash : Nat → UInt16) (buf : Nat → UInt8) : Nat → UInt8 :=
  (List.range c.writeLogBase).foldl
    (fun buf i => storeWord buf (2 * i) (~~~ flash i)) buf

/-- The tail of the replay loop's body for entries that write a word. -/
def replayWord (buf : Nat → UInt8) (address wvalue : UInt16) : Nat → UInt8 :=
  if address.toNat < c.densityBytes then storeWord buf address.toNat wvalue
  else buf

/--
The loop that replays the write log.  Its fuel is the number of slots that are
left.
-/
def replayLoop (flash : Nat → UInt16) :
    Nat → Nat → (Nat → UInt8) → Nat × (Nat → UInt8)
  | 0, logAddr, buf => (logAddr, buf)
  | fuel + 1, logAddr, buf =>
      if logAddr < c.writeLogLast then
        let address := flash logAddr
        if address = feeEmptyWord then (logAddr, buf)
        else if address &&& feeWordEncoding = 0 then
          replayLoop flash fuel (logAddr + 1)
            (storeByte buf (address >>> 8).toNat address.toUInt8)
        else if address &&& feeValueNext = feeValueNext then
          if c.writeLogLast ≤ logAddr + 1 then (logAddr + 1, buf)
          else
            let wvalue := ~~~ flash (logAddr + 1)
            -- possibly an incomplete write
            if wvalue = 0 then replayLoop flash fuel (logAddr + 2) buf
            else
              replayLoop flash fuel (logAddr + 2)
                (replayWord c buf
                  (((address &&& 0x1FFF) <<< 1) + feeByteRange) wvalue)
        else if address &&& feeValueReserved ≠ 0 then
          replayLoop flash fuel (logAddr + 1) buf
        else
          replayLoop flash fuel (logAddr + 1)
            (replayWord c buf ((address &&& 0x1FFF) <<< 1)
              ((address &&& feeValueEncoded) >>> 13))
      else (logAddr, buf)

def eepromInit (s : State) : State :=
  let (logAddr, buf) :=
    replayLoop c s.flash (c.writeLogLast - c.writeLogBase) c.writeLogBase
      (loadCompacted c s.flash s.dataBuf)
  { s with dataBuf := buf, emptySlot := logAddr }

def eepromClear (s : State) : State :=
  { s.record .erase with emptySlot := c.writeLogBase }

def eepromErase (s : State) : State := eepromInit c (eepromClear c s)

/-! ## Writing to the flash -/

/-- The loop of `eeprom_compact` over the first `count` words. -/
def compactLoop (count : Nat) (s : State) : FlashStatus × State :=
  (List.range count).foldl
    (fun (finalStatus, s) i =>
      let value := loadWord s.dataBuf (2 * i)
      if value ≠ 0 then
        let (status, s) := flashProgramHalfWord i (~~~ value) s
        (if status ≠ .complete then status else finalStatus, s)
      else (finalStatus, s))
    (.complete, s)

def eepromCompact (s : State) : FlashStatus × State :=
  compactLoop c.writeLogBase (eepromClear c s)

def eepromWriteDirectEntry (address : UInt16) (s : State) :
    FlashStatus × State :=
  let aligned := (address &&& 0xFFFE).toNat
  if s.flash (aligned / 2) = feeEmptyWord then
    let value := ~~~ loadWord s.dataBuf aligned
    if value = feeEmptyWord then (.complete, s)
    else flashProgramHalfWord (aligned / 2) value s
  else (.none, s)

def State.advance (s : State) : State := { s with emptySlot := s.emptySlot + 1 }

def eepromWriteLogWordEntry (address : UInt16) (s : State) :
    FlashStatus × State :=
  let value := loadWord s.dataBuf address.toNat
  let (encoding, entrySize, address) :=
    if value ≤ 1 then (feeWordEncoding ||| (value <<< 13), 2, address)
    else (feeWordEncoding ||| feeValueNext, 4, address - feeByteRange)
  -- `empty_slot > FEE_WRITE_LOG_LAST_ADDRESS - entry_size`, in bytes
  if 2 * c.writeLogLast < 2 * s.emptySlot + entrySize then eepromCompact c s
  else
    let address := (address >>> 1) ||| encoding
    let (finalStatus, s) := flashProgramHalfWord s.emptySlot address s
    let s := s.advance
    if encoding = feeWordEncoding ||| feeValueNext then
      let (status, s) := flashProgramHalfWord s.emptySlot (~~~ value) s
      (if status ≠ .complete then status else finalStatus, s.advance)
    else (finalStatus, s)

def eepromWriteLogByteEntry (address : UInt16) (s : State) :
    FlashStatus × State :=
  if c.writeLogLast ≤ s.emptySlot then eepromCompact c s
  else
    let value := (address <<< 8) ||| (s.dataBuf address.toNat).toUInt16
    let (status, s) := flashProgramHalfWord s.emptySlot value s
    (status, s.advance)

/-! ## The interface -/

def eepromWriteDataByte (address : UInt16) (dataByte : UInt8) (s : State) :
    FlashStatus × State :=
  if c.densityBytes ≤ address.toNat then (.badAddress, s)
  else if s.dataBuf address.toNat = dataByte then (.none, s)
  else
    let s := { s with dataBuf := storeByte s.dataBuf address.toNat dataByte }
    let (status, s) := eepromWriteDirectEntry address s
    if status = .none then
      if address < feeByteRange then eepromWriteLogByteEntry c address s
      else eepromWriteLogWordEntry c (address &&& 0xFFFE) s
    else (status, s)

/-- The two byte entries of a word write below `FEE_BYTE_RANGE`. -/
def eepromWriteLogChangedBytes (address oldValue dataWord : UInt16) (s : State) :
    FlashStatus × State :=
  let (finalStatus, s) :=
    if oldValue.toUInt8 ≠ dataWord.toUInt8 then
      eepromWriteLogByteEntry c address s
    else (.complete, s)
  let (status, s) :=
    if oldValue >>> 8 ≠ dataWord >>> 8 then
      eepromWriteLogByteEntry c (address + 1) s
    else (.complete, s)
  (if status ≠ .complete then status else finalStatus, s)

def eepromWriteDataWord (address dataWord : UInt16) (s : State) :
    FlashStatus × State :=
  if c.densityBytes ≤ address.toNat then (.badAddress, s)
  else if address % 2 ≠ 0 then
    let (finalStatus, s) := eepromWriteDataByte c address dataWord.toUInt8 s
    let (status, s) :=
      eepromWriteDataByte c (address + 1) (dataWord >>> 8).toUInt8 s
    (if status ≠ .complete then status else finalStatus, s)
  else
    let oldValue := loadWord s.dataBuf address.toNat
    if oldValue = dataWord then (.none, s)
    else
      let s := { s with dataBuf := storeWord s.dataBuf address.toNat dataWord }
      let (finalStatus, s) := eepromWriteDirectEntry address s
      if finalStatus = .none then
        if address < feeByteRange then
          eepromWriteLogChangedBytes c address oldValue dataWord s
        else eepromWriteLogWordEntry c address s
      else (finalStatus, s)

end Driver

/-- A call of the interface that writes. -/
inductive Operation where
  | byte (address : UInt16) (value : UInt8)
  | word (address value : UInt16)
  deriving DecidableEq, Repr

def perform (c : Config) (s : State) : Operation → State
  | .byte address value => (eepromWriteDataByte c address value s).2
  | .word address value => (eepromWriteDataWord c address value s).2

/-- The statics after power-up are zero; the flash keeps its contents. -/
def powerCycle (c : Config) (s : State) : State :=
  eepromInit c { s with dataBuf := fun _ => 0, emptySlot := 0 }

end Qmk.LegacyEeprom
