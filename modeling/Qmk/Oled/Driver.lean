import Mathlib.Algebra.Group.Nat.Defs
import Mathlib.Logic.Function.Basic
import Qmk.Lib.Run

/-!
# The OLED driver

The frame buffer of `oled_driver.c`, its cursor, and the map of the blocks that have to be sent.
Sending does not fail.  Timeouts and scrolling are left out: scrolling only stops the rendering.
-/

namespace Qmk.Oled

open Qmk.Lib

/-! ## Geometry -/

/-- `OLED_IC`. -/
inductive Ic where
  | ssd1306
  | sh1106
  | sh1107
  deriving DecidableEq

/-- `oled_rotation_t`. -/
inductive Rotation where
  | rotation0
  | rotation90
  | rotation180
  | rotation270
  deriving DecidableEq

/-- `HAS_FLAGS(oled_rotation, OLED_ROTATION_90)`. -/
def Rotation.has90 : Rotation → Bool
  | .rotation90 | .rotation270 => true
  | .rotation0 | .rotation180 => false

/-- An entry of `OLED_SOURCE_MAP` and the one of `OLED_TARGET_MAP`. -/
structure Tile where
  source : UInt8
  target : UInt8
  deriving DecidableEq

structure Config where
  ic : Ic
  rotation : Rotation
  displayWidth : Nat
  displayHeight : Nat
  columnOffset : Nat
  /-- The width of `OLED_BLOCK_TYPE`. -/
  blockBits : Nat
  blockCount : Nat
  blockSize : Nat
  maps : List Tile
  fontStart : BitVec 8
  fontEnd : BitVec 8
  fontWidth : Nat
  font : Nat → BitVec 8
  updateProcessLimit : Nat
  displayWidth_pos : 0 < displayWidth
  displayWidth_lt : displayWidth < 256
  displayHeight_ge : 8 ≤ displayHeight
  displayHeight_lt : displayHeight < 256
  blockCount_le : blockCount ≤ blockBits
  fontWidth_pos : 0 < fontWidth
  blocks : blockSize * blockCount = displayHeight / 8 * displayWidth

def Config.matrixSize (c : Config) : Nat := c.displayHeight / 8 * c.displayWidth

/-- `oled_rotation_width`. -/
def Config.rotationWidth (c : Config) : Nat :=
  if c.rotation.has90 then c.displayHeight else c.displayWidth

/-- `OLED_IC_HAS_HORIZONTAL_MODE`. -/
def Config.hasHorizontalMode (c : Config) : Bool := c.ic = .ssd1306

/-- `OLED_ALL_BLOCKS_MASK`. -/
def Config.allBlocksMask (c : Config) : BitVec c.blockBits :=
  (BitVec.twoPow _ (c.blockCount - 1) - 1) <<< 1 ||| 1

/-! ## State -/

/-- A command and the data that follow it. -/
structure Transfer where
  command : List (BitVec 8)
  data : List (BitVec 8)

/-- The memory from `oled_buffer` on; `sent` is what the display last received for a block.
`inBounds` says that no access has left the buffer. -/
structure State (c : Config) where
  buffer : Nat → BitVec 8
  cursor : Nat
  dirty : BitVec c.blockBits
  initialized : Bool
  active : Bool
  scrolling : Bool
  sent : Nat → Option (List Transfer)
  inBounds : Bool

variable {c : Config}

/-- Access `count` bytes. -/
def touch (start count : Nat) (s : State c) : State c :=
  { s with inBounds := s.inBounds && decide (start + count ≤ c.matrixSize) }

def writeByte (index : Nat) (data : BitVec 8) (s : State c) : State c :=
  { touch index 1 s with buffer := Function.update s.buffer index data }

/-- `oled_dirty |= (OLED_BLOCK_TYPE)1 << (index / OLED_BLOCK_SIZE)`. -/
def markDirty (index : Nat) (s : State c) : State c :=
  { s with dirty := s.dirty ||| BitVec.twoPow _ (index / c.blockSize) }

def oledClear (s : State c) : State c :=
  { touch 0 c.matrixSize s with
    buffer := fun index => if index < c.matrixSize then 0 else s.buffer index
    cursor := 0
    dirty := c.allBlocksMask }

/-- What `oled_init` leaves; the memory behind the buffer holds anything. -/
def State.init (c : Config) (memory : Nat → BitVec 8) : State c :=
  { oledClear ⟨memory, 0, 0, false, false, false, fun _ => none, true⟩ with
    initialized := true
    active := true
    scrolling := false }

/-! ## Text -/

def oledSetCursor (col line : UInt8) (s : State c) : State c :=
  let index := (line.toNat * c.rotationWidth + col.toNat * c.fontWidth) % 65536
  { s with cursor := if c.matrixSize ≤ index then 0 else index }

def oledAdvanceChar (s : State c) : State c :=
  let nextIndex := (s.cursor + c.fontWidth) % 65536
  let remainingSpace := c.rotationWidth - nextIndex % c.rotationWidth
  let nextIndex :=
    if remainingSpace < c.fontWidth then (nextIndex + remainingSpace) % 65536 else nextIndex
  { s with cursor := if c.matrixSize ≤ nextIndex then 0 else nextIndex }

/-- The columns of a character in the buffer. -/
def glyphByte (c : Config) (data : BitVec 8) (invert : Bool) (column : Nat) : BitVec 8 :=
  let byte :=
    if data < c.fontStart ∨ c.fontEnd < data then 0
    else c.font ((data.toNat - c.fontStart.toNat) * c.fontWidth + column)
  if invert then ~~~byte else byte

/-- The character is copied to the cursor. -/
def copyGlyph (data : BitVec 8) (invert : Bool) (s : State c) : State c :=
  { touch s.cursor c.fontWidth s with
    buffer := fun index =>
      if s.cursor ≤ index ∧ index < s.cursor + c.fontWidth then
        glyphByte c data invert (index - s.cursor)
      else s.buffer index }

/-- `oled_write_char` of a character that is not a line break. -/
def writeGlyph (invert : Bool) (s : State c) (data : BitVec 8) : State c :=
  let changed := (List.range c.fontWidth).any fun column =>
    s.buffer (s.cursor + column) ≠ glyphByte c data invert column
  let s' := copyGlyph data invert s
  oledAdvanceChar
    (if changed then markDirty (s.cursor + c.fontWidth - 1) (markDirty s.cursor s') else s')

/-- The space left in the line of the cursor. -/
def remainingSpace (s : State c) : Nat := c.rotationWidth - s.cursor % c.rotationWidth

/-- The spaces that `oled_advance_page` writes. -/
def pageRemainder (s : State c) : List (BitVec 8) :=
  List.replicate (remainingSpace s / c.fontWidth) 0x20

def oledAdvancePage (clearPageRemainder : Bool) (s : State c) : State c :=
  if clearPageRemainder then run (writeGlyph false) s (pageRemainder s)
  else
    { s with
      cursor :=
        if c.matrixSize ≤ s.cursor + remainingSpace s then 0 else s.cursor + remainingSpace s }

def oledWriteChar (invert : Bool) (s : State c) (data : BitVec 8) : State c :=
  if data = 0x0A then oledAdvancePage true s
  else if data = 0x0D then oledAdvancePage false s
  else writeGlyph invert s data

/-- A string ends before its first NUL. -/
def oledWrite (data : List (BitVec 8)) (invert : Bool) (s : State c) : State c :=
  run (oledWriteChar invert) s (data.takeWhile (· ≠ 0))

def oledWriteLn (data : List (BitVec 8)) (invert : Bool) (s : State c) : State c :=
  oledAdvancePage true (oledWrite data invert s)

/-! ## Pixels -/

/-- `oled_buffer[to] = oled_buffer[from]`. -/
def copyByte (source target : Nat) (s : State c) : State c :=
  writeByte target (s.buffer source) (touch source 1 s)

/-- The assignments of `oled_pan`, in order. -/
def panMoves (c : Config) (left : Bool) : List (Nat × Nat) :=
  (List.range (c.displayHeight / 8)).flatMap fun y =>
    if left then
      (List.range (c.displayWidth - 1)).map fun x =>
        (y * c.displayWidth + x + 1, y * c.displayWidth + x)
    else
      (List.range (c.displayWidth - 1)).reverse.map fun x =>
        (y * c.displayWidth + x, y * c.displayWidth + x + 1)

def oledPan (left : Bool) (s : State c) : State c :=
  { run (fun s move => copyByte move.1 move.2 s) s (panMoves c left) with
    dirty := c.allBlocksMask }

/-- A byte is compared, and written if it differs. -/
def writeChanged (index : Nat) (data : BitVec 8) (s : State c) : State c :=
  if s.buffer index = data then touch index 1 s
  else markDirty index (writeByte index data s)

def oledWriteRawByte (data : BitVec 8) (index : UInt16) (s : State c) : State c :=
  writeChanged (if c.matrixSize < index.toNat then c.matrixSize else index.toNat) data s

/-- `data` is the memory at the pointer. -/
def oledWriteRaw (data : Nat → BitVec 8) (size : UInt16) (s : State c) : State c :=
  let size :=
    if c.matrixSize < size.toNat + s.cursor then c.matrixSize - s.cursor else size.toNat
  run (fun t i => writeChanged (s.cursor + i) (data i) t) s (List.range size)

def oledWritePixel (x y : UInt8) (on : Bool) (s : State c) : State c :=
  if c.rotationWidth ≤ x.toNat then s
  else
    let index := x.toNat + y.toNat / 8 * c.rotationWidth
    if c.matrixSize ≤ index then s
    else
      writeChanged index
        (if on then s.buffer index ||| BitVec.twoPow 8 (y.toNat % 8)
        else s.buffer index &&& ~~~BitVec.twoPow 8 (y.toNat % 8)) s

/-! ## Rendering -/

/-- The bytes of `display_start` after `calc_bounds`. -/
def calcBounds (c : Config) (updateStart : Nat) : List (BitVec 8) :=
  let startPage := BitVec.ofNat 8 (c.blockSize * updateStart / c.displayWidth)
  let startColumn := c.blockSize * updateStart % c.displayWidth
  if c.hasHorizontalMode then
    let column := BitVec.ofNat 8 (startColumn + c.columnOffset)
    [0x00, 0x21, column,
      BitVec.ofNat 8 ((c.blockSize + c.displayWidth - 1) % c.displayWidth) + column,
      0x22, startPage,
      BitVec.ofNat 8 ((c.blockSize + c.displayWidth - 1) / c.displayWidth - 1) + startPage]
  else
    [0x00, 0xB0 ||| startPage, BitVec.ofNat 8 (c.columnOffset + startColumn) &&& 0x0F,
      0x10 ||| BitVec.ofNat 8 (c.columnOffset + startColumn) >>> 4]

/-- The bytes of `display_start` after `calc_bounds_90`. -/
def calcBounds90 (c : Config) (updateStart : Nat) : List (BitVec 8) :=
  let heightInPages := c.displayHeight / 8
  let bottomBlockTopPage :=
    (heightInPages - c.blockSize % c.displayHeight / 8) % heightInPages
  let startPage := BitVec.ofNat 8 bottomBlockTopPage -
    BitVec.ofNat 8 (c.blockSize * updateStart % c.displayHeight / 8)
  let startColumn := BitVec.ofNat 8 (c.blockSize * updateStart / c.displayHeight * 8)
  if c.hasHorizontalMode then
    let column := startColumn + BitVec.ofNat 8 c.columnOffset
    [0x00, 0x21, column,
      BitVec.ofNat 8 ((c.blockSize + c.displayHeight - 1) / c.displayHeight * 8 - 1) + column,
      0x22, startPage,
      BitVec.ofNat 8 ((c.blockSize + c.displayHeight - 1) % c.displayHeight / 8) + startPage]
  else
    let column := c.columnOffset + startColumn.toNat
    [0x00, 0xB0 ||| startPage, BitVec.ofNat 8 column &&& 0x0F,
      0x10 ||| BitVec.ofNat 8 column >>> 4]

def crot (a : BitVec 8) (n : Int) : BitVec 8 :=
  a <<< (n % 8).toNat ||| a >>> (-n % 8).toNat

/-- What `rotate_90` puts in byte `i` of the target. -/
def rotateByte (src : Nat → BitVec 8) (i : Nat) (dest : BitVec 8) : BitVec 8 :=
  (List.range 8).foldl (fun dest j => dest ||| crot (src j &&& BitVec.twoPow 8 i) (7 - i - j)) dest

/-- `rotate_90` of 8 bytes from `source` to 8 bytes from `target`. -/
def rotate90 (source target : Nat) (buffer temp : Nat → BitVec 8) : Nat → BitVec 8 := fun index =>
  if target ≤ index ∧ index < target + 8 then
    rotateByte (fun j => buffer (source + j)) (index - target) (temp index)
  else temp index

/-- `temp_buffer`. -/
def rotatedBlock (c : Config) (buffer : Nat → BitVec 8) (updateStart : Nat) : List (BitVec 8) :=
  (List.range c.blockSize).map
    (c.maps.foldl (fun temp tile =>
      rotate90 (c.blockSize * updateStart + tile.source.toNat) tile.target.toNat buffer temp)
      fun _ => 0)

def columnsInBlock (c : Config) : Nat :=
  (c.blockSize + c.displayHeight - 1) / c.displayHeight * 8 % 256

/-- The transfers for a block: the data of a rotated block are split into pages if there is no
horizontal mode. -/
def blockTransfers (c : Config) (buffer : Nat → BitVec 8) (updateStart : Nat) : List Transfer :=
  if c.rotation.has90 = false then
    [⟨calcBounds c updateStart,
      (List.range c.blockSize).map fun i => buffer (c.blockSize * updateStart + i)⟩]
  else if c.hasHorizontalMode then
    [⟨calcBounds90 c updateStart, rotatedBlock c buffer updateStart⟩]
  else
    (List.range (c.blockSize / columnsInBlock c % 256)).map fun i =>
      ⟨(calcBounds90 c updateStart).modify 1 (· + BitVec.ofNat 8 i),
        ((rotatedBlock c buffer updateStart).drop (columnsInBlock c * i)).take (columnsInBlock c)⟩

/-- The accesses of the transfers to the buffer. -/
def touchBlock (updateStart : Nat) (s : State c) : State c :=
  if c.rotation.has90 = false then touch (c.blockSize * updateStart) c.blockSize s
  else
    c.maps.foldl (fun s tile => touch (c.blockSize * updateStart + tile.source.toNat) 8 s) s

/-- Send a block, and clear its dirty flag. -/
def renderBlock (updateStart : Nat) (s : State c) : State c :=
  { touchBlock updateStart s with
    sent := Function.update s.sent updateStart (some (blockTransfers c s.buffer updateStart))
    dirty := s.dirty &&& ~~~BitVec.twoPow _ updateStart }

/-- The loop over the dirty blocks, from `update_start` on. -/
def renderBlocks (all : Bool) : List Nat → UInt8 → State c → State c
  | [], _, s => s
  | updateStart :: blocks, numProcessed, s =>
      if s.dirty.getLsbD updateStart = false then renderBlocks all blocks numProcessed s
      else if numProcessed.toNat < c.updateProcessLimit ∨ all then
        renderBlocks all blocks (numProcessed + 1) (renderBlock updateStart s)
      else s

def oledRenderDirty (all : Bool) (s : State c) : State c :=
  let s := { s with dirty := s.dirty &&& c.allBlocksMask }
  if s.dirty = 0 ∨ s.initialized = false ∨ s.scrolling then s
  else renderBlocks all (List.range c.blockBits) 0 { s with active := true }

/-! ## Calls -/

inductive Call where
  | setCursor (col line : UInt8)
  | writeChar (data : BitVec 8) (invert : Bool)
  | write (data : List (BitVec 8)) (invert : Bool)
  | writeLn (data : List (BitVec 8)) (invert : Bool)
  | advancePage (clearPageRemainder : Bool)
  | writeRaw (data : Nat → BitVec 8) (size : UInt16)
  | writeRawByte (data : BitVec 8) (index : UInt16)
  | writePixel (x y : UInt8) (on : Bool)
  | pan (left : Bool)
  | clear
  | renderDirty (all : Bool)

def perform (s : State c) : Call → State c
  | .setCursor col line => oledSetCursor col line s
  | .writeChar data invert => oledWriteChar invert s data
  | .write data invert => oledWrite data invert s
  | .writeLn data invert => oledWriteLn data invert s
  | .advancePage clearPageRemainder => oledAdvancePage clearPageRemainder s
  | .writeRaw data size => oledWriteRaw data size s
  | .writeRawByte data index => oledWriteRawByte data index s
  | .writePixel x y on => oledWritePixel x y on s
  | .pan left => oledPan left s
  | .clear => oledClear s
  | .renderDirty all => oledRenderDirty all s

end Qmk.Oled
