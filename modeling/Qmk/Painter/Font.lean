import Mathlib.Data.List.Sort
import Qmk.Lib.LittleEndian
import Qmk.Painter.Decoder
import Qmk.Painter.Image

/-!
# The font generator

A font image has its glyphs side by side, below a line of markers.  The font file has a
descriptor, a table of the glyphs of ASCII, a table of the others and the data of them all.
-/

namespace Qmk.Painter

open Qmk.Lib

/-! ## Target formats -/

/-- The entries of `valid_formats` that have no palette. -/
inductive FontFormat
  | rgb888
  | rgb565
  | mono256
  | mono16
  | mono4
  | mono2
  deriving DecidableEq

namespace FontFormat

def bpp : FontFormat → Nat
  | rgb888 => 24
  | rgb565 => 16
  | mono256 => 8
  | mono16 => 4
  | mono4 => 2
  | mono2 => 1

def imageFormatByte : FontFormat → Nat
  | rgb888 => 0x09
  | rgb565 => 0x08
  | mono256 => 0x03
  | mono16 => 0x02
  | mono4 => 0x01
  | mono2 => 0x00

end FontFormat

def rgbTo565 (r g b : Nat) : List Nat :=
  [((r >>> 3 &&& 0x1F) <<< 3) + (g >>> 5 &&& 0x07),
    ((g >>> 2 &&& 0x07) <<< 5) + (b >>> 3 &&& 0x1F)]

/-- The bytes that a panel takes for a pixel. -/
def nativePixel : FontFormat → Rgb → List Nat
  | .rgb565, p => rgbTo565 p.r.toNat p.g.toNat p.b.toNat
  | _, p => [p.r.toNat, p.g.toNat, p.b.toNat]

/-- `convert_image_bytes` of a converted image; its byte count is the one that it expects. -/
def FontFormat.imageBytes (format : FontFormat) (im : Image) : List Nat :=
  if 8 < format.bpp then im.pixels.flatMap (nativePixel format)
  else convertImageBytes .grayscale (2 ^ format.bpp) im.width im.height
    (im.pixels.map fun p => p.r.toNat)

/-! ## The glyphs of an image -/

/-- The set of the code points in their order. -/
def generateFontGlyphsList (useAscii : Bool) (unicodeGlyphs : List Nat) : List Nat :=
  ((if useAscii = true then List.range' 0x20 95 else []) ++ unicodeGlyphs).dedup.insertionSort
    (· ≤ ·)

/-- An entry of `glyph_data`. -/
structure Glyph where
  codePoint : Nat
  x : Nat
  w : Nat

/-- `QFFFont` with its image parsed. -/
structure Font where
  glyphData : List Glyph
  glyphHeight : Nat

/-- The top left pixel is the marker. -/
def glyphPixelOffsets (im : Image) : List Nat :=
  0 :: (List.range' 1 (im.width - 1)).filter fun x => im.pixel x 0 = im.pixel 0 0

def glyphPixelWidths (im : Image) : List Nat :=
  List.zipWith (fun next last => next - last) ((glyphPixelOffsets im).tail ++ [im.width])
    (glyphPixelOffsets im)

/-- The glyph data for the `n`th code point, offset and width. -/
def glyphsOf : List Nat → List Nat → List Nat → List Glyph
  | c :: glyphs, x :: offsets, w :: widths => ⟨c, x, w⟩ :: glyphsOf glyphs offsets widths
  | _, _, _ => []

/-- An image without pixels has no pixel `[0, 0]`. -/
def parseImage (im : Image) (useAscii : Bool) (unicodeGlyphs : List Nat) : Option Font :=
  let glyphs := generateFontGlyphsList useAscii unicodeGlyphs
  if im.width = 0 ∨ im.height = 0 then none
  else if (glyphPixelOffsets im).length ≠ glyphs.length then none
  else some
    { glyphData := glyphsOf glyphs (glyphPixelOffsets im) (glyphPixelWidths im)
      glyphHeight := im.height - 1 }

/-! ## Blocks -/

/-- `QGFBlockHeader.write`. -/
def blockHeader (typeId length : Nat) : List (BitVec 8) :=
  leBytes 1 typeId ++ leBytes 1 (0xFF - typeId) ++ leBytes 3 length

/-- `QFFGlyphInfo`, with the offset of its data. -/
structure GlyphInfo where
  codePoint : Nat
  dataOffset : Nat
  w : Nat

def GlyphInfo.value (info : GlyphInfo) : Nat :=
  ((info.dataOffset <<< 6) &&& 0xFFFFC0) ||| (info.w &&& 0x3F)

def GlyphInfo.write (includeCodePoint : Bool) (info : GlyphInfo) : List (BitVec 8) :=
  (if includeCodePoint = true then leBytes 3 info.codePoint else []) ++ leBytes 3 info.value

/-- Every glyph is there when the table is written. -/
def asciiTable (infos : List GlyphInfo) : List (BitVec 8) :=
  blockHeader 0x01 (95 * 3) ++ (List.range' 0x20 95).flatMap fun n =>
    ((infos.find? fun info => info.codePoint = n).map (GlyphInfo.write false)).getD []

def unicodeTable (infos : List GlyphInfo) : List (BitVec 8) :=
  blockHeader 0x02 (infos.length * 6) ++
    (infos.insertionSort fun a b => a.codePoint ≤ b.codePoint).flatMap (GlyphInfo.write true)

def dataBlock (data : List Nat) : List (BitVec 8) :=
  blockHeader 0x04 data.length ++ data.map (BitVec.ofNat 8)

structure FontDescriptorFields where
  totalFileSize : Nat
  lineHeight : Nat
  hasAsciiTable : Bool
  unicodeGlyphCount : Nat
  format : Nat
  compression : Nat

def qffMagic : Nat := 0x464651

def FontDescriptorFields.write (d : FontDescriptorFields) : List (BitVec 8) :=
  blockHeader 0x00 20 ++ leBytes 3 qffMagic ++ leBytes 1 1 ++ leBytes 4 d.totalFileSize ++
    leBytes 4 (0xFFFFFFFF - d.totalFileSize) ++ leBytes 1 d.lineHeight ++
    leBytes 1 (if d.hasAsciiTable = true then 1 else 0) ++ leBytes 2 d.unicodeGlyphCount ++
    leBytes 1 d.format ++ leBytes 1 0 ++ leBytes 1 d.compression ++ leBytes 1 0xFF

/-! ## The file -/

/-- The glyph in the converted image, below the line of the markers. -/
def Font.glyphImage (font : Font) (converted : Image) (g : Glyph) : Image :=
  converted.crop ⟨g.x, 1, g.x + g.w, 1 + font.glyphHeight⟩

def Font.glyphBytes (font : Font) (converted : Image) (format : FontFormat)
    (compression : Compression) (g : Glyph) : List Nat :=
  compression.encode (format.imageBytes (font.glyphImage converted g))

def Compression.byte : Compression → Nat
  | .uncompressed => 0x00
  | .rle => 0x01

/-- Runs are used only if they make the data smaller. -/
def Font.compression (font : Font) (converted : Image) (format : FontFormat) (useRle : Bool) :
    Compression :=
  let size (compression : Compression) : Nat :=
    (font.glyphData.map fun g => (font.glyphBytes converted format compression g).length).sum
  if useRle = true ∧ size .rle < size .uncompressed then .rle else .uncompressed

/-- The loop that records where in the image buffer the data of each glyph begins. -/
def placeGlyphs (bytes : Glyph → List Nat) : Nat → List Glyph → List GlyphInfo
  | _, [] => []
  | offset, g :: glyphs =>
      ⟨g.codePoint, offset, g.w⟩ :: placeGlyphs bytes (offset + (bytes g).length) glyphs

def Font.includesAscii (font : Font) : Bool :=
  (List.range' 0x20 95).all fun n => font.glyphData.any fun g => g.codePoint = n

/-- The glyphs that the Unicode table is for. -/
def inUnicodeTable (includeAscii : Bool) (codePoint : Nat) : Bool :=
  !(decide (0x20 ≤ codePoint) && decide (codePoint ≤ 0x7E) && includeAscii)

/-- `o32` refuses a size of more than 32 bits. -/
def saveToQff (font : Font) (converted : Image) (format : FontFormat) (useRle : Bool) :
    Option (List (BitVec 8)) :=
  let compression := font.compression converted format useRle
  let bytes := font.glyphBytes converted format compression
  let infos := placeGlyphs bytes 0 font.glyphData
  let includeAscii := font.includesAscii
  let unicode := infos.filter fun info => inUnicodeTable includeAscii info.codePoint
  let rest :=
    (if includeAscii = true then asciiTable infos else []) ++
      (if 0 < unicode.length then unicodeTable unicode else []) ++
      dataBlock (font.glyphData.flatMap bytes)
  let d : FontDescriptorFields :=
    { totalFileSize := 25 + rest.length
      lineHeight := font.glyphHeight
      hasAsciiTable := includeAscii
      unicodeGlyphCount := unicode.length
      format := format.imageFormatByte
      compression := compression.byte }
  if d.totalFileSize < 2 ^ 32 then some (d.write ++ rest) else none

end Qmk.Painter
