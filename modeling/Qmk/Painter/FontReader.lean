import Qmk.Painter.Draw
import Qmk.Painter.Graphics

/-!
# The font reader

The renderer looks a code point up in one of the tables of a font file, and leaves the
stream where the data of the glyph begins.
-/

namespace Qmk.Painter

open Qmk.Lib

/-! ## The font file -/

/-- `qff_font_descriptor_v1_t`, of 25 bytes, less what nothing reads. -/
structure FontDescriptor where
  header : BlockHeader
  magic : BitVec 24
  qffVersion : BitVec 8
  totalFileSize : BitVec 32
  negTotalFileSize : BitVec 32
  lineHeight : BitVec 8
  hasAsciiTable : Bool
  numUnicodeGlyphs : BitVec 16
  format : BitVec 8
  compressionScheme : BitVec 8

def FontDescriptor.ofBytes (bytes : List (BitVec 8)) : FontDescriptor where
  header := .ofBytes bytes
  magic := .ofNat 24 (leField 5 3 bytes)
  qffVersion := .ofNat 8 (leField 8 1 bytes)
  totalFileSize := .ofNat 32 (leField 9 4 bytes)
  negTotalFileSize := .ofNat 32 (leField 13 4 bytes)
  lineHeight := .ofNat 8 (leField 17 1 bytes)
  hasAsciiTable := decide (leField 18 1 bytes ≠ 0)
  numUnicodeGlyphs := .ofNat 16 (leField 19 2 bytes)
  format := .ofNat 8 (leField 21 1 bytes)
  compressionScheme := .ofNat 8 (leField 23 1 bytes)

def FontDescriptor.valid (desc : FontDescriptor) : Bool :=
  qgfValidateBlockHeader desc.header 0x00 20 &&
    decide (desc.magic = 0x464651 ∧ desc.qffVersion = 0x01) &&
    decide (desc.negTotalFileSize = ~~~desc.totalFileSize)

/-- `qff_read_font_descriptor`, less the parsing of the format. -/
def qffReadFontDescriptor (stream : MemoryStream) : Option FontDescriptor × MemoryStream :=
  let read := (stream.setpos 0).2.read 25
  match read.1 with
  | none => (none, read.2)
  | some bytes =>
      let desc := FontDescriptor.ofBytes bytes
      (if desc.valid = true then some desc else none, read.2)

def qffValidateAsciiDescriptor (stream : MemoryStream) : Bool × MemoryStream :=
  let read := stream.read 290
  match read.1 with
  | none => (false, read.2)
  | some bytes => (qgfValidateBlockHeader (.ofBytes bytes) 0x01 285, read.2)

def qffValidateUnicodeDescriptor (numUnicodeGlyphs : BitVec 16) (stream : MemoryStream) :
    Bool × MemoryStream :=
  let read := stream.read 5
  match read.1 with
  | none => (false, read.2)
  | some bytes =>
      let length := numUnicodeGlyphs.toNat * 6
      if qgfValidateBlockHeader (.ofBytes bytes) 0x02 length = true then
        (true, (read.2.seek (.ofNat 32 length) .seekCur).2)
      else (false, read.2)

def qffValidateStream (stream : MemoryStream) : Bool × MemoryStream :=
  let read := qffReadFontDescriptor stream
  match read.1 with
  | none => (false, read.2)
  | some desc =>
      let ascii :=
        if desc.hasAsciiTable = true then qffValidateAsciiDescriptor read.2 else (true, read.2)
      if ascii.1 = false then (false, ascii.2)
      else if 0 < desc.numUnicodeGlyphs.toNat then
        qffValidateUnicodeDescriptor desc.numUnicodeGlyphs ascii.2
      else (true, ascii.2)

/-! ## The font handle -/

/-- `qff_font_handle_t` of a font that is open. -/
structure QffFont where
  lineHeight : BitVec 8
  hasAsciiTable : Bool
  numUnicodeGlyphs : BitVec 16
  format : Format
  compressionScheme : BitVec 8
  stream : MemoryStream

/-- `qp_load_font_internal`, up to what the display supports. -/
def qpLoadFont (stream : MemoryStream) : Option QffFont :=
  let validated := qffValidateStream stream
  if validated.1 = false then none
  else
    let read := qffReadFontDescriptor validated.2
    match read.1 with
    | none => none
    | some desc => (qgfParseFormat desc.format).map fun format =>
        { lineHeight := desc.lineHeight
          hasAsciiTable := desc.hasAsciiTable
          numUnicodeGlyphs := desc.numUnicodeGlyphs
          format := format
          compressionScheme := desc.compressionScheme
          stream := read.2 }

/-! ## Glyphs -/

def glyphWidthMask : Nat := 0x3F
def glyphOffsetMask : Nat := 0xFFFFC0

namespace QffFont

variable (font : QffFont)

/-- Where the data of the glyphs begins, which is the sum that is written out twice in
`qp_drawtext_prepare_glyph_for_render`. -/
def dataStart : Nat :=
  25 + (if font.hasAsciiTable = true then 290 else 0) +
    (if 0 < font.numUnicodeGlyphs.toNat then 5 + font.numUnicodeGlyphs.toNat * 6 else 0) +
    (if font.format.hasPalette = true then 5 + 2 ^ font.format.bpp * 3 else 0) + 5

/-- The width of a glyph, and the stream at its data. -/
def seekGlyph (value : Nat) (stream : MemoryStream) : Option (BitVec 8 × MemoryStream) :=
  let glyphWidth := value &&& glyphWidthMask
  let glyphOffset := (value &&& glyphOffsetMask) >>> 6
  let sought := stream.setpos (.ofNat 32 (font.dataStart + glyphOffset))
  if sought.1 = false then none else some (.ofNat 8 glyphWidth, sought.2)

/-- The loop over the Unicode table. -/
def searchGlyph (codePoint : Nat) : Nat → MemoryStream → Option (BitVec 8 × MemoryStream)
  | 0, _ => none
  | remaining + 1, stream =>
      let read := stream.read 6
      match read.1 with
      | none => none
      | some info =>
          if leField 0 3 info = codePoint then font.seekGlyph (leField 3 3 info) read.2
          else searchGlyph codePoint remaining read.2

/-- `qp_drawtext_prepare_glyph_for_render`. -/
def prepareGlyphForRender (codePoint : Nat) : Option (BitVec 8 × MemoryStream) :=
  if 0x20 ≤ codePoint ∧ codePoint < 0x7F ∧ font.hasAsciiTable = true then
    let sought := font.stream.setpos (.ofNat 32 (25 + 5 + (codePoint - 0x20) * 3))
    if sought.1 = false then none
    else
      let read := sought.2.read 3
      match read.1 with
      | none => none
      | some info => font.seekGlyph (leField 0 3 info) read.2
  else
    let sought := font.stream.setpos
      (.ofNat 32 (25 + (if font.hasAsciiTable = true then 290 else 0) + 5))
    if sought.1 = false then none
    else font.searchGlyph codePoint font.numUnicodeGlyphs.toNat sought.2

/-- The pixels, or the bytes of a panel, that `qp_internal_appender` hands on for a glyph. -/
def renderGlyph (width : BitVec 8) (stream : MemoryStream) : Option (List (BitVec 8)) :=
  match qpInternalPrepareInputState font.compressionScheme with
  | none => none
  | some compression =>
      let bpp := font.format.bpp
      let pixelCount := width.toNat * font.lineHeight.toNat
      if bpp ≤ 8 then
        match decodePalette pixelCount bpp compression.decoder record { srcStream := stream } []
        with
        | some (true, _, pixels) => some pixels
        | _ => none
      else
        let sent := sendBytes compression.decoder
          (fun byte t => (true, t.1 ++ [byte], t.2 + 1)) (pixelCount * bpp % 2 ^ 32 / 8)
          { srcStream := stream } ([], 0)
        if sent.1 = true then some sent.2.2.1 else none

end QffFont

/-! ## Text -/

/-- `decode_utf8`, which reads a `0` behind the end of the string; a code point of `-1` is
`none`. -/
def decodeUtf8 (str : List (BitVec 8)) : Option Nat × List (BitVec 8) :=
  let byte (i : Nat) : Nat := (str.getD i 0).toNat
  let decoded : Option Nat × List (BitVec 8) :=
    if byte 0 < 0x80 then (some (byte 0), str.drop 1)
    else if byte 0 &&& 0xE0 = 0xC0 then
      (some ((byte 0 &&& 0x1F) <<< 6 ||| (byte 1 &&& 0x3F)), str.drop 2)
    else if byte 0 &&& 0xF0 = 0xE0 then
      (some ((byte 0 &&& 0x0F) <<< 12 ||| (byte 1 &&& 0x3F) <<< 6 ||| (byte 2 &&& 0x3F)),
        str.drop 3)
    else if byte 0 &&& 0xF8 = 0xF0 ∧ byte 0 ≤ 0xF4 then
      (some ((byte 0 &&& 0x07) <<< 18 ||| (byte 1 &&& 0x3F) <<< 12 ||| (byte 2 &&& 0x3F) <<< 6 |||
        (byte 3 &&& 0x3F)), str.drop 4)
    else (none, str.drop 1)
  if ∃ c ∈ decoded.1, 0xD800 ≤ c ∧ c ≤ 0xDFFF then (none, decoded.2) else decoded

/-- `qp_iterate_code_points` with the handler that sums up the widths.  Every step takes at
least one byte of the string. -/
def iterateCodePoints (font : QffFont) : Nat → List (BitVec 8) → BitVec 16 → Option (BitVec 16)
  | _, [], width => some width
  | 0, _ :: _, _ => none
  | fuel + 1, byte :: str, total =>
      if byte = 0 then some total
      else
        match decodeUtf8 (byte :: str) with
        | (none, _) => none
        | (some codePoint, next) =>
            match font.prepareGlyphForRender codePoint with
            | none => none
            | some (width, stream) =>
                iterateCodePoints { font with stream } fuel next (total + width.setWidth 16)

def qpTextwidth (font : QffFont) (str : List (BitVec 8)) : BitVec 16 :=
  (iterateCodePoints font str.length str 0).getD 0

end Qmk.Painter
