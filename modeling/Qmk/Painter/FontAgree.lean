import Mathlib.Data.List.Dedup
import Qmk.Painter.FontLookup
import Qmk.Painter.RoundTrip
import Qmk.Unicode.Typed

/-!
# Fonts that the renderer reads back

A saved font has its glyphs in the order of their code points, and the data of each behind
the data of the ones before it.
-/

namespace Qmk.Painter

open Qmk.Lib

/-! ## The glyphs of a font -/

theorem generateFontGlyphsList_ordered (useAscii : Bool) (unicodeGlyphs : List Nat) :
    (generateFontGlyphsList useAscii unicodeGlyphs).Pairwise (· < ·) := by
  have hsorted := List.pairwise_insertionSort (· ≤ · : Nat → Nat → Prop)
    ((if useAscii = true then List.range' 0x20 95 else []) ++ unicodeGlyphs).dedup
  have hnodup := (List.perm_insertionSort (· ≤ · : Nat → Nat → Prop)
    ((if useAscii = true then List.range' 0x20 95 else []) ++ unicodeGlyphs).dedup).nodup_iff.mpr
      (List.nodup_dedup _)
  exact (hsorted.and hnodup).imp fun ⟨hle, hne⟩ => Nat.lt_of_le_of_ne hle hne

theorem mem_generateFontGlyphsList {useAscii : Bool} {unicodeGlyphs : List Nat} {code : Nat} :
    code ∈ generateFontGlyphsList useAscii unicodeGlyphs ↔
      (useAscii = true ∧ code ∈ List.range' 0x20 95) ∨ code ∈ unicodeGlyphs := by
  rw [generateFontGlyphsList, List.mem_insertionSort, List.mem_dedup, List.mem_append]
  cases useAscii <;> simp

theorem glyphsOf_codes {glyphs offsets widths : List Nat} (hoffsets : offsets.length = glyphs.length)
    (hwidths : widths.length = glyphs.length) :
    (glyphsOf glyphs offsets widths).map Glyph.codePoint = glyphs := by
  induction glyphs generalizing offsets widths with
  | nil => rfl
  | cons code glyphs ih =>
      cases offsets with
      | nil => simp at hoffsets
      | cons x offsets =>
          cases widths with
          | nil => simp at hwidths
          | cons w widths =>
              rw [glyphsOf, List.map_cons, ih (Nat.succ.inj hoffsets) (Nat.succ.inj hwidths)]

theorem parseImage_codes {im : Image} {useAscii : Bool} {unicodeGlyphs : List Nat} {font : Font}
    (h : parseImage im useAscii unicodeGlyphs = some font) :
    font.glyphData.map Glyph.codePoint = generateFontGlyphsList useAscii unicodeGlyphs := by
  unfold parseImage at h
  dsimp only at h
  split_ifs at h with hempty hcount
  rw [not_not] at hcount
  have hwidths : (glyphPixelWidths im).length = (glyphPixelOffsets im).length := by
    simp [glyphPixelWidths, glyphPixelOffsets]
  rw [← Option.some.inj h]
  exact glyphsOf_codes hcount (hwidths.trans hcount)

/-- The glyphs of a font in their order. -/
structure Font.Ordered (font : Font) : Prop where
  ordered : font.glyphData.Pairwise fun a b => a.codePoint < b.codePoint
  codes : ∀ g ∈ font.glyphData, g.codePoint < 0x110000

theorem parseImage_ordered {im : Image} {useAscii : Bool} {unicodeGlyphs : List Nat} {font : Font}
    (h : parseImage im useAscii unicodeGlyphs = some font)
    (hcodes : ∀ code ∈ unicodeGlyphs, code < 0x110000) : font.Ordered := by
  have hall := parseImage_codes h
  refine ⟨?_, fun g hg => ?_⟩
  · rw [← List.pairwise_map (f := Glyph.codePoint) (R := (· < ·)), hall]
    exact generateFontGlyphsList_ordered useAscii unicodeGlyphs
  · have hmem : g.codePoint ∈ generateFontGlyphsList useAscii unicodeGlyphs :=
      hall ▸ List.mem_map_of_mem hg
    rcases mem_generateFontGlyphsList.mp hmem with ⟨-, hascii⟩ | hunicode
    · rw [List.mem_range'_1] at hascii
      omega
    · exact hcodes _ hunicode

/-! ## Where the data is -/

section Place

variable {bytes : Glyph → List Nat}

theorem placeGlyphs_append (offset : Nat) (before after : List Glyph) :
    placeGlyphs bytes offset (before ++ after) =
      placeGlyphs bytes offset before ++
        placeGlyphs bytes (offset + (before.flatMap bytes).length) after := by
  induction before generalizing offset with
  | nil => rfl
  | cons g before ih =>
      rw [List.cons_append, placeGlyphs, ih, placeGlyphs, List.flatMap_cons, List.length_append,
        Nat.add_assoc]
      rfl

theorem placeGlyphs_codes (offset : Nat) (glyphs : List Glyph) :
    (placeGlyphs bytes offset glyphs).map GlyphInfo.codePoint = glyphs.map Glyph.codePoint := by
  induction glyphs generalizing offset with
  | nil => rfl
  | cons g glyphs ih => rw [placeGlyphs, List.map_cons, ih, List.map_cons]

theorem placeGlyphs_split (before : List Glyph) (g : Glyph) (after : List Glyph) :
    ⟨g.codePoint, (before.flatMap bytes).length, g.w⟩ ∈
      placeGlyphs bytes 0 (before ++ g :: after) := by
  rw [placeGlyphs_append, Nat.zero_add, placeGlyphs]
  exact List.mem_append_right _ List.mem_cons_self

end Place

/-! ## The file of a font -/

section Save

variable {font : Font} {converted : Image} {format : FontFormat} {useRle : Bool}

theorem indexed_placeGlyphs (h : font.Ordered) (bytes : Glyph → List Nat) :
    Indexed (placeGlyphs bytes 0 font.glyphData) font.includesAscii := by
  have hcodes := @placeGlyphs_codes bytes 0 font.glyphData
  refine ⟨?_, fun info hinfo => ?_, fun hascii n hn => ?_⟩
  · rw [← List.pairwise_map (f := GlyphInfo.codePoint) (R := (· < ·)), hcodes, List.pairwise_map]
    exact h.ordered
  · have hmem : info.codePoint ∈ font.glyphData.map Glyph.codePoint :=
      hcodes ▸ List.mem_map_of_mem hinfo
    obtain ⟨g, hg, heq⟩ := List.mem_map.mp hmem
    exact heq ▸ h.codes g hg
  · have hany := List.all_eq_true.mp hascii n hn
    obtain ⟨g, hg, heq⟩ := List.any_eq_true.mp hany
    have hmem : n ∈ (placeGlyphs bytes 0 font.glyphData).map GlyphInfo.codePoint :=
      hcodes ▸ List.mem_map.mpr ⟨g, hg, of_decide_eq_true heq⟩
    exact List.mem_map.mp hmem

variable (font converted format useRle) in
/-- The data of a glyph as it is saved. -/
def savedBytes (g : Glyph) : List Nat :=
  font.glyphBytes converted format (font.compression converted format useRle) g

variable (font converted format useRle) in
/-- The glyphs that the Unicode table has. -/
def unicodeCount : Nat :=
  ((placeGlyphs (savedBytes font converted format useRle) 0 font.glyphData).filter
    fun info => inUnicodeTable font.includesAscii info.codePoint).length

variable (font converted format useRle) in
/-- The file is the one of the font. -/
structure Saved (file : FontFile) : Prop where
  infos : file.infos =
    placeGlyphs (savedBytes font converted format useRle) 0 font.glyphData
  includeAscii : file.includeAscii = font.includesAscii
  data : file.data = font.glyphData.flatMap (savedBytes font converted format useRle)
  lineHeight : file.descriptor.lineHeight = font.glyphHeight
  format_eq : file.descriptor.format = format.imageFormatByte
  compression_eq :
    file.descriptor.compression = (font.compression converted format useRle).byte

theorem saveToQff_some (hordered : font.Ordered) {bytes : List (BitVec 8)}
    (h : saveToQff font converted format useRle = some bytes) :
    ∃ file : FontFile, Saved font converted format useRle file ∧ bytes = file.bytes := by
  obtain ⟨hsize, hbytes⟩ := Option.ite_none_right_eq_some.mp h
  exact ⟨⟨_, font.includesAscii, _, _, indexed_placeGlyphs hordered _, rfl, rfl, hsize⟩,
    ⟨rfl, rfl, rfl, rfl, rfl, rfl⟩, (Option.some.inj hbytes).symm⟩

end Save

/-! ## Opening the file -/

theorem qgfParseFormat_imageFormatByte (format : FontFormat) : ∃ parsed,
    qgfParseFormat (.ofNat 8 format.imageFormatByte) = some parsed ∧
      parsed.bpp = format.bpp ∧ parsed.hasPalette = false := by
  cases format <;> exact ⟨_, rfl, rfl, rfl⟩

namespace FontFile

variable (file : FontFile)

/-- The font handle, with its stream anywhere. -/
def reader (parsed : Format) (stream : MemoryStream) : QffFont where
  lineHeight := .ofNat 8 file.descriptor.lineHeight
  hasAsciiTable := file.includeAscii
  numUnicodeGlyphs := .ofNat 16 file.unicode.length
  format := parsed
  compressionScheme := .ofNat 8 file.descriptor.compression
  stream := stream

theorem qpLoadFont_bytes (haccepted : (qffValidateStream { buffer := file.bytes }).1 = true)
    {parsed : Format} (hparsed : qgfParseFormat (.ofNat 8 file.descriptor.format) = some parsed) :
    qpLoadFont { buffer := file.bytes } =
      some (file.reader parsed { buffer := file.bytes, position := 25 }) := by
  have hread := file.readDescriptor (qffValidateStream { buffer := file.bytes }).2
    (file.qffValidateStream_buffer _ rfl)
  have hformat : qgfParseFormat file.descriptor.read.format = some parsed := hparsed
  have hascii : file.descriptor.read.hasAsciiTable = file.includeAscii := file.ascii_eq
  have hcount : file.descriptor.read.numUnicodeGlyphs = .ofNat 16 file.unicode.length :=
    congrArg (BitVec.ofNat 16) file.count_eq
  rw [qpLoadFont, haccepted, hread]
  dsimp only
  rw [if_neg Bool.noConfusion, hformat, hascii, hcount]
  rfl

section Lookup

variable {file} {parsed : Format} {stream : MemoryStream} {info : GlyphInfo}

theorem toNat_unicode (hcount : file.unicode.length < 2 ^ 16) :
    (BitVec.ofNat 16 file.unicode.length).toNat = file.unicode.length := by
  rw [BitVec.toNat_ofNat, Nat.mod_eq_of_lt hcount]

theorem dataStart_reader (hcount : file.unicode.length < 2 ^ 16)
    (hpalette : parsed.hasPalette = false) :
    (file.reader parsed stream).dataStart = file.dataStart := by
  simp only [QffFont.dataStart, reader, toNat_unicode hcount, hpalette, dataStart,
    file.length_asciiPart, file.length_unicodePart, Bool.false_eq_true, if_false, Nat.add_zero]
  rfl

theorem find_infos (hinfo : info ∈ file.infos) :
    (file.infos.find? fun other => other.codePoint = info.codePoint) = some info := by
  have hnodup : (file.infos.map GlyphInfo.codePoint).Nodup :=
    List.pairwise_map.mpr (file.indexed.ordered.imp Nat.ne_of_lt)
  cases hfind : file.infos.find? fun other => other.codePoint = info.codePoint with
  | none => exact absurd (decide_eq_true rfl) (List.find?_eq_none.mp hfind info hinfo)
  | some found =>
      have hcode : found.codePoint = info.codePoint := by
        have hfound := List.find?_some hfind
        exact of_decide_eq_true hfound
      rw [List.inj_on_of_nodup_map hnodup (List.mem_of_find?_eq_some hfind) hinfo hcode]

theorem drop_asciiEntry (hascii : file.includeAscii = true) (hinfo : info ∈ file.infos)
    (hcode : 0x20 ≤ info.codePoint ∧ info.codePoint < 0x7F) : ∃ rest,
    file.bytes.drop (25 + 5 + (info.codePoint - 0x20) * 3) = info.write false ++ rest := by
  have hget : (List.range' 0x20 95)[info.codePoint - 0x20]? = some info.codePoint := by
    rw [List.getElem?_range' (by omega)]
    congr 1
    omega
  obtain ⟨rest, hrest⟩ := drop_flatMap
    (fun n hn => length_asciiEntry (file.indexed.ascii hascii n hn)) hget
  have hindex : (info.codePoint - 0x20) * 3 ≤ 282 := by omega
  have hlength : ((List.range' 0x20 95).flatMap fun n =>
      ((file.infos.find? fun other => other.codePoint = n).map
        (GlyphInfo.write false)).getD []).length = 285 := by
    rw [List.length_flatMap, List.map_congr_left fun n hn =>
      length_asciiEntry (file.indexed.ascii hascii n hn)]
    rfl
  refine ⟨rest ++ (file.unicodePart ++ dataBlock file.data), ?_⟩
  rw [← List.drop_drop, ← List.drop_drop, file.drop_descriptor, asciiPart, if_pos hascii, asciiTable,
    List.append_assoc, List.append_assoc, List.drop_left' (length_blockHeader _ _),
    List.drop_append_of_le_length (by omega), hrest, find_infos hinfo, Option.map_some,
    Option.getD_some, List.append_assoc]

theorem drop_unicodeEntries (hunicode : 0 < file.unicode.length) :
    file.bytes.drop (25 + (if file.includeAscii = true then 290 else 0) + 5) =
      file.unicode.flatMap (GlyphInfo.write true) ++ dataBlock file.data := by
  rw [← file.length_asciiPart, ← List.drop_drop, file.drop_ascii, unicodePart, if_pos hunicode,
    file.unicodeTable_unicode, List.append_assoc, List.drop_left' (length_blockHeader _ _)]

theorem length_unicodePart_le (hcount : file.unicode.length < 2 ^ 16) :
    file.dataStart < 2 ^ 19 := by
  have hascii := file.length_asciiPart
  have hunicode := file.length_unicodePart
  rw [dataStart]
  split_ifs at hascii hunicode <;> omega

/-- The table that the renderer looks a code point up in is the one that has it. -/
theorem mem_unicode_iff (hinfo : info ∈ file.infos) : info ∈ file.unicode ↔
    ¬(0x20 ≤ info.codePoint ∧ info.codePoint < 0x7F ∧ file.includeAscii = true) := by
  have hlast : info.codePoint < 0x7F ↔ info.codePoint ≤ 0x7E := Nat.lt_succ_iff
  rw [hlast, unicode, List.mem_filter, and_iff_right hinfo, inUnicodeTable, Bool.not_eq_true',
    ← Bool.not_eq_true, Bool.and_eq_true, Bool.and_eq_true, decide_eq_true_eq, decide_eq_true_eq,
    and_assoc]

/-- The width of a glyph and where its data is, as far as the packed entry has them. -/
theorem prepareGlyph (hcount : file.unicode.length < 2 ^ 16) (hpalette : parsed.hasPalette = false)
    (hinfo : info ∈ file.infos) (hoffset : info.dataOffset ≤ file.data.length)
    (hbuffer : stream.buffer = file.bytes) :
    (file.reader parsed stream).prepareGlyphForRender info.codePoint =
      some (BitVec.ofNat 8 (info.w % 2 ^ 6),
        { buffer := file.bytes, position := file.dataStart + info.dataOffset % 2 ^ 18 }) := by
  have hlength := file.length_bytes
  have hstart := length_unicodePart_le hcount
  have hmod : info.dataOffset % 2 ^ 18 ≤ info.dataOffset := Nat.mod_le _ _
  have hseek : ∀ other : MemoryStream, other.buffer = file.bytes →
      (file.reader parsed stream).seekGlyph info.value other =
        some (BitVec.ofNat 8 (info.w % 2 ^ 6),
          { buffer := file.bytes, position := file.dataStart + info.dataOffset % 2 ^ 18 }) := by
    intro other hother
    have hreader := @dataStart_reader file parsed stream hcount hpalette
    rw [QffFont.seekGlyph_value info (by rw [hreader, hother]; omega) (by rw [hreader]; omega),
      hreader, hother]
  have hset : ∀ position ≤ file.dataStart, stream.setpos (.ofNat 32 position) =
      (true, { buffer := file.bytes, position := position }) := by
    intro position hposition
    have htoNat : (BitVec.ofNat 32 position).toNat = position := by
      rw [BitVec.toNat_ofNat, Nat.mod_eq_of_lt (by omega)]
    have hreaches : stream.Reaches (.ofNat 32 position) :=
      ⟨by rw [htoNat]; omega, by rw [htoNat, hbuffer]; omega⟩
    rw [MemoryStream.setpos_reaches hreaches, htoNat, hbuffer]
  have hasciiPart := file.length_asciiPart
  have hstartEq : file.dataStart = 25 + file.asciiPart.length + file.unicodePart.length + 5 := rfl
  have hreaderAscii : (file.reader parsed stream).hasAsciiTable = file.includeAscii := rfl
  have hreaderStream : (file.reader parsed stream).stream = stream := rfl
  rw [QffFont.prepareGlyphForRender, hreaderAscii, hreaderStream]
  by_cases hascii : 0x20 ≤ info.codePoint ∧ info.codePoint < 0x7F ∧ file.includeAscii = true
  · obtain ⟨rest, hahead⟩ := drop_asciiEntry hascii.2.2 hinfo ⟨hascii.1, hascii.2.1⟩
    rw [if_pos hascii.2.2] at hasciiPart
    have hread := @MemoryStream.read_ahead
      { buffer := file.bytes, position := 25 + 5 + (info.codePoint - 0x20) * 3 } _ _ hahead
      (by dsimp only; omega)
    rw [info.length_write_false] at hread
    rw [if_pos hascii, hset _ (by omega)]
    dsimp only
    rw [if_neg Bool.noConfusion, hread]
    dsimp only
    rw [info.field_write_false]
    exact hseek _ rfl
  · have hmem := (mem_unicode_iff hinfo).mpr hascii
    have hunicode : 0 < file.unicode.length := List.length_pos_of_mem hmem
    have hahead := @drop_unicodeEntries file hunicode
    rw [← hasciiPart] at hahead
    have hunicodePart := file.length_unicodePart
    rw [if_pos hunicode] at hunicodePart
    obtain ⟨other, hother, hsearch⟩ := @QffFont.searchGlyph_mem (file.reader parsed stream)
      file.unicode _ info (file.unicode_ordered.imp Nat.ne_of_lt)
      (fun entry hentry => file.indexed.codes entry (List.mem_of_mem_filter hentry)) hmem
      { buffer := file.bytes, position := 25 + file.asciiPart.length + 5 }
      (by dsimp only; omega) hahead
    have hnum : (file.reader parsed stream).numUnicodeGlyphs.toNat = file.unicode.length :=
      toNat_unicode hcount
    rw [if_neg hascii, ← hasciiPart, hset _ (by omega)]
    dsimp only
    rw [if_neg Bool.noConfusion, hnum, hsearch]
    exact hseek other hother

/-- A glyph of the Unicode table is not found if the descriptor has no room for their number. -/
theorem prepareGlyph_lost (hcount : file.countRead = 0) (hmem : info ∈ file.unicode) :
    (file.reader parsed stream).prepareGlyphForRender info.codePoint = none := by
  have hnum : (file.reader parsed stream).numUnicodeGlyphs.toNat = 0 :=
    (BitVec.toNat_ofNat _ _).trans hcount
  have hnot : ¬(0x20 ≤ info.codePoint ∧ info.codePoint < 0x7F ∧
      (file.reader parsed stream).hasAsciiTable = true) :=
    (mem_unicode_iff (List.mem_of_mem_filter hmem)).mp hmem
  rw [QffFont.prepareGlyphForRender, if_neg hnot, hnum]
  dsimp only
  split_ifs <;> rfl

theorem drop_data (offset : Nat) : file.bytes.drop (file.dataStart + offset) =
    (file.data.drop offset).map (BitVec.ofNat 8) := by
  rw [← List.drop_drop, dataStart, ← List.drop_drop, file.drop_unicode, dataBlock,
    List.drop_left' (length_blockHeader _ _), List.map_drop]

end Lookup

end FontFile

/-! ## Pixels -/

/-- What the renderer hands on for the pixels of an image. -/
def FontFormat.rendered (format : FontFormat) (im : Image) : List (BitVec 8) :=
  if 8 < format.bpp then (im.pixels.flatMap (nativePixel format)).map (BitVec.ofNat 8)
  else im.pixels.map fun p =>
    .ofNat 8 (ImageFormat.grayscale.pixel (2 ^ format.bpp) p.r.toNat)

theorem nativePixel_lt (format : FontFormat) (p : Rgb) : ∀ byte ∈ nativePixel format p,
    byte < 2 ^ 8 := by
  have hplain : ∀ byte ∈ [p.r.toNat, p.g.toNat, p.b.toNat], byte < 2 ^ 8 := by
    simp [p.r.isLt, p.g.isLt, p.b.isLt]
  have hpacked : ∀ byte ∈ rgbTo565 p.r.toNat p.g.toNat p.b.toNat, byte < 2 ^ 8 := by
    have hand : ∀ x mask : Nat, x &&& mask ≤ mask := fun x mask => Nat.and_le_right
    have hr := hand (p.r.toNat >>> 3) 0x1F
    have hg := hand (p.g.toNat >>> 5) 0x07
    have hg' := hand (p.g.toNat >>> 2) 0x07
    have hb := hand (p.b.toNat >>> 3) 0x1F
    simp only [rgbTo565, Nat.shiftLeft_eq, List.mem_cons, List.not_mem_nil, or_false]
    rintro byte (rfl | rfl) <;> omega
  cases format <;> first | exact hpacked | exact hplain

theorem length_nativePixel {format : FontFormat} (h : 8 < format.bpp) (p : Rgb) :
    (nativePixel format p).length * 8 = format.bpp := by
  cases format <;> first | rfl | exact absurd h (by decide)

theorem length_nativePixels {format : FontFormat} (h : 8 < format.bpp) (pixels : List Rgb) :
    (pixels.flatMap (nativePixel format)).length = pixels.length * format.bpp / 8 := by
  have hlength : pixels.length * format.bpp =
      (pixels.flatMap (nativePixel format)).length * 8 := by
    induction pixels with
    | nil => simp
    | cons p pixels ih =>
        rw [List.flatMap_cons, List.length_append, List.length_cons, Nat.add_mul, Nat.add_mul, ih,
          length_nativePixel h, Nat.one_mul, Nat.add_comm]
  rw [hlength, Nat.mul_div_cancel _ (by decide)]

theorem bpp_le (format : FontFormat) : format.bpp ≤ 24 := by
  cases format <;> decide

theorem bpp_cases (format : FontFormat) : 8 < format.bpp ∨ (0 < format.bpp ∧ format.bpp ≤ 8) := by
  cases format <;> decide

theorem imageBytes_lt (format : FontFormat) (im : Image) : ∀ byte ∈ format.imageBytes im,
    byte < 2 ^ 8 := by
  unfold FontFormat.imageBytes
  rcases bpp_cases format with hnative | ⟨hpos, hfits⟩
  · rw [if_pos hnative]
    intro byte hbyte
    obtain ⟨p, -, hmem⟩ := List.mem_flatMap.mp hbyte
    exact nativePixel_lt format p byte hmem
  · rw [if_neg (by omega)]
    refine packPixels_lt hpos (fun v hv => ?_) _
    obtain ⟨gray, hgray, rfl⟩ := List.mem_map.mp hv
    obtain ⟨p, -, rfl⟩ := List.mem_map.mp hgray
    exact ImageFormat.grayscale.pixel_lt _ p.r.isLt

theorem sendBytes_supplies {σ : Type} {input : σ → BitVec 16 × σ} {Sound : σ → Prop}
    {bytes : List Nat} (hbytes : ∀ byte ∈ bytes, byte < 2 ^ 8) {s : σ}
    (h : Supplies input Sound bytes s) (sent : List (BitVec 8)) (count : Nat) :
    ∃ s' count', sendBytes input
      (fun byte (t : List (BitVec 8) × Nat) => (true, t.1 ++ [byte], t.2 + 1)) bytes.length s
        (sent, count) = (true, s', sent ++ bytes.map (BitVec.ofNat 8), count') := by
  induction bytes generalizing s sent count with
  | nil => exact ⟨s, count, by simp [sendBytes]⟩
  | cons byte bytes ih =>
      obtain ⟨hread, hrest⟩ := h
      have hbyte := hbytes byte (by simp)
      have hmsb : (BitVec.ofNat 16 byte).msb = false := by
        rw [BitVec.msb_eq_false_iff_two_mul_lt, BitVec.toNat_ofNat]
        omega
      have hvalue : (BitVec.ofNat 16 byte).setWidth 8 = BitVec.ofNat 8 byte := by
        apply BitVec.eq_of_toNat_eq
        simp
      obtain ⟨s', count', hsent⟩ := ih (fun b hb => hbytes b (List.mem_cons_of_mem _ hb)) hrest
        (sent ++ [BitVec.ofNat 8 byte]) (count + 1)
      refine ⟨s', count', ?_⟩
      rw [List.length_cons, sendBytes, hread]
      dsimp only
      rw [hmsb, if_neg Bool.false_ne_true, if_neg Bool.noConfusion, hvalue, hsent, List.map_cons,
        List.append_assoc]
      rfl

theorem prepareInputState_byte (compression : Compression) :
    qpInternalPrepareInputState (.ofNat 8 compression.byte) = some compression := by
  cases compression <;> rfl

/-- An image whose data is ahead of the stream is rendered pixel by pixel. -/
theorem renderGlyph_imageBytes {qff : QffFont} {format : FontFormat} {compression : Compression}
    (hbpp : qff.format.bpp = format.bpp)
    (hcompression : qff.compressionScheme = .ofNat 8 compression.byte) {im : Image}
    {width : BitVec 8} (hwidth : width.toNat = im.width) (hheight : qff.lineHeight.toNat = im.height)
    {stream : MemoryStream} {rest : List Nat}
    (hahead : stream.Ahead (compression.encode (format.imageBytes im) ++ rest)) :
    qff.renderGlyph width stream = some (format.rendered im) := by
  have hsupplies := compression.supplies_ahead (imageBytes_lt format im)
    (s := { srcStream := stream }) rfl hahead
  rw [QffFont.renderGlyph, hcompression, prepareInputState_byte]
  dsimp only
  rw [hbpp, hwidth, hheight]
  rcases bpp_cases format with hnative | ⟨hpos, hfits⟩
  · have hbytes : format.imageBytes im = im.pixels.flatMap (nativePixel format) := if_pos hnative
    have hcount : im.width * im.height * format.bpp % 2 ^ 32 / 8 =
        (format.imageBytes im).length := by
      rw [hbytes, length_nativePixels hnative, im.length_pixels, Nat.mod_eq_of_lt]
      refine Nat.lt_of_le_of_lt (Nat.mul_le_mul (Nat.mul_le_mul
        (hwidth ▸ Nat.le_of_lt_succ width.isLt) (hheight ▸ Nat.le_of_lt_succ qff.lineHeight.isLt))
        (bpp_le format)) (by decide)
    obtain ⟨s', count, hsent⟩ := sendBytes_supplies (imageBytes_lt format im) hsupplies [] 0
    rw [if_neg (by omega), hcount, hsent, if_pos rfl, FontFormat.rendered, if_pos hnative, ← hbytes]
    rfl
  · have hvalues : ∀ v ∈ im.pixels.map fun p =>
        ImageFormat.grayscale.pixel (2 ^ format.bpp) p.r.toNat, v < 2 ^ format.bpp := by
      intro v hv
      obtain ⟨p, -, rfl⟩ := List.mem_map.mp hv
      exact ImageFormat.grayscale.pixel_lt _ p.r.isLt
    have hbytes : format.imageBytes im = packPixels (2 ^ format.bpp)
        (im.pixels.map fun p => ImageFormat.grayscale.pixel (2 ^ format.bpp) p.r.toNat).length
        (im.pixels.map fun p => ImageFormat.grayscale.pixel (2 ^ format.bpp) p.r.toNat) := by
      rw [FontFormat.imageBytes, if_neg (by omega), convertImageBytes, List.map_map,
        List.length_map, im.length_pixels]
      rfl
    rw [hbytes] at hsupplies
    obtain ⟨s', hdecode, -⟩ := decodePalette_supplies hpos hfits hvalues hsupplies
    rw [List.length_map, im.length_pixels, List.map_map] at hdecode
    rw [if_pos hfits, hdecode, FontFormat.rendered, if_neg (by omega)]
    rfl

end Qmk.Painter
