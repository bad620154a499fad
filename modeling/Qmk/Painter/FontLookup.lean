import Qmk.Painter.Font
import Qmk.Painter.FontReader

/-!
# Looking glyphs up in a font file

Every table is behind a header of five bytes, and its entries are of one size.
-/

namespace Qmk.Painter

open Qmk.Lib

/-! ## Streams -/

namespace MemoryStream

variable {stream : MemoryStream}

theorem setpos_reaches {offset : BitVec 32} (h : stream.Reaches offset) :
    stream.setpos offset = (true, { stream with position := offset.toNat, isEof := false }) := by
  have hint : offset.toInt = offset.toNat := by
    rw [BitVec.toInt_eq_toNat_cond, if_pos (by have := h.1; omega)]
  have hinside := h.2
  unfold setpos seek
  dsimp only
  rw [hint, if_neg (by omega), if_neg (by omega), Int.toNat_natCast]

theorem read_ahead {bytes rest : List (BitVec 8)}
    (h : stream.buffer.drop stream.position = bytes ++ rest)
    (hposition : stream.position ≤ stream.buffer.length) :
    read bytes.length stream =
      (some bytes, { stream with position := stream.position + bytes.length }) := by
  have hlength := congrArg List.length h
  rw [List.length_drop, List.length_append] at hlength
  rw [read_inside (by omega), h, List.take_left']
  rfl

end MemoryStream

/-! ## Packed glyphs -/

namespace GlyphInfo

theorem value_eq (info : GlyphInfo) :
    info.value = info.dataOffset % 2 ^ 18 * 2 ^ 6 + info.w % 2 ^ 6 := by
  have hmask : (0xFFFFC0 : Nat) = (2 ^ 18 - 1) <<< 6 := rfl
  have hwidth : info.w &&& 0x3F = info.w % 2 ^ 6 := Nat.and_two_pow_sub_one_eq_mod info.w 6
  rw [value, hmask, ← Nat.shiftLeft_and_distrib, Nat.and_two_pow_sub_one_eq_mod, hwidth,
    ← Nat.shiftLeft_add_eq_or_of_lt (Nat.mod_lt _ (Nat.two_pow_pos 6)), Nat.shiftLeft_eq]

theorem value_lt (info : GlyphInfo) : info.value < 256 ^ 3 := by
  rw [value_eq]
  omega

theorem value_width (info : GlyphInfo) : info.value &&& glyphWidthMask = info.w % 2 ^ 6 := by
  have hmask : glyphWidthMask = 2 ^ 6 - 1 := rfl
  rw [hmask, Nat.and_two_pow_sub_one_eq_mod, value_eq]
  omega

theorem value_offset (info : GlyphInfo) :
    (info.value &&& glyphOffsetMask) >>> 6 = info.dataOffset % 2 ^ 18 := by
  have hmask : glyphOffsetMask >>> 6 = 2 ^ 18 - 1 := rfl
  rw [Nat.shiftRight_and_distrib, hmask, Nat.and_two_pow_sub_one_eq_mod, value_eq,
    Nat.shiftRight_eq_div_pow]
  omega

theorem length_write_false (info : GlyphInfo) : (info.write false).length = 3 := by
  simp [write]

theorem length_write_true (info : GlyphInfo) : (info.write true).length = 6 := by
  simp [write]

theorem field_write_false (info : GlyphInfo) : leField 0 3 (info.write false) = info.value := by
  have hfield := leField_leBytes 3 info.value []
  rw [Nat.mod_eq_of_lt info.value_lt, List.append_nil] at hfield
  simpa [write] using hfield

theorem codePoint_write_true {info : GlyphInfo} (h : info.codePoint < 0x110000) :
    leField 0 3 (info.write true) = info.codePoint := by
  have hfield := leField_leBytes 3 info.codePoint (leBytes 3 info.value)
  rwa [Nat.mod_eq_of_lt (by omega)] at hfield

theorem field_write_true (info : GlyphInfo) : leField 3 3 (info.write true) = info.value := by
  have hdrop : leField 3 3 (leBytes 3 info.codePoint ++ leBytes 3 info.value) =
      leField 0 3 (leBytes 3 info.value) :=
    leField_append 3 (Nat.le_of_eq (length_leBytes 3 info.codePoint)) (leBytes 3 info.value)
  have hfield := leField_leBytes 3 info.value []
  rw [Nat.mod_eq_of_lt info.value_lt, List.append_nil] at hfield
  exact hdrop.trans hfield

end GlyphInfo

namespace QffFont

variable {font : QffFont}

theorem seekGlyph_value (info : GlyphInfo) {stream : MemoryStream}
    (hinside : font.dataStart + info.dataOffset % 2 ^ 18 ≤ stream.buffer.length)
    (hsmall : font.dataStart + info.dataOffset % 2 ^ 18 < 2 ^ 31) :
    font.seekGlyph info.value stream = some (BitVec.ofNat 8 (info.w % 2 ^ 6),
      { buffer := stream.buffer, position := font.dataStart + info.dataOffset % 2 ^ 18 }) := by
  have htoNat : (BitVec.ofNat 32 (font.dataStart + info.dataOffset % 2 ^ 18)).toNat =
      font.dataStart + info.dataOffset % 2 ^ 18 := by
    rw [BitVec.toNat_ofNat, Nat.mod_eq_of_lt (by omega)]
  have hreaches : stream.Reaches (BitVec.ofNat 32 (font.dataStart + info.dataOffset % 2 ^ 18)) :=
    ⟨by rw [htoNat]; exact hsmall, by rw [htoNat]; exact hinside⟩
  rw [seekGlyph, info.value_width, info.value_offset, MemoryStream.setpos_reaches hreaches,
    htoNat]
  rfl

/-- The search ends at the glyph with the code point, wherever it stands in the table. -/
theorem searchGlyph_mem {entries : List GlyphInfo} {rest : List (BitVec 8)} {info : GlyphInfo}
    (hdistinct : entries.Pairwise fun a b => a.codePoint ≠ b.codePoint)
    (hcode : ∀ entry ∈ entries, entry.codePoint < 0x110000) (hmem : info ∈ entries)
    {stream : MemoryStream} (hposition : stream.position ≤ stream.buffer.length)
    (hahead : stream.buffer.drop stream.position =
      entries.flatMap (GlyphInfo.write true) ++ rest) :
    ∃ stream', stream'.buffer = stream.buffer ∧
      font.searchGlyph info.codePoint entries.length stream =
        font.seekGlyph info.value stream' := by
  induction entries generalizing stream with
  | nil => cases hmem
  | cons entry entries ih =>
      obtain ⟨hfirst, hrest⟩ := List.pairwise_cons.mp hdistinct
      rw [List.flatMap_cons, List.append_assoc] at hahead
      have hread := MemoryStream.read_ahead hahead hposition
      rw [entry.length_write_true] at hread
      rw [List.length_cons, searchGlyph, hread]
      dsimp only
      rw [GlyphInfo.codePoint_write_true (hcode entry (by simp)), entry.field_write_true]
      rcases List.mem_cons.mp hmem with rfl | hmem
      · rw [if_pos rfl]
        exact ⟨{ stream with position := stream.position + 6 }, rfl, rfl⟩
      · rw [if_neg (hfirst info hmem)]
        have hlength := congrArg List.length hahead
        rw [List.length_drop, List.length_append, entry.length_write_true] at hlength
        refine @ih hrest (fun other hother => hcode other (List.mem_cons_of_mem _ hother)) hmem
          { stream with position := stream.position + 6 } (by dsimp only; omega) ?_
        rw [← List.drop_drop, hahead, List.drop_left' entry.length_write_true]

end QffFont

/-! ## The descriptor -/

theorem leField_next {offset width before n : Nat} (h : before ≤ offset)
    (rest : List (BitVec 8)) :
    leField offset width (leBytes before n ++ rest) = leField (offset - before) width rest := by
  rw [leField_append width (by rw [length_leBytes]; exact h), length_leBytes]

theorem ofNat_wrap (width n : Nat) :
    BitVec.ofNat (8 * width) (n % 256 ^ width) = BitVec.ofNat (8 * width) n := by
  apply BitVec.eq_of_toNat_eq
  rw [BitVec.toNat_ofNat, BitVec.toNat_ofNat, Nat.pow_mul, Nat.mod_mod]

@[simp] theorem length_blockHeader (typeId length : Nat) :
    (blockHeader typeId length).length = 5 := by
  simp [blockHeader]

theorem blockHeader_ofBytes (typeId length : Nat) (rest : List (BitVec 8)) :
    BlockHeader.ofBytes (blockHeader typeId length ++ rest) =
      ⟨.ofNat 8 typeId, .ofNat 8 (0xFF - typeId), .ofNat 24 length⟩ := by
  simp only [BlockHeader.ofBytes, blockHeader, List.append_assoc]
  rw [leField_leBytes, leField_next (Nat.le_refl 1), leField_leBytes,
    leField_next (by decide), leField_next (Nat.le_refl 1), leField_leBytes, ofNat_wrap 1,
    ofNat_wrap 1, ofNat_wrap 3]

namespace FontDescriptorFields

variable (d : FontDescriptorFields)

@[simp] theorem length_write : d.write.length = 25 := by
  simp [write]

/-- What the reader makes of the descriptor. -/
def read : FontDescriptor where
  header := ⟨0x00, 0xFF, 20⟩
  magic := 0x464651
  qffVersion := 0x01
  totalFileSize := .ofNat 32 d.totalFileSize
  negTotalFileSize := .ofNat 32 (0xFFFFFFFF - d.totalFileSize)
  lineHeight := .ofNat 8 d.lineHeight
  hasAsciiTable := d.hasAsciiTable
  numUnicodeGlyphs := .ofNat 16 d.unicodeGlyphCount
  format := .ofNat 8 d.format
  compressionScheme := .ofNat 8 d.compression

theorem ofBytes_write : FontDescriptor.ofBytes d.write = d.read := by
  have hheader : BlockHeader.ofBytes d.write = ⟨0x00, 0xFF, 20⟩ := by
    simp only [write, List.append_assoc]
    exact blockHeader_ofBytes 0x00 20 _
  have hskip {offset width : Nat} (h : 5 ≤ offset) (rest : List (BitVec 8)) :
      leField offset width (blockHeader 0x00 20 ++ rest) = leField (offset - 5) width rest := by
    rw [leField_append width (by rw [length_blockHeader]; exact h), length_blockHeader]
  rw [FontDescriptor.ofBytes, hheader, read]
  simp (disch := decide) only [write, List.append_assoc, hskip, leField_next, leField_leBytes,
    Nat.reduceSub]
  congr 1
  · exact ofNat_wrap 4 _
  · exact ofNat_wrap 4 _
  · exact ofNat_wrap 1 _
  · cases d.hasAsciiTable <;> rfl
  · exact ofNat_wrap 2 _
  · exact ofNat_wrap 1 _
  · exact ofNat_wrap 1 _

theorem valid_read (h : d.totalFileSize < 2 ^ 32) : d.read.valid = true := by
  have hneg : BitVec.ofNat 32 (0xFFFFFFFF - d.totalFileSize) =
      ~~~BitVec.ofNat 32 d.totalFileSize := by
    apply BitVec.eq_of_toNat_eq
    rw [BitVec.toNat_not, BitVec.toNat_ofNat, BitVec.toNat_ofNat]
    omega
  have hheader : qgfValidateBlockHeader ⟨0x00, 0xFF, 20⟩ 0x00 20 = true := by
    decide
  have hread : d.read.header = ⟨0x00, 0xFF, 20⟩ := rfl
  rw [FontDescriptor.valid, hread, hheader]
  simp [read, hneg]

end FontDescriptorFields

theorem qffReadFontDescriptor_write {d : FontDescriptorFields} (h : d.totalFileSize < 2 ^ 32)
    {rest : List (BitVec 8)} {stream : MemoryStream} (hbuffer : stream.buffer = d.write ++ rest) :
    qffReadFontDescriptor stream =
      (some d.read, { buffer := stream.buffer, position := 25 }) := by
  have hahead : stream.buffer.drop 0 = d.write ++ rest := hbuffer
  have hread := @MemoryStream.read_ahead { buffer := stream.buffer } d.write rest hahead
    (Nat.zero_le _)
  rw [d.length_write] at hread
  rw [qffReadFontDescriptor, MemoryStream.setpos_zero, hread]
  dsimp only
  rw [d.ofBytes_write, if_pos (d.valid_read h)]

/-! ## Tables -/

theorem length_asciiEntry {infos : List GlyphInfo} {n : Nat}
    (h : ∃ info ∈ infos, info.codePoint = n) :
    (((infos.find? fun info => info.codePoint = n).map (GlyphInfo.write false)).getD []).length
      = 3 := by
  obtain ⟨info, hmem, hcode⟩ := h
  cases hfind : infos.find? fun info => info.codePoint = n with
  | none =>
      have hnone := List.find?_eq_none.mp hfind info hmem
      exact absurd hcode (by simpa using hnone)
  | some found => exact found.length_write_false

theorem drop_flatMap {α β : Type} {f : α → List β} {size : Nat} {entries : List α}
    (h : ∀ entry ∈ entries, (f entry).length = size) {i : Nat} {entry : α}
    (hget : entries[i]? = some entry) :
    ∃ rest, (entries.flatMap f).drop (i * size) = f entry ++ rest := by
  induction entries generalizing i with
  | nil => simp at hget
  | cons first entries ih =>
      rw [List.flatMap_cons]
      cases i with
      | zero =>
          rw [List.getElem?_cons_zero, Option.some.injEq] at hget
          exact ⟨entries.flatMap f, by rw [Nat.zero_mul, List.drop_zero, hget]⟩
      | succ i =>
          rw [List.getElem?_cons_succ] at hget
          obtain ⟨rest, hrest⟩ := ih (fun other hother => h other (by simp [hother])) hget
          refine ⟨rest, ?_⟩
          rw [Nat.succ_mul, Nat.add_comm, ← List.drop_drop, List.drop_left' (h first (by simp)),
            hrest]

/-- The glyphs as the tables take them. -/
structure Indexed (infos : List GlyphInfo) (includeAscii : Bool) : Prop where
  ordered : infos.Pairwise fun a b => a.codePoint < b.codePoint
  codes : ∀ info ∈ infos, info.codePoint < 0x110000
  ascii : includeAscii = true → ∀ n ∈ List.range' 0x20 95, ∃ info ∈ infos, info.codePoint = n

/-- A font file in its parts. -/
structure FontFile where
  infos : List GlyphInfo
  includeAscii : Bool
  data : List Nat
  descriptor : FontDescriptorFields
  indexed : Indexed infos includeAscii
  ascii_eq : descriptor.hasAsciiTable = includeAscii
  count_eq : descriptor.unicodeGlyphCount =
    (infos.filter fun info => inUnicodeTable includeAscii info.codePoint).length
  size_lt : descriptor.totalFileSize < 2 ^ 32

namespace FontFile

variable (file : FontFile)

def unicode : List GlyphInfo :=
  file.infos.filter fun info => inUnicodeTable file.includeAscii info.codePoint

def asciiPart : List (BitVec 8) :=
  if file.includeAscii = true then asciiTable file.infos else []

def unicodePart : List (BitVec 8) :=
  if 0 < file.unicode.length then unicodeTable file.unicode else []

def bytes : List (BitVec 8) :=
  file.descriptor.write ++ (file.asciiPart ++ file.unicodePart ++ dataBlock file.data)

theorem length_asciiPart :
    file.asciiPart.length = if file.includeAscii = true then 290 else 0 := by
  unfold asciiPart
  split
  · rename_i hascii
    have hentries (n : Nat) (hn : n ∈ List.range' 0x20 95) :=
      length_asciiEntry (file.indexed.ascii hascii n hn)
    rw [asciiTable, List.length_append, length_blockHeader, List.length_flatMap,
      List.map_congr_left hentries]
    rfl
  · rfl

theorem unicode_ordered : file.unicode.Pairwise fun a b => a.codePoint < b.codePoint :=
  file.indexed.ordered.filter _

theorem unicodeTable_unicode :
    unicodeTable file.unicode = blockHeader 0x02 (file.unicode.length * 6) ++
      file.unicode.flatMap (GlyphInfo.write true) := by
  have hsorted : file.unicode.insertionSort (fun a b => a.codePoint ≤ b.codePoint) =
      file.unicode :=
    (file.unicode_ordered.imp Nat.le_of_lt).insertionSort_eq
  rw [unicodeTable, hsorted]

theorem length_unicodePart : file.unicodePart.length =
    if 0 < file.unicode.length then 5 + file.unicode.length * 6 else 0 := by
  unfold unicodePart
  split
  · rw [file.unicodeTable_unicode, List.length_append, length_blockHeader, List.length_flatMap,
      List.map_congr_left fun info _ => info.length_write_true]
    simp
  · rfl

def dataStart : Nat := 25 + file.asciiPart.length + file.unicodePart.length + 5

theorem length_bytes : file.bytes.length = file.dataStart + file.data.length := by
  simp [bytes, dataStart, dataBlock]
  omega

/-! ### Validation -/

theorem drop_descriptor : file.bytes.drop 25 =
    file.asciiPart ++ file.unicodePart ++ dataBlock file.data :=
  List.drop_left' file.descriptor.length_write

theorem drop_ascii : file.bytes.drop (25 + file.asciiPart.length) =
    file.unicodePart ++ dataBlock file.data := by
  rw [← List.drop_drop, file.drop_descriptor, List.append_assoc, List.drop_left' rfl]

theorem drop_unicode : file.bytes.drop (25 + file.asciiPart.length + file.unicodePart.length) =
    dataBlock file.data := by
  rw [← List.drop_drop, file.drop_ascii, List.drop_left' rfl]

theorem readDescriptor (stream : MemoryStream) (hbuffer : stream.buffer = file.bytes) :
    qffReadFontDescriptor stream =
      (some file.descriptor.read, { buffer := file.bytes, position := 25 }) := by
  rw [qffReadFontDescriptor_write file.size_lt hbuffer, hbuffer]

theorem validateAscii :
    (if file.descriptor.read.hasAsciiTable = true then
        qffValidateAsciiDescriptor { buffer := file.bytes, position := 25 }
      else (true, { buffer := file.bytes, position := 25 })) =
      (true, { buffer := file.bytes, position := 25 + file.asciiPart.length }) := by
  have hlength := file.length_bytes
  have hascii : file.descriptor.read.hasAsciiTable = file.includeAscii := file.ascii_eq
  rw [hascii]
  cases hinclude : file.includeAscii with
  | false =>
      have hpart : file.asciiPart.length = 0 := by
        rw [file.length_asciiPart, hinclude]
        rfl
      rw [hpart]
      rfl
  | true =>
      have hpart : file.asciiPart.length = 290 := by
        rw [file.length_asciiPart, hinclude]
        rfl
      have hahead : file.bytes.drop 25 =
          file.asciiPart ++ (file.unicodePart ++ dataBlock file.data) := by
        rw [file.drop_descriptor, List.append_assoc]
      have hread := @MemoryStream.read_ahead { buffer := file.bytes, position := 25 } _ _ hahead
        (by rw [hlength, dataStart]; dsimp only; omega)
      have hheader : BlockHeader.ofBytes file.asciiPart = ⟨0x01, 0xFE, 285⟩ := by
        rw [asciiPart, hinclude]
        exact blockHeader_ofBytes 0x01 (95 * 3) _
      rw [hpart] at hread ⊢
      rw [if_pos rfl, qffValidateAsciiDescriptor, hread]
      dsimp only
      rw [hheader]
      rfl

/-- The number of glyphs that the descriptor has room for. -/
def countRead : Nat := file.unicode.length % 2 ^ 16

theorem numUnicodeGlyphs_read :
    file.descriptor.read.numUnicodeGlyphs.toNat = file.countRead := by
  have hcount := file.count_eq
  rw [countRead, unicode, ← hcount]
  exact BitVec.toNat_ofNat _ _

theorem validateUnicode (hpos : 0 < file.countRead) :
    (qffValidateUnicodeDescriptor file.descriptor.read.numUnicodeGlyphs
      { buffer := file.bytes, position := 25 + file.asciiPart.length }).1 =
      decide (file.unicode.length * 6 % 2 ^ 24 = file.countRead * 6) := by
  have hunicode : 0 < file.unicode.length :=
    Nat.lt_of_lt_of_le hpos (Nat.mod_le _ _)
  have hlength := file.length_bytes
  have hpart : file.unicodePart = blockHeader 0x02 (file.unicode.length * 6) ++
      file.unicode.flatMap (GlyphInfo.write true) := by
    rw [unicodePart, if_pos hunicode, file.unicodeTable_unicode]
  have hahead : file.bytes.drop (25 + file.asciiPart.length) =
      blockHeader 0x02 (file.unicode.length * 6) ++
        (file.unicode.flatMap (GlyphInfo.write true) ++ dataBlock file.data) := by
    rw [file.drop_ascii, hpart, List.append_assoc]
  have hread := @MemoryStream.read_ahead
    { buffer := file.bytes, position := 25 + file.asciiPart.length } _ _ hahead
    (by rw [hlength, dataStart]; dsimp only; omega)
  have hheader := blockHeader_ofBytes 0x02 (file.unicode.length * 6) []
  rw [List.append_nil] at hheader
  rw [length_blockHeader] at hread
  rw [qffValidateUnicodeDescriptor, hread, file.numUnicodeGlyphs_read]
  dsimp only
  rw [hheader]
  have hvalid : qgfValidateBlockHeader
      ⟨.ofNat 8 0x02, .ofNat 8 (0xFF - 0x02), .ofNat 24 (file.unicode.length * 6)⟩ 0x02
      ((file.countRead * 6 : Nat) : Int) =
        decide (file.unicode.length * 6 % 2 ^ 24 = file.countRead * 6) := by
    simp only [qgfValidateBlockHeader, BitVec.toNat_ofNat]
    have hid : ¬((BitVec.ofNat 8 0x02) ≠ 0x02 ∨ (BitVec.ofNat 8 (0xFF - 0x02)) ≠ ~~~0x02) := by
      decide
    rw [if_neg hid]
    by_cases hsame : file.unicode.length * 6 % 2 ^ 24 = file.countRead * 6
    · rw [if_neg (fun hdiffer => hdiffer.2 (by exact_mod_cast hsame)), decide_eq_true hsame]
    · rw [if_pos ⟨by omega, fun heq => hsame (by exact_mod_cast heq)⟩, decide_eq_false hsame]
  rw [hvalid]
  split
  · rename_i hsame
    exact hsame.symm
  · rename_i hsame
    exact (Bool.eq_false_iff.mpr hsame).symm

/-- The stream is accepted if the number of glyphs can be read back, or reads as zero. -/
theorem validateStream (stream : MemoryStream) (hbuffer : stream.buffer = file.bytes) :
    (qffValidateStream stream).1 = true ↔
      file.countRead = 0 ∨ file.unicode.length * 6 % 2 ^ 24 = file.countRead * 6 := by
  rw [qffValidateStream, file.readDescriptor stream hbuffer]
  dsimp only
  rw [file.validateAscii, file.numUnicodeGlyphs_read, if_neg Bool.noConfusion]
  by_cases hpos : 0 < file.countRead
  · rw [if_pos hpos, file.validateUnicode hpos, decide_eq_true_eq]
    exact ⟨.inr, fun h => h.resolve_left (Nat.ne_of_gt hpos)⟩
  · rw [if_neg hpos]
    exact ⟨fun _ => .inl (by omega), fun _ => rfl⟩

theorem qffValidateStream_buffer (stream : MemoryStream) (hbuffer : stream.buffer = file.bytes) :
    (qffValidateStream stream).2.buffer = file.bytes := by
  rw [qffValidateStream, file.readDescriptor stream hbuffer]
  dsimp only
  rw [file.validateAscii, if_neg Bool.noConfusion]
  split
  · unfold qffValidateUnicodeDescriptor
    dsimp only
    have hread := @MemoryStream.read_buffer
      { buffer := file.bytes, position := 25 + file.asciiPart.length } 5
    split
    · exact hread
    · split
      · rw [MemoryStream.seek_buffer]
        exact hread
      · exact hread
  · rfl

theorem length_unicode_le : file.unicode.length ≤ 0x110000 := by
  have hsubset : file.unicode.map GlyphInfo.codePoint ⊆ List.range 0x110000 := by
    intro code hcode
    obtain ⟨info, hinfo, rfl⟩ := List.mem_map.mp hcode
    exact List.mem_range.mpr (file.indexed.codes info (List.mem_of_mem_filter hinfo))
  have hnodup : (file.unicode.map GlyphInfo.codePoint).Nodup :=
    List.pairwise_map.mpr (file.unicode_ordered.imp Nat.ne_of_lt)
  have hlength := (List.subperm_of_subset hnodup hsubset).length_le
  rwa [List.length_map, List.length_range] at hlength

end FontFile

end Qmk.Painter
