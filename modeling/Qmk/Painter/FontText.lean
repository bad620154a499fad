import Qmk.Painter.FontAgree

/-!
# Text in a saved font

The generator and the renderer agree on a font whose glyphs are narrow enough, begin early enough
in the data, and are few enough.
-/

namespace Qmk.Painter

open Qmk.Lib

/-! ## Text -/

/-- The bytes of a text, without the `0` behind them. -/
def textBytes (text : List Char) : List (BitVec 8) :=
  text.flatMap fun c => (String.utf8EncodeChar c).map UInt8.toBitVec

theorem decodeUtf8_eq (str : List (BitVec 8)) : decodeUtf8 str =
    (Unicode.decodedAt (fun i => str.getD i 0) 0,
      str.drop (Unicode.announced (str.getD 0 0))) := by
  have hsurrogate : ∀ (code : Nat) (next : List (BitVec 8)),
      (if ∃ c ∈ some code, 0xD800 ≤ c ∧ c ≤ 0xDFFF then (none, next) else (some code, next)) =
        (Unicode.noSurrogate code, next) := by
    intro code next
    rw [Unicode.noSurrogate]
    simp only [Option.mem_some_iff, exists_eq_left']
    split_ifs <;> rfl
  rw [Unicode.decodedAt_eq, Unicode.announced, decodeUtf8]
  dsimp only [Nat.zero_add]
  by_cases hone : (str.getD 0 0).toNat < 0x80
  · rw [if_pos hone, if_pos hone, if_pos hone]
    exact hsurrogate _ _
  rw [if_neg hone, if_neg hone, if_neg hone]
  by_cases htwo : (str.getD 0 0).toNat &&& 0xE0 = 0xC0
  · rw [if_pos htwo, if_pos htwo, if_pos htwo]
    exact hsurrogate _ _
  rw [if_neg htwo, if_neg htwo, if_neg htwo]
  by_cases hthree : (str.getD 0 0).toNat &&& 0xF0 = 0xE0
  · rw [if_pos hthree, if_pos hthree, if_pos hthree]
    exact hsurrogate _ _
  rw [if_neg hthree, if_neg hthree, if_neg hthree]
  by_cases hfour : (str.getD 0 0).toNat &&& 0xF8 = 0xF0 ∧ (str.getD 0 0).toNat ≤ 0xF4
  · rw [if_pos hfour, if_pos hfour, if_pos hfour]
    exact hsurrogate _ _
  · rw [if_neg hfour, if_neg hfour, if_neg hfour]
    rfl

theorem held_char {c : Char} (hc : c.toNat ≠ 0) (rest : List (BitVec 8)) :
    Unicode.Held (fun i => ((String.utf8EncodeChar c).map UInt8.toBitVec ++ rest).getD i 0) 0
      (Unicode.Chunk.scalar c hc).bytes := by
  intro i b hb
  have hget : ((String.utf8EncodeChar c).map UInt8.toBitVec)[i]? = some b := hb
  have hlt := (List.getElem?_eq_some_iff.mp hget).1
  dsimp only
  rw [Nat.zero_add, List.getD_eq_getElem?_getD, List.getElem?_append_left hlt, hget,
    Option.getD_some]

theorem decodeUtf8_char {c : Char} (hc : c.toNat ≠ 0) (rest : List (BitVec 8)) :
    decodeUtf8 ((String.utf8EncodeChar c).map UInt8.toBitVec ++ rest) = (some c.toNat, rest) := by
  obtain ⟨hdecoded, hannounced⟩ := Unicode.decodedAt_chunk (held_char hc rest)
  rw [decodeUtf8_eq, hdecoded, hannounced]
  exact congrArg (Prod.mk _) (List.drop_left' rfl)

theorem char_cons {c : Char} (hc : c.toNat ≠ 0) (rest : List (BitVec 8)) : ∃ byte str,
    (String.utf8EncodeChar c).map UInt8.toBitVec ++ rest = byte :: str ∧ byte ≠ 0 := by
  have hfirst := Unicode.chunk_ne_zero (held_char hc rest)
  cases hbytes : (String.utf8EncodeChar c).map UInt8.toBitVec ++ rest with
  | nil => simp [hbytes] at hfirst
  | cons byte str =>
      rw [hbytes] at hfirst
      exact ⟨byte, str, rfl, hfirst⟩

/-- The widths of a text are summed up if every lookup succeeds, wherever the stream is. -/
theorem iterateCodePoints_text {qff : QffFont} {buffer : List (BitVec 8)} {widthOf : Char → Nat}
    {text : List Char} (hnul : ∀ c ∈ text, c.toNat ≠ 0) (hwidth : ∀ c ∈ text, widthOf c < 2 ^ 8)
    (hlooks : ∀ c ∈ text, ∀ stream : MemoryStream, stream.buffer = buffer → ∃ data,
      { qff with stream := stream }.prepareGlyphForRender c.toNat =
        some (.ofNat 8 (widthOf c), data) ∧ data.buffer = buffer)
    {stream : MemoryStream} (hstream : stream.buffer = buffer) {fuel : Nat}
    (hfuel : (textBytes text).length ≤ fuel) (total : BitVec 16) :
    iterateCodePoints { qff with stream := stream } fuel (textBytes text) total =
      some (total + .ofNat 16 (text.map widthOf).sum) := by
  induction text generalizing stream fuel total with
  | nil =>
      have hend : total + BitVec.ofNat 16 0 = total := BitVec.add_zero total
      rw [textBytes, List.flatMap_nil, List.map_nil, List.sum_nil, hend]
      cases fuel <;> rfl
  | cons c text ih =>
      obtain ⟨byte, str, hbytes, hbyte⟩ := char_cons (hnul c (by simp)) (textBytes text)
      have hcons : textBytes (c :: text) = byte :: str := hbytes
      obtain ⟨data, hlook, hdata⟩ := hlooks c (by simp) stream hstream
      rw [hcons] at hfuel
      cases fuel with
      | zero => simp at hfuel
      | succ fuel =>
          have hlength : (textBytes text).length ≤ fuel := by
            have hsome := congrArg List.length hbytes
            have hpos := List.length_pos_of_ne_nil (@String.utf8EncodeChar_ne_nil c)
            rw [List.length_append, List.length_map] at hsome
            omega
          have hrest := ih (fun d hd => hnul d (List.mem_cons_of_mem _ hd))
            (fun d hd => hwidth d (List.mem_cons_of_mem _ hd))
            (fun d hd => hlooks d (List.mem_cons_of_mem _ hd)) hdata hlength
            (total + (BitVec.ofNat 8 (widthOf c)).setWidth 16)
          rw [hcons, iterateCodePoints, if_neg hbyte, ← hbytes,
            decodeUtf8_char (hnul c (by simp))]
          dsimp only
          rw [hlook]
          dsimp only
          have hsum : (BitVec.ofNat 8 (widthOf c)).setWidth 16 = BitVec.ofNat 16 (widthOf c) :=
            setWidth_ofNat (hwidth c (by simp))
          rw [hrest, hsum, List.map_cons, List.sum_cons, BitVec.ofNat_add, BitVec.add_assoc]

/-! ## Agreement -/

section Agreement

variable (font : Font) (converted : Image) (format : FontFormat) (useRle : Bool)

def Font.widthOf (c : Char) : Nat :=
  ((font.glyphData.find? fun g => g.codePoint = c.toNat).map Glyph.w).getD 0

/-- The text has glyphs for its characters, and can be a string. -/
def Font.Covers (text : List Char) : Prop :=
  ∀ c ∈ text, c.toNat ≠ 0 ∧ ∃ g ∈ font.glyphData, g.codePoint = c.toNat

/-- The handle finds the glyph `g`, whose data and that of the glyphs `after` it end the file, and
renders it. -/
def Finds (bytes : List (BitVec 8)) (qff : QffFont) (g : Glyph) (after : List Glyph) : Prop :=
  ∃ width data, qff.prepareGlyphForRender g.codePoint = some (width, data) ∧
    width.toNat = g.w ∧ data.buffer = bytes ∧
    data.position + ((g :: after).flatMap (savedBytes font converted format useRle)).length =
      bytes.length ∧
    qff.renderGlyph width data = some (format.rendered (font.glyphImage converted g))

/-- The renderer reads the font back from the file, wherever its stream is. -/
structure Agrees (bytes : List (BitVec 8)) : Prop where
  accepted : (qffValidateStream { buffer := bytes }).1 = true
  renders : ∃ qff, qpLoadFont { buffer := bytes } = some qff ∧
    ∀ stream : MemoryStream, stream.buffer = bytes →
      (∀ before g after, font.glyphData = before ++ g :: after →
        Finds font converted format useRle bytes { qff with stream := stream } g after) ∧
      ∀ text, font.Covers text → (text.map font.widthOf).sum < 2 ^ 15 →
        (qpTextwidth { qff with stream := stream } (textBytes text)).toNat =
          (text.map font.widthOf).sum

/-- Every width fits into six bits, every offset into 18 and the number of the Unicode glyphs into
16. -/
structure Fits : Prop where
  width : ∀ g ∈ font.glyphData, g.w < 2 ^ 6
  offset : ∀ before g after, font.glyphData = before ++ g :: after →
    (before.flatMap (savedBytes font converted format useRle)).length < 2 ^ 18
  count : unicodeCount font converted format useRle < 2 ^ 16

variable {font converted format useRle} {file : FontFile} {bytes : List (BitVec 8)}

theorem Saved.unicode_length (h : Saved font converted format useRle file) :
    file.unicode.length = unicodeCount font converted format useRle := by
  rw [FontFile.unicode, unicodeCount, h.infos, h.includeAscii]

theorem Saved.mem_infos (h : Saved font converted format useRle file) {before after : List Glyph}
    {g : Glyph} (hsplit : font.glyphData = before ++ g :: after) :
    ⟨g.codePoint, (before.flatMap (savedBytes font converted format useRle)).length, g.w⟩ ∈
      file.infos := by
  rw [h.infos, hsplit]
  exact placeGlyphs_split before g after

theorem Saved.data_split (h : Saved font converted format useRle file) {before after : List Glyph}
    {g : Glyph} (hsplit : font.glyphData = before ++ g :: after) :
    file.data = before.flatMap (savedBytes font converted format useRle) ++
      (g :: after).flatMap (savedBytes font converted format useRle) := by
  rw [h.data, hsplit, List.flatMap_append]

theorem Saved.prepareGlyph (h : Saved font converted format useRle file)
    (hcount : unicodeCount font converted format useRle < 2 ^ 16) {parsed : Format}
    (hpalette : parsed.hasPalette = false) {stream : MemoryStream}
    (hstream : stream.buffer = file.bytes) {before after : List Glyph} {g : Glyph}
    (hsplit : font.glyphData = before ++ g :: after) :
    (file.reader parsed stream).prepareGlyphForRender g.codePoint =
      some (BitVec.ofNat 8 (g.w % 2 ^ 6),
        { buffer := file.bytes
          position := file.dataStart +
            (before.flatMap (savedBytes font converted format useRle)).length % 2 ^ 18 }) := by
  have hlookup := FontFile.prepareGlyph (by rw [h.unicode_length]; exact hcount) hpalette
    (h.mem_infos hsplit) (by rw [h.data_split hsplit, List.length_append]; exact Nat.le_add_right _ _) hstream
  exact hlookup

theorem Saved.opens (h : Saved font converted format useRle file)
    (haccepted : (qffValidateStream { buffer := file.bytes }).1 = true) : ∃ parsed : Format,
    qpLoadFont { buffer := file.bytes } =
      some (file.reader parsed { buffer := file.bytes, position := 25 }) ∧
        parsed.bpp = format.bpp ∧ parsed.hasPalette = false := by
  obtain ⟨parsed, hparsed, hbpp, hpalette⟩ := qgfParseFormat_imageFormatByte format
  rw [← h.format_eq] at hparsed
  exact ⟨parsed, file.qpLoadFont_bytes haccepted hparsed, hbpp, hpalette⟩

theorem Saved.accepted (h : Saved font converted format useRle file)
    (hcount : unicodeCount font converted format useRle < 2 ^ 16) :
    (qffValidateStream { buffer := file.bytes }).1 = true := by
  rw [← h.unicode_length] at hcount
  refine (file.validateStream _ rfl).mpr (.inr ?_)
  rw [FontFile.countRead, Nat.mod_eq_of_lt hcount, Nat.mod_eq_of_lt (by omega)]

theorem widthOf_eq (hordered : font.Ordered) {g : Glyph} (hg : g ∈ font.glyphData) {c : Char}
    (hcode : g.codePoint = c.toNat) : font.widthOf c = g.w := by
  have hnodup : (font.glyphData.map Glyph.codePoint).Nodup :=
    List.pairwise_map.mpr (hordered.ordered.imp Nat.ne_of_lt)
  rw [Font.widthOf]
  cases hfind : font.glyphData.find? fun g => g.codePoint = c.toNat with
  | none => exact absurd (decide_eq_true hcode) (List.find?_eq_none.mp hfind g hg)
  | some found =>
      have hfound : found.codePoint = c.toNat := by
        have hsome := List.find?_some hfind
        exact of_decide_eq_true hsome
      rw [List.inj_on_of_nodup_map hnodup (List.mem_of_find?_eq_some hfind) hg
        (hfound.trans hcode.symm)]
      rfl

theorem Saved.finds (h : Saved font converted format useRle file)
    (hfits : Fits font converted format useRle) (hheight : font.glyphHeight < 2 ^ 8)
    {parsed : Format} (hbpp : parsed.bpp = format.bpp) (hpalette : parsed.hasPalette = false)
    {stream : MemoryStream} (hstream : stream.buffer = file.bytes) {before after : List Glyph}
    {g : Glyph} (hsplit : font.glyphData = before ++ g :: after) :
    Finds font converted format useRle file.bytes (file.reader parsed stream) g after := by
  have hw := hfits.width g (by rw [hsplit]; simp)
  have hlookup := h.prepareGlyph hfits.count hpalette hstream hsplit
  rw [Nat.mod_eq_of_lt hw, Nat.mod_eq_of_lt (hfits.offset before g after hsplit)] at hlookup
  have hwidth : (BitVec.ofNat 8 g.w).toNat = g.w := by
    rw [BitVec.toNat_ofNat, Nat.mod_eq_of_lt (by omega)]
  have hdata := h.data_split hsplit
  refine ⟨_, _, hlookup, hwidth, rfl, ?_, ?_⟩
  · rw [file.length_bytes, hdata, List.length_append, Nat.add_assoc]
  · have hahead : MemoryStream.Ahead
        { buffer := file.bytes
          position := file.dataStart +
            (before.flatMap (savedBytes font converted format useRle)).length }
        (savedBytes font converted format useRle g ++
          after.flatMap (savedBytes font converted format useRle)) := by
      refine ⟨?_, rfl⟩
      rw [FontFile.drop_data, hdata, List.drop_left' rfl, List.flatMap_cons]
    have himage : (font.glyphImage converted g).width = g.w ∧
        (font.glyphImage converted g).height = font.glyphHeight :=
      ⟨Nat.add_sub_cancel_left _ _, Nat.add_sub_cancel_left _ _⟩
    have hline : (file.reader parsed stream).lineHeight.toNat = font.glyphHeight := by
      change (BitVec.ofNat 8 file.descriptor.lineHeight).toNat = font.glyphHeight
      rw [h.lineHeight, BitVec.toNat_ofNat, Nat.mod_eq_of_lt hheight]
    exact renderGlyph_imageBytes hbpp (congrArg (BitVec.ofNat 8) h.compression_eq)
      (hwidth.trans himage.1.symm) (hline.trans himage.2.symm) hahead

theorem Saved.agrees (h : Saved font converted format useRle file) (hordered : font.Ordered)
    (hheight : font.glyphHeight < 2 ^ 8) (hfits : Fits font converted format useRle) :
    Agrees font converted format useRle file.bytes := by
  have haccepted := h.accepted hfits.count
  obtain ⟨parsed, hload, hbpp, hpalette⟩ := h.opens haccepted
  refine ⟨haccepted, _, hload, fun stream hstream => ⟨fun before g after hsplit => ?_,
    fun text hcovers hsum => ?_⟩⟩
  · exact h.finds hfits hheight hbpp hpalette hstream hsplit
  · have hglyph : ∀ c ∈ text, font.widthOf c < 2 ^ 6 ∧ ∀ stream : MemoryStream,
        stream.buffer = file.bytes → ∃ data,
          (file.reader parsed stream).prepareGlyphForRender c.toNat =
            some (.ofNat 8 (font.widthOf c), data) ∧ data.buffer = file.bytes := by
      intro c hc
      obtain ⟨-, g, hg, hcode⟩ := hcovers c hc
      obtain ⟨before, after, hsplit⟩ := List.append_of_mem hg
      rw [widthOf_eq hordered hg hcode]
      refine ⟨hfits.width g hg, fun stream hstream => ?_⟩
      have hlookup := h.prepareGlyph hfits.count hpalette hstream hsplit
      rw [Nat.mod_eq_of_lt (hfits.width g hg), hcode] at hlookup
      exact ⟨_, hlookup, rfl⟩
    have hiterate := @iterateCodePoints_text (file.reader parsed stream) file.bytes font.widthOf
      text (fun c hc => (hcovers c hc).1)
      (fun c hc => Nat.lt_of_lt_of_le (hglyph c hc).1 (by decide))
      (fun c hc => (hglyph c hc).2) stream hstream (textBytes text).length (Nat.le_refl _) 0
    have hwidth : qpTextwidth (file.reader parsed stream) (textBytes text) =
        .ofNat 16 (text.map font.widthOf).sum := by
      rw [qpTextwidth]
      exact (congrArg (fun total => total.getD 0) hiterate).trans (BitVec.zero_add _)
    exact (congrArg BitVec.toNat hwidth).trans
      ((BitVec.toNat_ofNat _ _).trans (Nat.mod_eq_of_lt (by omega)))

/-- The number of the Unicode glyphs of a font that is read back fits. -/
theorem Saved.count_of_agrees (h : Saved font converted format useRle file)
    (hagrees : Agrees font converted format useRle file.bytes) :
    unicodeCount font converted format useRle < 2 ^ 16 := by
  by_contra hlarge
  rw [← h.unicode_length] at hlarge
  have hle := file.length_unicode_le
  obtain ⟨parsed, hload, -, -⟩ := h.opens hagrees.accepted
  rcases (file.validateStream _ rfl).mp hagrees.accepted with hzero | hsame
  · obtain ⟨info, hinfo⟩ := List.exists_mem_of_length_pos
      (Nat.lt_of_lt_of_le (by decide) (Nat.le_of_not_lt hlarge))
    have hcode : info.codePoint ∈ font.glyphData.map Glyph.codePoint := by
      rw [← placeGlyphs_codes 0, ← h.infos]
      exact List.mem_map_of_mem (List.mem_of_mem_filter hinfo)
    obtain ⟨g, hg, hcode⟩ := List.mem_map.mp hcode
    obtain ⟨before, after, hsplit⟩ := List.append_of_mem hg
    obtain ⟨qff, hqff, hrenders⟩ := hagrees.renders
    obtain rfl := Option.some.inj (hload.symm.trans hqff)
    obtain ⟨width, data, hfound, -⟩ :=
      (hrenders { buffer := file.bytes } rfl).1 before g after hsplit
    have hlost := @FontFile.prepareGlyph_lost file parsed { buffer := file.bytes } info hzero hinfo
    rw [← hcode] at hlost
    cases hfound.symm.trans hlost
  · have hmod : file.countRead < 2 ^ 16 := Nat.mod_lt _ (Nat.two_pow_pos 16)
    rw [Nat.mod_eq_of_lt (Nat.lt_of_le_of_lt (Nat.mul_le_mul_right 6 hle) (by decide))] at hsame
    omega

theorem Saved.fits (h : Saved font converted format useRle file)
    (hagrees : Agrees font converted format useRle file.bytes) :
    Fits font converted format useRle := by
  have hcount := h.count_of_agrees hagrees
  obtain ⟨parsed, hload, -, hpalette⟩ := h.opens hagrees.accepted
  obtain ⟨qff, hqff, hrenders⟩ := hagrees.renders
  obtain rfl := Option.some.inj (hload.symm.trans hqff)
  have hglyph : ∀ before g after, font.glyphData = before ++ g :: after → g.w < 2 ^ 6 ∧
      (before.flatMap (savedBytes font converted format useRle)).length < 2 ^ 18 := by
    intro before g after hsplit
    obtain ⟨width, data, hfound, hwidth, -, hposition, -⟩ :=
      (hrenders { buffer := file.bytes } rfl).1 before g after hsplit
    have hlookup := h.prepareGlyph hcount hpalette
      (show MemoryStream.buffer { buffer := file.bytes } = file.bytes from rfl) hsplit
    obtain ⟨rfl, rfl⟩ := Prod.mk.inj (Option.some.inj (hlookup.symm.trans hfound))
    rw [BitVec.toNat_ofNat] at hwidth
    rw [file.length_bytes, h.data_split hsplit, List.length_append] at hposition
    dsimp only at hposition
    constructor <;> omega
  refine ⟨fun g hg => ?_, fun before g after hsplit => (hglyph before g after hsplit).2, hcount⟩
  obtain ⟨before, after, hsplit⟩ := List.append_of_mem hg
  exact (hglyph before g after hsplit).1

end Agreement

/-- The renderer reads a saved font back just when its glyphs fit. -/
theorem saveToQff_agrees_iff {im converted : Image} {useAscii : Bool} {unicodeGlyphs : List Nat}
    {font : Font} {format : FontFormat} {useRle : Bool} {bytes : List (BitVec 8)}
    (hcodes : ∀ code ∈ unicodeGlyphs, code < 0x110000)
    (hparse : parseImage im useAscii unicodeGlyphs = some font)
    (hheight : 1 ≤ font.glyphHeight ∧ font.glyphHeight ≤ 255)
    (hsave : saveToQff font converted format useRle = some bytes) :
    Agrees font converted format useRle bytes ↔ Fits font converted format useRle := by
  have hordered := parseImage_ordered hparse hcodes
  obtain ⟨file, hsaved, rfl⟩ := saveToQff_some hordered hsave
  exact ⟨hsaved.fits, hsaved.agrees hordered (Nat.lt_succ_of_le hheight.2)⟩

/-- Two glyphs of one line, below their markers. -/
def twoGlyphs : Image where
  width := 3
  height := 2
  pixel x y := if x = 1 then ⟨0, 0, 0⟩ else if y = 0 then ⟨255, 0, 255⟩ else ⟨255, 255, 255⟩

def twoGlyphsFont : Font := ⟨[⟨0x41, 0, 2⟩, ⟨0xE9, 2, 1⟩], 1⟩

def twoGlyphsFile : List (BitVec 8) :=
  (saveToQff twoGlyphsFont twoGlyphs .mono2 true).getD []

theorem saveToQff_agrees_iff_twoGlyphs :
    Agrees twoGlyphsFont twoGlyphs .mono2 true twoGlyphsFile := by
  refine (@saveToQff_agrees_iff twoGlyphs twoGlyphs false [0xE9, 0x41] twoGlyphsFont .mono2 true
    twoGlyphsFile (by decide) rfl (by decide) (by decide)).mpr
      ⟨by decide, fun before g after hsplit => ?_, by decide⟩
  have hall : (twoGlyphsFont.glyphData.flatMap
      (savedBytes twoGlyphsFont twoGlyphs .mono2 true)).length < 2 ^ 18 := by
    decide
  rw [hsplit, List.flatMap_append, List.length_append] at hall
  exact Nat.lt_of_le_of_lt (Nat.le_add_right _ _) hall

/-- One glyph of 64 pixels. -/
def wideGlyph : Image where
  width := 64
  height := 2
  pixel x y := if x = 0 ∧ y = 0 then ⟨255, 0, 255⟩ else ⟨0, 0, 0⟩

def wideGlyphFont : Font := ⟨[⟨0x41, 0, 64⟩], 1⟩

/-- The width of the glyph is read as zero. -/
theorem wideGlyph_disagrees :
    ¬∀ (im converted : Image) (useAscii : Bool) (unicodeGlyphs : List Nat) (font : Font)
      (format : FontFormat) (useRle : Bool) (bytes : List (BitVec 8)),
      (∀ code ∈ unicodeGlyphs, code < 0x110000) →
        parseImage im useAscii unicodeGlyphs = some font →
        1 ≤ font.glyphHeight ∧ font.glyphHeight ≤ 255 →
        saveToQff font converted format useRle = some bytes →
        Agrees font converted format useRle bytes := by
  intro h
  have hparse : parseImage wideGlyph false [0x41] = some wideGlyphFont := rfl
  have hsave : saveToQff wideGlyphFont wideGlyph .mono2 false =
      some ((saveToQff wideGlyphFont wideGlyph .mono2 false).getD []) := by
    decide
  have hagrees := h wideGlyph wideGlyph false [0x41] wideGlyphFont .mono2 false _ (by decide) hparse
    (by decide) hsave
  obtain ⟨file, hsaved, hfile⟩ := saveToQff_some (parseImage_ordered hparse (by decide)) hsave
  rw [hfile] at hagrees
  exact absurd ((hsaved.fits hagrees).width ⟨0x41, 0, 64⟩ List.mem_cons_self) (by decide)

end Qmk.Painter
