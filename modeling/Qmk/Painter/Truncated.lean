import Qmk.Painter.Stream

/-!
# Streams that end early

Every byte that the uncompressed callback returns stands in the stream, and the decoder stops where
the stream ends.  The callback for runs narrows the end of the stream to a byte of ones, so that it
never tells the decoder of the end.
-/

namespace Qmk.Painter

/-! ## What a stream holds -/

/-- Where an unpacker stands in the runs. -/
inductive Phase
  | marker
  | value (count : Nat)
  | literal (count : Nat)

/-- The byte counter of a repeated run wraps round once if it starts at zero. -/
def runLength (remain : BitVec 8) : Nat := if remain = 0 then 256 else remain.toNat

def afterLiteral (count : Nat) : Phase := if count = 1 then .marker else .literal (count - 1)

/-- The values that runs hold, up to where they are cut off. -/
def rleValues : Phase → List (BitVec 8) → List (BitVec 8)
  | _, [] => []
  | .marker, c :: bytes =>
      if 128 ≤ c.toNat then rleValues (.literal (c.toNat - 127)) bytes
      else rleValues (.value (runLength c)) bytes
  | .value count, c :: bytes => List.replicate count c ++ rleValues .marker bytes
  | .literal count, c :: bytes => c :: rleValues (afterLiteral count) bytes

/-- The pixels of one byte. -/
def bytePixels (bitsPerPixel : Nat) : Nat → BitVec 16 → List (BitVec 8)
  | 0, _ => []
  | count + 1, byteval =>
      let pixelBitmask : BitVec 8 := (1#8 <<< bitsPerPixel) - 1
      (byteval &&& pixelBitmask.setWidth 16).setWidth 8 ::
        bytePixels bitsPerPixel count (byteval.sshiftRight bitsPerPixel)

def pixelsOf (bitsPerPixel : Nat) (values : List (BitVec 8)) : List (BitVec 8) :=
  values.flatMap fun value => bytePixels bitsPerPixel (8 / bitsPerPixel) (value.setWidth 16)

/-- The bytes ahead of a stream. -/
def MemoryStream.ahead (stream : MemoryStream) : List (BitVec 8) :=
  stream.buffer.drop stream.position

def Compression.values : Compression → List (BitVec 8) → List (BitVec 8)
  | .uncompressed, bytes => bytes
  | .rle, bytes => rleValues .marker bytes

section Output

variable {τ : Type _}

/-- Pixels are handed out until one is refused. -/
def feed (output : BitVec 8 → τ → Bool × τ) : List (BitVec 8) → τ → Bool × τ
  | [], t => (true, t)
  | pixel :: pixels, t =>
      let sent := output pixel t
      if sent.1 then feed output pixels sent.2 else (false, sent.2)

/-- The output, with a record of the pixels that it was handed. -/
def logged (output : BitVec 8 → τ → Bool × τ) (pixel : BitVec 8)
    (t : τ × List (BitVec 8)) : Bool × τ × List (BitVec 8) :=
  ((output pixel t.1).1, (output pixel t.1).2, t.2 ++ [pixel])

/-- Decoding succeeds only if the stream holds all pixels, and hands out none that it does not
hold. -/
def DetectsEnd (compression : Compression) (bitsPerPixel pixelCount : Nat)
    (output : BitVec 8 → τ → Bool × τ) (s : ByteInputState) (t : τ) : Prop :=
  let contained := pixelsOf bitsPerPixel (compression.values s.srcStream.ahead)
  ∃ success s' t' log,
    decodePalette pixelCount bitsPerPixel compression.decoder (logged output) s (t, []) =
        some (success, s', t', log) ∧
      (success = true → pixelCount ≤ contained.length) ∧ log <+: contained

/-! ## Handing out pixels -/

theorem pushPixels_eq_feed (bitsPerPixel : Nat) (output : BitVec 8 → τ → Bool × τ)
    (count : Nat) (byteval : BitVec 16) (t : τ) :
    pushPixels bitsPerPixel output count byteval t =
      feed output (bytePixels bitsPerPixel count byteval) t := by
  induction count generalizing byteval t with
  | zero => rfl
  | succ count ih =>
      rw [pushPixels, bytePixels, feed]
      simp only [ih]

theorem feed_append (output : BitVec 8 → τ → Bool × τ) (pixels others : List (BitVec 8))
    (t : τ) :
    feed output (pixels ++ others) t =
      if (feed output pixels t).1 then feed output others (feed output pixels t).2
      else (false, (feed output pixels t).2) := by
  induction pixels generalizing t with
  | nil => rfl
  | cons pixel pixels ih =>
      rw [List.cons_append, feed, feed]
      by_cases hsent : (output pixel t).1 = true
      · rw [if_pos hsent, if_pos hsent, ih]
      · rw [if_neg hsent, if_neg hsent]
        rfl

theorem feed_logged (output : BitVec 8 → τ → Bool × τ) (pixels : List (BitVec 8)) (t : τ)
    (log : List (BitVec 8)) :
    ∃ handed, handed <+: pixels ∧
      feed (logged output) pixels (t, log) =
        ((feed output pixels t).1, (feed output pixels t).2, log ++ handed) ∧
      ((feed output pixels t).1 = true → handed = pixels) ∧ (pixels ≠ [] → handed ≠ []) := by
  induction pixels generalizing t log with
  | nil => exact ⟨[], List.prefix_rfl, by simp [feed], fun _ => rfl, fun h => h⟩
  | cons pixel pixels ih =>
      by_cases hsent : (output pixel t).1 = true
      · obtain ⟨handed, hprefix, hfeed, hall, -⟩ := ih (output pixel t).2 (log ++ [pixel])
        refine ⟨pixel :: handed, List.cons_prefix_cons.mpr ⟨rfl, hprefix⟩, ?_, ?_, ?_⟩
        · have hlogged : feed (logged output) (pixel :: pixels) (t, log) =
              feed (logged output) pixels ((output pixel t).2, log ++ [pixel]) := by
            rw [feed, logged]
            exact if_pos hsent
          have hplain : feed output (pixel :: pixels) t = feed output pixels (output pixel t).2 :=
            if_pos hsent
          rw [hlogged, hplain, hfeed, List.append_assoc]
          rfl
        · have hplain : feed output (pixel :: pixels) t = feed output pixels (output pixel t).2 :=
            if_pos hsent
          intro h
          rw [hplain] at h
          rw [hall h]
        · exact fun _ => List.cons_ne_nil _ _
      · have hlogged : feed (logged output) (pixel :: pixels) (t, log) =
            (false, (output pixel t).2, log ++ [pixel]) := if_neg hsent
        have hplain : feed output (pixel :: pixels) t = (false, (output pixel t).2) :=
          if_neg hsent
        refine ⟨[pixel], ⟨pixels, rfl⟩, by rw [hlogged, hplain], ?_, fun _ => List.cons_ne_nil _ _⟩
        intro h
        rw [hplain] at h
        cases h

end Output

/-! ## What the callbacks return -/

theorem get_nil {stream : MemoryStream} (h : stream.ahead = []) :
    stream.get.1 = streamEof ∧ stream.get.2.ahead = [] := by
  have hend : stream.buffer.length ≤ stream.position := List.drop_eq_nil_iff.mp h
  rw [stream.get_outside hend]
  exact ⟨rfl, h⟩

theorem get_cons {stream : MemoryStream} {byte : BitVec 8} {bytes : List (BitVec 8)}
    (h : stream.ahead = byte :: bytes) :
    stream.get.1 = byte.setWidth 16 ∧ stream.get.2.ahead = bytes := by
  have hget : stream.buffer[stream.position]? = some byte := by
    rw [← List.head?_drop]
    exact congrArg List.head? h
  have htail : stream.buffer.drop (stream.position + 1) = bytes := by
    rw [← List.tail_drop]
    exact congrArg List.tail h
  rw [stream.get_inside hget]
  exact ⟨rfl, htail⟩

/-- The values that the callback for runs is still to return out of the stream. -/
inductive ByteInputState.Holds (s : ByteInputState) : List (BitVec 8) → Prop
  | marker (mode : s.mode = .markerByte) : Holds s (rleValues .marker s.srcStream.ahead)
  | repeating {value : BitVec 8} (mode : s.mode = .repeatingRun)
      (curr : s.curr = value.setWidth 16) :
      Holds s (List.replicate (runLength s.remain) value ++
        rleValues .marker s.srcStream.ahead)
  | literal {value : BitVec 8} (mode : s.mode = .nonRepeatingRun) (remain : s.remain ≠ 0)
      (curr : s.curr = value.setWidth 16) :
      Holds s (value :: rleValues (afterLiteral s.remain.toNat) s.srcStream.ahead)
  /-- The run was cut off. -/
  | spent (mode : s.mode ≠ .markerByte) (curr : s.curr = streamEof)
      (ahead : s.srcStream.ahead = []) : Holds s []

namespace ByteInputState

variable {s : ByteInputState} {values : List (BitVec 8)}

theorem setWidth_setWidth (byte : BitVec 8) : (byte.setWidth 16).setWidth 8 = byte := by
  rw [BitVec.setWidth_setWidth_of_le _ (by decide), BitVec.setWidth_eq]

theorem runLength_succ {remain : BitVec 8} (h : remain ≠ 1) :
    runLength remain = runLength (remain - 1) + 1 := by
  revert remain
  decide

theorem Holds.of_marker (h : s.Holds values) (hmode : s.mode = .markerByte) :
    values = rleValues .marker s.srcStream.ahead := by
  cases h with
  | marker mode => rfl
  | repeating mode => simp [hmode] at mode
  | literal mode => simp [hmode] at mode
  | spent mode => exact absurd hmode mode

@[simp] theorem rleValues_nil (phase : Phase) : rleValues phase [] = [] := by
  cases phase <;> rfl

theorem Holds.start (h : s.Holds values) :
    s.marker.Holds values ∧ s.marker.mode ≠ .markerByte := by
  by_cases hmode : s.mode = .markerByte
  · rw [h.of_marker hmode, ByteInputState.marker, if_pos hmode]
    cases hahead : s.srcStream.ahead with
    | nil =>
        obtain ⟨hc, hrest⟩ := get_nil hahead
        obtain ⟨hcurr, hend⟩ := get_nil hrest
        have hliteral : 128 ≤ (streamEof.setWidth 8).toNat := by decide
        simp only [hc, if_pos hliteral]
        exact ⟨.spent (by simp [pull]) hcurr hend, by simp [pull]⟩
    | cons c bytes =>
        obtain ⟨hc, hrest⟩ := get_cons hahead
        simp only [hc, setWidth_setWidth]
        rw [rleValues]
        by_cases hliteral : 128 ≤ c.toNat
        · rw [if_pos hliteral, if_pos hliteral]
          refine ⟨?_, by simp [pull]⟩
          have hremain : (c - 127).toNat = c.toNat - 127 := by
            have hlt := c.isLt
            rw [BitVec.toNat_sub]
            simp
            omega
          cases bytes with
          | nil =>
              obtain ⟨hcurr, hend⟩ := get_nil hrest
              rw [rleValues_nil]
              exact .spent (by simp [pull]) hcurr hend
          | cons value bytes =>
              obtain ⟨hcurr, hbytes⟩ := get_cons hrest
              rw [rleValues, ← hremain, ← hbytes]
              refine .literal rfl (fun hzero => ?_) hcurr
              have hnat := congrArg BitVec.toNat hzero
              change (c - 127).toNat = 0 at hnat
              omega
        · rw [if_neg hliteral, if_neg hliteral]
          refine ⟨?_, by simp [pull]⟩
          cases bytes with
          | nil =>
              obtain ⟨hcurr, hend⟩ := get_nil hrest
              rw [rleValues_nil]
              exact .spent (by simp [pull]) hcurr hend
          | cons value bytes =>
              obtain ⟨hcurr, hbytes⟩ := get_cons hrest
              rw [rleValues, ← hbytes]
              exact .repeating rfl hcurr
  · rw [ByteInputState.marker, if_neg hmode]
    exact ⟨h, hmode⟩

theorem advance_last (hlast : ¬ 0 < (s.remain - 1).toNat) :
    s.advance = { s with remain := s.remain - 1, mode := .markerByte } := if_neg hlast

theorem advance_literal (hmore : 0 < (s.remain - 1).toNat) (hmode : s.mode = .nonRepeatingRun) :
    s.advance = { s with remain := s.remain - 1 }.pull := by
  rw [ByteInputState.advance]
  dsimp only
  rw [if_pos hmore, if_pos hmode]

theorem advance_repeating (hmore : 0 < (s.remain - 1).toNat) (hmode : s.mode = .repeatingRun) :
    s.advance = { s with remain := s.remain - 1 } := by
  rw [ByteInputState.advance]
  dsimp only
  rw [if_pos hmore, if_neg (by simp [hmode])]

theorem remain_one {remain : BitVec 8} (hlast : ¬ 0 < (remain - 1).toNat) : remain = 1 := by
  revert remain
  decide

/-- The byte that is returned comes out of the stream, or is made of ones. -/
theorem Holds.advance (h : s.Holds values) (hmode : s.mode ≠ .markerByte) :
    s.curr.setWidth 8 = values.headD 0xff#8 ∧ s.advance.Holds values.tail := by
  cases h with
  | marker mode => exact absurd mode hmode
  | @repeating value mode curr =>
      by_cases hmore : 0 < (s.remain - 1).toNat
      · have hne : s.remain ≠ 1 := by
          intro hone
          rw [hone] at hmore
          exact absurd hmore (by decide)
        rw [runLength_succ hne, List.replicate_succ, curr, advance_repeating hmore mode]
        exact ⟨setWidth_setWidth value, .repeating mode curr⟩
      · have hone : runLength s.remain = 1 := by rw [remain_one hmore]; rfl
        rw [hone, curr, advance_last hmore]
        exact ⟨setWidth_setWidth value, .marker rfl⟩
  | @literal value mode remain curr =>
      rw [curr]
      refine ⟨setWidth_setWidth value, ?_⟩
      by_cases hmore : 0 < (s.remain - 1).toNat
      · have hcount : (s.remain - 1).toNat = s.remain.toNat - 1 :=
          BitVec.toNat_sub_of_le (BitVec.le_def.mpr (by
            have hpos : s.remain.toNat ≠ 0 := fun hzero => remain (BitVec.eq_of_toNat_eq hzero)
            simp
            omega))
        have hafter : afterLiteral s.remain.toNat = .literal (s.remain - 1).toNat := by
          rw [afterLiteral, if_neg (by omega), hcount]
        rw [advance_literal hmore mode, List.tail_cons, hafter]
        cases hahead : s.srcStream.ahead with
        | nil =>
            obtain ⟨hcurr, hend⟩ := get_nil hahead
            rw [rleValues_nil]
            exact .spent (by simp [pull, mode]) hcurr hend
        | cons next bytes =>
            obtain ⟨hcurr, hbytes⟩ := get_cons hahead
            rw [rleValues, ← hbytes]
            refine .literal mode (fun hzero => ?_) hcurr
            rw [show s.remain - 1 = 0 from hzero] at hmore
            exact absurd hmore (by decide)
      · rw [advance_last hmore, remain_one hmore]
        exact .marker rfl
  | spent mode curr ahead =>
      rw [curr]
      refine ⟨by decide, ?_⟩
      by_cases hmore : 0 < (s.remain - 1).toNat
      · cases hrun : s.mode with
        | markerByte => exact absurd hrun mode
        | repeatingRun =>
            rw [advance_repeating hmore hrun]
            exact .spent mode curr ahead
        | nonRepeatingRun =>
            obtain ⟨hcurr, hend⟩ := get_nil ahead
            rw [advance_literal hmore hrun]
            exact .spent mode hcurr hend
      · rw [advance_last hmore]
        have hnone : rleValues .marker s.srcStream.ahead = [] := by rw [ahead, rleValues_nil]
        rw [List.tail_nil, ← hnone]
        exact .marker rfl

end ByteInputState

theorem ByteInputState.Holds.supplies {s : ByteInputState} {values : List (BitVec 8)}
    (h : s.Holds values) (extra : Nat) :
    Supplies byteRleDecoder (fun _ => True)
      ((values ++ List.replicate extra 0xff#8).map BitVec.toNat) s := by
  have hread : ∀ {s : ByteInputState} {values : List (BitVec 8)}, s.Holds values →
      (byteRleDecoder s).1 = BitVec.ofNat 16 (values.headD 0xff#8).toNat ∧
        (byteRleDecoder s).2.Holds values.tail := by
    intro s values h
    obtain ⟨hstart, hmode⟩ := h.start
    obtain ⟨hcurr, hadvance⟩ := hstart.advance hmode
    refine ⟨?_, hadvance⟩
    rw [byteRleDecoder, hcurr, BitVec.ofNat_toNat]
  induction values generalizing s with
  | nil =>
      induction extra generalizing s with
      | zero => trivial
      | succ extra ih => exact ⟨(hread h).1, ih (hread h).2⟩
  | cons value values ih => exact ⟨(hread h).1, ih (hread h).2⟩

theorem supplies_ahead {bytes : List (BitVec 8)} {s : ByteInputState}
    (h : s.srcStream.ahead = bytes) :
    Supplies byteUncompressedDecoder (fun s => s.srcStream.ahead = []) (bytes.map BitVec.toNat)
      s := by
  induction bytes generalizing s with
  | nil => exact h
  | cons byte bytes ih =>
      obtain ⟨hcurr, hrest⟩ := get_cons h
      refine ⟨?_, ih hrest⟩
      rw [BitVec.ofNat_toNat]
      exact hcurr

/-! ## The loop -/

section Loop

variable {b : Nat}

theorem bytePixels_length (count : Nat) (byteval : BitVec 16) :
    (bytePixels b count byteval).length = count := by
  induction count generalizing byteval with
  | zero => rfl
  | succ count ih => rw [bytePixels, List.length_cons, ih]

theorem bytePixels_take (count size : Nat) (byteval : BitVec 16) :
    (bytePixels b size byteval).take count = bytePixels b (min count size) byteval := by
  induction size generalizing count byteval with
  | zero => rw [Nat.min_zero, bytePixels, List.take_nil]
  | succ size ih =>
      cases count with
      | zero => rw [Nat.zero_min, bytePixels, List.take_zero]
      | succ count => rw [bytePixels, List.take_succ_cons, ih, Nat.succ_min_succ, bytePixels]

theorem pixelsOf_cons (value : BitVec 8) (values : List (BitVec 8)) :
    pixelsOf b (value :: values) =
      bytePixels b (8 / b) (value.setWidth 16) ++ pixelsOf b values := rfl

theorem pixelsOf_append (values others : List (BitVec 8)) :
    pixelsOf b (values ++ others) = pixelsOf b values ++ pixelsOf b others :=
  List.flatMap_append

theorem pixelsOf_length (values : List (BitVec 8)) :
    (pixelsOf b values).length = values.length * (8 / b) := by
  induction values with
  | nil => rw [pixelsOf, List.flatMap_nil, List.length_nil, Nat.zero_mul]
  | cons value values ih =>
      rw [pixelsOf_cons, List.length_append, bytePixels_length, ih, List.length_cons,
        Nat.succ_mul, Nat.add_comm]

/-- The first pixels are those of the first byte, and then those of the others. -/
theorem pixelsOf_take (value : BitVec 8) (values : List (BitVec 8)) (count : Nat) :
    (pixelsOf b (value :: values)).take count =
      bytePixels b (min count (8 / b)) (value.setWidth 16) ++
        (pixelsOf b values).take (count - min count (8 / b)) := by
  rw [pixelsOf_cons, List.take_append, bytePixels_take, bytePixels_length]
  congr 2
  omega

variable {σ τ : Type _} {input : σ → BitVec 16 × σ} {Sound : σ → Prop}

theorem decodeLoop_read {output : BitVec 8 → τ → Bool × τ} {s : σ} {value : BitVec 8}
    (hread : (input s).1 = BitVec.ofNat 16 value.toNat) (fuel remaining : Nat) (t : τ) :
    decodeLoop b input output (fuel + 1) (remaining + 1) s t =
      let count := min (remaining + 1) (8 / b)
      let sent := feed output (bytePixels b count (value.setWidth 16)) t
      if sent.1 then
        decodeLoop b input output fuel (remaining + 1 - count) (input s).2 sent.2
      else some (false, (input s).2, sent.2) := by
  rw [BitVec.ofNat_toNat] at hread
  rw [decodeLoop]
  dsimp only
  rw [hread, MemoryStream.setWidth_msb, if_neg Bool.false_ne_true, pushPixels_eq_feed]

/-- The pixels of the supplied bytes are handed out, as many as are asked for. -/
theorem decodeLoop_supplies (hpos : 0 < b) (hfits : b ≤ 8) (output : BitVec 8 → τ → Bool × τ)
    {values : List (BitVec 8)} {s : σ} (h : Supplies input Sound (values.map BitVec.toNat) s)
    {fuel remaining : Nat} (hfuel : remaining ≤ fuel) (t : τ) :
    let sent := feed output ((pixelsOf b values).take remaining) t
    ∃ s' left, decodeLoop b input output fuel remaining s t =
        (if sent.1 then
          decodeLoop b input output left (remaining - (pixelsOf b values).length) s' sent.2
        else some (false, s', sent.2)) ∧
      ((pixelsOf b values).length < remaining → sent.1 = true → Sound s') ∧
      remaining - (pixelsOf b values).length ≤ left := by
  have hppb : 0 < 8 / b := Nat.div_pos hfits hpos
  induction values generalizing s fuel remaining t with
  | nil => exact ⟨s, fuel, by simp [pixelsOf, feed], fun _ _ => h, hfuel⟩
  | cons value values ih =>
      cases remaining with
      | zero => exact ⟨s, fuel, by simp [feed], fun hlt => absurd hlt (Nat.not_lt_zero _), by simp⟩
      | succ remaining =>
          obtain ⟨fuel, rfl⟩ : ∃ less, fuel = less + 1 :=
            Nat.exists_eq_succ_of_ne_zero (by omega)
          obtain ⟨hread, hrest⟩ := h
          have hlength : (pixelsOf b (value :: values)).length =
              8 / b + (pixelsOf b values).length := by
            rw [pixelsOf_cons, List.length_append, bytePixels_length]
          rw [decodeLoop_read hread, pixelsOf_take, feed_append, hlength]
          dsimp only
          by_cases hsent : (feed output (bytePixels b (min (remaining + 1) (8 / b))
              (value.setWidth 16)) t).1 = true
          · rw [if_pos hsent, if_pos hsent]
            obtain ⟨s', left, hloop, hsound, hleft⟩ := ih hrest
              (show remaining + 1 - min (remaining + 1) (8 / b) ≤ fuel by omega)
              (feed output (bytePixels b (min (remaining + 1) (8 / b)) (value.setWidth 16)) t).2
            have hcount : remaining + 1 - min (remaining + 1) (8 / b) -
                (pixelsOf b values).length =
                  remaining + 1 - (8 / b + (pixelsOf b values).length) := by omega
            rw [hcount] at hloop hleft
            exact ⟨s', left, hloop, fun hlt => hsound (by omega), hleft⟩
          · rw [if_neg hsent, if_neg hsent]
            exact ⟨(input s).2, fuel + 1, (if_neg Bool.false_ne_true).symm,
              fun _ h => absurd h Bool.false_ne_true, by omega⟩

/-- Enough bytes are supplied: the pixels are handed out, and no others. -/
theorem decodePalette_enough (hpos : 0 < b) (hfits : b ≤ 8) (output : BitVec 8 → τ → Bool × τ)
    {values : List (BitVec 8)} {s : σ} (h : Supplies input Sound (values.map BitVec.toNat) s)
    {pixelCount : Nat} (henough : pixelCount ≤ (pixelsOf b values).length) (t : τ) :
    let sent := feed output ((pixelsOf b values).take pixelCount) t
    ∃ s', decodePalette pixelCount b input output s t = some (sent.1, s', sent.2) := by
  obtain ⟨s', left, hloop, -, -⟩ :=
    decodeLoop_supplies hpos hfits output h (Nat.le_refl pixelCount) t
  refine ⟨s', ?_⟩
  rw [decodePalette, hloop, Nat.sub_eq_zero_of_le henough, decodeLoop]
  cases (feed output ((pixelsOf b values).take pixelCount) t).1 with
  | true => rfl
  | false => rfl

end Loop

/-! ## The end of the stream -/

section Truncated

variable {b : Nat} {τ : Type _}

theorem uncompressed_detectsEnd (hpos : 0 < b) (hfits : b ≤ 8) (pixelCount : Nat)
    (output : BitVec 8 → τ → Bool × τ) (s : ByteInputState) (t : τ) :
    DetectsEnd .uncompressed b pixelCount output s t := by
  have hsupplies := supplies_ahead (s := s) rfl
  obtain ⟨handed, hhanded, hfeed, -, -⟩ :=
    feed_logged output ((pixelsOf b s.srcStream.ahead).take pixelCount) t []
  have hlog : [] ++ handed <+: pixelsOf b s.srcStream.ahead :=
    hhanded.trans (List.take_prefix _ _)
  obtain ⟨s', left, hloop, hend, hleft⟩ := decodeLoop_supplies hpos hfits (logged output)
    hsupplies (Nat.le_refl pixelCount) (t, [])
  rw [hfeed] at hloop hend
  cases haccepted : (feed output ((pixelsOf b s.srcStream.ahead).take pixelCount) t).1 with
  | false =>
      rw [haccepted, if_neg Bool.false_ne_true] at hloop
      exact ⟨false, s', _, _, hloop, fun h => absurd h Bool.false_ne_true, hlog⟩
  | true =>
      rw [haccepted, if_pos rfl] at hloop
      by_cases henough : pixelCount ≤ (pixelsOf b s.srcStream.ahead).length
      · rw [Nat.sub_eq_zero_of_le henough, decodeLoop] at hloop
        exact ⟨true, s', _, _, hloop, fun _ => henough, hlog⟩
      · -- The stream is at its end, and the decoder asks for one byte more.
        obtain ⟨remaining, hremaining⟩ : ∃ less,
            pixelCount - (pixelsOf b s.srcStream.ahead).length = less + 1 :=
          Nat.exists_eq_succ_of_ne_zero (by omega)
        obtain ⟨left, rfl⟩ : ∃ less, left = less + 1 :=
          Nat.exists_eq_succ_of_ne_zero (by omega)
        have heof : (byteUncompressedDecoder s').1 = streamEof :=
          (get_nil (hend (Nat.lt_of_not_le henough) haccepted)).1
        have hnegative : streamEof.msb = true := by decide
        rw [hremaining, decodeLoop] at hloop
        dsimp only at hloop
        rw [heof, if_pos hnegative] at hloop
        exact ⟨false, _, _, _, hloop, fun h => absurd h Bool.false_ne_true, hlog⟩

theorem length_le_pixelsOf (hpos : 0 < b) (hfits : b ≤ 8) (values : List (BitVec 8)) :
    values.length ≤ (pixelsOf b values).length := by
  rw [pixelsOf_length]
  exact Nat.le_mul_of_pos_right _ (Nat.div_pos hfits hpos)

theorem rle_detectsEnd_iff (hpos : 0 < b) (hfits : b ≤ 8) (pixelCount : Nat)
    (output : BitVec 8 → τ → Bool × τ) {s : ByteInputState} (hmode : s.mode = .markerByte)
    (t : τ) :
    let contained := pixelsOf b (rleValues .marker s.srcStream.ahead)
    DetectsEnd .rle b pixelCount output s t ↔
      pixelCount ≤ contained.length ∨ (feed output contained t).1 = false := by
  intro contained
  have hsupplies := (ByteInputState.Holds.marker hmode).supplies pixelCount
  have hall := pixelsOf_append (b := b) (rleValues .marker s.srcStream.ahead)
    (List.replicate pixelCount 0xff#8)
  have hmade := length_le_pixelsOf hpos hfits (List.replicate pixelCount 0xff#8)
  rw [List.length_replicate] at hmade
  generalize pixelsOf b (List.replicate pixelCount 0xff#8) = made at hall hmade
  have henough : pixelCount ≤ (pixelsOf b (rleValues .marker s.srcStream.ahead ++
      List.replicate pixelCount 0xff#8)).length := by
    rw [hall, List.length_append]
    omega
  obtain ⟨s', hdecode⟩ := decodePalette_enough hpos hfits (logged output) hsupplies henough
    (t, [])
  rw [hall] at hdecode
  by_cases hinside : pixelCount ≤ contained.length
  · -- All pixels stand in the stream.
    refine ⟨fun _ => .inl hinside, fun _ => ?_⟩
    have htake : (contained ++ made).take pixelCount = contained.take pixelCount :=
      List.take_append_of_le_length hinside
    obtain ⟨handed, hhanded, hfeed, -, -⟩ :=
      feed_logged output (contained.take pixelCount) t []
    rw [htake, hfeed] at hdecode
    exact ⟨_, s', _, _, hdecode, fun _ => hinside, hhanded.trans (List.take_prefix _ _)⟩
  · have hlong : contained.length ≤ pixelCount := Nat.le_of_not_le hinside
    obtain ⟨handed, hhanded, hfeed, hfull, -⟩ := feed_logged output contained t []
    rw [List.take_append, List.take_of_length_le hlong, feed_append, hfeed] at hdecode
    cases haccepted : (feed output contained t).1 with
    | false =>
        -- The output refuses a pixel before the end is reached.
        rw [haccepted, if_neg Bool.false_ne_true] at hdecode
        exact ⟨fun _ => .inr rfl, fun _ =>
          ⟨false, s', _, _, hdecode, fun h => absurd h Bool.false_ne_true, hhanded⟩⟩
    | true =>
        -- A pixel that is made up is handed out next.
        have hmore : made.take (pixelCount - contained.length) ≠ [] := by
          intro hnil
          have hlength := congrArg List.length hnil
          rw [List.length_take, List.length_nil] at hlength
          omega
        obtain ⟨handed', -, hfeed', -, hsome⟩ :=
          feed_logged output (made.take (pixelCount - contained.length))
            (feed output contained t).2 ([] ++ handed)
        rw [haccepted, if_pos rfl, hfeed', hfull haccepted] at hdecode
        refine ⟨?_, fun h => ?_⟩
        · rintro ⟨success, s'', t', log, hdecode', -, hprefix⟩
          change decodePalette pixelCount b byteRleDecoder _ s _ = _ at hdecode'
          rw [hdecode] at hdecode'
          obtain rfl : [] ++ contained ++ handed' = log := by
            simpa using congrArg (fun r => r.map fun r => r.2.2.2) hdecode'
          have hlength : ([] ++ contained ++ handed').length ≤ contained.length :=
            hprefix.length_le
          rw [List.length_append, List.nil_append] at hlength
          exact absurd (List.length_eq_zero_iff.mp (by omega)) (hsome hmore)
        · rcases h with h | h
          · exact absurd h hinside
          · cases h

/-- Reading without runs always detects the end of a stream; reading runs does so just when the
stream is long enough, or the output refuses one of the pixels that it holds. -/
theorem decodePalette_detectsEnd (hpos : 0 < b) (hfits : b ≤ 8) (pixelCount : Nat)
    (output : BitVec 8 → τ → Bool × τ) {s : ByteInputState} (hmode : s.mode = .markerByte)
    (t : τ) :
    let contained := pixelsOf b (rleValues .marker s.srcStream.ahead)
    DetectsEnd .uncompressed b pixelCount output s t ∧
      (DetectsEnd .rle b pixelCount output s t ↔
        pixelCount ≤ contained.length ∨ (feed output contained t).1 = false) :=
  ⟨uncompressed_detectsEnd hpos hfits pixelCount output s t,
    rle_detectsEnd_iff hpos hfits pixelCount output hmode t⟩

/-- A run of two pixels, of which three are asked for. -/
theorem shortRun_detectsEnd :
    DetectsEnd .uncompressed 8 3 record (prepareInputState [2, 7]) [] ∧
      (DetectsEnd .rle 8 3 record (prepareInputState [2, 7]) [] ↔
        3 ≤ (pixelsOf 8 (rleValues .marker [2, 7])).length ∨
          (feed record (pixelsOf 8 (rleValues .marker [2, 7])) []).1 = false) :=
  decodePalette_detectsEnd (s := prepareInputState [2, 7]) (by decide) (by decide) 3 record rfl []

/-- The third pixel of that run is made up. -/
theorem shortRun_madeUp :
    (decodePalette 3 8 byteRleDecoder record (prepareInputState [2, 7]) []).map
        (fun r => (r.1, r.2.2)) = some (true, [7, 7, 0xff]) ∧
      ¬ DetectsEnd .rle 8 3 record (prepareInputState [2, 7]) [] := by
  refine ⟨by decide, fun h => ?_⟩
  rcases (rle_detectsEnd_iff (s := prepareInputState [2, 7]) (by decide) (by decide) 3 record rfl
    []).mp h with h | h
  · exact absurd h (by decide)
  · exact absurd h (by decide)

end Truncated

end Qmk.Painter
