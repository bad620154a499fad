import Qmk.Painter.Decoder

/-!
# The decoder gives the pixels back
-/

namespace Qmk.Painter

variable {b : Nat}

theorem pixelBitmask_toNat (hfits : b ≤ 8) : ((1#8 <<< b) - 1).toNat = 2 ^ b - 1 := by
  revert b
  decide

/-- Pushing pixels is reading the bits of the byte from `q * b` on. -/
theorem pushPixels_record (hfits : b ≤ 8) {byte : Nat} (hbyte : byte < 2 ^ 8)
    (count q : Nat) (out : List (BitVec 8)) :
    pushPixels b record count (BitVec.ofNat 16 (byte / 2 ^ (q * b))) out =
      (true, out ++ (List.range' q count).map
        (fun j => BitVec.ofNat 8 (byte / 2 ^ (j * b) % 2 ^ b))) := by
  induction count generalizing q out with
  | zero => simp [pushPixels]
  | succ count ih =>
      have hsmall : byte / 2 ^ (q * b) < 2 ^ 8 :=
        Nat.lt_of_le_of_lt (Nat.div_le_self _ _) hbyte
      have hvalue : (BitVec.ofNat 16 (byte / 2 ^ (q * b))).toNat = byte / 2 ^ (q * b) := by
        rw [BitVec.toNat_ofNat,
          Nat.mod_eq_of_lt (Nat.lt_of_lt_of_le hsmall (by decide))]
      have hindex : (BitVec.ofNat 16 (byte / 2 ^ (q * b)) &&&
          ((1#8 <<< b) - 1).setWidth 16).setWidth 8 =
            BitVec.ofNat 8 (byte / 2 ^ (q * b) % 2 ^ b) := by
        have hmask : (((1#8 <<< b) - 1).setWidth 16).toNat = 2 ^ b - 1 := by
          rw [BitVec.toNat_setWidth_of_le (by decide), pixelBitmask_toNat hfits]
        apply BitVec.eq_of_toNat_eq
        rw [BitVec.toNat_setWidth, BitVec.toNat_and, hvalue, hmask,
          Nat.and_two_pow_sub_one_eq_mod, BitVec.toNat_ofNat]
      have hshift : (BitVec.ofNat 16 (byte / 2 ^ (q * b))).sshiftRight b =
          BitVec.ofNat 16 (byte / 2 ^ ((q + 1) * b)) := by
        have hmsb : (BitVec.ofNat 16 (byte / 2 ^ (q * b))).msb = false := by
          rw [BitVec.msb_eq_false_iff_two_mul_lt, hvalue]
          omega
        have hdiv : byte / 2 ^ (q * b) / 2 ^ b = byte / 2 ^ ((q + 1) * b) := by
          rw [Nat.div_div_eq_div_mul, ← Nat.pow_add, Nat.succ_mul]
        have hnext : byte / 2 ^ ((q + 1) * b) < 2 ^ 16 :=
          Nat.lt_of_le_of_lt (Nat.div_le_self _ _) (Nat.lt_trans hbyte (by decide))
        rw [BitVec.sshiftRight_eq_of_msb_false hmsb]
        apply BitVec.eq_of_toNat_eq
        rw [BitVec.toNat_ushiftRight, hvalue, Nat.shiftRight_eq_div_pow, hdiv,
          BitVec.toNat_ofNat, Nat.mod_eq_of_lt hnext]
      simp only [pushPixels, record, if_true, hindex, hshift]
      rw [ih (q + 1), List.range'_succ]
      simp

/-- The pixels of byte `x` are the next ones of the image. -/
theorem packByte_pixels (hpos : 0 < b) {values : List Nat}
    (hvalues : ∀ v ∈ values, v < 2 ^ b) {x count : Nat} (hcount : count ≤ 8 / b)
    (hle : x * (8 / b) + count ≤ values.length) :
    (List.range' 0 count).map
        (fun j => packByte (2 ^ b) values x / 2 ^ (j * b) % 2 ^ b) =
      (values.drop (x * (8 / b))).take count := by
  apply List.ext_getElem
  · simp
    omega
  · intro j hj hj'
    have hlt : j < count := by simpa using hj
    have hin : x * (8 / b) + j < values.length := by omega
    rw [List.getElem_map, List.getElem_range', List.getElem_take, List.getElem_drop,
      Nat.zero_add, Nat.one_mul, packByte_pixel hpos hvalues (by omega)]
    rw [List.getD_eq_getElem?_getD, List.getElem?_eq_getElem hin, Option.getD_some]
    exact Nat.mod_eq_of_lt (hvalues _ (List.getElem_mem hin))

theorem lt_expectedByteCount (hpos : 0 < b) (hfits : b ≤ 8) (count x : Nat) :
    x < expectedByteCount (2 ^ b) count ↔ x * (8 / b) < count := by
  have hppb : 0 < 8 / b := Nat.div_pos hfits hpos
  rw [expectedByteCount, pixelsPerByte_two_pow, Nat.lt_iff_add_one_le,
    Nat.le_div_iff_mul_le hppb, Nat.succ_mul]
  omega

section Loop

variable {σ : Type _} {input : σ → BitVec 16 × σ} {Sound : σ → Prop}

/-- The loop over the bytes from `x` on. -/
theorem decodeLoop_record (hpos : 0 < b) (hfits : b ≤ 8) {values : List Nat}
    (hvalues : ∀ v ∈ values, v < 2 ^ b) (fuel x : Nat) (s : σ) (out : List (BitVec 8))
    (hfuel : values.length - x * (8 / b) ≤ fuel)
    (hsupplies : Supplies input Sound
      ((List.range' x (expectedByteCount (2 ^ b) values.length - x)).map
        (packByte (2 ^ b) values)) s) :
    ∃ s', decodeLoop b input record fuel (values.length - x * (8 / b)) s out =
      some (true, s', out ++ (values.drop (x * (8 / b))).map (BitVec.ofNat 8)) ∧
      Sound s' := by
  induction fuel generalizing x s out with
  | zero =>
      have hend : values.length - x * (8 / b) = 0 := Nat.le_zero.mp hfuel
      have hbyte := lt_expectedByteCount hpos hfits values.length x
      have hnone : expectedByteCount (2 ^ b) values.length - x = 0 := by omega
      rw [hnone] at hsupplies
      rw [hend, List.drop_eq_nil_of_le (by omega)]
      exact ⟨s, by simp [decodeLoop], hsupplies⟩
  | succ fuel ih =>
      have hbyte := lt_expectedByteCount hpos hfits values.length x
      by_cases hlt : x * (8 / b) < values.length
      · have hppb : 0 < 8 / b := Nat.div_pos hfits hpos
        obtain ⟨remaining, hremaining⟩ : ∃ r, values.length - x * (8 / b) = r + 1 :=
          Nat.exists_eq_succ_of_ne_zero (by omega)
        obtain ⟨left, hleft⟩ : ∃ n, expectedByteCount (2 ^ b) values.length - x = n + 1 :=
          Nat.exists_eq_succ_of_ne_zero (by have := hbyte.mpr hlt; omega)
        rw [hleft, List.range'_succ] at hsupplies
        obtain ⟨hread, hsupplies⟩ := hsupplies
        have hpacked := packByte_lt hpos hvalues x
        have hmsb : (BitVec.ofNat 16 (packByte (2 ^ b) values x)).msb = false := by
          rw [BitVec.msb_eq_false_iff_two_mul_lt, BitVec.toNat_ofNat]
          omega
        -- the byte has as many pixels as are left, or is full
        generalize hcount : min (remaining + 1) (8 / b) = count
        have hpush := pushPixels_record hfits hpacked count 0 out
        rw [Nat.zero_mul, Nat.pow_zero, Nat.div_one] at hpush
        have hin : x * (8 / b) + count ≤ values.length := by omega
        have hpixels := packByte_pixels hpos hvalues
          (hcount ▸ Nat.min_le_right (remaining + 1) (8 / b)) hin
        have hmap : (List.range' 0 count).map
            (fun j => BitVec.ofNat 8 (packByte (2 ^ b) values x / 2 ^ (j * b) % 2 ^ b)) =
              ((values.drop (x * (8 / b))).take count).map (BitVec.ofNat 8) := by
          rw [← hpixels, List.map_map]
          rfl
        rw [hmap] at hpush
        have hrest : values.length - (x + 1) * (8 / b) = remaining + 1 - count := by
          rw [Nat.succ_mul]
          omega
        have hdrop : values.drop ((x + 1) * (8 / b)) =
            (values.drop (x * (8 / b))).drop count := by
          rw [List.drop_drop, Nat.succ_mul]
          by_cases hfull : count = 8 / b
          · rw [hfull]
          · rw [List.drop_eq_nil_of_le (by omega), List.drop_eq_nil_of_le (by omega)]
        have hnext : expectedByteCount (2 ^ b) values.length - (x + 1) = left := by omega
        rw [← hnext] at hsupplies
        obtain ⟨s', hdecode, hsound⟩ := ih (x + 1) (input s).2
          (out ++ ((values.drop (x * (8 / b))).take count).map (BitVec.ofNat 8))
          (by omega) hsupplies
        rw [hrest, hdrop, List.append_assoc, ← List.map_append, List.take_append_drop]
          at hdecode
        refine ⟨s', ?_, hsound⟩
        rw [hremaining]
        simp only [decodeLoop, hread, hmsb, hcount, hpush]
        exact hdecode
      · have hnone : expectedByteCount (2 ^ b) values.length - x = 0 := by omega
        have hend : values.length - x * (8 / b) = 0 := by omega
        rw [hnone] at hsupplies
        rw [hend, List.drop_eq_nil_of_le (by omega)]
        exact ⟨s, by simp [decodeLoop], hsupplies⟩

theorem decodePalette_supplies (hpos : 0 < b) (hfits : b ≤ 8) {values : List Nat}
    (hvalues : ∀ v ∈ values, v < 2 ^ b) {s : σ}
    (hsupplies : Supplies input Sound (packPixels (2 ^ b) values.length values) s) :
    ∃ s', decodePalette values.length b input record s [] =
      some (true, s', values.map (BitVec.ofNat 8)) ∧ Sound s' := by
  rw [packPixels, List.range_eq_range'] at hsupplies
  have hloop := decodeLoop_record hpos hfits hvalues values.length 0 s [] (Nat.sub_le _ _) hsupplies
  rw [Nat.zero_mul, Nat.sub_zero, List.nil_append] at hloop
  exact hloop

theorem packPixels_lt (hpos : 0 < b) {values : List Nat} (hvalues : ∀ v ∈ values, v < 2 ^ b)
    (count : Nat) : ∀ byte ∈ packPixels (2 ^ b) count values, byte < 2 ^ 8 := by
  intro byte hbyte
  obtain ⟨x, -, rfl⟩ := List.mem_map.mp hbyte
  exact packByte_lt hpos hvalues x

end Loop

/--
Packed pixels, compressed or not, decode to themselves, and the decoder stays
within the encoded bytes.
-/
theorem decodePalette_packPixels (hpos : 0 < b) (hfits : b ≤ 8)
    (compression : Compression) {values : List Nat} (hvalues : ∀ v ∈ values, v < 2 ^ b) :
    let bytes := compression.encode (packPixels (2 ^ b) values.length values)
    (∀ byte ∈ bytes, byte < 2 ^ 8) ∧
      ∃ s, decodePalette values.length b compression.decoder record
          (prepareInputState bytes) [] =
            some (true, s, values.map (BitVec.ofNat 8)) ∧
        s.Within := by
  have hpacked := packPixels_lt hpos hvalues values.length
  exact ⟨compression.encode_lt hpacked,
    decodePalette_supplies hpos hfits hvalues (compression.supplies hpacked)⟩

/-- A line of equal pixels and two others, of four bits each. -/
theorem line_decodes :
    let bytes := Compression.rle.encode (packPixels (2 ^ 4) 8 [5, 5, 5, 5, 5, 5, 9, 12])
    (∀ byte ∈ bytes, byte < 2 ^ 8) ∧
      ∃ s, decodePalette 8 4 byteRleDecoder record (prepareInputState bytes) [] =
            some (true, s, [5, 5, 5, 5, 5, 5, 9, 12]) ∧
        s.Within :=
  decodePalette_packPixels (by decide) (by decide) .rle (by decide)

end Qmk.Painter
