import Mathlib.Data.List.GetD
import Qmk.Steno.Strokes

/-!
# Packets on the wire

What a host reads in the bytes that were sent, by the description of the two protocols: a byte of
ones begins a packet of `geminipr`, and a group that is not above the last one begins a packet of
`txbolt`.
-/

namespace Qmk.Steno

/-! ## Gemini PR -/

/-- The keys of a packet, seven to the byte. -/
def geminiKeys (packet : List Byte) : Finset Nat :=
  (Finset.range 42).filter fun key => (packet.getD (key / 7) 0).getLsbD (6 - key % 7)

/-- The bytes of the packet so far, after one more. -/
def geminiNext (current : List Byte) (byte : Byte) : List Byte :=
  if byte.getLsbD 7 = true then [byte]
  else if current = [] then []
  else current ++ [byte]

def hearGemini : List Byte → List Byte → List (Finset Nat)
  | _, [] => []
  | current, byte :: bytes =>
      if (geminiNext current byte).length = geminiStrokeSize then
        geminiKeys (geminiNext current byte) :: hearGemini [] bytes
      else hearGemini (geminiNext current byte) bytes

/-! ## TX Bolt -/

/-- The keys of a byte, six to the group. -/
def boltKeys (byte : Byte) : Finset Nat :=
  (Finset.range 24).filter fun key => key / 6 = txbGetGroup byte ∧ byte.getLsbD (key % 6)

/-- A packet without keys is no stroke. -/
def emit (keys : Finset Nat) : List (Finset Nat) := if keys = ∅ then [] else [keys]

/-- The last group and the keys of the packet so far. -/
def hearBolt : Nat → Finset Nat → List Byte → List (Finset Nat)
  | _, _, [] => []
  | last, current, byte :: bytes =>
      if txbGetGroup byte ≤ last then
        emit current ++ hearBolt (txbGetGroup byte) (boltKeys byte) bytes
      else hearBolt (txbGetGroup byte) (current ∪ boltKeys byte) bytes

/-- The keys of `txbolt` that stand for the keys of a stroke. -/
def boltStroke (keys : Finset Nat) : Finset Nat := keys.biUnion fun key => boltKeys (boltcode key)

variable {cfg : Config} {chord : List Byte} {keys : Finset Nat}

/-! ## Packets of Gemini PR -/

theorem getLsbD_geminiBit (key bit : Nat) :
    (geminiBit key).getLsbD bit = true ↔ bit = 6 - key % 7 := by
  have hkey : key - key / 7 * 7 = key % 7 := by omega
  have htwo : geminiBit key = BitVec.twoPow 8 (6 - key % 7) := by
    rw [geminiBit, hkey, BitVec.twoPow]
  rw [htwo, BitVec.getLsbD_twoPow]
  simp only [Bool.and_eq_true, decide_eq_true_eq]
  omega

theorem getD_geminiPacket {group : Nat} (h : group < 6) :
    (packet stenoModeGemini chord).getD group 0 =
      (chord.modify 0 (· ||| 0x80)).getD group 0 := by
  have hrange : (List.range geminiStrokeSize)[group]? = some group := List.getElem?_range h
  rw [packet, if_neg (by decide), List.getD_eq_getElem?_getD, List.getElem?_map, hrange]
  rfl

theorem length_geminiPacket : (packet stenoModeGemini chord).length = geminiStrokeSize := by
  rw [packet, if_neg (by decide), List.length_map, List.length_range]

theorem getLsbD_geminiPacket (hlength : 0 < chord.length) {group bit : Nat} (h : group < 6) :
    ((packet stenoModeGemini chord).getD group 0).getLsbD bit = true ↔
      (group = 0 ∧ bit = 7) ∨ (chord.getD group 0).getLsbD bit = true := by
  rw [getD_geminiPacket h, getD_modify _ _ _ hlength]
  by_cases hgroup : group = 0
  · have hbit : BitVec.getLsbD (0x80 : Byte) bit = true ↔ bit = 7 := by
      have htwo : (0x80 : Byte) = BitVec.twoPow 8 7 := by decide
      rw [htwo, BitVec.getLsbD_twoPow]
      simp only [Bool.and_eq_true, decide_eq_true_eq]
      omega
    rw [if_pos hgroup.symm, BitVec.getLsbD_or, Bool.or_eq_true, hbit, or_comm]
    simp [hgroup]
  · rw [if_neg fun heq => hgroup heq.symm]
    simp [hgroup]

theorem Holds.gemini (h : Holds stenoModeGemini chord keys) (group bit : Nat) :
    (chord.getD group 0).getLsbD bit = true ↔
      ∃ key ∈ keys, key / 7 = group ∧ bit = 6 - key % 7 := by
  rw [h group bit]
  refine exists_congr fun key => and_congr_right fun _ => ?_
  rw [code, if_neg (by decide), getLsbD_geminiBit]

/-- The first byte of a packet has its high bit set, and the others have not. -/
theorem Holds.geminiStart (h : Holds stenoModeGemini chord keys) (hlength : 0 < chord.length)
    {group : Nat} (hgroup : group < 6) :
    ((packet stenoModeGemini chord).getD group 0).getLsbD 7 = true ↔ group = 0 := by
  rw [getLsbD_geminiPacket hlength hgroup, h.gemini]
  constructor
  · rintro (⟨hzero, -⟩ | ⟨key, -, -, hbit⟩)
    · exact hzero
    · omega
  · exact fun hzero => .inl ⟨hzero, rfl⟩

theorem Holds.geminiKeys (h : Holds stenoModeGemini chord keys) (hlength : 0 < chord.length)
    (hkeys : ∀ key ∈ keys, key < 42) :
    geminiKeys (packet stenoModeGemini chord) = keys := by
  ext key
  simp only [Steno.geminiKeys, Finset.mem_filter, Finset.mem_range]
  constructor
  · rintro ⟨hlt, hbit⟩
    rw [getLsbD_geminiPacket hlength (by omega), h.gemini] at hbit
    rcases hbit with ⟨-, hbit⟩ | ⟨other, hother, hgroup, hbit⟩
    · omega
    · obtain rfl : other = key := by omega
      exact hother
  · intro hkey
    have hlt := hkeys key hkey
    refine ⟨hlt, ?_⟩
    rw [getLsbD_geminiPacket hlength (by omega), h.gemini]
    exact .inr ⟨key, hkey, rfl, rfl⟩

/-- Six bytes, of which the first one alone has its high bit set. -/
def GeminiPacket (bytes : List Byte) : Prop :=
  ∃ first rest, bytes = first :: rest ∧ rest.length = 5 ∧ first.getLsbD 7 = true ∧
    ∀ byte ∈ rest, byte.getLsbD 7 = false

theorem geminiPacket_of_starts {bytes : List Byte} (hlength : bytes.length = 6)
    (hstart : ∀ group < 6, (bytes.getD group 0).getLsbD 7 = true ↔ group = 0) :
    GeminiPacket bytes := by
  obtain ⟨first, rest, rfl⟩ := List.exists_cons_of_length_pos (by omega : 0 < bytes.length)
  have hfive : rest.length = 5 := Nat.succ.inj hlength
  refine ⟨first, rest, rfl, hfive, (hstart 0 (by decide)).mpr rfl, fun byte hbyte => ?_⟩
  obtain ⟨i, hi, rfl⟩ := List.mem_iff_getElem.mp hbyte
  have hrest := hstart (i + 1) (by omega)
  rw [List.getD_cons_succ, List.getD_eq_getElem _ _ hi] at hrest
  exact Bool.eq_false_iff.mpr fun hhigh => Nat.succ_ne_zero i (hrest.mp hhigh)

theorem Holds.geminiPacket (h : Holds stenoModeGemini chord keys) (hlength : 0 < chord.length) :
    GeminiPacket (packet stenoModeGemini chord) :=
  geminiPacket_of_starts length_geminiPacket fun _ hgroup => h.geminiStart hlength hgroup

theorem geminiNext_high {byte : Byte} (h : byte.getLsbD 7 = true) (current : List Byte) :
    geminiNext current byte = [byte] := if_pos h

theorem geminiNext_low {byte : Byte} {current : List Byte} (h : byte.getLsbD 7 = false)
    (hne : current ≠ []) : geminiNext current byte = current ++ [byte] := by
  rw [geminiNext, if_neg (Bool.eq_false_iff.mp h), if_neg hne]

theorem geminiNext_skip {byte : Byte} (h : byte.getLsbD 7 = false) : geminiNext [] byte = [] := by
  rw [geminiNext, if_neg (Bool.eq_false_iff.mp h), if_pos rfl]

theorem hearGemini_rest {current rest : List Byte} (bytes : List Byte) (hcurrent : current ≠ [])
    (hlength : current.length + rest.length = geminiStrokeSize) (hrest : rest ≠ [])
    (hlow : ∀ byte ∈ rest, byte.getLsbD 7 = false) :
    hearGemini current (rest ++ bytes) =
      Steno.geminiKeys (current ++ rest) :: hearGemini [] bytes := by
  induction rest generalizing current with
  | nil => exact absurd rfl hrest
  | cons byte rest ih =>
      rw [List.forall_mem_cons] at hlow
      rw [List.length_cons] at hlength
      have hnext := geminiNext_low hlow.1 hcurrent
      have hgrown : (current ++ [byte]).length = current.length + 1 := List.length_append
      rw [List.cons_append, hearGemini, hnext, hgrown]
      cases rest with
      | nil =>
          have hlast : current.length + 1 = geminiStrokeSize := hlength
          rw [if_pos hlast]
          rfl
      | cons next rest =>
          rw [List.length_cons] at hlength
          have hne : current ++ [byte] ≠ [] := List.append_ne_nil_of_right_ne_nil _ nofun
          have hlater := ih hne (by rw [hgrown, List.length_cons]; omega) (List.cons_ne_nil _ _)
            hlow.2
          rw [if_neg (by omega), hlater, List.append_assoc]
          rfl

/-- Without the beginning of a packet nothing is heard. -/
theorem hearGemini_skip {rest : List Byte} (bytes : List Byte)
    (hlow : ∀ byte ∈ rest, byte.getLsbD 7 = false) :
    hearGemini [] (rest ++ bytes) = hearGemini [] bytes := by
  induction rest with
  | nil => rfl
  | cons byte rest ih =>
      rw [List.forall_mem_cons] at hlow
      rw [List.cons_append, hearGemini, geminiNext_skip hlow.1, if_neg (by decide)]
      exact ih hlow.2

theorem hearGemini_packet {bytes : List Byte} (h : GeminiPacket bytes) (rest : List Byte) :
    hearGemini [] (bytes ++ rest) = Steno.geminiKeys bytes :: hearGemini [] rest := by
  obtain ⟨first, others, rfl, hfive, hhigh, hlow⟩ := h
  have hne : others ≠ [] := by
    rintro rfl
    cases hfive
  have hshort : [first].length ≠ geminiStrokeSize := (by decide : 1 ≠ 6)
  rw [List.cons_append, hearGemini, geminiNext_high hhigh, if_neg hshort]
  exact hearGemini_rest rest (List.cons_ne_nil _ _) (by rw [hfive]; rfl) hne hlow

/-- A host that joins in the middle of a packet hears every stroke from the next one on. -/
theorem hearGemini_flatten {packets : List (List Byte)}
    (h : ∀ bytes ∈ packets, GeminiPacket bytes) (n : Nat) :
    hearGemini [] (packets.flatten.drop n) =
      (packets.map Steno.geminiKeys).drop ((n + 5) / 6) := by
  induction packets generalizing n with
  | nil => simp [hearGemini]
  | cons bytes packets ih =>
      rw [List.forall_mem_cons] at h
      have hall := ih h.2
      have hwhole : hearGemini [] packets.flatten = packets.map Steno.geminiKeys := hall 0
      have hpacket := h.1
      obtain ⟨first, others, rfl, hfive, hhigh, hlow⟩ := h.1
      rw [List.flatten_cons]
      rcases Nat.eq_zero_or_pos n with rfl | hpos
      · rw [List.drop_zero, hearGemini_packet hpacket, hwhole]
        rfl
      · by_cases hlong : 6 < n
        · have hdrop : ((first :: others) ++ packets.flatten).drop n =
              packets.flatten.drop (n - 6) := by
            rw [List.drop_append, List.drop_of_length_le (by rw [List.length_cons]; omega),
              List.length_cons, hfive]
            rfl
          have hindex : (n + 5) / 6 = (n - 6 + 5) / 6 + 1 := by omega
          rw [hdrop, hall, hindex]
          rfl
        · have hle : n ≤ (first :: others).length := by
            rw [List.length_cons]
            omega
          have hindex : (n + 5) / 6 = 1 := by omega
          obtain ⟨k, rfl⟩ := Nat.exists_eq_succ_of_ne_zero (Nat.pos_iff_ne_zero.mp hpos)
          rw [List.drop_append_of_le_length hle, List.drop_succ_cons,
            hearGemini_skip _ fun byte hbyte => hlow byte (List.mem_of_mem_drop hbyte),
            hwhole, hindex]
          rfl

/-! ## Packets of TX Bolt -/

theorem txbGetGroup_eq : ∀ byte : Byte,
    txbGetGroup byte = 2 * (byte.getLsbD 7).toNat + (byte.getLsbD 6).toNat := by
  decide +kernel

theorem mem_boltKeys {byte : Byte} {key : Nat} :
    key ∈ boltKeys byte ↔
      key < 24 ∧ key / 6 = txbGetGroup byte ∧ byte.getLsbD (key % 6) = true := by
  rw [boltKeys, Finset.mem_filter, Finset.mem_range]

theorem boltKeys_zero : boltKeys 0 = ∅ := by
  ext key
  simp [mem_boltKeys]

theorem Holds.bolt (h : Holds stenoModeBolt chord keys) (group bit : Nat) :
    (chord.getD group 0).getLsbD bit = true ↔
      ∃ key ∈ keys, txbGetGroup (boltcode key) = group ∧ (boltcode key).getLsbD bit = true :=
  h group bit

/-- Every byte of the chord that is sent tells its own group. -/
theorem Holds.boltGroup (h : Holds stenoModeBolt chord keys) {group : Nat}
    (hne : chord.getD group 0 ≠ 0) : txbGetGroup (chord.getD group 0) = group := by
  have hbit : ∃ bit, (chord.getD group 0).getLsbD bit = true := by
    by_contra hnone
    refine hne (BitVec.eq_of_getLsbD_eq fun bit _ => ?_)
    simpa using fun htrue => hnone ⟨bit, htrue⟩
  obtain ⟨bit, htrue⟩ := hbit
  obtain ⟨key, hkey, hgroup, -⟩ := (h.bolt group bit).mp htrue
  have hseven := h.bolt group 7
  have hsix := h.bolt group 6
  -- the two high bits are the same in all codes of the group
  have hbits : ∀ other, txbGetGroup (boltcode other) = group →
      (boltcode other).getLsbD 7 = (boltcode key).getLsbD 7 ∧
        (boltcode other).getLsbD 6 = (boltcode key).getLsbD 6 := by
    intro other hother
    rw [← hgroup, txbGetGroup_eq, txbGetGroup_eq] at hother
    generalize (boltcode other).getLsbD 7 = a, (boltcode other).getLsbD 6 = b,
      (boltcode key).getLsbD 7 = c, (boltcode key).getLsbD 6 = d at hother ⊢
    revert a b c d
    decide
  have hsame : ∀ bit, (∀ other, txbGetGroup (boltcode other) = group →
      (boltcode other).getLsbD bit = (boltcode key).getLsbD bit) →
      (chord.getD group 0).getLsbD bit = (boltcode key).getLsbD bit := by
    intro bit hall
    refine Bool.eq_iff_iff.mpr ((h.bolt group bit).trans ⟨?_, fun hset => ?_⟩)
    · rintro ⟨other, -, hother, hset⟩
      exact hall other hother ▸ hset
    · exact ⟨key, hkey, hgroup, hset⟩
  rw [txbGetGroup_eq, hsame 7 fun other hother => (hbits other hother).1,
    hsame 6 fun other hother => (hbits other hother).2, ← txbGetGroup_eq, hgroup]

/-- The bytes of the chord that are sent. -/
def boltBytes (chord : List Byte) : List Byte :=
  ((List.range boltStrokeSize).map fun i => chord.getD i 0).filter (· ≠ 0)

theorem mem_boltBytes {byte : Byte} :
    byte ∈ boltBytes chord ↔ ∃ group < 4, chord.getD group 0 = byte ∧ byte ≠ 0 := by
  simp only [boltBytes, List.mem_filter, List.mem_map, List.mem_range, boltStrokeSize,
    decide_eq_true_eq]
  constructor
  · rintro ⟨⟨group, hlt, heq⟩, hne⟩
    exact ⟨group, hlt, heq, hne⟩
  · rintro ⟨group, hlt, heq, hne⟩
    exact ⟨⟨group, hlt, heq⟩, hne⟩

theorem Holds.boltBytes_ordered (h : Holds stenoModeBolt chord keys) :
    (boltBytes chord).Pairwise fun a b => txbGetGroup a < txbGetGroup b := by
  rw [boltBytes, List.pairwise_filter, List.pairwise_map]
  refine List.pairwise_lt_range.imp fun hlt hne hne' => ?_
  rw [h.boltGroup (of_decide_eq_true hne), h.boltGroup (of_decide_eq_true hne')]
  exact hlt

theorem Holds.boltStroke (h : Holds stenoModeBolt chord keys) :
    (boltBytes chord).toFinset.biUnion boltKeys = boltStroke keys := by
  ext key
  simp only [Finset.mem_biUnion, List.mem_toFinset, mem_boltBytes, mem_boltKeys, Steno.boltStroke]
  constructor
  · rintro ⟨byte, ⟨group, -, rfl, hne⟩, hlt, hgroup, hbit⟩
    rw [h.boltGroup hne] at hgroup
    obtain ⟨other, hother, hcode, hset⟩ := (h.bolt group _).mp hbit
    exact ⟨other, hother, hlt, hgroup.trans hcode.symm, hset⟩
  · rintro ⟨other, hother, hlt, hgroup, hset⟩
    have hbit := (h.bolt _ _).mpr ⟨other, hother, hgroup.symm, hset⟩
    have hne : chord.getD (key / 6) 0 ≠ 0 := by
      intro hzero
      rw [hzero] at hbit
      simp at hbit
    exact ⟨_, ⟨key / 6, by omega, rfl, hne⟩, hlt, (h.boltGroup hne).symm, hbit⟩

/-- The bytes of one packet above the last group, up to the null byte behind them. -/
theorem hearBolt_rest {bytes : List Byte} {last : Nat} {current : Finset Nat} (rest : List Byte)
    (hordered : bytes.Pairwise fun a b => txbGetGroup a < txbGetGroup b)
    (habove : ∀ byte ∈ bytes, last < txbGetGroup byte) :
    hearBolt last current (bytes ++ 0 :: rest) =
      emit (current ∪ bytes.toFinset.biUnion boltKeys) ++ hearBolt 0 ∅ rest := by
  induction bytes generalizing last current with
  | nil =>
      have hzero : txbGetGroup 0 = 0 := rfl
      rw [List.nil_append, hearBolt, hzero, if_pos (Nat.zero_le _), boltKeys_zero]
      simp
  | cons byte bytes ih =>
      rw [List.pairwise_cons] at hordered
      rw [List.forall_mem_cons] at habove
      rw [List.cons_append, hearBolt, if_neg (Nat.not_le.mpr habove.1),
        ih hordered.2 hordered.1, List.toFinset_cons, Finset.biUnion_insert, Finset.union_assoc]

theorem hearBolt_packet {bytes : List Byte} (rest : List Byte)
    (hordered : bytes.Pairwise fun a b => txbGetGroup a < txbGetGroup b) :
    hearBolt 0 ∅ (bytes ++ 0 :: rest) =
      emit (bytes.toFinset.biUnion boltKeys) ++ hearBolt 0 ∅ rest := by
  by_cases habove : ∀ byte ∈ bytes, 0 < txbGetGroup byte
  · rw [hearBolt_rest rest hordered habove, Finset.empty_union]
  · -- the packet begins in group 0, which the null byte before it has as well
    cases bytes with
    | nil => exact absurd nofun habove
    | cons byte bytes =>
        rw [List.pairwise_cons] at hordered
        have hzero : txbGetGroup byte = 0 := by
          by_contra hne
          refine habove (List.forall_mem_cons.mpr ⟨Nat.pos_of_ne_zero hne, fun other hother => ?_⟩)
          exact Nat.lt_of_le_of_lt (Nat.zero_le _) (hordered.1 other hother)
        rw [List.cons_append, hearBolt, if_pos (Nat.le_of_eq hzero), hzero,
          hearBolt_rest rest hordered.2 fun other hother => hzero ▸ hordered.1 other hother,
          List.toFinset_cons, Finset.biUnion_insert]
        rfl

theorem boltPacket_eq : packet stenoModeBolt chord = boltBytes chord ++ [0] := rfl

/-! ## Strokes on the wire -/

/-- The packet of the stroke, read on its own, gives the stroke. -/
def Stroke.Heard (stroke : Stroke) (bytes : List Byte) : Prop :=
  (stroke.mode = stenoModeGemini → hearGemini [] bytes = [stroke.keys]) ∧
    (stroke.mode = stenoModeBolt → hearBolt 0 ∅ bytes = emit (boltStroke stroke.keys))

theorem Frames.gemini {stroke : Stroke} {bytes : List Byte} (h : Frames cfg stroke bytes)
    (hmode : stroke.mode = stenoModeGemini) :
    GeminiPacket bytes ∧ geminiKeys bytes = stroke.keys := by
  obtain ⟨-, hkeys, chord, hlength, hholds, rfl⟩ := h
  have hpos : 0 < chord.length := by
    rw [hlength, Config.maxStrokeSize]
    split <;> decide
  rw [hmode] at hholds ⊢
  exact ⟨hholds.geminiPacket hpos, hholds.geminiKeys hpos hkeys⟩

theorem Frames.bolt {stroke : Stroke} {bytes : List Byte} (h : Frames cfg stroke bytes)
    (hmode : stroke.mode = stenoModeBolt) (rest : List Byte) :
    hearBolt 0 ∅ (bytes ++ rest) = emit (boltStroke stroke.keys) ++ hearBolt 0 ∅ rest := by
  obtain ⟨-, -, chord, -, hholds, rfl⟩ := h
  rw [hmode] at hholds ⊢
  rw [boltPacket_eq, List.append_assoc, List.singleton_append,
    hearBolt_packet rest hholds.boltBytes_ordered, hholds.boltStroke]

section Packets

variable {strokes : List Stroke} {packets : List (List Byte)}

theorem frames_gemini (h : List.Forall₂ (Frames cfg) strokes packets)
    (hmode : ∀ stroke ∈ strokes, stroke.mode = stenoModeGemini) :
    (∀ bytes ∈ packets, GeminiPacket bytes) ∧
      packets.map geminiKeys = strokes.map Stroke.keys := by
  induction h with
  | nil => exact ⟨nofun, rfl⟩
  | cons hframe _ ih =>
      rw [List.forall_mem_cons] at hmode
      obtain ⟨hpackets, hkeys⟩ := ih hmode.2
      obtain ⟨hpacket, hkey⟩ := hframe.gemini hmode.1
      exact ⟨List.forall_mem_cons.mpr ⟨hpacket, hpackets⟩, congrArg₂ List.cons hkey hkeys⟩

theorem hearBolt_frames (h : List.Forall₂ (Frames cfg) strokes packets)
    (hmode : ∀ stroke ∈ strokes, stroke.mode = stenoModeBolt) :
    hearBolt 0 ∅ packets.flatten = strokes.flatMap fun stroke => emit (boltStroke stroke.keys) := by
  induction h with
  | nil => rfl
  | cons hframe _ ih =>
      rw [List.forall_mem_cons] at hmode
      rw [List.flatten_cons, hframe.bolt hmode.1, List.flatMap_cons, ih hmode.2]

end Packets

theorem Frames.heard {stroke : Stroke} {bytes : List Byte} (h : Frames cfg stroke bytes) :
    stroke.Heard bytes := by
  constructor
  · intro hmode
    obtain ⟨hpacket, hkeys⟩ := h.gemini hmode
    have hone := hearGemini_packet hpacket []
    rw [List.append_nil] at hone
    rw [hone, hkeys]
    rfl
  · intro hmode
    have hone := h.bolt hmode []
    rwa [List.append_nil, hearBolt, List.append_nil] at hone

section Runs

variable {stenomode : Mode} {events : List Event}

/-- The keyboard sends one packet for each stroke, which says in the mode of the stroke exactly
what its keys are; it is in the mode that was switched to last, and has it in the EEPROM. -/
theorem strokes_framed (hknown : Known cfg (stenoInit cfg stenomode).mode)
    (hallowed : (Chording.start (stenoInit cfg stenomode).mode).Plausible cfg events) :
    (∃ packets, (run cfg (stenoInit cfg stenomode) events).sent = packets.flatten ∧
      List.Forall₂ Stroke.Heard
        ((Chording.start (stenoInit cfg stenomode).mode).run cfg events).strokes packets) ∧
    (run cfg (stenoInit cfg stenomode) events).mode =
      ((Chording.start (stenoInit cfg stenomode).mode).run cfg events).mode ∧
    (cfg.enableAll = true → (run cfg (stenoInit cfg stenomode) events).stenomode =
      (run cfg (stenoInit cfg stenomode) events).mode) := by
  have hagrees := (agrees_start hknown).run hallowed
  obtain ⟨packets, hsent, hframes⟩ := hagrees.sent
  refine ⟨⟨packets, hsent, hframes.imp fun _ _ h => h.heard⟩, hagrees.mode, fun hall => ?_⟩
  rw [hagrees.stored hall, hagrees.mode]

theorem mode_step {t : Chording} {event : Event}
    (hmode : ∀ stroke ∈ t.strokes, stroke.mode = t.mode)
    (hswitch : ∀ keycode, event = .press keycode → switchedMode cfg keycode = none) :
    (t.step cfg event).mode = t.mode ∧
      ∀ stroke ∈ (t.step cfg event).strokes, stroke.mode = t.mode := by
  cases event with
  | press keycode =>
      rw [Chording.step, Chording.press, hswitch keycode rfl]
      dsimp only
      split
      · exact ⟨rfl, hmode⟩
      · exact ⟨rfl, hmode⟩
  | release keycode =>
      rw [Chording.step, Chording.release]
      split
      · exact ⟨rfl, hmode⟩
      · split
        · refine ⟨rfl, fun stroke hstroke => ?_⟩
          rcases List.mem_append.mp hstroke with hold | hnew
          · exact hmode stroke hold
          · rw [List.mem_singleton.mp hnew]
        · exact ⟨rfl, hmode⟩

/-- Without a switch every stroke is of one mode. -/
theorem mode_run {t : Chording} (hmode : ∀ stroke ∈ t.strokes, stroke.mode = t.mode)
    (hswitch : ∀ keycode, Event.press keycode ∈ events → switchedMode cfg keycode = none) :
    ∀ stroke ∈ (t.run cfg events).strokes, stroke.mode = t.mode := by
  induction events generalizing t with
  | nil => exact hmode
  | cons event events ih =>
      have hstep : (t.step cfg event).mode = t.mode ∧
          ∀ stroke ∈ (t.step cfg event).strokes, stroke.mode = t.mode :=
        mode_step hmode fun keycode hpress => hswitch keycode (hpress ▸ List.mem_cons_self)
      have hrest := ih (t := t.step cfg event) (hstep.1 ▸ hstep.2)
        fun keycode hmem => hswitch keycode (List.mem_cons_of_mem _ hmem)
      rwa [hstep.1] at hrest

/-- Without a switch of the mode the host hears the strokes: of `geminipr` from wherever in the
stream it starts to listen, of `txbolt` as far as the protocol has the keys. -/
theorem strokes_heard (hknown : Known cfg (stenoInit cfg stenomode).mode)
    (hallowed : (Chording.start (stenoInit cfg stenomode).mode).Plausible cfg events)
    (hswitch : ∀ keycode, Event.press keycode ∈ events → switchedMode cfg keycode = none) :
    ((stenoInit cfg stenomode).mode = stenoModeGemini →
      ∀ n, hearGemini [] ((run cfg (stenoInit cfg stenomode) events).sent.drop n) =
        (((Chording.start (stenoInit cfg stenomode).mode).run cfg events).strokes.map
          Stroke.keys).drop ((n + 5) / 6)) ∧
    ((stenoInit cfg stenomode).mode = stenoModeBolt →
      hearBolt 0 ∅ (run cfg (stenoInit cfg stenomode) events).sent =
        ((Chording.start (stenoInit cfg stenomode).mode).run cfg events).strokes.flatMap
          fun stroke => emit (boltStroke stroke.keys)) := by
  have hagrees := (agrees_start hknown).run hallowed
  have hmodes := mode_run (t := .start (stenoInit cfg stenomode).mode) nofun hswitch
  obtain ⟨packets, hsent, hframes⟩ := hagrees.sent
  rw [hsent]
  generalize ((Chording.start (stenoInit cfg stenomode).mode).run cfg events).strokes = strokes
    at hmodes hframes ⊢
  constructor
  · intro hgemini n
    obtain ⟨hpackets, hkeys⟩ := frames_gemini hframes fun stroke hstroke =>
      (hmodes stroke hstroke).trans hgemini
    rw [hearGemini_flatten hpackets, hkeys]
  · intro hbolt
    exact hearBolt_frames hframes fun stroke hstroke => (hmodes stroke hstroke).trans hbolt

end Runs

/-- The two packets that the description gives for `EUBG`. -/
example :
    (run ⟨.geminipr, false⟩ (stenoInit ⟨.geminipr, false⟩ 0)
      ([24, 25, 29, 31].map (Event.press <| qkSteno + ·) ++
        [24, 25, 29, 31].map (Event.release <| qkSteno + ·))).sent =
      [0x80, 0, 0, 0x0C, 0x28, 0] := by decide +kernel

example :
    (run ⟨.txbolt, false⟩ (stenoInit ⟨.txbolt, false⟩ 0)
      ([24, 25, 29, 31].map (Event.press <| qkSteno + ·) ++
        [24, 25, 29, 31].map (Event.release <| qkSteno + ·))).sent =
      [0x70, 0xA8, 0] := by decide +kernel

/-- `STN_TKL` with `STN_A`, which stays down for `STN_E`; then `STN_ZR`. -/
def twoStrokes : List Event :=
  [.press (qkStenoComb + 1), .press (qkSteno + 15), .release (qkStenoComb + 1),
    .press (qkSteno + 24), .release (qkSteno + 15), .release (qkSteno + 24),
    .press (qkSteno + 41), .release (qkSteno + 41)]

def combinedGemini : Config := ⟨.geminipr, true⟩

theorem twoStrokes_heard :
    hearGemini [] (run combinedGemini (stenoInit combinedGemini 0) twoStrokes).sent =
        [{9, 10, 15, 24}, {41}] ∧
      hearGemini [] ((run combinedGemini (stenoInit combinedGemini 0) twoStrokes).sent.drop 3) =
        [{41}] := by
  have hknown : Known combinedGemini (stenoInit combinedGemini 0).mode := .inr ⟨rfl, rfl⟩
  have hallowed : (Chording.start (stenoInit combinedGemini 0).mode).Plausible combinedGemini
      twoStrokes := by decide +kernel
  have hheard := (strokes_heard hknown hallowed fun _ _ => rfl).1 rfl
  exact ⟨(hheard 0).trans (by decide +kernel), (hheard 3).trans (by decide +kernel)⟩

def bothProtocols : Config := ⟨.all, false⟩

/-- The mode is switched while a key of the stroke is down. -/
def switchedStrokes : List Event :=
  [.press (qkSteno + 15), .release (qkSteno + 15), .press (qkSteno + 24), .press qkStenoBolt,
    .release qkStenoBolt, .press (qkSteno + 41), .release (qkSteno + 24), .release (qkSteno + 41)]

theorem switchedStrokes_framed :
    (∃ packets, (run bothProtocols (stenoInit bothProtocols 0) switchedStrokes).sent =
        packets.flatten ∧
      List.Forall₂ Stroke.Heard [⟨stenoModeGemini, {15}⟩, ⟨stenoModeBolt, {41}⟩] packets) ∧
      (run bothProtocols (stenoInit bothProtocols 0) switchedStrokes).mode = stenoModeBolt := by
  have hknown : Known bothProtocols (stenoInit bothProtocols 0).mode := .inr ⟨rfl, rfl⟩
  have hallowed : (Chording.start (stenoInit bothProtocols 0).mode).Plausible bothProtocols
      switchedStrokes := by decide +kernel
  have hframed := strokes_framed hknown hallowed
  have hstrokes : ((Chording.start (stenoInit bothProtocols 0).mode).run bothProtocols
      switchedStrokes).strokes = [⟨stenoModeGemini, {15}⟩, ⟨stenoModeBolt, {41}⟩] := by
    rfl
  rw [hstrokes] at hframed
  exact ⟨hframed.1, hframed.2.1.trans rfl⟩

end Qmk.Steno
