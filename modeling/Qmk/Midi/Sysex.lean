import Qmk.Lib.Chunks

/-!
# System exclusive payloads

`sysex_tools.c`: seven bytes travel as eight, of which the first has their highest bits.
-/

namespace Qmk.Midi.Sysex

open Qmk.Lib

/-! ## The code -/

/-- The inner loop of `sysex_encode` for the first byte of a section. -/
def highBits (bytes : List (BitVec 8)) : BitVec 8 :=
  bytes.zipIdx.foldl (fun msb (current, j) => msb ||| ((0x80 &&& current) >>> (1 + j))) 0

def encodeSection (bytes : List (BitVec 8)) : List (BitVec 8) :=
  highBits bytes :: bytes.map fun current => 0x7F &&& current

def sysexEncode (source : List (BitVec 8)) : List (BitVec 8) :=
  (chunks 7 source).flatMap encodeSection

def decodeSection : List (BitVec 8) → List (BitVec 8)
  | [] => []
  | msb :: bytes =>
      bytes.zipIdx.map fun (current, j) => (0x7F &&& current) ||| (0x80 &&& (msb <<< (1 + j)))

def sysexDecode (source : List (BitVec 8)) : List (BitVec 8) :=
  if source.length < 2 then [] else (chunks 8 source).flatMap decodeSection

def sysexEncodedLength (decodedLength : Nat) : Nat :=
  if decodedLength % 7 ≠ 0 then (decodedLength / 7 * 8 + decodedLength % 7 + 1) % 65536
  else decodedLength / 7 * 8 % 65536

def sysexDecodedLength (encodedLength : Nat) : Nat :=
  if encodedLength % 8 ≠ 0 then (encodedLength / 8 * 7 + encodedLength % 8 - 1) % 65536
  else encodedLength / 8 * 7 % 65536

/-! ## Sections -/

/-- The highest bit of the byte `j` becomes the bit `6 - j`. -/
theorem getLsbD_highBit (current : BitVec 8) (j k : Nat) :
    ((0x80 &&& current) >>> (1 + j)).getLsbD k = (decide (1 + j + k = 7) && current.getLsbD 7) := by
  have hmask : ∀ i, (0x80 : BitVec 8).getLsbD i = decide (i = 7) := by
    intro i
    by_cases hi : i < 8
    · revert i
      decide
    · rw [BitVec.getLsbD_of_ge _ _ (Nat.le_of_not_lt hi)]
      exact (decide_eq_false (by omega)).symm
  rw [BitVec.getLsbD_ushiftRight, BitVec.getLsbD_and, hmask]
  by_cases hbit : 1 + j + k = 7
  · rw [hbit]
  · simp [hbit]

theorem getLsbD_foldl_highBit (bytes : List (BitVec 8)) (start k : Nat) (msb : BitVec 8) :
    ((bytes.zipIdx start).foldl
      (fun msb (current, j) => msb ||| ((0x80 &&& current) >>> (1 + j))) msb).getLsbD k =
      (msb.getLsbD k || (decide (1 + start + k ≤ 7) &&
        (bytes.getD (7 - (1 + start + k)) 0).getLsbD 7)) := by
  induction bytes generalizing start msb with
  | nil => simp
  | cons current bytes ih =>
      rw [List.zipIdx_cons, List.foldl_cons, ih, BitVec.getLsbD_or, getLsbD_highBit, Bool.or_assoc]
      congr 1
      rcases Nat.lt_trichotomy (1 + start + k) 7 with hlt | heq | hgt
      · -- the bit comes from a later byte
        obtain ⟨i, hi⟩ : ∃ i, 7 - (1 + start + k) = i + 1 := ⟨6 - (1 + start + k), by omega⟩
        have hrest : 7 - (1 + (start + 1) + k) = i := by omega
        rw [hi, hrest, List.getD_cons_succ]
        simp [Nat.ne_of_lt hlt, Nat.le_of_lt hlt, show 1 + (start + 1) + k ≤ 7 by omega]
      · rw [heq]
        simp [show ¬1 + (start + 1) + k ≤ 7 by omega]
      · simp [Nat.ne_of_gt hgt, Nat.not_le.mpr hgt, show ¬1 + (start + 1) + k ≤ 7 by omega]

theorem getLsbD_highBits (bytes : List (BitVec 8)) (k : Nat) :
    (highBits bytes).getLsbD k =
      (decide (k ≤ 6) && (bytes.getD (6 - k) 0).getLsbD 7) := by
  rw [highBits, getLsbD_foldl_highBit]
  have hindex : 7 - (1 + 0 + k) = 6 - k := by omega
  have hle : (1 + 0 + k ≤ 7) = (k ≤ 6) := by simp only [eq_iff_iff]; omega
  simp [hindex, hle]

@[simp] theorem length_encodeSection (bytes : List (BitVec 8)) :
    (encodeSection bytes).length = bytes.length + 1 := by simp [encodeSection]

/-- A byte below the status bytes. -/
def IsData (byte : BitVec 8) : Prop := byte.getLsbD 7 = false

theorem isData_of_mem_encodeSection {bytes : List (BitVec 8)} {byte : BitVec 8}
    (h : byte ∈ encodeSection bytes) : IsData byte := by
  rcases List.mem_cons.mp h with rfl | h
  · rw [IsData, getLsbD_highBits]
    rfl
  · obtain ⟨current, -, rfl⟩ := List.mem_map.mp h
    rw [IsData, BitVec.getLsbD_and]
    rfl

theorem joined_bits (current msb : BitVec 8) {j : Nat} (hj : j ≤ 6)
    (hmsb : msb.getLsbD (6 - j) = current.getLsbD 7) :
    ((0x7F &&& (0x7F &&& current)) ||| (0x80 &&& (msb <<< (1 + j)))) = current := by
  have hmasks : ∀ i < 8, (0x7F : BitVec 8).getLsbD i = decide (i ≠ 7) ∧
      (0x80 : BitVec 8).getLsbD i = decide (i = 7) := by decide
  apply BitVec.eq_of_getLsbD_eq
  intro i hi
  simp only [BitVec.getLsbD_or, BitVec.getLsbD_and, BitVec.getLsbD_shiftLeft, hmasks i hi]
  by_cases hlast : i = 7
  · have hindex : 7 - (1 + j) = 6 - j := by omega
    simp [hlast, hindex, hmsb, show ¬7 < 1 + j by omega]
  · simp [hlast]

theorem decodeSection_encodeSection {bytes : List (BitVec 8)} (h : bytes.length ≤ 7) :
    decodeSection (encodeSection bytes) = bytes := by
  unfold encodeSection decodeSection
  apply List.ext_getElem
  · simp
  · intro j hj hlt
    rw [List.getElem_map, List.getElem_zipIdx, List.getElem_map, Nat.zero_add]
    apply joined_bits _ _ (by omega)
    rw [getLsbD_highBits]
    have hindex : 6 - (6 - j) = j := by omega
    simp [hindex, hlt]

/-! ## Payloads -/

theorem chunks_sysexEncode (source : List (BitVec 8)) :
    chunks 8 (sysexEncode source) = (chunks 7 source).map encodeSection := by
  apply chunks_flatMap (by omega) (by omega)
  · intro bytes hfull
    rw [length_encodeSection, hfull]
  · intro bytes _ hlt
    rw [length_encodeSection]
    exact ⟨List.cons_ne_nil _ _, by omega⟩

theorem isData_of_mem_sysexEncode {source : List (BitVec 8)} {byte : BitVec 8}
    (h : byte ∈ sysexEncode source) : IsData byte := by
  obtain ⟨bytes, -, hmem⟩ := List.mem_flatMap.mp h
  exact isData_of_mem_encodeSection hmem

theorem length_sysexEncode (source : List (BitVec 8)) :
    (sysexEncode source).length = source.length / 7 * 8 +
      if source.length % 7 = 0 then 0 else source.length % 7 + 1 := by
  unfold sysexEncode
  induction source using chunks_induction (by omega : 0 < 7) with
  | nil => simp
  | last source hne hlt =>
      have hpos : source.length ≠ 0 := fun hzero => hne (List.length_eq_zero_iff.mp hzero)
      simp [chunks_of_lt hne hlt, Nat.div_eq_of_lt hlt, Nat.mod_eq_of_lt hlt, hpos]
  | full first rest hfirst ih =>
      rw [chunks_append (by omega) hfirst, List.flatMap_cons, List.length_append, ih,
        length_encodeSection, List.length_append, hfirst]
      have hmod : (7 + rest.length) % 7 = rest.length % 7 := by omega
      have hdiv : (7 + rest.length) / 7 = rest.length / 7 + 1 := by omega
      rw [hmod, hdiv]
      omega

theorem sysexDecode_sysexEncode (source : List (BitVec 8)) :
    sysexDecode (sysexEncode source) = source := by
  have hlength := length_sysexEncode source
  unfold sysexDecode
  split
  · next hshort =>
      have hempty : source.length = 0 := by
        split at hlength <;> omega
      rw [List.length_eq_zero_iff.mp hempty]
  · have hsections : (chunks 7 source).map (decodeSection ∘ encodeSection) = chunks 7 source := by
      have hblock : ∀ bytes ∈ chunks 7 source,
          (decodeSection ∘ encodeSection) bytes = id bytes := fun bytes hmem =>
        decodeSection_encodeSection (length_le_of_mem_chunks (by omega) hmem)
      rw [List.map_congr_left hblock, List.map_id]
    rw [chunks_sysexEncode, List.flatMap_def, List.map_map, hsections, flatten_chunks (by omega)]

/-- A payload whose encoding has a length of sixteen bits comes back, and travels in data bytes. -/
theorem sysex_roundTrip (source : List (BitVec 8))
    (hfits : (sysexEncode source).length < 65536) :
    sysexDecode (sysexEncode source) = source ∧
      (∀ byte ∈ sysexEncode source, IsData byte) ∧
      (sysexEncode source).length = sysexEncodedLength source.length ∧
      sysexDecodedLength (sysexEncode source).length = source.length := by
  have hlength := length_sysexEncode source
  refine ⟨sysexDecode_sysexEncode source, fun byte => isData_of_mem_sysexEncode, ?_, ?_⟩
  · unfold sysexEncodedLength
    split at hlength <;> split <;> omega
  · unfold sysexDecodedLength
    rw [hlength] at hfits ⊢
    by_cases hexact : source.length % 7 = 0
    · rw [if_pos hexact] at hfits ⊢
      rw [if_neg (by omega)]
      omega
    · rw [if_neg hexact] at hfits ⊢
      have hdiv : (source.length / 7 * 8 + (source.length % 7 + 1)) / 8 = source.length / 7 := by
        omega
      have hmod : (source.length / 7 * 8 + (source.length % 7 + 1)) % 8 = source.length % 7 + 1 := by
        omega
      rw [hdiv, hmod, if_pos (Nat.succ_ne_zero _), Nat.add_sub_assoc (by omega), Nat.add_sub_cancel]
      omega

theorem eightBytes_roundTrip :
    let source : List (BitVec 8) := [0xFF, 0, 0x80, 1, 2, 3, 0x84, 0x95]
    sysexDecode (sysexEncode source) = source ∧
      (∀ byte ∈ sysexEncode source, IsData byte) ∧
      (sysexEncode source).length = sysexEncodedLength source.length ∧
      sysexDecodedLength (sysexEncode source).length = source.length :=
  sysex_roundTrip _ (by decide)

end Qmk.Midi.Sysex
