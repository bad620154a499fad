import Mathlib.Data.Finset.Card
import Mathlib.Data.UInt
import Qmk.Lib.Run

/-!
# Keyboard reports

The keys of the two keyboard reports of `report.c`: an array of six key codes, or a
bitmap of all codes when the host takes the N-key rollover report.
-/

namespace Qmk.Report

open Qmk.Lib

abbrev keyboardReportKeys : Nat := 6

/-- `NKRO_REPORT_BITS`: the bytes of the bitmap. -/
abbrev nkroReportBits : Nat := 30

/-- The keys of `keyboard_report` and the bits of `nkro_report`. -/
structure Reports where
  keys : Vector UInt8 keyboardReportKeys
  bits : Vector UInt8 nkroReportBits

def Reports.empty : Reports := ⟨Vector.replicate _ 0, Vector.replicate _ 0⟩

/-- `has_anykey`; `nkro` is `host_can_send_nkro() && keymap_config.nkro`. -/
def hasAnykey (nkro : Bool) (reports : Reports) : UInt8 :=
  let p := if nkro then reports.bits.toList else reports.keys.toList
  p.foldl (fun cnt byte => if byte ≠ 0 then cnt + 1 else cnt) 0

def isKeyPressed (nkro : Bool) (reports : Reports) (key : UInt8) : Bool :=
  if key = 0 then
    false
  else if nkro then
    if h : (key >>> 3).toNat < nkroReportBits then
      reports.bits[(key >>> 3).toNat] &&& (1 <<< (key &&& 7)) ≠ 0
    else
      false
  else
    reports.keys.toList.any (· == key)

/-- The loop of `add_key_byte`: where it stops, and the first empty slot before. -/
def findSlot (code : UInt8) : List UInt8 → Nat → Option Nat → Nat × Option Nat
  | [], i, empty => (i, empty)
  | key :: keys, i, empty =>
      if key = code then (i, empty)
      else findSlot code keys (i + 1) (if empty = none ∧ key = 0 then some i else empty)

def addKeyByte (keys : Vector UInt8 keyboardReportKeys) (code : UInt8) :
    Vector UInt8 keyboardReportKeys :=
  let found := findSlot code keys.toList 0 none
  if found.1 = keyboardReportKeys then
    match found.2 with
    | some empty => keys.setIfInBounds empty code
    | none => keys
  else
    keys

def delKeyByte (keys : Vector UInt8 keyboardReportKeys) (code : UInt8) :
    Vector UInt8 keyboardReportKeys :=
  keys.map fun key => if key = code then 0 else key

def addKeyBit (bits : Vector UInt8 nkroReportBits) (code : UInt8) :
    Vector UInt8 nkroReportBits :=
  if h : (code >>> 3).toNat < nkroReportBits then
    bits.set (code >>> 3).toNat (bits[(code >>> 3).toNat] ||| (1 <<< (code &&& 7)))
  else
    bits

def delKeyBit (bits : Vector UInt8 nkroReportBits) (code : UInt8) :
    Vector UInt8 nkroReportBits :=
  if h : (code >>> 3).toNat < nkroReportBits then
    bits.set (code >>> 3).toNat (bits[(code >>> 3).toNat] &&& ~~~(1 <<< (code &&& 7)))
  else
    bits

def addKeyToReport (nkro : Bool) (reports : Reports) (key : UInt8) : Reports :=
  if nkro then { reports with bits := addKeyBit reports.bits key }
  else { reports with keys := addKeyByte reports.keys key }

def delKeyFromReport (nkro : Bool) (reports : Reports) (key : UInt8) : Reports :=
  if nkro then { reports with bits := delKeyBit reports.bits key }
  else { reports with keys := delKeyByte reports.keys key }

def clearKeysFromReport (nkro : Bool) (reports : Reports) : Reports :=
  if nkro then { reports with bits := Vector.replicate _ 0 }
  else { reports with keys := Vector.replicate _ 0 }

/-- A call of one of the three functions. -/
inductive Operation where
  | add (key : UInt8)
  | del (key : UInt8)
  | clear
  deriving DecidableEq

def perform (nkro : Bool) (reports : Reports) : Operation → Reports
  | .add key => addKeyToReport nkro reports key
  | .del key => delKeyFromReport nkro reports key
  | .clear => clearKeysFromReport nkro reports

/-- The codes that are held: what both reports are for. -/
def hold (held : Finset UInt8) : Operation → Finset UInt8
  | .add key => insert key held
  | .del key => held.erase key
  | .clear => ∅

section Bitmap

/-- The bit of a code in its byte of the bitmap. -/
def codeBit (byte key : UInt8) : Bool := byte.toBitVec.getLsbD (key.toNat % 8)

theorem codeByte_toNat (key : UInt8) : (key >>> 3).toNat = key.toNat / 8 := by
  simp [Nat.shiftRight_eq_div_pow]

theorem codeMask_toBitVec (key : UInt8) :
    ((1 : UInt8) <<< (key &&& 7)).toBitVec = BitVec.twoPow 8 (key.toNat % 8) := by
  have hmod : key.toNat &&& 7 = key.toNat % 8 := Nat.and_two_pow_sub_one_eq_mod key.toNat 3
  apply BitVec.eq_of_toNat_eq
  simp [hmod, Nat.one_shiftLeft]

theorem and_codeMask_ne_zero (byte key : UInt8) :
    byte &&& ((1 : UInt8) <<< (key &&& 7)) ≠ 0 ↔ codeBit byte key = true := by
  have hlt : key.toNat % 8 < 8 := Nat.mod_lt _ (by decide)
  rw [ne_eq, ← UInt8.toBitVec_inj, UInt8.toBitVec_and, codeMask_toBitVec, BitVec.and_twoPow,
    codeBit]
  cases hbit : byte.toBitVec.getLsbD (key.toNat % 8) with
  | false => simp
  | true =>
      have hmask : (BitVec.twoPow 8 (key.toNat % 8)).getLsbD (key.toNat % 8) = true := by
        simp [hlt]
      simp only [if_true, iff_true]
      intro hzero
      rw [hzero] at hmask
      simp at hmask

theorem codeMask_bit (code key : UInt8) :
    (BitVec.twoPow 8 (code.toNat % 8)).getLsbD (key.toNat % 8) =
      decide (key.toNat % 8 = code.toNat % 8) := by
  have hlt : code.toNat % 8 < 8 := Nat.mod_lt _ (by decide)
  rw [BitVec.getLsbD_twoPow, decide_eq_true hlt, Bool.true_and]
  exact decide_eq_decide.mpr eq_comm

theorem codeBit_or (byte code key : UInt8) :
    codeBit (byte ||| ((1 : UInt8) <<< (code &&& 7))) key =
      (codeBit byte key || decide (key.toNat % 8 = code.toNat % 8)) := by
  rw [codeBit, UInt8.toBitVec_or, codeMask_toBitVec, BitVec.getLsbD_or, codeMask_bit, codeBit]

theorem codeBit_and_not (byte code key : UInt8) :
    codeBit (byte &&& ~~~((1 : UInt8) <<< (code &&& 7))) key =
      (codeBit byte key && !decide (key.toNat % 8 = code.toNat % 8)) := by
  have hlt : key.toNat % 8 < 8 := Nat.mod_lt _ (by decide)
  rw [codeBit, UInt8.toBitVec_and, UInt8.toBitVec_not, codeMask_toBitVec, BitVec.getLsbD_and,
    BitVec.getLsbD_not, codeMask_bit, decide_eq_true hlt, Bool.true_and, codeBit]

theorem byte_ne_zero_iff (byte : UInt8) :
    byte ≠ 0 ↔ ∃ i < 8, byte.toBitVec.getLsbD i = true := by
  constructor
  · intro hne
    by_contra hnone
    refine hne (UInt8.toBitVec_inj.mp (BitVec.eq_of_getLsbD_eq fun i hi => ?_))
    have hclear : ¬byte.toBitVec.getLsbD i = true := fun hbit => hnone ⟨i, hi, hbit⟩
    simpa using hclear
  · rintro ⟨i, _, hbit⟩ rfl
    simp at hbit

/-- A code that the bitmap has room for. -/
def InRange (key : UInt8) : Prop := key.toNat / 8 < nkroReportBits

theorem code_eq_iff {key code : UInt8} :
    key = code ↔ key.toNat / 8 = code.toNat / 8 ∧ key.toNat % 8 = code.toNat % 8 := by
  rw [← UInt8.toNat_inj]
  omega

/-- The bitmap holds exactly the codes of a set. -/
def Marks (bits : Vector UInt8 nkroReportBits) (held : Finset UInt8) : Prop :=
  ∀ key, key ∈ held ↔
    ∃ h : key.toNat / 8 < nkroReportBits, codeBit (bits[key.toNat / 8]) key = true

theorem Marks.add {bits : Vector UInt8 nkroReportBits} {held : Finset UInt8}
    (h : Marks bits held) {code : UInt8} (hcode : InRange code) :
    Marks (addKeyBit bits code) (insert code held) := by
  intro key
  have hrange : (code >>> 3).toNat < nkroReportBits := by
    rw [codeByte_toNat]
    exact hcode
  rw [Finset.mem_insert, h key, code_eq_iff, addKeyBit, dif_pos hrange]
  by_cases hbyte : key.toNat / 8 = code.toNat / 8
  · simp only [codeByte_toNat, hbyte, Vector.getElem_set_self, codeBit_or, Bool.or_eq_true,
      decide_eq_true_eq, true_and]
    have hin : code.toNat / 8 < nkroReportBits := hcode
    simp only [hin, exists_true_left]
    exact or_comm
  · simp only [hbyte, false_and, false_or]
    refine exists_congr fun hkey => ?_
    rw [Vector.getElem_set_ne _ _ (by rw [codeByte_toNat]; exact Ne.symm hbyte)]

theorem Marks.del {bits : Vector UInt8 nkroReportBits} {held : Finset UInt8}
    (h : Marks bits held) {code : UInt8} (hcode : InRange code) :
    Marks (delKeyBit bits code) (held.erase code) := by
  intro key
  have hrange : (code >>> 3).toNat < nkroReportBits := by
    rw [codeByte_toNat]
    exact hcode
  rw [Finset.mem_erase, h key, ne_eq, code_eq_iff, delKeyBit, dif_pos hrange]
  by_cases hbyte : key.toNat / 8 = code.toNat / 8
  · simp only [codeByte_toNat, hbyte, Vector.getElem_set_self, codeBit_and_not,
      Bool.and_eq_true, Bool.not_eq_true', decide_eq_false_iff_not, true_and]
    have hin : code.toNat / 8 < nkroReportBits := hcode
    simp only [hin, exists_true_left]
    exact and_comm
  · simp only [hbyte, false_and, not_false_eq_true, true_and]
    refine exists_congr fun hkey => ?_
    rw [Vector.getElem_set_ne _ _ (by rw [codeByte_toNat]; exact Ne.symm hbyte)]

theorem Marks.clear : Marks (Vector.replicate _ 0) ∅ := by
  intro key
  simp [codeBit]

theorem Marks.isKeyPressed {reports : Reports} {held : Finset UInt8}
    (h : Marks reports.bits held) {key : UInt8} (hkey : key ≠ 0) :
    isKeyPressed true reports key = decide (key ∈ held) := by
  have hmem := h key
  simp only [Report.isKeyPressed, if_neg hkey, if_true, codeByte_toNat, and_codeMask_ne_zero]
  by_cases hin : key.toNat / 8 < nkroReportBits
  · rw [dif_pos hin]
    simp only [hin, exists_true_left] at hmem
    exact decide_eq_decide.mpr hmem.symm
  · rw [dif_neg hin]
    simp only [hin, IsEmpty.exists_iff, iff_false] at hmem
    exact (decide_eq_false hmem).symm

theorem Marks.any_iff {bits : Vector UInt8 nkroReportBits} {held : Finset UInt8}
    (h : Marks bits held) : (∃ byte ∈ bits.toList, byte ≠ 0) ↔ held.Nonempty := by
  constructor
  · rintro ⟨byte, hbyte, hne⟩
    obtain ⟨index, hindex, rfl⟩ := List.getElem_of_mem hbyte
    have hin : index < 30 := by simpa using hindex
    obtain ⟨bit, hbit, hset⟩ := (byte_ne_zero_iff _).mp hne
    have hcode : (UInt8.ofNat (8 * index + bit)).toNat = 8 * index + bit := by
      rw [UInt8.toNat_ofNat']
      omega
    have hdiv : (UInt8.ofNat (8 * index + bit)).toNat / 8 = index := by omega
    have hmod : (UInt8.ofNat (8 * index + bit)).toNat % 8 = bit := by omega
    refine ⟨UInt8.ofNat (8 * index + bit), (h _).mpr ⟨by rw [hdiv]; exact hin, ?_⟩⟩
    simp only [codeBit, hdiv, hmod]
    simpa using hset
  · rintro ⟨key, hkey⟩
    obtain ⟨hin, hbit⟩ := (h key).mp hkey
    refine ⟨bits[key.toNat / 8], by simp, ?_⟩
    exact (byte_ne_zero_iff _).mpr ⟨key.toNat % 8, Nat.mod_lt _ (by decide), hbit⟩

end Bitmap

section Array

/-- The array holds exactly the codes of a set, none of them twice. -/
structure Lists (keys : List UInt8) (held : Finset UInt8) : Prop where
  mem : ∀ key, key ∈ held ↔ key ≠ 0 ∧ key ∈ keys
  nodup : (keys.filter (· ≠ 0)).Nodup

theorem findSlot_of_mem {code : UInt8} {keys : List UInt8} (h : code ∈ keys) (i : Nat)
    (empty : Option Nat) : (findSlot code keys i empty).1 < i + keys.length := by
  induction keys generalizing i empty with
  | nil => cases h
  | cons key keys ih =>
      by_cases hkey : key = code
      · simp [findSlot, hkey]
      · have hrest : code ∈ keys := by
          rcases List.mem_cons.mp h with rfl | hrest
          · exact absurd rfl hkey
          · exact hrest
        have := ih hrest (i + 1) (if empty = none ∧ key = 0 then some i else empty)
        rw [findSlot, if_neg hkey, List.length_cons]
        omega

theorem findSlot_some {code : UInt8} {keys : List UInt8} (h : code ∉ keys) (i slot : Nat) :
    findSlot code keys i (some slot) = (i + keys.length, some slot) := by
  induction keys generalizing i with
  | nil => rfl
  | cons key keys ih =>
      obtain ⟨hkey, hrest⟩ := not_or.mp (mt List.mem_cons.mpr h)
      rw [findSlot, if_neg (Ne.symm hkey), if_neg (by simp), ih hrest, List.length_cons]
      congr 1
      omega

/-- Without the code, the loop runs to the end and finds the first empty slot. -/
theorem findSlot_of_not_mem {code : UInt8} {keys : List UInt8} (h : code ∉ keys) (i : Nat) :
    (∃ before after, keys = before ++ 0 :: after ∧
      findSlot code keys i none = (i + keys.length, some (i + before.length))) ∨
    (0 ∉ keys ∧ findSlot code keys i none = (i + keys.length, none)) := by
  induction keys generalizing i with
  | nil => exact .inr ⟨by simp, rfl⟩
  | cons key keys ih =>
      obtain ⟨hkey, hrest⟩ := not_or.mp (mt List.mem_cons.mpr h)
      have hlength : i + 1 + keys.length = i + (key :: keys).length := by
        rw [List.length_cons]
        omega
      rw [findSlot, if_neg (Ne.symm hkey)]
      by_cases hempty : key = 0
      · refine .inl ⟨[], keys, by simp [hempty], ?_⟩
        rw [if_pos ⟨rfl, hempty⟩, findSlot_some hrest, hlength]
        rfl
      · rw [if_neg (fun hfree => hempty hfree.2)]
        rcases ih hrest (i + 1) with ⟨before, after, hkeys, hfind⟩ | ⟨hnone, hfind⟩
        · have hslot : i + 1 + before.length = i + (key :: before).length := by
            rw [List.length_cons]
            omega
          exact .inl ⟨key :: before, after, by simp [hkeys], by rw [hfind, hlength, hslot]⟩
        · refine .inr ⟨?_, by rw [hfind, hlength]⟩
          rw [List.mem_cons, not_or]
          exact ⟨Ne.symm hempty, hnone⟩

theorem addKeyByte_of_mem {keys : Vector UInt8 keyboardReportKeys} {code : UInt8}
    (h : code ∈ keys.toList) : addKeyByte keys code = keys := by
  have hlength : keys.toList.length = keyboardReportKeys := Vector.length_toList
  have hstop := findSlot_of_mem h 0 none
  refine if_neg ?_
  omega

/-- A code that is not in the array takes the first empty slot, if there is one. -/
theorem addKeyByte_of_not_mem {keys : Vector UInt8 keyboardReportKeys} {code : UInt8}
    (h : code ∉ keys.toList) :
    (∃ before after, keys.toList = before ++ 0 :: after ∧
      (addKeyByte keys code).toList = before ++ code :: after) ∨
    (0 ∉ keys.toList ∧ addKeyByte keys code = keys) := by
  have hlength : keys.toList.length = keyboardReportKeys := Vector.length_toList
  rcases findSlot_of_not_mem h 0 with ⟨before, after, hkeys, hfind⟩ | ⟨hfull, hfind⟩
  · refine .inl ⟨before, after, hkeys, ?_⟩
    have hset : addKeyByte keys code = keys.setIfInBounds before.length code := by
      simp [addKeyByte, hfind, hlength]
    rw [hset, Vector.toList_setIfInBounds, hkeys]
    simp
  · exact .inr ⟨hfull, by simp [addKeyByte, hfind, hlength]⟩

theorem Lists.card_le {keys : List UInt8} {held : Finset UInt8} (h : Lists keys held) :
    held.card = (keys.filter (· ≠ 0)).length := by
  have hset : held = (keys.filter (· ≠ 0)).toFinset := by
    ext key
    rw [h.mem key, List.mem_toFinset, List.mem_filter, decide_eq_true_eq, and_comm]
  rw [hset, List.toFinset_card_of_nodup h.nodup]

theorem Lists.add {keys : Vector UInt8 keyboardReportKeys} {held : Finset UInt8}
    (h : Lists keys.toList held) {code : UInt8} (hcode : code ≠ 0)
    (hroom : (insert code held).card ≤ keyboardReportKeys) :
    Lists (addKeyByte keys code).toList (insert code held) := by
  by_cases hmem : code ∈ keys.toList
  · have hheld : code ∈ held := (h.mem code).mpr ⟨hcode, hmem⟩
    rw [addKeyByte_of_mem hmem, Finset.insert_eq_of_mem hheld]
    exact h
  · have hfresh : code ∉ held := fun hheld => hmem ((h.mem code).mp hheld).2
    rcases addKeyByte_of_not_mem hmem with ⟨before, after, hkeys, hstored⟩ | ⟨hfull, -⟩
    · have hfilter : (before ++ 0 :: after).filter (· ≠ 0) =
          before.filter (· ≠ 0) ++ after.filter (· ≠ 0) := by simp
      have hfilter' : (before ++ code :: after).filter (· ≠ 0) =
          before.filter (· ≠ 0) ++ code :: after.filter (· ≠ 0) := by simp [hcode]
      rw [hstored]
      constructor
      case mem =>
        intro key
        rw [Finset.mem_insert, h.mem key, hkeys]
        by_cases hkey : key = code
        · simp [hkey, hcode]
        · simp only [hkey, false_or, List.mem_append, List.mem_cons]
          refine and_congr_right fun hne => ?_
          simp [hne]
      case nodup =>
        have hnodup := h.nodup
        rw [hkeys, hfilter] at hnodup
        rw [hfilter', List.nodup_middle, List.nodup_cons]
        refine ⟨fun hin => hmem ?_, hnodup⟩
        rw [hkeys]
        simp only [List.mem_append, List.mem_filter] at hin
        rcases hin with ⟨hin, _⟩ | ⟨hin, _⟩
        · exact List.mem_append_left _ hin
        · exact List.mem_append_right _ (List.mem_cons_of_mem _ hin)
    · -- a full array holds six codes already
      exfalso
      have hall : keys.toList.filter (· ≠ 0) = keys.toList := by
        refine List.filter_eq_self.mpr fun key hkey => ?_
        rw [decide_eq_true_eq]
        rintro rfl
        exact hfull hkey
      have hcard := h.card_le
      rw [hall, Vector.length_toList] at hcard
      rw [Finset.card_insert_of_notMem hfresh] at hroom
      omega

theorem filter_delKeyByte (keys : List UInt8) (code : UInt8) :
    (keys.map fun key => if key = code then 0 else key).filter (· ≠ 0) =
      (keys.filter (· ≠ 0)).filter (· ≠ code) := by
  induction keys with
  | nil => rfl
  | cons key keys ih =>
      rw [List.map_cons, List.filter_cons, List.filter_cons, ih]
      by_cases hcode : key = code
      · subst hcode
        by_cases hzero : key = 0 <;> simp [hzero]
      · by_cases hzero : key = 0 <;> simp [hcode, hzero]

theorem Lists.del {keys : Vector UInt8 keyboardReportKeys} {held : Finset UInt8}
    (h : Lists keys.toList held) (code : UInt8) :
    Lists (delKeyByte keys code).toList (held.erase code) := by
  have hmap : (delKeyByte keys code).toList =
      keys.toList.map fun key => if key = code then 0 else key := Vector.toList_map
  constructor
  case mem =>
    intro key
    rw [Finset.mem_erase, h.mem key, hmap, List.mem_map]
    constructor
    · rintro ⟨hcode, hne, hmem⟩
      exact ⟨hne, key, hmem, if_neg hcode⟩
    · rintro ⟨hne, other, hmem, hother⟩
      by_cases hcode : other = code
      · rw [if_pos hcode] at hother
        exact absurd hother.symm hne
      · rw [if_neg hcode] at hother
        subst hother
        exact ⟨hcode, hne, hmem⟩
  case nodup =>
    rw [hmap, filter_delKeyByte]
    exact h.nodup.filter _

theorem Lists.clear : Lists (Vector.replicate keyboardReportKeys 0).toList ∅ := by
  constructor
  · intro key
    simp
  · decide

theorem Lists.isKeyPressed {reports : Reports} {held : Finset UInt8}
    (h : Lists reports.keys.toList held) {key : UInt8} (hkey : key ≠ 0) :
    isKeyPressed false reports key = decide (key ∈ held) := by
  rw [Bool.eq_iff_iff, decide_eq_true_eq, h.mem key, Report.isKeyPressed, if_neg hkey]
  simp only [Bool.false_eq_true, if_false, List.any_eq_true, beq_iff_eq, exists_eq_right,
    hkey, ne_eq, not_false_eq_true, true_and]

theorem Lists.any_iff {keys : List UInt8} {held : Finset UInt8} (h : Lists keys held) :
    (∃ byte ∈ keys, byte ≠ 0) ↔ held.Nonempty := by
  constructor
  · rintro ⟨key, hmem, hne⟩
    exact ⟨key, (h.mem key).mpr ⟨hne, hmem⟩⟩
  · rintro ⟨key, hkey⟩
    obtain ⟨hne, hmem⟩ := (h.mem key).mp hkey
    exact ⟨key, hmem, hne⟩

end Array

/-- The counter of `has_anykey` has room for every byte. -/
theorem countBytes_toNat (bytes : List UInt8) (cnt : UInt8)
    (hroom : cnt.toNat + bytes.length < 256) :
    (bytes.foldl (fun cnt byte => if byte ≠ 0 then cnt + 1 else cnt) cnt).toNat =
      cnt.toNat + bytes.countP (· ≠ 0) := by
  induction bytes generalizing cnt with
  | nil => rfl
  | cons byte bytes ih =>
      rw [List.length_cons] at hroom
      rw [List.foldl_cons, List.countP_cons]
      by_cases hbyte : byte = 0
      · rw [if_neg (not_not_intro hbyte), ih cnt (by omega)]
        simp [hbyte]
      · have hsucc : (cnt + 1).toNat = cnt.toNat + 1 := by
          rw [UInt8.toNat_add]
          exact Nat.mod_eq_of_lt (by simp; omega)
        rw [if_pos hbyte, ih (cnt + 1) (by omega), hsucc]
        simp [hbyte]
        omega

theorem hasAnykey_ne_zero_iff (nkro : Bool) (reports : Reports) :
    hasAnykey nkro reports ≠ 0 ↔
      ∃ byte ∈ (if nkro then reports.bits.toList else reports.keys.toList), byte ≠ 0 := by
  have hlength : (if nkro then reports.bits.toList else reports.keys.toList).length < 256 := by
    cases nkro with
    | false => exact Vector.length_toList.trans_lt (by decide)
    | true => exact Vector.length_toList.trans_lt (by decide)
  have hcount := countBytes_toNat _ 0 (by rw [UInt8.toNat_zero, Nat.zero_add]; exact hlength)
  have hany : hasAnykey nkro reports ≠ 0 ↔ 0 < (hasAnykey nkro reports).toNat := by
    rw [Nat.pos_iff_ne_zero, ne_eq, ne_eq, ← UInt8.toNat_inj, UInt8.toNat_zero]
  rw [hany, hasAnykey, hcount, UInt8.toNat_zero, Nat.zero_add, List.countP_pos_iff]
  simp only [decide_eq_true_eq]

/-! ## One code at a time -/

section Codes

variable {nkro : Bool} {reports : Reports} {code key : UInt8}

theorem exists_marks (bits : Vector UInt8 nkroReportBits) :
    ∃ held : Finset UInt8, Marks bits held := by
  refine ⟨((List.range 256).map UInt8.ofNat).toFinset.filter fun key =>
    ∃ h : key.toNat / 8 < nkroReportBits, codeBit (bits[key.toNat / 8]) key = true, ?_⟩
  intro key
  have hall : key ∈ ((List.range 256).map UInt8.ofNat).toFinset := by
    rw [List.mem_toFinset, List.mem_map]
    exact ⟨key.toNat, List.mem_range.mpr key.toNat_lt, UInt8.ofNat_toNat⟩
  rw [Finset.mem_filter]
  exact and_iff_right hall

theorem isKeyPressed_array (hkey : key ≠ 0) :
    isKeyPressed false reports key = true ↔ key ∈ reports.keys.toList := by
  rw [isKeyPressed, if_neg hkey, if_neg Bool.false_ne_true, List.any_eq_true]
  simp only [beq_iff_eq, exists_eq_right]

theorem isKeyPressed_ne_zero (h : isKeyPressed nkro reports key = true) : key ≠ 0 := by
  intro hzero
  rw [isKeyPressed, if_pos hzero] at h
  exact Bool.noConfusion h

theorem mem_addKeyByte {keys : Vector UInt8 keyboardReportKeys}
    (h : key ∈ (addKeyByte keys code).toList) : key = code ∨ key ∈ keys.toList := by
  by_cases hmem : code ∈ keys.toList
  · rw [addKeyByte_of_mem hmem] at h
    exact .inr h
  rcases addKeyByte_of_not_mem hmem with ⟨before, after, hkeys, hadded⟩ | ⟨-, hadded⟩
  · rw [hadded] at h
    rw [hkeys]
    simp only [List.mem_append, List.mem_cons] at h ⊢
    tauto
  · rw [hadded] at h
    exact .inr h

theorem mem_delKeyByte {keys : Vector UInt8 keyboardReportKeys} (hkey : key ≠ 0)
    (h : key ∈ (delKeyByte keys code).toList) : key ≠ code ∧ key ∈ keys.toList := by
  rw [delKeyByte, Vector.toList_map, List.mem_map] at h
  obtain ⟨other, hother, hvalue⟩ := h
  split_ifs at hvalue with hcode
  · exact absurd hvalue.symm hkey
  · subst hvalue
    exact ⟨hcode, hother⟩

theorem isKeyPressed_add (hrange : InRange code)
    (h : isKeyPressed nkro (addKeyToReport nkro reports code) key = true) :
    key = code ∨ isKeyPressed nkro reports key = true := by
  have hkey := isKeyPressed_ne_zero h
  cases nkro with
  | false =>
      rw [isKeyPressed_array hkey] at h ⊢
      exact mem_addKeyByte h
  | true =>
      obtain ⟨held, hmarks⟩ := exists_marks reports.bits
      have hadded : Marks (addKeyToReport true reports code).bits (insert code held) :=
        hmarks.add hrange
      rw [hadded.isKeyPressed hkey, decide_eq_true_eq, Finset.mem_insert] at h
      rw [hmarks.isKeyPressed hkey, decide_eq_true_eq]
      exact h

theorem isKeyPressed_del (hrange : InRange code)
    (h : isKeyPressed nkro (delKeyFromReport nkro reports code) key = true) :
    key ≠ code ∧ isKeyPressed nkro reports key = true := by
  have hkey := isKeyPressed_ne_zero h
  cases nkro with
  | false =>
      rw [isKeyPressed_array hkey] at h ⊢
      exact mem_delKeyByte hkey h
  | true =>
      obtain ⟨held, hmarks⟩ := exists_marks reports.bits
      have herased : Marks (delKeyFromReport true reports code).bits (held.erase code) :=
        hmarks.del hrange
      rw [herased.isKeyPressed hkey, decide_eq_true_eq, Finset.mem_erase] at h
      rw [hmarks.isKeyPressed hkey, decide_eq_true_eq]
      exact h

theorem isKeyPressed_clear :
    isKeyPressed nkro (clearKeysFromReport nkro reports) key = false := by
  rw [Bool.eq_false_iff]
  intro h
  have hkey := isKeyPressed_ne_zero h
  cases nkro with
  | false =>
      rw [isKeyPressed_array hkey, clearKeysFromReport] at h
      simp only [Bool.false_eq_true, if_false, Vector.toList_replicate] at h
      exact hkey (List.eq_of_mem_replicate h)
  | true =>
      have hmarks : Marks (clearKeysFromReport true reports).bits ∅ := Marks.clear
      rw [hmarks.isKeyPressed hkey] at h
      simp at h

end Codes

section Runs

/-- The code of the call, if it has one, is a code of the bitmap. -/
def Operation.InRange : Operation → Prop
  | .add key => Report.InRange key
  | .del key => Report.InRange key
  | .clear => True

/-- The call has a code of the bitmap and leaves at most `KEYBOARD_REPORT_KEYS` codes
held. -/
def Fits (held : Finset UInt8) (operation : Operation) : Prop :=
  operation.InRange ∧ (hold held operation).card ≤ keyboardReportKeys

/-- The call fits, and does not add `KC_NO`. -/
def Storable (held : Finset UInt8) (operation : Operation) : Prop :=
  Fits held operation ∧ operation ≠ .add 0

/-- The array and the bitmap both stand for the codes that are held. -/
structure Agrees (held : Finset UInt8) (array bitmap : Reports) : Prop where
  lists : Lists array.keys.toList held
  marks : Marks bitmap.bits held

theorem Agrees.step {held : Finset UInt8} {array bitmap : Reports}
    (h : Agrees held array bitmap) {operation : Operation}
    (hstorable : Storable held operation) :
    Agrees (hold held operation) (perform false array operation)
      (perform true bitmap operation) := by
  obtain ⟨⟨hrange, hroom⟩, hcode⟩ := hstorable
  cases operation with
  | add key =>
      have hkey : key ≠ 0 := fun hzero => hcode (by rw [hzero])
      exact ⟨h.lists.add hkey hroom, h.marks.add hrange⟩
  | del key => exact ⟨h.lists.del key, h.marks.del hrange⟩
  | clear => exact ⟨Lists.clear, Marks.clear⟩

theorem Agrees.steps {held : Finset UInt8} {array bitmap : Reports}
    (h : Agrees held array bitmap) {operations : List Operation}
    (hstorable : Meets hold Storable held operations) :
    Agrees (run hold held operations) (run (perform false) array operations)
      (run (perform true) bitmap operations) := by
  induction operations generalizing held array bitmap with
  | nil => exact h
  | cons operation operations ih => exact ih (h.step hstorable.1) hstorable.2

theorem agrees_empty : Agrees ∅ Reports.empty Reports.empty := ⟨Lists.clear, Marks.clear⟩

/-- While at most six codes are held, the six-key array and the bitmap cannot be told
apart, and the array holds no code twice. -/
theorem reports_agree (operations : List Operation)
    (hstorable : Meets hold Storable ∅ operations) :
    (∀ key, key ≠ 0 →
      isKeyPressed false (run (perform false) Reports.empty operations) key =
        isKeyPressed true (run (perform true) Reports.empty operations) key) ∧
    (hasAnykey false (run (perform false) Reports.empty operations) ≠ 0 ↔
      hasAnykey true (run (perform true) Reports.empty operations) ≠ 0) ∧
    ((run (perform false) Reports.empty operations).keys.toList.filter (· ≠ 0)).Nodup := by
  have hagrees := agrees_empty.steps hstorable
  refine ⟨fun key hkey => ?_, ?_, hagrees.lists.nodup⟩
  · rw [hagrees.lists.isKeyPressed hkey, hagrees.marks.isKeyPressed hkey]
  · rw [hasAnykey_ne_zero_iff, hasAnykey_ne_zero_iff]
    exact hagrees.lists.any_iff.trans hagrees.marks.any_iff.symm

theorem rolledKeys_agree :
    isKeyPressed false (run (perform false) Reports.empty
        [.add 4, .add 5, .del 4, .add 6, .add 5]) 6 =
      isKeyPressed true (run (perform true) Reports.empty
        [.add 4, .add 5, .del 4, .add 6, .add 5]) 6 := by
  refine (reports_agree [.add 4, .add 5, .del 4, .add 6, .add 5] ?_).1 6 (by decide)
  simp only [Meets, Storable, Fits, Operation.InRange, InRange]
  decide

/-- `KC_NO` sets a bit of the bitmap and stores nothing in the array. -/
theorem noKey_parts_reports :
    ¬∀ operations : List Operation, Meets hold Fits ∅ operations →
      (hasAnykey false (run (perform false) Reports.empty operations) ≠ 0 ↔
        hasAnykey true (run (perform true) Reports.empty operations) ≠ 0) := by
  intro h
  have hrange : InRange 0 := by
    simp [InRange]
  have hsame := h [.add 0] ⟨⟨hrange, by decide⟩, trivial⟩
  exact absurd hsame (by decide)

end Runs

end Qmk.Report
