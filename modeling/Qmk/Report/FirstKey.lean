import Qmk.Report.Keys

/-!
# The first key of a report

In the array the first key is the one in slot 0.  In the bitmap it is the highest code
of the first byte that is not zero; without such a byte the loop reads behind the end.
-/

namespace Qmk.Report

open Qmk.Lib

/-- `biton`: the highest bit that is set. -/
def biton (bits : UInt8) : UInt8 :=
  let n : UInt8 := 0
  let step := fun (shift : UInt8) (s : UInt8 × UInt8) =>
    if s.1 >>> shift ≠ 0 then (s.1 >>> shift, s.2 + shift) else s
  (step 1 (step 2 (step 4 (bits, n)))).2

/-- The loop of `get_first_key`. -/
def firstByte (bits : Vector UInt8 nkroReportBits) : Nat := bits.toList.findIdx (· ≠ 0)

/-- `beyond` is the byte behind the bitmap. -/
def getFirstKey (nkro : Bool) (beyond : UInt8) (reports : Reports) : UInt8 :=
  if nkro then
    let i := firstByte reports.bits
    UInt8.ofNat i <<< 3 ||| biton (reports.bits.toList.getD i beyond)
  else
    reports.keys[0]

/-- `get_first_key` gives a pressed key when there is one, and nothing otherwise. -/
structure FindsPressed (nkro : Bool) (beyond : UInt8) (reports : Reports) : Prop where
  iff : getFirstKey nkro beyond reports ≠ 0 ↔ hasAnykey nkro reports ≠ 0
  pressed : getFirstKey nkro beyond reports ≠ 0 →
    isKeyPressed nkro reports (getFirstKey nkro beyond reports) = true

/-- Slot 0 of the array is taken, or no slot is. -/
def FirstSlotTaken (reports : Reports) : Prop :=
  reports.keys[0] ≠ 0 ∨ ∀ key ∈ reports.keys.toList, key = 0

/-- A bit of the bitmap is set, and that of `KC_NO` is not the only one of its byte. -/
def FirstByteMeant (reports : Reports) : Prop :=
  (∃ byte ∈ reports.bits.toList, byte ≠ 0) ∧ reports.bits[0] ≠ 1

/-! ## The array -/

theorem findsPressed_array (beyond : UInt8) (reports : Reports) :
    FindsPressed false beyond reports ↔ FirstSlotTaken reports := by
  have hfirst : getFirstKey false beyond reports = reports.keys[0] := rfl
  have hmem : reports.keys[0] ∈ reports.keys.toList := by simp
  have hany := hasAnykey_ne_zero_iff false reports
  rw [if_neg Bool.false_ne_true] at hany
  constructor
  · rintro ⟨hiff, -⟩
    rw [hfirst, hany] at hiff
    by_cases hzero : reports.keys[0] = 0
    · refine .inr fun key hkey => ?_
      by_contra hne
      exact hiff.mpr ⟨key, hkey, hne⟩ hzero
    · exact .inl hzero
  · intro h
    refine ⟨?_, fun hne => ?_⟩
    · rw [hfirst, hany]
      refine ⟨fun hne => ⟨_, hmem, hne⟩, fun ⟨key, hkey, hne⟩ => ?_⟩
      exact h.resolve_right fun hall => hne (hall key hkey)
    · rw [hfirst] at hne ⊢
      rw [isKeyPressed, if_neg hne, if_neg Bool.false_ne_true]
      exact List.any_eq_true.mpr ⟨_, hmem, beq_self_eq_true _⟩

/-! ## The bitmap -/

theorem biton_lt (byte : UInt8) : (biton byte).toNat < 8 := by
  have hall : ∀ n < 256, (biton (UInt8.ofNat n)).toNat < 8 := by decide +kernel
  have h := hall byte.toNat byte.toNat_lt
  rw [UInt8.ofNat_toNat] at h
  exact h

theorem biton_set {byte : UInt8} (hne : byte ≠ 0) :
    byte.toBitVec.getLsbD (biton byte).toNat = true := by
  have hall : ∀ n < 256, n ≠ 0 →
      (UInt8.ofNat n).toBitVec.getLsbD (biton (UInt8.ofNat n)).toNat = true := by
    decide +kernel
  have h := hall byte.toNat byte.toNat_lt fun hzero => hne (UInt8.toNat_inj.mp hzero)
  rw [UInt8.ofNat_toNat] at h
  exact h

theorem biton_eq_zero_iff {byte : UInt8} (hne : byte ≠ 0) : biton byte = 0 ↔ byte = 1 := by
  have hall : ∀ n < 256, n ≠ 0 →
      (biton (UInt8.ofNat n) = 0 ↔ UInt8.ofNat n = 1) := by
    decide +kernel
  have h := hall byte.toNat byte.toNat_lt fun hzero => hne (UInt8.toNat_inj.mp hzero)
  rw [UInt8.ofNat_toNat] at h
  exact h

theorem code_toNat {i : Nat} {bit : UInt8} (hi : i ≤ nkroReportBits) (hbit : bit.toNat < 8) :
    (UInt8.ofNat i <<< 3 ||| bit).toNat = 8 * i + bit.toNat := by
  have hall : ∀ i < 31, ∀ n < 8,
      (UInt8.ofNat i <<< 3 ||| UInt8.ofNat n).toNat = 8 * i + n := by
    decide +kernel
  have h := hall i (Nat.lt_succ_of_le hi) bit.toNat hbit
  rw [UInt8.ofNat_toNat] at h
  exact h

variable {reports : Reports}

theorem firstByte_le : firstByte reports.bits ≤ nkroReportBits :=
  Nat.le_trans List.findIdx_le_length (Nat.le_of_eq Vector.length_toList)

theorem getFirstKey_toNat (beyond : UInt8) (reports : Reports) :
    (getFirstKey true beyond reports).toNat = 8 * firstByte reports.bits +
      (biton (reports.bits.toList.getD (firstByte reports.bits) beyond)).toNat :=
  code_toNat firstByte_le (biton_lt _)

theorem getFirstKey_of_empty (beyond : UInt8)
    (hempty : ∀ byte ∈ reports.bits.toList, byte = 0) :
    getFirstKey true beyond reports ≠ 0 := by
  have hend : firstByte reports.bits = 30 := by
    refine (List.findIdx_eq_length.mpr fun byte hbyte => ?_).trans Vector.length_toList
    rw [hempty byte hbyte]
    rfl
  intro hzero
  have htoNat := getFirstKey_toNat beyond reports
  rw [hzero, hend, UInt8.toNat_zero] at htoNat
  omega

theorem firstByte_some (hany : ∃ byte ∈ reports.bits.toList, byte ≠ 0) :
    ∃ h : firstByte reports.bits < nkroReportBits,
      reports.bits[firstByte reports.bits] ≠ 0 ∧
        ∀ j (hj : j < firstByte reports.bits), reports.bits[j] = 0 := by
  obtain ⟨byte, hmem, hne⟩ := hany
  have hlt : firstByte reports.bits < reports.bits.toList.length :=
    List.findIdx_lt_length_of_exists ⟨byte, hmem, decide_eq_true hne⟩
  have hlt' : firstByte reports.bits < nkroReportBits :=
    Nat.lt_of_lt_of_eq hlt Vector.length_toList
  refine ⟨hlt', ?_, fun j hj => ?_⟩
  · have hfound : reports.bits.toList[firstByte reports.bits] ≠ 0 :=
      of_decide_eq_true (List.findIdx_getElem (w := hlt))
    rw [Vector.getElem_toList] at hfound
    exact hfound
  · have hbefore := List.not_of_lt_findIdx hj
    rw [Vector.getElem_toList] at hbefore
    exact Decidable.not_not.mp (of_decide_eq_false hbefore)

theorem isKeyPressed_firstKey (beyond : UInt8)
    (hany : ∃ byte ∈ reports.bits.toList, byte ≠ 0)
    (hne : getFirstKey true beyond reports ≠ 0) :
    isKeyPressed true reports (getFirstKey true beyond reports) = true := by
  obtain ⟨hlt, hbyte, -⟩ := firstByte_some hany
  have htoNat := getFirstKey_toNat beyond reports
  have hlength : firstByte reports.bits < reports.bits.toList.length :=
    Nat.lt_of_lt_of_eq hlt Vector.length_toList.symm
  rw [List.getD_eq_getElem?_getD, List.getElem?_eq_getElem hlength, Option.getD_some,
    Vector.getElem_toList] at htoNat
  have hbit := biton_lt reports.bits[firstByte reports.bits]
  have hdiv : (getFirstKey true beyond reports >>> 3).toNat = firstByte reports.bits := by
    rw [codeByte_toNat, htoNat]
    omega
  have hmod : (getFirstKey true beyond reports).toNat % 8 =
      (biton reports.bits[firstByte reports.bits]).toNat := by
    rw [htoNat]
    omega
  have hrange : (getFirstKey true beyond reports >>> 3).toNat < nkroReportBits := by
    rw [hdiv]
    exact hlt
  rw [isKeyPressed, if_neg hne, if_pos rfl, dif_pos hrange, decide_eq_true_eq,
    and_codeMask_ne_zero]
  simp only [hdiv]
  rw [codeBit, hmod]
  exact biton_set hbyte

theorem findsPressed_bitmap (beyond : UInt8) (reports : Reports) :
    FindsPressed true beyond reports ↔ FirstByteMeant reports := by
  have hany := hasAnykey_ne_zero_iff true reports
  rw [if_pos rfl] at hany
  by_cases hsome : ∃ byte ∈ reports.bits.toList, byte ≠ 0
  · obtain ⟨hlt, hbyte, hbefore⟩ := firstByte_some hsome
    have htoNat := getFirstKey_toNat beyond reports
    have hlength : firstByte reports.bits < reports.bits.toList.length :=
      Nat.lt_of_lt_of_eq hlt Vector.length_toList.symm
    rw [List.getD_eq_getElem?_getD, List.getElem?_eq_getElem hlength, Option.getD_some,
      Vector.getElem_toList] at htoNat
    -- only the bit of `KC_NO` gives the code 0
    have hcode : getFirstKey true beyond reports ≠ 0 ↔ reports.bits[0] ≠ 1 := by
      refine not_congr ⟨fun hzero => ?_, fun hone => ?_⟩
      · rw [hzero, UInt8.toNat_zero] at htoNat
        have hfirst : firstByte reports.bits = 0 := by omega
        have hbit : biton reports.bits[firstByte reports.bits] = 0 :=
          UInt8.toNat_inj.mp (by rw [UInt8.toNat_zero]; omega)
        have hone := (biton_eq_zero_iff hbyte).mp hbit
        simp only [hfirst] at hone
        exact hone
      · have hfirst : firstByte reports.bits = 0 := by
          by_contra hne
          have hzero := hbefore 0 (Nat.pos_of_ne_zero hne)
          rw [hone] at hzero
          exact absurd hzero (by decide)
        simp only [hfirst, hone] at htoNat
        exact UInt8.toNat_inj.mp htoNat
    constructor
    · intro h
      exact ⟨hsome, hcode.mp (h.iff.mpr (hany.mpr hsome))⟩
    · rintro ⟨-, hmeant⟩
      have hne := hcode.mpr hmeant
      exact ⟨iff_of_true hne (hany.mpr hsome), fun _ => isKeyPressed_firstKey beyond hsome hne⟩
  · have hzero : ∀ byte ∈ reports.bits.toList, byte = 0 := fun byte hbyte =>
      Decidable.byContradiction fun hne => hsome ⟨byte, hbyte, hne⟩
    refine iff_of_false (fun h => ?_) fun h => hsome h.1
    exact hsome (hany.mp (h.iff.mp (getFirstKey_of_empty beyond hzero)))

/-! ## Runs -/

/-- Where the first key of a report stands for a key that is pressed. -/
def Meant (nkro : Bool) (reports : Reports) : Prop :=
  if nkro then FirstByteMeant reports else FirstSlotTaken reports

/-- After any calls, the first key is found just when the array has no gap in front or
the bitmap a code other than `KC_NO`. -/
theorem getFirstKey_finds (nkro : Bool) (beyond : UInt8) (operations : List Operation) :
    FindsPressed nkro beyond (run (perform nkro) Reports.empty operations) ↔
      Meant nkro (run (perform nkro) Reports.empty operations) := by
  cases nkro with
  | false => exact findsPressed_array beyond _
  | true => exact findsPressed_bitmap beyond _

/-- The key pressed first is released first. -/
theorem released_leaves_gap :
    ¬ ∀ (nkro : Bool) (beyond : UInt8) (operations : List Operation),
      FindsPressed nkro beyond (run (perform nkro) Reports.empty operations) := by
  intro h
  have hmeant := (findsPressed_array 0 _).mp (h false 0 [.add 4, .add 5, .del 4])
  unfold FirstSlotTaken at hmeant
  exact absurd hmeant (by decide +kernel)

end Qmk.Report
