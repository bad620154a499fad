import Qmk.LegacyEeprom.Store
import Qmk.Lib.Run

/-!
# The writing functions

A direct entry needs a log without entries for its word, and leaves it so.  An
entry of the log may only be appended for a word whose compacted cell is
programmed.
-/

namespace Qmk.LegacyEeprom

open Qmk.Lib

variable {c : Config} {old : Nat → UInt8} {s : State} {address : UInt16}

/-! ## Direct entries -/

@[simp] theorem flashProgramHalfWord_dataBuf (i : Nat) (data : UInt16)
    (s : State) : (flashProgramHalfWord i data s).2.dataBuf = s.dataBuf := rfl

@[simp] theorem advance_dataBuf (s : State) : s.advance.dataBuf = s.dataBuf := rfl

theorem eepromWriteDirectEntry_programmed
    (h : s.flash (address.toNat / 2) ≠ feeEmptyWord) :
    eepromWriteDirectEntry address s = (.none, s) := by
  simp only [eepromWriteDirectEntry, alignedAddress_toNat,
    Nat.mul_div_cancel _ (Nat.zero_lt_two), h, if_false]

@[simp] theorem eepromWriteDirectEntry_dataBuf (address : UInt16) (s : State) :
    (eepromWriteDirectEntry address s).2.dataBuf = s.dataBuf := by
  unfold eepromWriteDirectEntry
  dsimp only
  split_ifs <;> rfl

theorem eepromWriteDirectEntry_stores (hlive : Live c s.flash old s.emptySlot)
    (haddress : address.toNat < c.densityBytes)
    (hempty : s.flash (address.toNat / 2) = feeEmptyWord)
    (hsame : ∀ a < c.densityBytes, a / 2 ≠ address.toNat / 2 →
      s.dataBuf a = old a) :
    (eepromWriteDirectEntry address s).1 ≠ .none ∧
      Stores c old s.dataBuf s (eepromWriteDirectEntry address s).2 := by
  have hafter := hlive.direct (address_lt_base haddress) hempty hsame
  simp only [eepromWriteDirectEntry, alignedAddress_toNat, hempty, if_true,
    Nat.mul_div_cancel _ (Nat.zero_lt_two)]
  split_ifs with hvalue
  · rw [hvalue, ← hempty, Function.update_eq_self] at hafter
    exact ⟨by simp, .none hafter⟩
  · refine ⟨by simp [flashProgramHalfWord, hempty], ?_⟩
    refine .one hlive ?_ rfl rfl
    rwa [program_apply hempty]

/-! ## Byte entries of the log -/

theorem Live.empty {contents : Nat → UInt8} {flash : Nat → UInt16} {slot : Nat}
    (h : Live c flash contents slot) {i : Nat} (hi : slot ≤ i)
    (hlt : i < c.writeLogLast) : flash i = feeEmptyWord := by
  obtain ⟨entries, himage, -⟩ := h
  exact himage.free i hi hlt

theorem Live.base_le {contents : Nat → UInt8} {flash : Nat → UInt16}
    {slot : Nat} (h : Live c flash contents slot) : c.writeLogBase ≤ slot := by
  obtain ⟨entries, himage, -⟩ := h
  exact himage.holds.le

theorem eepromWriteLogByteEntry_full (h : c.writeLogLast ≤ s.emptySlot) :
    eepromWriteLogByteEntry c address s = eepromCompact c s := by
  rw [eepromWriteLogByteEntry, if_pos h]

theorem eepromWriteLogByteEntry_append (h : s.emptySlot < c.writeLogLast) :
    (eepromWriteLogByteEntry c address s).2 =
      (s.record (.program s.emptySlot
        ((address <<< 8) ||| (s.dataBuf address.toNat).toUInt16))).advance := by
  rw [eepromWriteLogByteEntry, if_neg (by omega)]
  rfl

@[simp] theorem eepromWriteLogByteEntry_dataBuf (address : UInt16) (s : State) :
    (eepromWriteLogByteEntry c address s).2.dataBuf = s.dataBuf := by
  rcases Nat.lt_or_ge s.emptySlot c.writeLogLast with hlt | hge
  · rw [eepromWriteLogByteEntry_append hlt]
    rfl
  · rw [eepromWriteLogByteEntry_full hge, eepromCompact_dataBuf]

theorem byteEntry_holds {flash : Nat → UInt16} {slot : Nat} (value : UInt8)
    (hslot : slot < c.writeLogLast) (haddress : address.toNat < 128) :
    Holds c (Function.update flash slot ((address <<< 8) ||| value.toUInt16))
      slot [⟨address.toNat, [value]⟩] (slot + 1) := by
  have hself := Function.update_self slot
    ((address <<< 8) ||| value.toUInt16) flash
  have hone := Holds.one hslot (hself ▸ byteEntry_ne_empty haddress value)
  rwa [entryAt_byte haddress hself] at hone

theorem eepromWriteLogByteEntry_appends (hlive : Live c s.flash old s.emptySlot)
    (hslot : s.emptySlot < c.writeLogLast) (haddress : address.toNat < 128)
    (hcell : s.flash (address.toNat / 2) ≠ feeEmptyWord) :
    Stores c old
      (storeByte old address.toNat (s.dataBuf address.toNat)) s
      (eepromWriteLogByteEntry c address s).2 := by
  have hempty := hlive.empty (Nat.le_refl _) hslot
  rw [eepromWriteLogByteEntry_append hslot]
  refine .one hlive ?_ rfl rfl
  rw [program_apply hempty]
  refine hlive.append (fun i hi => Function.update_of_ne (by omega) _ _)
    (byteEntry_holds (s.dataBuf address.toNat) hslot haddress) hslot
    (fun i hi hlt => ?_) ?_
  · rw [Function.update_of_ne (by omega)]
    exact hlive.empty (by omega) hlt
  · simpa [Settled] using hcell

theorem eepromWriteLogByteEntry_stores (hlive : Live c s.flash old s.emptySlot)
    (haddress : address.toNat < 128)
    (hcell : s.emptySlot < c.writeLogLast →
      s.flash (address.toNat / 2) ≠ feeEmptyWord)
    (hsame : ∀ a < c.densityBytes, a ≠ address.toNat → s.dataBuf a = old a) :
    Stores c old s.dataBuf s (eepromWriteLogByteEntry c address s).2 := by
  rcases Nat.lt_or_ge s.emptySlot c.writeLogLast with hlt | hge
  · refine (eepromWriteLogByteEntry_appends hlive hlt haddress (hcell hlt)).congr
      fun a ha => ?_
    by_cases haddr : a = address.toNat
    · rw [haddr]
      exact overlay_inside old _ [s.dataBuf address.toNat] (i := 0) (by simp)
    · rw [hsame a ha haddr]
      exact overlay_outside old _ (by simp; omega)
  · rw [eepromWriteLogByteEntry_full hge]
    exact eepromCompact_stores old s

/-! ## Word entries of the log -/

theorem encodedEntry_holds {flash : Nat → UInt16} {slot : Nat} {value : UInt16}
    (hslot : slot < c.writeLogLast) (haddress : address.toNat < c.densityBytes)
    (heven : address.toNat % 2 = 0) (hvalue : value ≤ 1)
    (hflash : flash slot =
      (address >>> 1) ||| (feeWordEncoding ||| (value <<< 13))) :
    Holds c flash slot [⟨address.toNat, wordBytes value⟩] (slot + 1) := by
  have hdensity := c.densityBytes_le
  have hne := @encodedEntry_ne_empty address value (by omega) hvalue
  have hone := Holds.one hslot (hflash ▸ hne)
  rwa [entryAt_encoded haddress heven hvalue hflash] at hone

theorem nextHeader_holds {flash : Nat → UInt16} {slot : Nat}
    (hslot : slot + 1 < c.writeLogLast) (hge : 128 ≤ address.toNat)
    (haddress : address.toNat < c.densityBytes)
    (hflash : flash slot = nextHeader address)
    (hempty : flash (slot + 1) = feeEmptyWord) :
    Holds c flash slot [] (slot + 2) := by
  have hdensity := c.densityBytes_le
  have hne := nextHeader_ne_empty hge (by omega)
  have hone := @Holds.one c flash slot (by omega)
    (hflash ▸ hne)
  rwa [entryAt_hole hge (by omega) hslot hflash hempty] at hone

theorem nextEntry_holds {flash : Nat → UInt16} {slot : Nat} {value : UInt16}
    (hslot : slot + 1 < c.writeLogLast) (hge : 128 ≤ address.toNat)
    (haddress : address.toNat < c.densityBytes)
    (heven : address.toNat % 2 = 0) (hvalue : value ≠ 0)
    (hflash : flash slot = nextHeader address)
    (hnext : flash (slot + 1) = ~~~ value) :
    Holds c flash slot [⟨address.toNat, wordBytes value⟩] (slot + 2) := by
  have hdensity := c.densityBytes_le
  have hne := nextHeader_ne_empty hge (by omega)
  have hone := @Holds.one c flash slot (by omega)
    (hflash ▸ hne)
  rwa [entryAt_next hge haddress heven hvalue hslot hflash hnext] at hone

/-- The three ways of `eeprom_write_log_word_entry`. -/
theorem eepromWriteLogWordEntry_cases (c : Config) (address : UInt16)
    (s : State) :
    (eepromWriteLogWordEntry c address s).2 = (eepromCompact c s).2 ∨
    (loadWord s.dataBuf address.toNat ≤ 1 ∧ s.emptySlot < c.writeLogLast ∧
      (eepromWriteLogWordEntry c address s).2 =
        (s.record (.program s.emptySlot ((address >>> 1) |||
          (feeWordEncoding |||
            (loadWord s.dataBuf address.toNat <<< 13))))).advance) ∨
    (loadWord s.dataBuf address.toNat ≠ 0 ∧ s.emptySlot + 1 < c.writeLogLast ∧
      (eepromWriteLogWordEntry c address s).2 =
        ((s.record (.program s.emptySlot (nextHeader address))).advance.record
          (.program (s.emptySlot + 1)
            (~~~ loadWord s.dataBuf address.toNat))).advance) := by
  unfold eepromWriteLogWordEntry
  by_cases hvalue : loadWord s.dataBuf address.toNat ≤ 1
  · have hencoding : ¬ feeWordEncoding ||| (loadWord s.dataBuf address.toNat <<< 13) =
        feeWordEncoding ||| feeValueNext := by
      rcases le_one_cases hvalue with h | h <;> rw [h] <;> decide
    simp only [hvalue, if_true, hencoding, if_false]
    split_ifs with hroom
    · exact .inl rfl
    · exact .inr (.inl ⟨trivial, by omega, rfl⟩)
  · have hne : loadWord s.dataBuf address.toNat ≠ 0 := by
      intro h
      exact hvalue (by rw [h]; decide)
    simp only [hvalue, if_false, if_true]
    by_cases hroom : 2 * c.writeLogLast < 2 * s.emptySlot + 4
    · exact .inl (by rw [if_pos hroom])
    · rw [if_neg hroom]
      exact .inr (.inr ⟨hne, by omega, rfl⟩)

@[simp] theorem eepromWriteLogWordEntry_dataBuf (address : UInt16) (s : State) :
    (eepromWriteLogWordEntry c address s).2.dataBuf = s.dataBuf := by
  rcases eepromWriteLogWordEntry_cases c address s with
    h | ⟨-, -, h⟩ | ⟨-, -, h⟩
  · rw [h, eepromCompact_dataBuf]
  · rw [h]
    rfl
  · rw [h]
    rfl

theorem storeWord_loadWord_eq {new : Nat → UInt8}
    (heven : address.toNat % 2 = 0)
    (hsame : ∀ a < c.densityBytes, a / 2 ≠ address.toNat / 2 → new a = old a) :
    ∀ a < c.densityBytes,
      overlay old address.toNat (wordBytes (loadWord new address.toNat)) a =
        new a := by
  intro a ha
  rw [wordBytes_loadWord]
  by_cases hword : a / 2 = address.toNat / 2
  · have hbyte : a = address.toNat ∨ a = address.toNat + 1 := by omega
    rcases hbyte with rfl | rfl
    · exact overlay_inside old _ [_, _] (i := 0) (by simp)
    · exact overlay_inside old _ [_, _] (i := 1) (by simp)
  · rw [hsame a ha hword]
    exact overlay_outside old _ (by simp; omega)

theorem eepromWriteLogWordEntry_stores (hlive : Live c s.flash old s.emptySlot)
    (hge : 128 ≤ address.toNat) (haddress : address.toNat < c.densityBytes)
    (heven : address.toNat % 2 = 0)
    (hcell : s.flash (address.toNat / 2) ≠ feeEmptyWord)
    (hsame : ∀ a < c.densityBytes, a / 2 ≠ address.toNat / 2 →
      s.dataBuf a = old a) :
    Stores c old s.dataBuf s (eepromWriteLogWordEntry c address s).2 := by
  have hnew := storeWord_loadWord_eq heven hsame
  have hsettled : Settled s.flash
      [⟨address.toNat, wordBytes (loadWord s.dataBuf address.toNat)⟩] := by
    simpa [Settled] using hcell
  rcases eepromWriteLogWordEntry_cases c address s with
    h | ⟨hvalue, hslot, h⟩ | ⟨hvalue, hslot, h⟩
  · rw [h]
    exact eepromCompact_stores old s
  · have hempty := hlive.empty (Nat.le_refl _) hslot
    rw [h]
    refine (Stores.one hlive ?_ rfl rfl).congr hnew
    rw [program_apply hempty]
    refine hlive.append (fun i hi => Function.update_of_ne (by omega) _ _)
      (encodedEntry_holds hslot haddress heven hvalue
        (Function.update_self _ _ _)) hslot (fun i hi hlt => ?_) hsettled
    rw [Function.update_of_ne (by omega)]
    exact hlive.empty (by omega) hlt
  · have hempty := hlive.empty (Nat.le_refl _) (by omega)
    have hempty' := hlive.empty (i := s.emptySlot + 1) (by omega) hslot
    -- after the header alone the two slots are a hole that replay skips
    let header := Function.update s.flash s.emptySlot (nextHeader address)
    have hheader : header (s.emptySlot + 1) = feeEmptyWord := by
      rw [← hempty']
      exact Function.update_of_ne (by omega) _ _
    have hhole : Live c header old (s.emptySlot + 2) := by
      have hholds : Holds c header s.emptySlot [] (s.emptySlot + 2) :=
        nextHeader_holds hslot hge haddress (Function.update_self _ _ _) hheader
      exact hlive.append (fun i hi => Function.update_of_ne (by omega) _ _) hholds
        hslot (fun i hi hlt => (Function.update_of_ne (by omega) _ _).trans
          (hlive.empty (by omega) hlt)) (by simp [Settled])
    let both := Function.update header (s.emptySlot + 1)
      (~~~ loadWord s.dataBuf address.toNat)
    have hboth : Live c both s.dataBuf (s.emptySlot + 2) := by
      refine Live.congr (hlive.append (fun i hi => ?_)
        (nextEntry_holds hslot hge haddress heven hvalue ?_
          (Function.update_self _ _ _)) hslot (fun i hi hlt => ?_) hsettled) hnew
      · exact (Function.update_of_ne (by omega) _ _).trans
          (Function.update_of_ne (by omega) _ _)
      · exact (Function.update_of_ne (by omega) _ _).trans
          (Function.update_self _ _ _)
      · exact (Function.update_of_ne (by omega) _ _).trans
          ((Function.update_of_ne (by omega) _ _).trans
            (hlive.empty (by omega) hlt))
    have hfirst := @program_apply _ _ (nextHeader address) hempty
    have hsecond := @program_apply _ _
      (~~~ loadWord s.dataBuf address.toNat) hheader
    rw [h]
    refine ⟨?_, Path.trans (t := (s.record
      (.program s.emptySlot (nextHeader address))).advance) ?_ ?_⟩
    · simp only [State.record, State.advance, hfirst]
      rw [hsecond]
      exact hboth
    · refine .one hlive.recovers_old ?_ rfl rfl
      rw [hfirst]
      exact hhole.recovers_old
    · refine .one ?_ ?_ rfl rfl
      · simp only [State.record, State.advance, hfirst]
        exact hhole.recovers_old
      · simp only [State.record, State.advance, hfirst]
        rw [hsecond]
        exact hboth.recovers_new

end Qmk.LegacyEeprom
