import Qmk.LegacyEeprom.Write

/-!
# Durability

`EEPROM_WriteDataByte` and `EEPROM_WriteDataWord` keep the flash a live image of
the buffer, so that a power cycle rebuilds it.  One write does not: clearing a
word below `FEE_BYTE_RANGE` when its first byte entry makes the driver compact.
The compaction leaves the cell of the word unprogrammed, and the second byte
entry is then appended to the log for it.
-/

namespace Qmk.LegacyEeprom

open Qmk.Lib

variable {c : Config} {old : Nat → UInt8} {s : State} {address : UInt16}

/-! ## What a write means for the buffer -/

/-- The bytes a write is to replace. -/
def Operation.target (c : Config) : Operation → BlockWrite UInt8
  | .byte address value =>
      ⟨address.toNat, if address.toNat < c.densityBytes then [value] else []⟩
  | .word address value =>
      ⟨address.toNat,
        if address.toNat < c.densityBytes then wordBytes value else []⟩

/--
The write clears a word of two nonzero bytes below `FEE_BYTE_RANGE` that the
compacted area holds, and the log is full.
-/
def Operation.SplitsZero (c : Config) (s : State) : Operation → Prop
  | .byte _ _ => False
  | .word address value =>
      address.toNat % 2 = 0 ∧ address.toNat < 128 ∧ value = 0 ∧
        s.dataBuf address.toNat ≠ 0 ∧ s.dataBuf (address.toNat + 1) ≠ 0 ∧
        s.flash (address.toNat / 2) ≠ feeEmptyWord ∧
        s.emptySlot = c.writeLogLast ∧ c.writeLogBase < c.writeLogLast

instance (c : Config) (s : State) (op : Operation) :
    Decidable (op.SplitsZero c s) :=
  match op with
  | .byte _ _ => inferInstanceAs (Decidable False)
  | .word _ _ => inferInstanceAs (Decidable (_ ∧ _))

/-! ## Byte writes -/

theorem eepromWriteDirectEntry_empty
    (h : s.flash (address.toNat / 2) = feeEmptyWord) :
    (eepromWriteDirectEntry address s).1 ≠ .none := by
  simp only [eepromWriteDirectEntry, alignedAddress_toNat,
    Nat.mul_div_cancel _ (Nat.zero_lt_two), h, if_true]
  split_ifs
  · simp
  · simp [flashProgramHalfWord, h]

theorem direct_or_log {s : State} (log : State → FlashStatus × State) :
    (if (eepromWriteDirectEntry address s).1 = .none then
        log (eepromWriteDirectEntry address s).2
      else eepromWriteDirectEntry address s) =
      if s.flash (address.toNat / 2) = feeEmptyWord then
        eepromWriteDirectEntry address s
      else log s := by
  by_cases hempty : s.flash (address.toNat / 2) = feeEmptyWord
  · rw [if_neg (eepromWriteDirectEntry_empty hempty), if_pos hempty]
  · rw [eepromWriteDirectEntry_programmed hempty, if_pos rfl, if_neg hempty]

theorem eepromWriteDataByte_outside {value : UInt8}
    (h : c.densityBytes ≤ address.toNat) :
    (eepromWriteDataByte c address value s).2 = s := by
  rw [eepromWriteDataByte, if_pos h]

theorem storeByte_same {value : UInt8} (h : s.dataBuf address.toNat = value) :
    storeByte s.dataBuf address.toNat value = s.dataBuf :=
  overlay_of_readBlock_eq (by simp [readBlock, h])

theorem eepromWriteDataByte_dataBuf (haddress : address.toNat < c.densityBytes)
    (value : UInt8) :
    (eepromWriteDataByte c address value s).2.dataBuf =
      storeByte s.dataBuf address.toNat value := by
  rw [eepromWriteDataByte, if_neg (by omega)]
  by_cases hvalue : s.dataBuf address.toNat = value
  · rw [if_pos hvalue, storeByte_same hvalue]
  · rw [if_neg hvalue]
    dsimp only
    rw [direct_or_log fun s =>
      if address < feeByteRange then eepromWriteLogByteEntry c address s
      else eepromWriteLogWordEntry c (address &&& 0xFFFE) s]
    split_ifs <;> simp

theorem eepromWriteDataByte_stores (hlive : Live c s.flash s.dataBuf s.emptySlot)
    (haddress : address.toNat < c.densityBytes) (value : UInt8) :
    Stores c s.dataBuf (storeByte s.dataBuf address.toNat value) s
      (eepromWriteDataByte c address value s).2 := by
  rw [eepromWriteDataByte, if_neg (by omega)]
  by_cases hvalue : s.dataBuf address.toNat = value
  · rw [if_pos hvalue, storeByte_same hvalue]
    exact .none hlive
  · rw [if_neg hvalue]
    dsimp only
    rw [direct_or_log fun s =>
      if address < feeByteRange then eepromWriteLogByteEntry c address s
      else eepromWriteLogWordEntry c (address &&& 0xFFFE) s]
    let t : State :=
      { s with dataBuf := storeByte s.dataBuf address.toNat value }
    have hbyte : ∀ a < c.densityBytes, a ≠ address.toNat →
        t.dataBuf a = s.dataBuf a :=
      fun a _ hne => overlay_outside s.dataBuf [value] (by simp; omega)
    have hword : ∀ a < c.densityBytes, a / 2 ≠ address.toNat / 2 →
        t.dataBuf a = s.dataBuf a :=
      fun a ha hne => hbyte a ha (by rintro rfl; exact hne rfl)
    have hrange : address < feeByteRange ↔ address.toNat < 128 :=
      UInt16.lt_iff_toNat_lt
    split_ifs with hempty hlow
    · have h := (eepromWriteDirectEntry_stores (s := t) hlive haddress hempty
        hword).2
      exact ⟨h.live, h.path⟩
    · have h := eepromWriteLogByteEntry_stores (s := t) hlive
        (hrange.mp hlow) (fun _ => hempty) hbyte
      exact ⟨h.live, h.path⟩
    · have hge : 128 ≤ address.toNat := Nat.not_lt.mp (hrange.not.mp hlow)
      have haligned := alignedAddress_toNat address
      have hcell : (address &&& 0xFFFE).toNat / 2 = address.toNat / 2 := by omega
      have h := @eepromWriteLogWordEntry_stores c _ t (address &&& 0xFFFE) hlive (by omega) (by omega) (by omega)
        (by rw [hcell]; exact hempty) (by rw [hcell]; exact hword)
      exact ⟨h.live, h.path⟩

/-! ## Word writes -/

theorem add_one_toNat (h : address.toNat < c.densityBytes) :
    (address + 1).toNat = address.toNat + 1 := by
  have hdensity := c.densityBytes_le
  have hone : (1 : UInt16).toNat = 1 := rfl
  rw [UInt16.toNat_add, hone]
  omega

theorem odd_iff : address % 2 ≠ 0 ↔ address.toNat % 2 = 1 := by
  have htwo : (2 : UInt16).toNat = 2 := rfl
  rw [ne_eq, ← UInt16.toNat_inj, UInt16.toNat_mod, htwo, UInt16.toNat_zero]
  omega

theorem high_byte_eq_iff (value other : UInt16) :
    value >>> 8 = other >>> 8 ↔
      (value >>> 8).toUInt8 = (other >>> 8).toUInt8 := by
  constructor
  · intro h
    rw [h]
  · intro h
    apply UInt16.toNat.inj
    have hvalue := value.toNat_lt
    have hother := other.toNat_lt
    have hnat := congrArg UInt8.toNat h
    simp only [UInt16.toNat_toUInt8, UInt16.toNat_shiftRight,
      UInt16.reduceToNat, Nat.reduceMod, Nat.shiftRight_eq_div_pow] at hnat ⊢
    omega

theorem storeWord_low (buf : Nat → UInt8) (address : Nat) (value : UInt16) :
    storeWord buf address value address = value.toUInt8 :=
  overlay_inside buf address (wordBytes value) (i := 0) (by simp)

theorem storeWord_high (buf : Nat → UInt8) (address : Nat) (value : UInt16) :
    storeWord buf address value (address + 1) = (value >>> 8).toUInt8 :=
  overlay_inside buf address (wordBytes value) (i := 1) (by simp)

theorem storeWord_outside (buf : Nat → UInt8) {address a : Nat}
    (value : UInt16) (hlow : a ≠ address) (hhigh : a ≠ address + 1) :
    storeWord buf address value a = buf a :=
  overlay_outside buf (wordBytes value) (by simp; omega)

theorem storeWord_bytes (buf : Nat → UInt8) (address : Nat) (value : UInt16) :
    storeWord buf address value =
      storeByte (storeByte buf address value.toUInt8) (address + 1)
        (value >>> 8).toUInt8 :=
  overlay_append buf address [value.toUInt8] [(value >>> 8).toUInt8]

theorem loadWord_same {value : UInt16} {buf : Nat → UInt8}
    (h : loadWord buf address.toNat = value) :
    storeWord buf address.toNat value = buf := by
  rw [← h]
  exact overlay_of_readBlock_eq (by
    rw [← wordBytes, wordBytes_loadWord]
    simp [readBlock, List.range_succ])

@[simp] theorem eepromWriteLogChangedBytes_dataBuf (oldValue dataWord : UInt16) :
    (eepromWriteLogChangedBytes c address oldValue dataWord s).2.dataBuf =
      s.dataBuf := by
  simp only [eepromWriteLogChangedBytes]
  split_ifs <;> simp

/-- The first byte entry leaves the cells of the compacted area alone. -/
theorem eepromWriteLogByteEntry_cell (hlive : Live c s.flash old s.emptySlot)
    (hslot : s.emptySlot < c.writeLogLast) {cell : Nat}
    (hcell : cell < c.writeLogBase) :
    (eepromWriteLogByteEntry c address s).2.flash cell = s.flash cell := by
  have hbase := hlive.base_le
  rw [eepromWriteLogByteEntry_append hslot]
  simp only [State.advance, State.record,
    program_apply (hlive.empty (Nat.le_refl _) hslot)]
  exact Function.update_of_ne (by omega) _ _

theorem eepromWriteLogChangedBytes_stores {dataWord : UInt16}
    (hlive : Live c s.flash old s.emptySlot) (heven : address.toNat % 2 = 0)
    (hlt : address.toNat < 128)
    (hdata : s.dataBuf = storeWord old address.toNat dataWord)
    (hcell : s.flash (address.toNat / 2) ≠ feeEmptyWord)
    (hsplit : old address.toNat ≠ 0 → old (address.toNat + 1) ≠ 0 →
      dataWord = 0 → s.emptySlot < c.writeLogLast ∨
        c.writeLogLast ≤ c.writeLogBase) :
    Stores c old s.dataBuf s
      (eepromWriteLogChangedBytes c address (loadWord old address.toNat)
        dataWord s).2 := by
  have hdensity := c.densityBytes_ge
  have hnext := @add_one_toNat c address (by omega)
  have hhalf : (address + 1).toNat / 2 = address.toNat / 2 := by omega
  have hcell' : s.flash ((address + 1).toNat / 2) ≠ feeEmptyWord := by
    rwa [hhalf]
  simp only [eepromWriteLogChangedBytes, ne_eq, high_byte_eq_iff, loadWord_low,
    loadWord_high]
  by_cases hlow : old address.toNat = dataWord.toUInt8
  · by_cases hhigh : old (address.toNat + 1) = (dataWord >>> 8).toUInt8
    · -- neither byte changes
      simp only [hlow, hhigh, not_true_eq_false, if_false]
      have hsame : loadWord old address.toNat = dataWord :=
        word_ext ((loadWord_low _ _).trans hlow)
          ((loadWord_high _ _).trans hhigh)
      rw [loadWord_same hsame] at hdata
      rw [hdata]
      exact .none hlive
    · simp only [hlow, hhigh, not_true_eq_false, not_false_eq_true, if_true,
        if_false]
      refine eepromWriteLogByteEntry_stores hlive (by omega) (fun _ => hcell')
        fun a _ hne => ?_
      rw [hdata]
      by_cases ha : a = address.toNat
      · rw [ha, storeWord_low, hlow]
      · exact storeWord_outside old dataWord ha (by omega)
  · by_cases hhigh : old (address.toNat + 1) = (dataWord >>> 8).toUInt8
    · simp only [hlow, hhigh, not_true_eq_false, not_false_eq_true, if_true,
        if_false]
      refine eepromWriteLogByteEntry_stores hlive hlt (fun _ => hcell)
        fun a _ hne => ?_
      rw [hdata]
      by_cases ha : a = address.toNat + 1
      · rw [ha, storeWord_high, hhigh]
      · exact storeWord_outside old dataWord hne ha
    · simp only [hlow, hhigh, not_false_eq_true, if_true]
      have hsecond : (eepromWriteLogByteEntry c address s).2.dataBuf =
          s.dataBuf := eepromWriteLogByteEntry_dataBuf address s
      rcases Nat.lt_or_ge s.emptySlot c.writeLogLast with hslot | hfull
      · -- both entries are appended, or the second one compacts
        have hfirst := eepromWriteLogByteEntry_appends hlive hslot hlt hcell
        have hkept := @eepromWriteLogByteEntry_cell c _ _ address hlive
          hslot _ (@address_lt_base c address.toNat (by omega))
        have hlast := @eepromWriteLogByteEntry_stores c _
          (eepromWriteLogByteEntry c address s).2 (address + 1) hfirst.live
          (by omega)
          (fun _ => by rw [hhalf, hkept]; exact hcell) fun a _ hne => ?_
        · rw [hsecond] at hlast
          refine hfirst.trans hlast fun a _ => ?_
          by_cases ha : a = address.toNat
          · exact .inr (ha ▸ overlay_inside old _ [_] (i := 0) (by simp))
          · exact .inl (overlay_outside old _ (by simp; omega))
        · rw [hsecond]
          by_cases ha : a = address.toNat
          · exact ha ▸ (overlay_inside old _ [_] (i := 0) (by simp)).symm
          · rw [hdata, storeWord_outside old dataWord ha (by omega)]
            exact (overlay_outside old _ (by simp; omega)).symm
      · -- the first entry compacts
        rw [eepromWriteLogByteEntry_full hfull]
        have hfirst := eepromCompact_stores (c := c) old s
        have hlast := @eepromWriteLogByteEntry_stores c _
          (eepromCompact c s).2 (address + 1) hfirst.live (by omega) (fun hroom => ?_) fun a _ _ => ?_
        · rw [eepromCompact_dataBuf] at hlast
          exact hfirst.trans hlast fun a _ => .inr rfl
        · rw [eepromCompact_emptySlot] at hroom
          rw [eepromCompact_cells s (address_lt_base (by omega)), hhalf, hdata]
          intro hzero
          have hvalue : dataWord = 0 := by
            have haligned : address.toNat / 2 * 2 = address.toNat := by omega
            rw [haligned, loadWord_storeWord] at hzero
            rw [← UInt16.not_not (a := dataWord), hzero]
            rfl
          subst hvalue
          rcases hsplit hlow hhigh rfl with hslot | hnone
          · omega
          · omega
        · rw [eepromCompact_dataBuf]

theorem eepromWriteDataWord_odd {dataWord : UInt16}
    (haddress : address.toNat < c.densityBytes) (hodd : address.toNat % 2 = 1) :
    (eepromWriteDataWord c address dataWord s).2 =
      (eepromWriteDataByte c (address + 1) (dataWord >>> 8).toUInt8
        (eepromWriteDataByte c address dataWord.toUInt8 s).2).2 := by
  rw [eepromWriteDataWord, if_neg (by omega), if_pos (odd_iff.mpr hodd)]

theorem eepromWriteDataWord_even {dataWord : UInt16}
    (haddress : address.toNat < c.densityBytes) (heven : address.toNat % 2 = 0)
    (hvalue : loadWord s.dataBuf address.toNat ≠ dataWord) :
    eepromWriteDataWord c address dataWord s =
      let t : State :=
        { s with dataBuf := storeWord s.dataBuf address.toNat dataWord }
      if s.flash (address.toNat / 2) = feeEmptyWord then
        eepromWriteDirectEntry address t
      else if address < feeByteRange then
        eepromWriteLogChangedBytes c address (loadWord s.dataBuf address.toNat)
          dataWord t
      else eepromWriteLogWordEntry c address t := by
  rw [eepromWriteDataWord, if_neg (by omega),
    if_neg (odd_iff.not.mpr (by omega))]
  dsimp only
  rw [if_neg hvalue, direct_or_log fun t =>
    if address < feeByteRange then
      eepromWriteLogChangedBytes c address (loadWord s.dataBuf address.toNat)
        dataWord t
    else eepromWriteLogWordEntry c address t]

theorem eepromWriteDataWord_even_dataBuf {dataWord : UInt16}
    (haddress : address.toNat < c.densityBytes)
    (heven : address.toNat % 2 = 0) :
    (eepromWriteDataWord c address dataWord s).2.dataBuf =
      storeWord s.dataBuf address.toNat dataWord := by
  by_cases hvalue : loadWord s.dataBuf address.toNat = dataWord
  · rw [loadWord_same hvalue, eepromWriteDataWord, if_neg (by omega),
      if_neg (odd_iff.not.mpr (by omega))]
    dsimp only
    rw [if_pos hvalue]
  · rw [eepromWriteDataWord_even haddress heven hvalue]
    dsimp only
    split_ifs <;> simp

theorem eepromWriteDataWord_even_stores {dataWord : UInt16}
    (hlive : Live c s.flash s.dataBuf s.emptySlot)
    (haddress : address.toNat < c.densityBytes)
    (heven : address.toNat % 2 = 0)
    (hsplit : ¬ (Operation.word address dataWord).SplitsZero c s) :
    Stores c s.dataBuf (storeWord s.dataBuf address.toNat dataWord) s
      (eepromWriteDataWord c address dataWord s).2 := by
  by_cases hvalue : loadWord s.dataBuf address.toNat = dataWord
  · rw [loadWord_same hvalue, eepromWriteDataWord, if_neg (by omega),
      if_neg (odd_iff.not.mpr (by omega))]
    dsimp only
    rw [if_pos hvalue]
    exact .none hlive
  · rw [eepromWriteDataWord_even haddress heven hvalue]
    let t : State :=
      { s with dataBuf := storeWord s.dataBuf address.toNat dataWord }
    have hword : ∀ a < c.densityBytes, a / 2 ≠ address.toNat / 2 →
        t.dataBuf a = s.dataBuf a :=
      fun a _ hne => storeWord_outside s.dataBuf dataWord (by omega) (by omega)
    have hrange : address < feeByteRange ↔ address.toNat < 128 :=
      UInt16.lt_iff_toNat_lt
    dsimp only
    split_ifs with hempty hlow
    · have h := (eepromWriteDirectEntry_stores (s := t) hlive haddress hempty
        hword).2
      exact ⟨h.live, h.path⟩
    · have hlt := hrange.mp hlow
      have h := @eepromWriteLogChangedBytes_stores c _ t _ dataWord hlive heven hlt rfl hempty
        fun hbyte hnext hzero => by
          by_contra hfull
          rw [not_or, Nat.not_lt, Nat.not_le] at hfull
          obtain ⟨entries, himage, -⟩ := hlive
          exact hsplit ⟨heven, hlt, hzero, hbyte, hnext, hempty,
            Nat.le_antisymm himage.slot_le hfull.1, hfull.2⟩
      exact ⟨h.live, h.path⟩
    · have hge : 128 ≤ address.toNat := Nat.not_lt.mp (hrange.not.mp hlow)
      have h := eepromWriteLogWordEntry_stores (s := t) hlive hge haddress heven
        hempty hword
      exact ⟨h.live, h.path⟩

/-! ## Operations -/

theorem Operation.target_outside {op : Operation} {address : UInt16}
    (hop : (∃ value, op = .byte address value) ∨ ∃ value, op = .word address value)
    (h : c.densityBytes ≤ address.toNat) (buf : Nat → UInt8) :
    (op.target c).apply buf = buf := by
  have hout : ¬ address.toNat < c.densityBytes := by omega
  rcases hop with ⟨value, rfl⟩ | ⟨value, rfl⟩
  · simp [Operation.target, BlockWrite.apply, hout]
  · simp [Operation.target, BlockWrite.apply, hout]

theorem perform_stores (hlive : Live c s.flash s.dataBuf s.emptySlot)
    {op : Operation} (hsplit : ¬ op.SplitsZero c s) :
    Stores c s.dataBuf ((op.target c).apply s.dataBuf) s (perform c s op) := by
  cases op with
  | byte address value =>
      rcases Nat.lt_or_ge address.toNat c.densityBytes with haddress | hout
      · simp only [perform, Operation.target, haddress, if_true]
        exact eepromWriteDataByte_stores hlive haddress value
      · rw [Operation.target_outside (.inl ⟨value, rfl⟩) hout, perform,
          eepromWriteDataByte_outside hout]
        exact .none hlive
  | word address value =>
      rcases Nat.lt_or_ge address.toNat c.densityBytes with haddress | hout
      · simp only [perform, Operation.target, haddress, if_true]
        rcases Nat.mod_two_eq_zero_or_one address.toNat with heven | hodd
        · exact eepromWriteDataWord_even_stores hlive haddress heven hsplit
        · -- an odd address: two byte writes
          have hnext := add_one_toNat haddress
          have hfirst := eepromWriteDataByte_stores hlive haddress value.toUInt8
          have hdata := eepromWriteDataByte_dataBuf (s := s) haddress
            value.toUInt8
          rw [eepromWriteDataWord_odd haddress hodd]
          rcases Nat.lt_or_ge (address.toNat + 1) c.densityBytes with hlt | hge
          · rw [← hdata] at hfirst
            have hsecond := @eepromWriteDataByte_stores c _ (address + 1)
              hfirst.live (by omega) (value >>> 8).toUInt8
            rw [hdata, hnext, ← storeWord_bytes] at hsecond
            rw [hdata] at hfirst
            refine hfirst.trans hsecond fun a _ => ?_
            by_cases ha : a = address.toNat
            · refine .inr ?_
              rw [ha]
              exact (overlay_inside _ _ [_] (i := 0) (by simp)).trans
                (storeWord_low _ _ _).symm
            · exact .inl (overlay_outside _ _ (by simp; omega))
          · -- the second byte is beyond the end
            rw [eepromWriteDataByte_outside (by omega)]
            refine hfirst.congr fun a ha => ?_
            have hbefore : a < address.toNat + 1 := by omega
            exact ((congrFun (storeWord_bytes _ _ _) a).trans
              (overlay_before _ _ hbefore)).symm
      · rw [Operation.target_outside (.inr ⟨value, rfl⟩) hout, perform,
          eepromWriteDataWord, if_pos hout]
        exact .none hlive

theorem perform_dataBuf (s : State) (op : Operation) {a : Nat}
    (ha : a < c.densityBytes) :
    (perform c s op).dataBuf a = (op.target c).apply s.dataBuf a := by
  cases op with
  | byte address value =>
      rcases Nat.lt_or_ge address.toNat c.densityBytes with haddress | hout
      · simp only [perform, Operation.target, haddress, if_true]
        exact congrFun (eepromWriteDataByte_dataBuf haddress value) a
      · rw [Operation.target_outside (.inl ⟨value, rfl⟩) hout, perform,
          eepromWriteDataByte_outside hout]
  | word address value =>
      rcases Nat.lt_or_ge address.toNat c.densityBytes with haddress | hout
      · simp only [perform, Operation.target, haddress, if_true]
        rcases Nat.mod_two_eq_zero_or_one address.toNat with heven | hodd
        · exact congrFun (eepromWriteDataWord_even_dataBuf haddress heven) a
        · have hnext := add_one_toNat haddress
          rw [eepromWriteDataWord_odd haddress hodd]
          refine Eq.trans ?_ (congrFun (storeWord_bytes _ _ _) a).symm
          rcases Nat.lt_or_ge (address.toNat + 1) c.densityBytes with hlt | hge
          · rw [eepromWriteDataByte_dataBuf (by omega),
              eepromWriteDataByte_dataBuf haddress, hnext]
          · rw [eepromWriteDataByte_outside (by omega),
              eepromWriteDataByte_dataBuf haddress]
            have hbefore : a < address.toNat + 1 := by omega
            exact (overlay_before _ _ hbefore).symm
      · rw [Operation.target_outside (.inr ⟨value, rfl⟩) hout, perform,
          eepromWriteDataWord, if_pos hout]

/-! ## Runs -/

/-- The flash is a live image of the buffer, and the buffer has been given `contents`. -/
structure Serves (c : Config) (contents : Nat → UInt8) (s : State) : Prop where
  live : Live c s.flash s.dataBuf s.emptySlot
  contents_eq : ∀ a < c.densityBytes, s.dataBuf a = contents a

theorem eepromErase_serves (c : Config) (s : State) :
    Serves c (fun _ => 0) (eepromErase c s) := by
  have hflash : (eepromErase c s).flash = fun _ => feeEmptyWord := rfl
  have hlive : Live c (eepromErase c s).flash (fun _ => 0) c.writeLogBase := by
    rw [hflash]
    refine Live.of_cells (fun i _ => ?_) fun _ _ _ => rfl
    have hzero : loadWord (fun _ => 0) (i * 2) = 0 := by simp [loadWord]
    rw [hzero]
    rfl
  have hcontents := fun a ha =>
    @Live.init_dataBuf c _ _ (eepromClear c s) hlive a ha
  refine ⟨?_, hcontents⟩
  have hslot := Live.init_emptySlot (s := eepromClear c s) hlive
  rw [eepromErase, hslot]
  exact hlive.congr fun a ha => (hcontents a ha).symm

theorem Serves.step {contents : Nat → UInt8} (h : Serves c contents s)
    {op : Operation} (hsplit : ¬ op.SplitsZero c s) :
    Serves c ((op.target c).apply contents) (perform c s op) := by
  refine ⟨(perform_stores h.live hsplit).live.congr fun a ha =>
    (perform_dataBuf s op ha).symm, fun a ha => ?_⟩
  rw [perform_dataBuf s op ha]
  exact BlockWrite.apply_congr (h.contents_eq a ha) _

theorem Serves.run {contents : Nat → UInt8} {ops : List Operation}
    (h : Serves c contents s)
    (hops : Meets (perform c) (fun s op => ¬ op.SplitsZero c s) s ops) :
    Serves c (BlockWrite.applyAll contents (ops.map (Operation.target c)))
      (run (perform c) s ops) := by
  induction ops generalizing s contents with
  | nil => exact h
  | cons op ops ih => exact ih (h.step hops.1) hops.2

/-- A power cycle rebuilds the buffer that the run of writes has left. -/
theorem legacyEeprom_durable (s : State) {ops : List Operation}
    (hops : Meets (perform c) (fun s op => ¬ op.SplitsZero c s)
      (eepromErase c s) ops) {a : Nat} (ha : a < c.densityBytes) :
    (powerCycle c (run (perform c) (eepromErase c s) ops)).dataBuf a =
        (run (perform c) (eepromErase c s) ops).dataBuf a ∧
      (run (perform c) (eepromErase c s) ops).dataBuf a =
        BlockWrite.applyAll (fun _ => 0) (ops.map (Operation.target c)) a := by
  have h := (eepromErase_serves c s).run hops
  exact ⟨Live.init_dataBuf (s := { run (perform c) (eepromErase c s) ops with
    dataBuf := fun _ => 0, emptySlot := 0 }) h.live ha, h.contents_eq a ha⟩

/-- The smallest EEPROM, with a log of one slot. -/
def tinyEeprom : Config where
  densityBytes := 128
  writeLogBytes := 2
  densityBytes_ge := by decide
  densityBytes_le := by decide
  densityBytes_even := by decide
  writeLogBytes_even := by decide

/-- The flash before its first erase. -/
def blankState : State := ⟨fun _ => 0, fun _ => 0, 0, []⟩

/--
The third write splits a zero, and the fourth, a direct entry for the same word,
is undone by the byte entry that the split has left.
-/
theorem tinyEeprom_loses_byte :
    (run (perform tinyEeprom) (eepromErase tinyEeprom blankState)
        [.word 0 0x0101, .byte 0 2, .word 0 0, .word 0 0x0500]).dataBuf 1 = 5 ∧
      (powerCycle tinyEeprom
        (run (perform tinyEeprom) (eepromErase tinyEeprom blankState)
          [.word 0 0x0101, .byte 0 2, .word 0 0, .word 0 0x0500])).dataBuf 1 =
        0 := by
  constructor <;> decide +kernel

theorem tinyEeprom_durable :
    (powerCycle tinyEeprom
        (run (perform tinyEeprom) (eepromErase tinyEeprom blankState)
          [.word 0 0x0101, .byte 0 2, .word 0 3])).dataBuf 0 =
        (run (perform tinyEeprom) (eepromErase tinyEeprom blankState)
          [.word 0 0x0101, .byte 0 2, .word 0 3]).dataBuf 0 ∧
      (run (perform tinyEeprom) (eepromErase tinyEeprom blankState)
          [.word 0 0x0101, .byte 0 2, .word 0 3]).dataBuf 0 =
        BlockWrite.applyAll (fun _ => 0)
          ([.word 0 0x0101, .byte 0 2, .word 0 3].map
            (Operation.target tinyEeprom)) 0 :=
  @legacyEeprom_durable tinyEeprom blankState
    [.word 0 0x0101, .byte 0 2, .word 0 3]
    ⟨by decide, by decide, by decide, trivial⟩ 0
    (by decide)

end Qmk.LegacyEeprom
