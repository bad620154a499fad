import Qmk.LegacyEeprom.Encoding
import Qmk.Lib.Writes

/-!
# The write log as a list of writes

A slot of the log stands for at most one write to the buffer.  `EEPROM_Init`
loads the compacted area and then applies the writes of the log in order.
-/

namespace Qmk.LegacyEeprom

open Qmk.Lib

abbrev Entry := BlockWrite UInt8

section Log

variable (c : Config)

def wordEntry (address wvalue : UInt16) : Option Entry :=
  if address.toNat < c.densityBytes then
    some ⟨address.toNat, wordBytes wvalue⟩
  else none

/-- The write that the entry at `slot` stands for, and the slots it takes. -/
def entryAt (flash : Nat → UInt16) (slot : Nat) : Option Entry × Nat :=
  let address := flash slot
  if address &&& feeWordEncoding = 0 then
    (some ⟨(address >>> 8).toNat, [address.toUInt8]⟩, 1)
  else if address &&& feeValueNext = feeValueNext then
    if c.writeLogLast ≤ slot + 1 then (none, 1)
    else if ~~~ flash (slot + 1) = 0 then (none, 2)
    else
      (wordEntry c (((address &&& 0x1FFF) <<< 1) + feeByteRange)
        (~~~ flash (slot + 1)), 2)
  else if address &&& feeValueReserved ≠ 0 then (none, 1)
  else
    (wordEntry c ((address &&& 0x1FFF) <<< 1)
      ((address &&& feeValueEncoded) >>> 13), 1)

/-- The entries from `slot` on, and the slot where replay stops. -/
def scanLog (flash : Nat → UInt16) : Nat → Nat → List Entry × Nat
  | 0, slot => ([], slot)
  | fuel + 1, slot =>
      if slot < c.writeLogLast ∧ flash slot ≠ feeEmptyWord then
        let (entry, width) := entryAt c flash slot
        let (entries, stop) := scanLog flash fuel (slot + width)
        (entry.toList ++ entries, stop)
      else ([], slot)

def logEntries (flash : Nat → UInt16) : List Entry :=
  (scanLog c flash (c.writeLogLast - c.writeLogBase) c.writeLogBase).1

/-- The slots from `slot` to `stop` hold `entries`. -/
inductive Holds (flash : Nat → UInt16) : Nat → List Entry → Nat → Prop
  | nil (slot : Nat) : Holds flash slot [] slot
  | cons {slot stop : Nat} {entries : List Entry} (hlt : slot < c.writeLogLast)
      (hprogrammed : flash slot ≠ feeEmptyWord)
      (rest : Holds flash (slot + (entryAt c flash slot).2) entries stop) :
      Holds flash slot ((entryAt c flash slot).1.toList ++ entries) stop

end Log

variable {c : Config}

/-! ## One entry -/

theorem replayWord_eq (buf : Nat → UInt8) (address wvalue : UInt16) :
    replayWord c buf address wvalue =
      BlockWrite.applyAll buf (wordEntry c address wvalue).toList := by
  unfold replayWord wordEntry
  split <;> rfl

theorem replayLoop_succ (flash : Nat → UInt16) (fuel : Nat) {slot : Nat}
    (buf : Nat → UInt8) (hlt : slot < c.writeLogLast)
    (hprogrammed : flash slot ≠ feeEmptyWord) :
    replayLoop c flash (fuel + 1) slot buf =
      replayLoop c flash fuel (slot + (entryAt c flash slot).2)
        (BlockWrite.applyAll buf (entryAt c flash slot).1.toList) := by
  rw [replayLoop, if_pos hlt]
  simp only [hprogrammed, if_false, entryAt]
  by_cases hbyte : flash slot &&& feeWordEncoding = 0
  · simp only [hbyte, if_true]
    rfl
  · by_cases hnext : flash slot &&& feeValueNext = feeValueNext
    · by_cases hcut : c.writeLogLast ≤ slot + 1
      · -- the header fills the last slot, and the loop ends behind it
        have hend : ¬ slot + 1 < c.writeLogLast := by omega
        cases fuel with
        | zero => simp [hbyte, hnext, hcut, replayLoop]
        | succ fuel => simp [hbyte, hnext, hcut, hend, replayLoop]
      · by_cases hhole : ~~~ flash (slot + 1) = 0
        · simp [hbyte, hnext, hcut, hhole]
        · simp only [hbyte, hnext, hcut, hhole, if_true, if_false,
            replayWord_eq]
    · by_cases hreserved : flash slot &&& feeValueReserved ≠ 0
      · simp [hbyte, hnext, hreserved]
      · simp only [hbyte, hnext, hreserved, if_false, replayWord_eq]

theorem entryAt_width (flash : Nat → UInt16) {slot : Nat}
    (hlt : slot < c.writeLogLast) :
    0 < (entryAt c flash slot).2 ∧
      slot + (entryAt c flash slot).2 ≤ c.writeLogLast := by
  unfold entryAt
  dsimp only
  split_ifs <;> simp only <;> omega

/-- The entry changes bytes of one word of the buffer only. -/
def InWord (c : Config) (entry : Entry) : Prop :=
  entry.address < c.densityBytes ∧ entry.address % 2 + entry.block.length ≤ 2

theorem wordEntry_inWord {address wvalue : UInt16}
    (heven : address.toNat % 2 = 0) :
    ∀ entry ∈ wordEntry c address wvalue, InWord c entry := by
  intro entry hentry
  unfold wordEntry at hentry
  split at hentry
  · next hlt =>
    obtain rfl := Option.some.inj hentry
    exact ⟨hlt, by simp [heven]⟩
  · cases hentry

theorem entryAt_inWord (flash : Nat → UInt16) (slot : Nat) :
    ∀ entry ∈ (entryAt c flash slot).1, InWord c entry := by
  unfold entryAt
  dsimp only
  split_ifs with hbyte
  · intro entry hentry
    obtain rfl := Option.some.inj hentry
    have hdensity := c.densityBytes_ge
    have haddress := (wordEncoding_iff _).mp hbyte
    simp only [InWord, UInt16.toNat_shiftRight, UInt16.reduceToNat,
      Nat.reduceMod, Nat.shiftRight_eq_div_pow, List.length_cons,
      List.length_nil]
    omega
  · simp
  · simp
  · refine wordEntry_inWord ?_
    rw [entryNextAddress_toNat]
    omega
  · simp
  · refine wordEntry_inWord ?_
    rw [entryAddress_toNat]
    omega

theorem entryAt_congr {flash other : Nat → UInt16} {slot : Nat}
    (h : ∀ i, slot ≤ i → i < slot + (entryAt c flash slot).2 →
      flash i = other i) :
    entryAt c flash slot = entryAt c other slot := by
  have hwidth : 0 < (entryAt c flash slot).2 := by
    unfold entryAt
    dsimp only
    split_ifs <;> simp
  have hslot : flash slot = other slot := h slot (Nat.le_refl _) (by omega)
  by_cases hsame : flash (slot + 1) = other (slot + 1)
  · simp only [entryAt, hslot, hsame]
  · have hone : (entryAt c flash slot).2 ≤ 1 := by
      by_contra hwide
      exact hsame (h (slot + 1) (by omega) (by omega))
    unfold entryAt at hone ⊢
    dsimp only at hone ⊢
    rw [← hslot]
    split_ifs at hone ⊢ <;> simp_all

/-! ## The entries that the driver writes -/

section Written

variable {flash : Nat → UInt16} {slot : Nat} {address : UInt16}

theorem byteEntry_ne_empty (haddress : address.toNat < 128) (value : UInt8) :
    (address <<< 8) ||| value.toUInt16 ≠ feeEmptyWord := by
  intro h
  have hvalue := value.toNat_lt
  have hnat := congrArg UInt16.toNat h
  have hempty : feeEmptyWord.toNat = 65535 := rfl
  rw [byteEntry_toNat haddress, hempty] at hnat
  omega

theorem entryAt_byte (haddress : address.toNat < 128) {value : UInt8}
    (hflash : flash slot = (address <<< 8) ||| value.toUInt16) :
    entryAt c flash slot = (some ⟨address.toNat, [value]⟩, 1) := by
  have hvalue := value.toNat_lt
  have hnat := byteEntry_toNat haddress value
  rw [← hflash] at hnat
  have hbyte : flash slot &&& feeWordEncoding = 0 :=
    (wordEncoding_iff _).mpr (by omega)
  have hhigh : (flash slot >>> 8).toNat = address.toNat := by
    simp only [UInt16.toNat_shiftRight, UInt16.reduceToNat, Nat.reduceMod,
      Nat.shiftRight_eq_div_pow]
    omega
  have hlow : (flash slot).toUInt8 = value := by
    apply UInt8.toNat.inj
    rw [UInt16.toNat_toUInt8]
    omega
  simp only [entryAt, hbyte, if_true, hhigh, hlow]

theorem encodedEntry_ne_empty {value : UInt16} (haddress : address.toNat < 16384)
    (hvalue : value ≤ 1) :
    (address >>> 1) ||| (feeWordEncoding ||| (value <<< 13)) ≠ feeEmptyWord := by
  intro h
  have hle : value.toNat ≤ 1 := UInt16.le_iff_toNat_le.mp hvalue
  have hnat := congrArg UInt16.toNat h
  have hempty : feeEmptyWord.toNat = 65535 := rfl
  rw [encodedEntry_toNat haddress hvalue, hempty] at hnat
  omega

theorem entryAt_encoded {value : UInt16}
    (haddress : address.toNat < c.densityBytes) (heven : address.toNat % 2 = 0)
    (hvalue : value ≤ 1)
    (hflash : flash slot =
      (address >>> 1) ||| (feeWordEncoding ||| (value <<< 13))) :
    entryAt c flash slot = (some ⟨address.toNat, wordBytes value⟩, 1) := by
  have hdensity := c.densityBytes_le
  have hle : value.toNat ≤ 1 := UInt16.le_iff_toNat_le.mp hvalue
  have hnat := @encodedEntry_toNat address value (by omega) hvalue
  rw [← hflash] at hnat
  have hword : ¬ flash slot &&& feeWordEncoding = 0 := by
    rw [wordEncoding_iff]
    omega
  have hnext : ¬ flash slot &&& feeValueNext = feeValueNext := by
    rw [valueNext_iff]
    omega
  have hreserved : ¬ (flash slot &&& feeValueReserved ≠ 0) := by
    rw [valueReserved_iff]
    omega
  have hdecoded : (flash slot &&& 0x1FFF) <<< 1 = address := by
    apply UInt16.toNat.inj
    rw [entryAddress_toNat]
    omega
  have hencoded : (flash slot &&& feeValueEncoded) >>> 13 = value := by
    apply UInt16.toNat.inj
    rw [entryEncoded_toNat]
    omega
  simp only [entryAt, hword, hnext, hreserved, hdecoded, hencoded, if_false,
    wordEntry, haddress, if_true]

/-- The header of a Word-Next entry. -/
def nextHeader (address : UInt16) : UInt16 :=
  ((address - feeByteRange) >>> 1) ||| (feeWordEncoding ||| feeValueNext)

theorem nextHeader_toNat (hge : 128 ≤ address.toNat)
    (hlt : address.toNat < 16384) :
    (nextHeader address).toNat = (address.toNat - 128) / 2 + 7 * 8192 := by
  have hrange : feeByteRange ≤ address := UInt16.le_iff_toNat_le.mpr hge
  have hsub : (address - feeByteRange).toNat = address.toNat - 128 :=
    UInt16.toNat_sub_of_le _ _ hrange
  rw [nextHeader, nextEntry_toNat (by omega), hsub]

theorem nextHeader_ne_empty (hge : 128 ≤ address.toNat)
    (hlt : address.toNat < 16384) : nextHeader address ≠ feeEmptyWord := by
  intro h
  have hnat := congrArg UInt16.toNat h
  have hempty : feeEmptyWord.toNat = 65535 := rfl
  rw [nextHeader_toNat hge hlt, hempty] at hnat
  omega

private theorem nextHeader_masks (hge : 128 ≤ address.toNat)
    (hlt : address.toNat < 16384) :
    ¬ nextHeader address &&& feeWordEncoding = 0 ∧
      nextHeader address &&& feeValueNext = feeValueNext := by
  have hnat := nextHeader_toNat hge hlt
  rw [wordEncoding_iff, valueNext_iff]
  omega

theorem entryAt_hole (hge : 128 ≤ address.toNat) (hlt : address.toNat < 16384)
    (hslot : slot + 1 < c.writeLogLast) (hflash : flash slot = nextHeader address)
    (hempty : flash (slot + 1) = feeEmptyWord) :
    entryAt c flash slot = (none, 2) := by
  obtain ⟨hword, hnext⟩ := nextHeader_masks hge hlt
  have hcut : ¬ c.writeLogLast ≤ slot + 1 := by omega
  have hzero : ~~~ feeEmptyWord = 0 := rfl
  simp only [entryAt, hflash, hword, hnext, hcut, hempty, hzero, if_true,
    if_false]

theorem entryAt_next {value : UInt16} (hge : 128 ≤ address.toNat)
    (haddress : address.toNat < c.densityBytes) (heven : address.toNat % 2 = 0)
    (hvalue : value ≠ 0) (hslot : slot + 1 < c.writeLogLast)
    (hflash : flash slot = nextHeader address)
    (hnextFlash : flash (slot + 1) = ~~~ value) :
    entryAt c flash slot = (some ⟨address.toNat, wordBytes value⟩, 2) := by
  have hdensity := c.densityBytes_le
  obtain ⟨hword, hnext⟩ := nextHeader_masks hge (by omega)
  have hcut : ¬ c.writeLogLast ≤ slot + 1 := by omega
  have hnat := nextHeader_toNat hge (by omega)
  have hdecoded :
      ((nextHeader address &&& 0x1FFF) <<< 1) + feeByteRange = address := by
    apply UInt16.toNat.inj
    rw [entryNextAddress_toNat]
    omega
  simp only [entryAt, hflash, hword, hnext, hcut, hnextFlash, UInt16.not_not,
    hvalue, hdecoded, if_true, if_false, wordEntry, haddress]

end Written

/-! ## Sequences of entries -/

section Holds

variable {flash : Nat → UInt16} {slot stop : Nat} {entries : List Entry}

theorem Holds.le (h : Holds c flash slot entries stop) : slot ≤ stop := by
  induction h with
  | nil => exact Nat.le_refl _
  | cons hlt hprogrammed rest ih => omega

theorem Holds.one (hlt : slot < c.writeLogLast)
    (hprogrammed : flash slot ≠ feeEmptyWord) :
    Holds c flash slot (entryAt c flash slot).1.toList
      (slot + (entryAt c flash slot).2) := by
  have h := Holds.cons hlt hprogrammed (.nil (slot + (entryAt c flash slot).2))
  rwa [List.append_nil] at h

theorem Holds.append {second : List Entry} {last : Nat}
    (h : Holds c flash slot entries stop)
    (hsecond : Holds c flash stop second last) :
    Holds c flash slot (entries ++ second) last := by
  induction h with
  | nil => exact hsecond
  | cons hlt hprogrammed rest ih =>
      rw [List.append_assoc]
      exact .cons hlt hprogrammed (ih hsecond)

theorem Holds.congr {other : Nat → UInt16} (h : Holds c flash slot entries stop)
    (heq : ∀ i, slot ≤ i → i < stop → flash i = other i) :
    Holds c other slot entries stop := by
  induction h with
  | nil => exact .nil _
  | @cons slot stop entries hlt hprogrammed rest ih =>
      have hle := rest.le
      have hentry := @entryAt_congr c flash other slot fun i hi hstop => heq i hi (by omega)
      have hwidth := (entryAt_width (c := c) flash hlt).1
      rw [heq slot (Nat.le_refl _) (by omega)] at hprogrammed
      have hrest := ih fun i hi hstop => heq i (by omega) hstop
      rw [hentry] at hrest ⊢
      exact .cons hlt hprogrammed hrest

theorem Holds.inWord (h : Holds c flash slot entries stop) :
    ∀ entry ∈ entries, InWord c entry := by
  induction h with
  | nil => simp
  | @cons slot stop entries hlt hprogrammed rest ih =>
      intro entry hentry
      rcases List.mem_append.mp hentry with hentry | hentry
      · exact entryAt_inWord flash slot entry (Option.mem_toList.mp hentry)
      · exact ih entry hentry

theorem Holds.scanLog_eq (h : Holds c flash slot entries stop)
    (hstop : c.writeLogLast ≤ stop ∨ flash stop = feeEmptyWord) {fuel : Nat}
    (hfuel : c.writeLogLast - slot ≤ fuel) :
    scanLog c flash fuel slot = (entries, stop) := by
  induction h generalizing fuel with
  | nil slot =>
      cases fuel with
      | zero => rfl
      | succ fuel =>
          have hend : ¬ (slot < c.writeLogLast ∧ flash slot ≠ feeEmptyWord) := by
            rintro ⟨hlt, hne⟩
            rcases hstop with hstop | hstop
            · omega
            · exact hne hstop
          rw [scanLog, if_neg hend]
  | @cons slot stop entries hlt hprogrammed rest ih =>
      have hwidth := (entryAt_width (c := c) flash hlt).1
      cases fuel with
      | zero => omega
      | succ fuel =>
          rw [scanLog, if_pos ⟨hlt, hprogrammed⟩]
          simp only [@ih hstop fuel (by omega)]

theorem holds_scanLog (flash : Nat → UInt16) {fuel slot : Nat}
    (hfuel : c.writeLogLast - slot ≤ fuel) (hslot : slot ≤ c.writeLogLast) :
    Holds c flash slot (scanLog c flash fuel slot).1 (scanLog c flash fuel slot).2 ∧
      (scanLog c flash fuel slot).2 ≤ c.writeLogLast := by
  induction fuel generalizing slot with
  | zero => exact ⟨.nil slot, by simpa [scanLog] using hslot⟩
  | succ fuel ih =>
      rw [scanLog]
      split_ifs with hmore
      · have hwidth := entryAt_width (c := c) flash hmore.1
        have hrest := @ih (slot + (entryAt c flash slot).2) (by omega) hwidth.2
        exact ⟨.cons hmore.1 hmore.2 hrest.1, hrest.2⟩
      · exact ⟨.nil slot, hslot⟩

theorem replayLoop_eq (flash : Nat → UInt16) (fuel slot : Nat)
    (buf : Nat → UInt8) :
    replayLoop c flash fuel slot buf =
      ((scanLog c flash fuel slot).2,
        BlockWrite.applyAll buf (scanLog c flash fuel slot).1) := by
  induction fuel generalizing slot buf with
  | zero => rfl
  | succ fuel ih =>
      rw [scanLog]
      split_ifs with hmore
      · rw [replayLoop_succ flash fuel buf hmore.1 hmore.2, ih,
          BlockWrite.applyAll_append]
      · by_cases hlt : slot < c.writeLogLast
        · have hempty : flash slot = feeEmptyWord := by
            by_contra hne
            exact hmore ⟨hlt, hne⟩
          simp [replayLoop, hempty]
        · simp [replayLoop, hlt]

end Holds

/-! ## The compacted area -/

/-- The byte that the compacted area holds for an address. -/
def compacted (flash : Nat → UInt16) (address : Nat) : UInt8 :=
  if address % 2 = 0 then (~~~ flash (address / 2)).toUInt8
  else ((~~~ flash (address / 2)) >>> 8).toUInt8

theorem storeWord_range (flash : Nat → UInt16) (buf : Nat → UInt8) (count : Nat)
    {address : Nat} (h : address < 2 * count) :
    (List.range count).foldl
        (fun buf i => storeWord buf (2 * i) (~~~ flash i)) buf address =
      compacted flash address := by
  induction count with
  | zero => omega
  | succ count ih =>
      rw [List.range_succ, List.foldl_append, List.foldl_cons, List.foldl_nil,
        storeWord_eq]
      by_cases hbefore : address < 2 * count
      · rw [overlay_before _ _ hbefore, ih hbefore]
      · have hlast : address = 2 * count ∨ address = 2 * count + 1 := by omega
        rw [overlay_inside' _ _ _ (by omega) (by simp; omega), compacted]
        rcases hlast with rfl | rfl
        · simp [wordBytes]
        · have hmod : (2 * count + 1) % 2 = 1 := by omega
          have hdiv : (2 * count + 1) / 2 = count := by omega
          simp [wordBytes, hmod, hdiv]

theorem loadCompacted_apply (flash : Nat → UInt16) (buf : Nat → UInt8)
    {address : Nat} (h : address < c.densityBytes) :
    loadCompacted c flash buf address = compacted flash address := by
  have heven := c.densityBytes_even
  refine storeWord_range flash buf _ ?_
  rw [Config.writeLogBase]
  omega

theorem eepromInit_dataBuf (s : State) {address : Nat}
    (h : address < c.densityBytes) :
    (eepromInit c s).dataBuf address =
      BlockWrite.applyAll (compacted s.flash) (logEntries c s.flash) address := by
  rw [eepromInit, replayLoop_eq]
  exact BlockWrite.applyAll_congr (loadCompacted_apply s.flash s.dataBuf h) _

theorem eepromInit_emptySlot (s : State) :
    (eepromInit c s).emptySlot =
      (scanLog c s.flash (c.writeLogLast - c.writeLogBase) c.writeLogBase).2 := by
  rw [eepromInit, replayLoop_eq]

theorem eepromInit_flash (s : State) : (eepromInit c s).flash = s.flash := rfl

end Qmk.LegacyEeprom
