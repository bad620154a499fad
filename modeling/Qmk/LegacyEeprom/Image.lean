import Qmk.LegacyEeprom.Log

/-!
# Flash images

An image of some contents is a flash from which `EEPROM_Init` rebuilds them.  It
is settled when no entry of the log concerns a word whose compacted cell is
unprogrammed, so that such a cell can still be programmed directly.
-/

namespace Qmk.LegacyEeprom

open Qmk.Lib

/--
The compacted area and the `entries` up to `slot` give `contents`, and the rest
of the log is unprogrammed.
-/
structure Image (c : Config) (flash : Nat → UInt16) (contents : Nat → UInt8)
    (slot : Nat) (entries : List Entry) : Prop where
  holds : Holds c flash c.writeLogBase entries slot
  slot_le : slot ≤ c.writeLogLast
  free : ∀ i, slot ≤ i → i < c.writeLogLast → flash i = feeEmptyWord
  contents_eq : ∀ address < c.densityBytes,
    BlockWrite.applyAll (compacted flash) entries address = contents address

def Settled (flash : Nat → UInt16) (entries : List Entry) : Prop :=
  ∀ entry ∈ entries, flash (entry.address / 2) ≠ feeEmptyWord

/-- The flash is a settled image of `contents`. -/
def Live (c : Config) (flash : Nat → UInt16) (contents : Nat → UInt8)
    (slot : Nat) : Prop :=
  ∃ entries, Image c flash contents slot entries ∧ Settled flash entries

section Image

variable {c : Config} {flash other : Nat → UInt16}
  {contents contents' : Nat → UInt8} {slot stop : Nat}
  {entries added : List Entry}

theorem Image.stops (h : Image c flash contents slot entries) :
    c.writeLogLast ≤ slot ∨ flash slot = feeEmptyWord := by
  rcases Nat.lt_or_ge slot c.writeLogLast with hlt | hge
  · exact .inr (h.free slot (Nat.le_refl _) hlt)
  · exact .inl hge

theorem Image.scanLog_eq (h : Image c flash contents slot entries) :
    scanLog c flash (c.writeLogLast - c.writeLogBase) c.writeLogBase =
      (entries, slot) :=
  h.holds.scanLog_eq h.stops (Nat.le_refl _)

theorem Image.init_dataBuf {s : State} (h : Image c s.flash contents slot entries)
    {address : Nat} (haddress : address < c.densityBytes) :
    (eepromInit c s).dataBuf address = contents address := by
  rw [eepromInit_dataBuf s haddress, logEntries, h.scanLog_eq]
  exact h.contents_eq address haddress

theorem Image.init_emptySlot {s : State}
    (h : Image c s.flash contents slot entries) :
    (eepromInit c s).emptySlot = slot := by
  rw [eepromInit_emptySlot, h.scanLog_eq]

theorem writeLogBase_le : c.writeLogBase ≤ c.writeLogLast := by
  rw [Config.writeLogBase, Config.writeLogLast]
  omega

/-- The slot that `EEPROM_Init` finds ends an image, if the log behind it is free. -/
theorem Image.of_init (s : State)
    (hfree : ∀ i, (eepromInit c s).emptySlot ≤ i → i < c.writeLogLast →
      s.flash i = feeEmptyWord) :
    Image c s.flash (eepromInit c s).dataBuf (eepromInit c s).emptySlot
      (logEntries c s.flash) := by
  obtain ⟨hholds, hle⟩ := holds_scanLog (c := c) s.flash (Nat.le_refl _)
    writeLogBase_le
  rw [eepromInit_emptySlot] at hfree ⊢
  exact ⟨hholds, hle, hfree, fun address haddress =>
    (eepromInit_dataBuf s haddress).symm⟩

theorem Image.congr (h : Image c flash contents slot entries)
    (heq : ∀ address < c.densityBytes, contents address = contents' address) :
    Image c flash contents' slot entries :=
  ⟨h.holds, h.slot_le, h.free, fun address haddress =>
    (h.contents_eq address haddress).trans (heq address haddress)⟩

theorem compacted_congr {address : Nat}
    (h : flash (address / 2) = other (address / 2)) :
    compacted flash address = compacted other address := by
  simp only [compacted, h]

/-- A compacted cell that holds the complement of a word gives its two bytes. -/
theorem compacted_loadWord {address : Nat}
    (h : flash (address / 2) = ~~~ loadWord contents (address / 2 * 2)) :
    compacted flash address = contents address := by
  simp only [compacted, h, UInt16.not_not, loadWord_low, loadWord_high]
  split_ifs with heven
  · exact congrArg contents (by omega)
  · exact congrArg contents (by omega)

theorem address_lt_base {address : Nat} (h : address < c.densityBytes) :
    address / 2 < c.writeLogBase := by
  have heven := c.densityBytes_even
  rw [Config.writeLogBase]
  omega

/-- Programming slots behind the log appends the entries that they hold. -/
theorem Image.append (h : Image c flash contents slot entries)
    (hbefore : ∀ i < slot, other i = flash i)
    (hadded : Holds c other slot added stop) (hstop : stop ≤ c.writeLogLast)
    (hfree : ∀ i, stop ≤ i → i < c.writeLogLast → other i = feeEmptyWord) :
    Image c other (BlockWrite.applyAll contents added) stop
      (entries ++ added) := by
  have hbase := h.holds.le
  have hold : Holds c other c.writeLogBase entries slot :=
    h.holds.congr fun i _ hi => (hbefore i hi).symm
  refine ⟨hold.append hadded, hstop, hfree, ?_⟩
  intro address haddress
  have hcell := address_lt_base haddress
  rw [BlockWrite.applyAll_append]
  apply BlockWrite.applyAll_congr
  rw [← h.contents_eq address haddress]
  exact BlockWrite.applyAll_congr
    (compacted_congr (hbefore _ (by omega))) entries

theorem InWord.not_covers {entry : Entry} (h : InWord c entry) {address : Nat}
    (hword : entry.address / 2 ≠ address / 2) : ¬ entry.Covers address := by
  obtain ⟨-, hsize⟩ := h
  rw [BlockWrite.Covers]
  omega

theorem Image.direct (h : Image c flash contents slot entries) {cell : Nat}
    (hcell : cell < c.writeLogBase)
    (hentries : ∀ entry ∈ entries, entry.address / 2 ≠ cell)
    (hsame : ∀ address < c.densityBytes, address / 2 ≠ cell →
      contents' address = contents address) :
    Image c (Function.update flash cell (~~~ loadWord contents' (cell * 2)))
      contents' slot entries := by
  have hbase := h.holds.le
  refine ⟨h.holds.congr fun i hi _ => ?_, h.slot_le, fun i hi hlt => ?_, ?_⟩
  · exact (Function.update_of_ne (by omega) _ _).symm
  · rw [Function.update_of_ne (by omega), h.free i hi hlt]
  · intro address haddress
    by_cases hword : address / 2 = cell
    · have huntouched : ∀ entry ∈ entries, ¬ entry.Covers address :=
        fun entry hentry => InWord.not_covers (h.holds.inWord entry hentry)
          (by rw [hword]; exact hentries entry hentry)
      rw [BlockWrite.applyAll_outside huntouched]
      apply compacted_loadWord
      rw [hword, Function.update_self]
    · rw [hsame address haddress hword, ← h.contents_eq address haddress]
      exact BlockWrite.applyAll_congr
        (compacted_congr (Function.update_of_ne hword _ _)) entries

theorem Image.of_cells
    (hcells : ∀ i < c.writeLogBase, flash i = ~~~ loadWord contents (i * 2))
    (hfree : ∀ i, c.writeLogBase ≤ i → i < c.writeLogLast →
      flash i = feeEmptyWord) :
    Image c flash contents c.writeLogBase [] :=
  ⟨.nil _, writeLogBase_le, hfree, fun _ haddress =>
    compacted_loadWord (hcells _ (address_lt_base haddress))⟩

/-! ## Settled images -/

theorem Live.congr (h : Live c flash contents slot)
    (heq : ∀ address < c.densityBytes, contents address = contents' address) :
    Live c flash contents' slot := by
  obtain ⟨entries, himage, hsettled⟩ := h
  exact ⟨entries, himage.congr heq, hsettled⟩

theorem Live.append (h : Live c flash contents slot)
    (hbefore : ∀ i < slot, other i = flash i)
    (hadded : Holds c other slot added stop) (hstop : stop ≤ c.writeLogLast)
    (hfree : ∀ i, stop ≤ i → i < c.writeLogLast → other i = feeEmptyWord)
    (hsettled : Settled flash added) :
    Live c other (BlockWrite.applyAll contents added) stop := by
  obtain ⟨entries, himage, hentries⟩ := h
  refine ⟨entries ++ added, himage.append hbefore hadded hstop hfree, ?_⟩
  have hbase := himage.holds.le
  intro entry hentry
  rcases List.mem_append.mp hentry with hentry | hentry
  · have hcell := address_lt_base (himage.holds.inWord entry hentry).1
    rw [hbefore _ (by omega)]
    exact hentries entry hentry
  · have hcell := address_lt_base (hadded.inWord entry hentry).1
    rw [hbefore _ (by omega)]
    exact hsettled entry hentry

theorem Live.direct (h : Live c flash contents slot) {cell : Nat}
    (hcell : cell < c.writeLogBase) (hempty : flash cell = feeEmptyWord)
    (hsame : ∀ address < c.densityBytes, address / 2 ≠ cell →
      contents' address = contents address) :
    Live c (Function.update flash cell (~~~ loadWord contents' (cell * 2)))
      contents' slot := by
  obtain ⟨entries, himage, hsettled⟩ := h
  have hentries : ∀ entry ∈ entries, entry.address / 2 ≠ cell := by
    intro entry hentry hword
    exact hsettled entry hentry (hword ▸ hempty)
  refine ⟨entries, himage.direct hcell hentries hsame, ?_⟩
  intro entry hentry
  rw [Function.update_of_ne (hentries entry hentry)]
  exact hsettled entry hentry

theorem Live.of_cells
    (hcells : ∀ i < c.writeLogBase, flash i = ~~~ loadWord contents (i * 2))
    (hfree : ∀ i, c.writeLogBase ≤ i → i < c.writeLogLast →
      flash i = feeEmptyWord) :
    Live c flash contents c.writeLogBase :=
  ⟨[], Image.of_cells hcells hfree, by simp [Settled]⟩

theorem Live.init_dataBuf {s : State} (h : Live c s.flash contents slot)
    {address : Nat} (haddress : address < c.densityBytes) :
    (eepromInit c s).dataBuf address = contents address := by
  obtain ⟨entries, himage, -⟩ := h
  exact himage.init_dataBuf haddress

theorem Live.init_emptySlot {s : State} (h : Live c s.flash contents slot) :
    (eepromInit c s).emptySlot = slot := by
  obtain ⟨entries, himage, -⟩ := h
  exact himage.init_emptySlot

end Image

end Qmk.LegacyEeprom
