import Qmk.LegacyEeprom.Durability

/-!
# Loss of power during a write

Power can be lost between any two operations on the flash.  From a flash that
`EEPROM_Init` rebuilds the buffer from, every prefix of a write that does not
compact leaves a live image, and a live image takes further writes.
-/

namespace Qmk.LegacyEeprom

open Qmk.Lib

/-- The operations made from `s` to `after`, in their order. -/
def opsSince (s after : State) : List FlashOp :=
  (after.ops.take (after.ops.length - s.ops.length)).reverse

/-- The flash when power is lost after the first `count` of these operations. -/
def tornFlash (s after : State) (count : Nat) : Nat → UInt16 :=
  ((opsSince s after).take count).foldl FlashOp.apply s.flash

/-- Power-up with a given flash. -/
def boot (c : Config) (flash : Nat → UInt16) : State :=
  eepromInit c ⟨flash, fun _ => 0, 0, []⟩

/--
`EEPROM_Init` would leave the state as it is, no entry of the log concerns a
word whose compacted cell is unprogrammed, and nothing is programmed behind the
first available slot.
-/
structure Intact (c : Config) (s : State) : Prop where
  dataBuf_eq : ∀ a < c.densityBytes, (eepromInit c s).dataBuf a = s.dataBuf a
  emptySlot_eq : (eepromInit c s).emptySlot = s.emptySlot
  settled : Settled s.flash (logEntries c s.flash)
  free : ∀ slot, s.emptySlot ≤ slot → slot < c.writeLogLast →
    s.flash slot = feeEmptyWord

section Torn

variable {c : Config} {s after : State} {op : Operation}

theorem Intact.live (h : Intact c s) : Live c s.flash s.dataBuf s.emptySlot := by
  have himage := Image.of_init (c := c) s (by rw [h.emptySlot_eq]; exact h.free)
  rw [h.emptySlot_eq] at himage
  exact ⟨_, himage.congr h.dataBuf_eq, h.settled⟩

theorem Live.intact (h : Live c s.flash s.dataBuf s.emptySlot) : Intact c s := by
  obtain ⟨entries, himage, hsettled⟩ := h
  have hentries : logEntries c s.flash = entries := by
    rw [logEntries, himage.scanLog_eq]
  exact ⟨fun a ha => himage.init_dataBuf ha, himage.init_emptySlot,
    hentries ▸ hsettled, himage.free⟩

theorem eepromInit_init (c : Config) (s : State) {a : Nat}
    (ha : a < c.densityBytes) :
    (eepromInit c (eepromInit c s)).dataBuf a = (eepromInit c s).dataBuf a := by
  rw [eepromInit_dataBuf _ ha, eepromInit_dataBuf s ha, eepromInit_flash]

theorem opsSince_eq {ops : List FlashOp} (h : after.ops = ops ++ s.ops) :
    opsSince s after = ops.reverse := by
  simp [opsSince, h]

theorem tornFlash_eq {ops : List FlashOp} (h : after.ops = ops ++ s.ops)
    (count : Nat) :
    tornFlash s after count = applyOps s.flash (ops.drop (ops.length - count)) := by
  rw [tornFlash, opsSince_eq h, List.take_reverse, List.foldl_reverse]
  rfl

/-- Without an erase, every cut of a path leaves what the path promises. -/
theorem Path.torn {P : (Nat → UInt16) → Prop} (h : Path P s after)
    (herase : .erase ∉ opsSince s after) (count : Nat) :
    P (tornFlash s after count) := by
  obtain ⟨ops, hops, -, hcut⟩ := h
  rw [opsSince_eq hops, List.mem_reverse] at herase
  rw [tornFlash_eq hops]
  exact (hcut.resolve_left herase) _

/-! ## The write that splits a zero -/

theorem perform_splitsZero (hsplit : op.SplitsZero c s) :
    ∃ (address : UInt16) (t : State), address.toNat < 128 ∧
      c.writeLogBase < c.writeLogLast ∧ t.ops = s.ops ∧
      perform c s op =
        (eepromWriteLogByteEntry c address (eepromCompact c t).2).2 := by
  cases op with
  | byte address value => exact hsplit.elim
  | word address value =>
      obtain ⟨heven, hlt, rfl, hlow, hhigh, hcell, hslot, hroom⟩ := hsplit
      have hdensity := c.densityBytes_ge
      have hnext := @add_one_toNat c address (by omega)
      have hrange : address < feeByteRange := UInt16.lt_iff_toNat_lt.mpr hlt
      have hvalue : loadWord s.dataBuf address.toNat ≠ 0 := by
        intro h
        have hbyte := loadWord_low s.dataBuf address.toNat
        rw [h] at hbyte
        exact hlow hbyte.symm
      refine ⟨address + 1,
        { s with dataBuf := storeWord s.dataBuf address.toNat 0 },
        by omega, hroom, rfl, ?_⟩
      rw [perform, eepromWriteDataWord_even (by omega) heven hvalue]
      dsimp only
      rw [if_neg hcell, if_pos hrange]
      have hlow' : s.dataBuf address.toNat ≠ (0 : UInt16).toUInt8 := hlow
      have hhigh' :
          s.dataBuf (address.toNat + 1) ≠ ((0 : UInt16) >>> 8).toUInt8 := hhigh
      simp only [eepromWriteLogChangedBytes, ne_eq, high_byte_eq_iff,
        loadWord_low, loadWord_high, hlow', hhigh', not_false_eq_true, if_true]
      rw [@eepromWriteLogByteEntry_full c
        { s with dataBuf := storeWord s.dataBuf address.toNat 0 } address
        (Nat.le_of_eq hslot.symm)]

theorem eepromCompact_ops (t : State) :
    ∃ ops, (eepromCompact c t).2.ops = ops ++ .erase :: t.ops := by
  obtain ⟨ops, hops, -⟩ := (eepromCompact_compacted (c := c) t).ops
  exact ⟨ops, hops⟩

theorem splitsZero_erases (hsplit : op.SplitsZero c s) :
    .erase ∈ opsSince s (perform c s op) := by
  obtain ⟨address, t, -, hroom, ht, hperform⟩ := perform_splitsZero hsplit
  obtain ⟨ops, hops⟩ := eepromCompact_ops (c := c) t
  have hslot : (eepromCompact c t).2.emptySlot < c.writeLogLast := by
    rwa [eepromCompact_emptySlot]
  rw [eepromWriteLogByteEntry_append hslot] at hperform
  have hall : (perform c s op).ops =
      (.program (eepromCompact c t).2.emptySlot
        ((address <<< 8) |||
          ((eepromCompact c t).2.dataBuf address.toNat).toUInt16) ::
        ops ++ [.erase]) ++ s.ops := by
    rw [hperform]
    simp [State.advance, State.record, hops, ht]
  rw [opsSince_eq hall]
  simp

/-- Even after that write the flash is an image of the buffer, if not a settled one. -/
theorem splitsZero_image (hsplit : op.SplitsZero c s) :
    ∃ slot entries, Image c (perform c s op).flash (perform c s op).dataBuf slot
      entries := by
  obtain ⟨address, t, haddress, hroom, -, hperform⟩ := perform_splitsZero hsplit
  obtain ⟨entries, himage, -⟩ := eepromCompact_live (c := c) t
  have hslot : (eepromCompact c t).2.emptySlot < c.writeLogLast := by
    rwa [eepromCompact_emptySlot]
  have hempty := himage.free _ (Nat.le_refl _) hslot
  have happend := himage.append (fun i hi => Function.update_of_ne
      (by omega : i ≠ (eepromCompact c t).2.emptySlot) _ _)
    (byteEntry_holds (t.dataBuf address.toNat) hslot haddress) hslot
    fun i hi hlt => (Function.update_of_ne (by omega) _ _).trans
      (himage.free i (by omega) hlt)
  have hdata : (perform c s op).dataBuf = t.dataBuf := by
    rw [hperform, eepromWriteLogByteEntry_dataBuf, eepromCompact_dataBuf]
  have hflash : (perform c s op).flash =
      Function.update (eepromCompact c t).2.flash
        (eepromCompact c t).2.emptySlot
        ((address <<< 8) ||| (t.dataBuf address.toNat).toUInt16) := by
    rw [hperform, eepromWriteLogByteEntry_append hslot, eepromCompact_dataBuf]
    simp only [State.advance, State.record, program_apply hempty]
  rw [hdata, hflash]
  exact ⟨_, _, happend.congr fun a _ => congrFun (storeByte_same rfl) a⟩

/-! ## Reboots -/

theorem perform_image (hlive : Live c s.flash s.dataBuf s.emptySlot)
    (op : Operation) :
    ∃ slot entries, Image c (perform c s op).flash (perform c s op).dataBuf slot
      entries := by
  by_cases hsplit : op.SplitsZero c s
  · exact splitsZero_image hsplit
  · obtain ⟨entries, himage, -⟩ := (perform_stores hlive hsplit).live
    exact ⟨_, entries, himage.congr fun a ha => (perform_dataBuf s op ha).symm⟩

/-- What a reboot finds is what a live image holds, and it is live again. -/
theorem boot_live {flash : Nat → UInt16} {contents : Nat → UInt8} {slot : Nat}
    (h : Live c flash contents slot) :
    Live c (boot c flash).flash (boot c flash).dataBuf (boot c flash).emptySlot := by
  have hslot : (boot c flash).emptySlot = slot := Live.init_emptySlot h
  rw [hslot]
  exact h.congr fun a ha => (Live.init_dataBuf
    (s := ⟨flash, fun _ => 0, 0, []⟩) h ha).symm

theorem powerCycle_perform (hlive : Live c s.flash s.dataBuf s.emptySlot)
    (op : Operation) {a : Nat} (ha : a < c.densityBytes) :
    (powerCycle c (perform c s op)).dataBuf a =
      (op.target c).apply s.dataBuf a := by
  obtain ⟨slot, entries, himage⟩ := perform_image hlive op
  rw [← perform_dataBuf s op ha]
  exact Image.init_dataBuf (s := { perform c s op with
    dataBuf := fun _ => 0, emptySlot := 0 }) himage ha

/--
A write that does not compact may be cut after any number of its operations:
the reboot gives each byte of it old or new and every other byte unchanged, and
recovers any write made after it.
-/
theorem legacyEeprom_torn_write (h : Intact c s) (op : Operation)
    (hcompact : .erase ∉ opsSince s (perform c s op)) (count : Nat) :
    (∀ a < c.densityBytes,
      (boot c (tornFlash s (perform c s op) count)).dataBuf a = s.dataBuf a ∨
        (op.target c).Covers a ∧
          (boot c (tornFlash s (perform c s op) count)).dataBuf a =
            (op.target c).apply s.dataBuf a) ∧
    ∀ (further : Operation), ∀ a < c.densityBytes,
      (powerCycle c (perform c
        (boot c (tornFlash s (perform c s op) count)) further)).dataBuf a =
        (further.target c).apply
          (boot c (tornFlash s (perform c s op) count)).dataBuf a := by
  have hsplit : ¬ op.SplitsZero c s :=
    fun hsplit => hcompact (splitsZero_erases hsplit)
  obtain ⟨contents, slot, hlive, hbetween⟩ :=
    (perform_stores h.live hsplit).path.torn hcompact count
  constructor
  · intro a ha
    have hboot : (boot c (tornFlash s (perform c s op) count)).dataBuf a =
        contents a := Live.init_dataBuf
      (s := ⟨tornFlash s (perform c s op) count, fun _ => 0, 0, []⟩) hlive ha
    rw [hboot]
    by_cases hcovers : (op.target c).Covers a
    · exact (hbetween a ha).imp_right fun hnew => ⟨hcovers, hnew⟩
    · left
      rcases hbetween a ha with hold | hnew
      · exact hold
      · rw [hnew, BlockWrite.apply_outside _ hcovers]
  · exact fun further a ha => powerCycle_perform (boot_live hlive) further ha

end Torn

/-- An EEPROM of 256 bytes whose log has four slots. -/
def smallEeprom : Config where
  densityBytes := 256
  writeLogBytes := 8
  densityBytes_ge := by decide
  densityBytes_le := by decide
  densityBytes_even := by decide
  writeLogBytes_even := by decide

/-- Word 0 is 1, and a byte entry for address 1 stands behind the first free slot. -/
def strayEntry : State :=
  eepromInit smallEeprom
    ⟨fun i => if i = 0 then 0xFFFE else if i = 129 then 0x0107 else 0xFFFF,
      fun _ => 0, 0, []⟩

/-- A byte entry that fills that slot lets replay reach the stray entry. -/
theorem strayEntry_revived :
    (∀ a < 256, (eepromInit smallEeprom strayEntry).dataBuf a =
        strayEntry.dataBuf a) ∧
      (eepromInit smallEeprom strayEntry).emptySlot = strayEntry.emptySlot ∧
      Settled strayEntry.flash (logEntries smallEeprom strayEntry.flash) ∧
      .erase ∉ opsSince strayEntry (perform smallEeprom strayEntry (.byte 0 2)) ∧
      strayEntry.dataBuf 1 = 0 ∧
      ¬ ((Operation.byte 0 2).target smallEeprom).Covers 1 ∧
      (boot smallEeprom (tornFlash strayEntry
        (perform smallEeprom strayEntry (.byte 0 2)) 1)).dataBuf 1 = 7 := by
  refine ⟨fun a ha => eepromInit_init smallEeprom _ ha, by decide +kernel, ?_,
    by decide +kernel, by decide +kernel, by decide +kernel, by decide +kernel⟩
  have hentries : logEntries smallEeprom strayEntry.flash = [] := by
    decide +kernel
  simp [Settled, hentries]

def oneWord : State :=
  run (perform smallEeprom) (eepromErase smallEeprom blankState)
    [.word 128 0x0101]

/-- A word write that is cut after its header. -/
theorem smallEeprom_torn_write :
    (∀ a < 256,
      (boot smallEeprom (tornFlash oneWord
          (perform smallEeprom oneWord (.word 128 0x0302)) 1)).dataBuf a =
          oneWord.dataBuf a ∨
        ((Operation.word 128 0x0302).target smallEeprom).Covers a ∧
          (boot smallEeprom (tornFlash oneWord
            (perform smallEeprom oneWord (.word 128 0x0302)) 1)).dataBuf a =
            ((Operation.word 128 0x0302).target smallEeprom).apply
              oneWord.dataBuf a) ∧
    ∀ (further : Operation), ∀ a < 256,
      (powerCycle smallEeprom (perform smallEeprom
        (boot smallEeprom (tornFlash oneWord
          (perform smallEeprom oneWord (.word 128 0x0302)) 1)) further)).dataBuf
        a =
        (further.target smallEeprom).apply
          (boot smallEeprom (tornFlash oneWord
            (perform smallEeprom oneWord (.word 128 0x0302)) 1)).dataBuf a := by
  have hserves := @Serves.run smallEeprom _ _ [.word 128 0x0101]
    (eepromErase_serves smallEeprom blankState) ⟨by decide +kernel, trivial⟩
  exact legacyEeprom_torn_write hserves.live.intact (.word 128 0x0302)
    (by decide +kernel) 1

end Qmk.LegacyEeprom
