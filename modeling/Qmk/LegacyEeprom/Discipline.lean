import Qmk.LegacyEeprom.Durability

/-!
# The programming discipline

A half-word of the flash is programmed once between two erases, and never with the value of an
unprogrammed one.  So the log is a run of entries with nothing behind it, and `empty_slot` is where
`EEPROM_Init` finds its end.
-/

namespace Qmk.LegacyEeprom

open Qmk.Lib

/-! ## Operations -/

/-- What may be done to a flash: program an unprogrammed half-word of the EEPROM, or erase. -/
def FlashOp.Allowed (c : Config) (flash : Nat → UInt16) : FlashOp → Prop
  | .erase => True
  | .program address data =>
      address < c.writeLogLast ∧ flash address = feeEmptyWord ∧ data ≠ feeEmptyWord

/-- Every operation of the list, last first, is allowed when it is made. -/
def Disciplined (c : Config) (flash : Nat → UInt16) : List FlashOp → Prop
  | [] => True
  | op :: earlier => op.Allowed c (applyOps flash earlier) ∧ Disciplined c flash earlier

/-- The log is programmed up to `slot`, entry by entry, and unprogrammed from there. -/
structure Tidy (c : Config) (flash : Nat → UInt16) (slot : Nat) : Prop where
  base_le : c.writeLogBase ≤ slot
  le_last : slot ≤ c.writeLogLast
  entries : ∃ entries, Holds c flash c.writeLogBase entries slot
  programmed : ∀ i, c.writeLogBase ≤ i → i < slot → flash i ≠ feeEmptyWord
  erased : ∀ i, slot ≤ i → i < c.writeLogLast → flash i = feeEmptyWord

/-- The step from `s` to `s'` keeps the discipline. -/
structure Keeps (c : Config) (s s' : State) : Prop where
  tidy : Tidy c s'.flash s'.emptySlot
  ops : ∃ ops, s'.ops = ops ++ s.ops ∧ s'.flash = applyOps s.flash ops ∧
    Disciplined c s.flash ops

section Keeps

variable {c : Config} {flash : Nat → UInt16} {slot : Nat} {s t u : State}

theorem Disciplined.append {second : List FlashOp} (first : List FlashOp)
    (hfirst : Disciplined c flash first)
    (hsecond : Disciplined c (applyOps flash first) second) :
    Disciplined c flash (second ++ first) := by
  induction second with
  | nil => exact hfirst
  | cons op second ih =>
      have hop : op.Allowed c (applyOps flash (second ++ first)) := by
        rw [applyOps_append]
        exact hsecond.1
      exact ⟨hop, ih hsecond.2⟩

theorem Keeps.none (h : Tidy c t.flash t.emptySlot) (hops : t.ops = s.ops)
    (hflash : t.flash = s.flash) : Keeps c s t :=
  ⟨h, [], hops, hflash, trivial⟩

theorem Keeps.trans (h : Keeps c s t) (hnext : Keeps c t u) : Keeps c s u := by
  obtain ⟨first, hfirst, hflash, hallowed⟩ := h.ops
  obtain ⟨second, hsecond, hflash', hallowed'⟩ := hnext.ops
  refine ⟨hnext.tidy, second ++ first, ?_, ?_, hallowed.append first (hflash ▸ hallowed')⟩
  · rw [hsecond, hfirst, List.append_assoc]
  · rw [hflash', hflash, applyOps_append]

theorem Tidy.stops (h : Tidy c flash slot) : c.writeLogLast ≤ slot ∨ flash slot = feeEmptyWord :=
  (Nat.lt_or_ge slot c.writeLogLast).elim (fun hlt => .inr (h.erased slot (Nat.le_refl _) hlt))
    .inl

theorem Tidy.cell (h : Tidy c flash slot) {cell : Nat} (hcell : cell < c.writeLogBase)
    (data : UInt16) : Tidy c (Function.update flash cell data) slot := by
  have hlog : ∀ i, c.writeLogBase ≤ i → Function.update flash cell data i = flash i :=
    fun i hi => Function.update_of_ne (by omega) _ _
  obtain ⟨entries, hholds⟩ := h.entries
  refine ⟨h.base_le, h.le_last, ⟨entries, hholds.congr fun i hi _ => (hlog i hi).symm⟩,
    fun i hi hlt => ?_, fun i hi hlt => ?_⟩
  · rw [hlog i hi]
    exact h.programmed i hi hlt
  · rw [hlog i (Nat.le_trans h.base_le hi)]
    exact h.erased i hi hlt

/-- An entry is appended: the slots up to `stop` hold it. -/
theorem Tidy.append {other : Nat → UInt16} {added : List Entry} {stop : Nat} (h : Tidy c flash slot)
    (hadded : Holds c other slot added stop) (hstop : stop ≤ c.writeLogLast)
    (hbefore : ∀ i < slot, other i = flash i)
    (hprogrammed : ∀ i, slot ≤ i → i < stop → other i ≠ feeEmptyWord)
    (hafter : ∀ i, stop ≤ i → other i = flash i) : Tidy c other stop := by
  obtain ⟨entries, hholds⟩ := h.entries
  have hle := hadded.le
  refine ⟨Nat.le_trans h.base_le hle, hstop, ⟨entries ++ added, .append (hholds.congr
    fun i _ hi => (hbefore i hi).symm) hadded⟩, fun i hi hlt => ?_, fun i hi hlt => ?_⟩
  · rcases Nat.lt_or_ge i slot with hslot | hslot
    · rw [hbefore i hslot]
      exact h.programmed i hi hslot
    · exact hprogrammed i hslot hlt
  · rw [hafter i hi]
    exact h.erased i (Nat.le_trans hle hi) hlt

theorem Tidy.append_one (h : Tidy c flash slot) {data : UInt16} {added : List Entry}
    (hslot : slot < c.writeLogLast) (hdata : data ≠ feeEmptyWord)
    (hadded : Holds c (Function.update flash slot data) slot added (slot + 1)) :
    Tidy c (Function.update flash slot data) (slot + 1) := by
  refine h.append hadded hslot (fun i hi => Function.update_of_ne (by omega) _ _)
    (fun i hi hlt => ?_) fun i hi => Function.update_of_ne (by omega) _ _
  obtain rfl : i = slot := by omega
  rwa [Function.update_self]

theorem Tidy.append_two (h : Tidy c flash slot) {data next : UInt16} {added : List Entry}
    (hslot : slot + 1 < c.writeLogLast) (hdata : data ≠ feeEmptyWord) (hnext : next ≠ feeEmptyWord)
    (hadded : Holds c (Function.update (Function.update flash slot data) (slot + 1) next)
      slot added (slot + 2)) :
    Tidy c (Function.update (Function.update flash slot data) (slot + 1) next) (slot + 2) := by
  have hother : ∀ i, i ≠ slot → i ≠ slot + 1 →
      Function.update (Function.update flash slot data) (slot + 1) next i = flash i := by
    intro i hi hi'
    rw [Function.update_of_ne hi', Function.update_of_ne hi]
  refine h.append hadded hslot (fun i hi => hother i (by omega) (by omega))
    (fun i hi hlt => ?_) fun i hi => hother i (by omega) (by omega)
  rcases (by omega : i = slot ∨ i = slot + 1) with rfl | rfl
  · rwa [Function.update_of_ne (by omega), Function.update_self]
  · rwa [Function.update_self]

end Keeps

/-! ## Compaction -/

section Compact

variable {c : Config} {s : State}

theorem compactLoop_disciplined {count : Nat} (hcount : count ≤ c.writeLogBase)
    (hempty : ∀ i < c.writeLogBase, s.flash i = feeEmptyWord) :
    ∃ ops, (compactLoop count s).2.ops = ops ++ s.ops ∧
      (compactLoop count s).2.flash = applyOps s.flash ops ∧ Disciplined c s.flash ops := by
  induction count with
  | zero => exact ⟨[], rfl, rfl, trivial⟩
  | succ count ih =>
      have hloop := compactLoop_compacted count fun i hi => hempty i (by omega)
      obtain ⟨ops, hops, hflash, hallowed⟩ := ih (by omega)
      have hcell := (hloop.others count (Nat.le_refl _)).trans (hempty count (by omega))
      rw [compactLoop_succ, hloop.dataBuf_eq]
      by_cases hvalue : loadWord s.dataBuf (2 * count) = 0
      · rw [if_pos hvalue]
        exact ⟨ops, hops, hflash, hallowed⟩
      · rw [if_neg hvalue]
        refine ⟨.program count (~~~ loadWord s.dataBuf (2 * count)) :: ops,
          congrArg (_ :: ·) hops, congrArg (fun flash => FlashOp.apply flash (.program count _)) hflash,
          ⟨?_, hflash ▸ hcell, ?_⟩, hallowed⟩
        · exact Nat.lt_of_lt_of_le hcount writeLogBase_le
        · exact fun h => hvalue (UInt16.not_inj.mp (h.trans rfl))

theorem eepromCompact_keeps : Keeps c s (eepromCompact c s).2 := by
  have hcompacted := eepromCompact_compacted (c := c) s
  obtain ⟨ops, hops, hflash, hallowed⟩ :=
    compactLoop_disciplined (s := eepromClear c s) (Nat.le_refl c.writeLogBase) fun _ _ => rfl
  have herased : ∀ i, c.writeLogBase ≤ i → (eepromCompact c s).2.flash i = feeEmptyWord :=
    fun i hi => hcompacted.others i hi
  refine ⟨?_, ops ++ [.erase], ?_, ?_, Disciplined.append [.erase]
    ⟨trivial, trivial⟩ hallowed⟩
  · rw [eepromCompact_emptySlot]
    exact ⟨Nat.le_refl _, writeLogBase_le, ⟨[], .nil _⟩, fun i hi hlt => absurd hlt (by omega),
      fun i hi _ => herased i hi⟩
  · rw [eepromCompact, hops]
    simp [eepromClear, State.record]
  · rw [eepromCompact, hflash, applyOps_append]
    rfl

end Compact

/-! ## Entries -/

section Entries

variable {c : Config} {s : State} {address : UInt16}

theorem eepromWriteDirectEntry_keeps (h : Tidy c s.flash s.emptySlot)
    (haddress : address.toNat < c.densityBytes) :
    Keeps c s (eepromWriteDirectEntry address s).2 := by
  have hcell := address_lt_base haddress
  by_cases hempty : s.flash (address.toNat / 2) = feeEmptyWord
  · simp only [eepromWriteDirectEntry, alignedAddress_toNat, hempty, if_true,
      Nat.mul_div_cancel _ (Nat.zero_lt_two)]
    split_ifs with hvalue
    · exact .none h rfl rfl
    · refine ⟨?_, [.program _ _], rfl, rfl, ⟨⟨?_, hempty, hvalue⟩, trivial⟩⟩
      · have hafter := h.cell hcell (~~~ loadWord s.dataBuf (address.toNat / 2 * 2))
        rwa [← program_apply hempty] at hafter
      · exact Nat.lt_of_lt_of_le hcell writeLogBase_le
  · rw [eepromWriteDirectEntry_programmed hempty]
    exact .none h rfl rfl

theorem eepromWriteLogByteEntry_keeps (h : Tidy c s.flash s.emptySlot)
    (haddress : address.toNat < 128) : Keeps c s (eepromWriteLogByteEntry c address s).2 := by
  rcases Nat.lt_or_ge s.emptySlot c.writeLogLast with hslot | hfull
  · have hempty := h.erased _ (Nat.le_refl _) hslot
    have hne := byteEntry_ne_empty haddress (s.dataBuf address.toNat)
    rw [eepromWriteLogByteEntry_append hslot]
    refine ⟨?_, [.program _ _], rfl, rfl, ⟨⟨hslot, hempty, hne⟩, trivial⟩⟩
    have hadded := @byteEntry_holds c address s.flash s.emptySlot (s.dataBuf address.toNat) hslot haddress
    have hafter := h.append_one hslot hne hadded
    rwa [← program_apply hempty] at hafter
  · rw [eepromWriteLogByteEntry_full hfull]
    exact eepromCompact_keeps

theorem eepromWriteLogWordEntry_keeps (h : Tidy c s.flash s.emptySlot)
    (hge : 128 ≤ address.toNat) (haddress : address.toNat < c.densityBytes)
    (heven : address.toNat % 2 = 0) : Keeps c s (eepromWriteLogWordEntry c address s).2 := by
  have hdensity := c.densityBytes_le
  rcases eepromWriteLogWordEntry_cases c address s with
    hcompact | ⟨hvalue, hslot, hone⟩ | ⟨hvalue, hslot, htwo⟩
  · rw [hcompact]
    exact eepromCompact_keeps
  · have hempty := h.erased _ (Nat.le_refl _) hslot
    have hne := @encodedEntry_ne_empty address (loadWord s.dataBuf address.toNat) (by omega) hvalue
    have hadded := encodedEntry_holds hslot haddress heven hvalue
      (Function.update_self s.emptySlot _ s.flash)
    have hafter := h.append_one hslot hne hadded
    rw [← program_apply hempty] at hafter
    rw [hone]
    exact ⟨hafter, [.program _ _], rfl, rfl, ⟨⟨hslot, hempty, hne⟩, trivial⟩⟩
  · have hempty := h.erased _ (Nat.le_refl _) (Nat.lt_of_succ_lt hslot)
    have hempty' := h.erased _ (Nat.le_succ _) hslot
    have hheader : nextHeader address ≠ feeEmptyWord := nextHeader_ne_empty hge (by omega)
    have hnext : ~~~ loadWord s.dataBuf address.toNat ≠ feeEmptyWord :=
      fun heq => hvalue (UInt16.not_inj.mp (heq.trans rfl))
    have hblank : Function.update s.flash s.emptySlot (nextHeader address) (s.emptySlot + 1) =
        feeEmptyWord := by
      rw [Function.update_of_ne (by omega), hempty']
    have hadded : Holds c (Function.update (Function.update s.flash s.emptySlot
        (nextHeader address)) (s.emptySlot + 1) (~~~ loadWord s.dataBuf address.toNat))
        s.emptySlot [⟨address.toNat, wordBytes (loadWord s.dataBuf address.toNat)⟩]
        (s.emptySlot + 2) :=
      nextEntry_holds hslot hge haddress heven hvalue
        (by rw [Function.update_of_ne (by omega), Function.update_self])
        (Function.update_self _ _ _)
    have hafter := h.append_two hslot hheader hnext hadded
    rw [← program_apply hblank, ← program_apply hempty] at hafter
    rw [← program_apply hempty] at hblank
    rw [htwo]
    exact ⟨hafter, [.program _ _, .program _ _], rfl, rfl,
      ⟨⟨hslot, hblank, hnext⟩, ⟨Nat.lt_of_succ_lt hslot, hempty, hheader⟩, trivial⟩⟩

end Entries

/-! ## The interface -/

/-- A call of the interface that writes, or `EEPROM_Init`. -/
inductive Call where
  | write (op : Operation)
  | init
  deriving DecidableEq, Repr

def Call.perform (c : Config) (s : State) : Call → State
  | .write op => LegacyEeprom.perform c s op
  | .init => eepromInit c s

section Interface

variable {c : Config} {s : State} {address : UInt16}

theorem eepromWriteDataByte_keeps (h : Tidy c s.flash s.emptySlot) (value : UInt8) :
    Keeps c s (eepromWriteDataByte c address value s).2 := by
  rcases Nat.lt_or_ge address.toNat c.densityBytes with haddress | hout
  · rw [eepromWriteDataByte, if_neg (by omega)]
    by_cases hvalue : s.dataBuf address.toNat = value
    · rw [if_pos hvalue]
      exact .none h rfl rfl
    · rw [if_neg hvalue]
      dsimp only
      rw [direct_or_log fun s =>
        if address < feeByteRange then eepromWriteLogByteEntry c address s
        else eepromWriteLogWordEntry c (address &&& 0xFFFE) s]
      have hrange : address < feeByteRange ↔ address.toNat < 128 := UInt16.lt_iff_toNat_lt
      have haligned := alignedAddress_toNat address
      -- the flash and the cursor are those of `s`
      have hstored : Keeps c s
          { s with dataBuf := storeByte s.dataBuf address.toNat value } := .none h rfl rfl
      split_ifs with hempty hlow
      · exact hstored.trans (eepromWriteDirectEntry_keeps hstored.tidy haddress)
      · exact hstored.trans (eepromWriteLogByteEntry_keeps hstored.tidy (hrange.mp hlow))
      · have hge : 128 ≤ address.toNat := Nat.not_lt.mp (hrange.not.mp hlow)
        exact hstored.trans (eepromWriteLogWordEntry_keeps hstored.tidy (by omega) (by omega)
          (by omega))
  · rw [eepromWriteDataByte_outside hout]
    exact .none h rfl rfl

theorem eepromWriteLogChangedBytes_keeps (h : Tidy c s.flash s.emptySlot)
    (haddress : address.toNat < 128) (heven : address.toNat % 2 = 0) (oldValue dataWord : UInt16) :
    Keeps c s (eepromWriteLogChangedBytes c address oldValue dataWord s).2 := by
  have hnext : (address + 1).toNat < 128 := by
    have hone : (1 : UInt16).toNat = 1 := rfl
    rw [UInt16.toNat_add, hone]
    omega
  unfold eepromWriteLogChangedBytes
  split_ifs with hlow hhigh hhigh
  · have hfirst := eepromWriteLogByteEntry_keeps h haddress
    exact hfirst.trans (eepromWriteLogByteEntry_keeps hfirst.tidy hnext)
  · exact eepromWriteLogByteEntry_keeps h haddress
  · exact eepromWriteLogByteEntry_keeps h hnext
  · exact .none h rfl rfl

theorem eepromWriteDataWord_keeps (h : Tidy c s.flash s.emptySlot) (dataWord : UInt16) :
    Keeps c s (eepromWriteDataWord c address dataWord s).2 := by
  rcases Nat.lt_or_ge address.toNat c.densityBytes with haddress | hout
  · rcases Nat.mod_two_eq_zero_or_one address.toNat with heven | hodd
    · by_cases hvalue : loadWord s.dataBuf address.toNat = dataWord
      · rw [eepromWriteDataWord, if_neg (by omega), if_neg (odd_iff.not.mpr (by omega))]
        dsimp only
        rw [if_pos hvalue]
        exact .none h rfl rfl
      · rw [eepromWriteDataWord_even haddress heven hvalue]
        have hrange : address < feeByteRange ↔ address.toNat < 128 := UInt16.lt_iff_toNat_lt
        have hstored : Keeps c s
            { s with dataBuf := storeWord s.dataBuf address.toNat dataWord } := .none h rfl rfl
        dsimp only
        split_ifs with hempty hlow
        · exact hstored.trans (eepromWriteDirectEntry_keeps hstored.tidy haddress)
        · exact hstored.trans
            (eepromWriteLogChangedBytes_keeps hstored.tidy (hrange.mp hlow) heven _ _)
        · have hge : 128 ≤ address.toNat := Nat.not_lt.mp (hrange.not.mp hlow)
          exact hstored.trans (eepromWriteLogWordEntry_keeps hstored.tidy hge haddress heven)
    · rw [eepromWriteDataWord_odd haddress hodd]
      have hfirst : Keeps c s (eepromWriteDataByte c address dataWord.toUInt8 s).2 :=
        eepromWriteDataByte_keeps h _
      exact hfirst.trans (eepromWriteDataByte_keeps hfirst.tidy _)
  · rw [eepromWriteDataWord, if_pos hout]
    exact .none h rfl rfl

/-- `EEPROM_Init` finds the end of the log. -/
theorem Tidy.init_emptySlot (h : Tidy c s.flash s.emptySlot) :
    (eepromInit c s).emptySlot = s.emptySlot := by
  obtain ⟨entries, hholds⟩ := h.entries
  rw [eepromInit_emptySlot, hholds.scanLog_eq h.stops (Nat.le_refl _)]

theorem Call.perform_keeps (h : Tidy c s.flash s.emptySlot) (call : Call) :
    Keeps c s (call.perform c s) := by
  cases call with
  | write op =>
      cases op with
      | byte address value => exact eepromWriteDataByte_keeps h value
      | word address value => exact eepromWriteDataWord_keeps h value
  | init => exact .none (h.init_emptySlot.symm ▸ h) rfl rfl

theorem Call.run_keeps (h : Tidy c s.flash s.emptySlot) (calls : List Call) :
    Keeps c s (run (Call.perform c) s calls) := by
  induction calls generalizing s with
  | nil => exact .none h rfl rfl
  | cons call calls ih =>
      have hstep := call.perform_keeps h
      exact hstep.trans (ih hstep.tidy)

theorem eepromErase_keeps (c : Config) (s : State) : Keeps c s (eepromErase c s) := by
  have htidy : Tidy c (eepromClear c s).flash (eepromClear c s).emptySlot :=
    ⟨Nat.le_refl _, writeLogBase_le, ⟨[], .nil _⟩, fun i hi hlt => absurd hi (Nat.not_le.mpr hlt),
      fun _ _ _ => rfl⟩
  exact ⟨htidy.init_emptySlot.symm ▸ htidy, [.erase], rfl, rfl, trivial, trivial⟩

/-- Every run of the interface from an erase keeps the discipline. -/
theorem legacyEeprom_disciplined (c : Config) (s : State) (calls : List Call) :
    Keeps c s (run (Call.perform c) (eepromErase c s) calls) :=
  (eepromErase_keeps c s).trans (Call.run_keeps (eepromErase_keeps c s).tidy calls)

end Interface

end Qmk.LegacyEeprom
