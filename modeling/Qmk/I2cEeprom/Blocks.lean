import Qmk.I2cEeprom.Driver

/-!
# Block writes

A block is written as it should be just when no message starts behind the device address
of the first one, and no message carries 256 bytes.
-/

namespace Qmk.I2cEeprom

open Qmk.Lib

variable {cfg : Config}

/-- A message starts at the beginning of the range and at each page boundary in it. -/
def Starts (cfg : Config) (addr len target : Nat) : Prop :=
  addr ≤ target ∧ target < addr + len ∧ (target = addr ∨ cfg.pageSize ∣ target)

/-- What the messages of a block have to meet. -/
def Writable (cfg : Config) (addr len : Nat) : Prop :=
  ∀ target, Starts cfg addr len target →
    target / 256 ^ cfg.addressSize = addr / 256 ^ cfg.addressSize ∧
      (cfg.pageSize - target % cfg.pageSize < 256 ∨ addr + len - target < 256)

/-- What is claimed of a block: the write ends, with the buffer in the range and every
other byte as it was. -/
def WritesBlock (cfg : Config) (addr len : Nat) : Prop :=
  ∀ (buf : Nat → Byte) (memory : Memory), ∃ fuel final,
    eepromWriteBlock cfg fuel buf addr len memory = some final ∧
      (∀ i, i < len → final (addr + i) = buf i) ∧
      ∀ a, a < addr ∨ addr + len ≤ a → final a = memory a

/-! ## One message -/

theorem writeLength_eq (target len : Nat) :
    writeLength cfg target len = min len (cfg.pageSize - target % cfg.pageSize) := by
  rw [writeLength]
  split <;> omega

theorem writeLength_pos (target : Nat) {len : Nat} (h : 0 < len) :
    0 < writeLength cfg target len := by
  have hlt := Nat.mod_lt target cfg.pageSize_pos
  rw [writeLength_eq]
  omega

theorem writeLength_le (target len : Nat) : writeLength cfg target len ≤ len := by
  rw [writeLength_eq]
  exact Nat.min_le_left _ _

theorem dvd_next {target len : Nat} (h : writeLength cfg target len ≠ len) :
    cfg.pageSize ∣ target + writeLength cfg target len := by
  have hlt := Nat.mod_lt target cfg.pageSize_pos
  have hdiv := Nat.div_add_mod target cfg.pageSize
  rw [writeLength_eq] at h ⊢
  refine ⟨target / cfg.pageSize + 1, ?_⟩
  rw [Nat.mul_add, Nat.mul_one]
  omega

/-- The messages after the first are the messages of the rest of the block. -/
theorem starts_next {target len t : Nat} (hlen : 0 < len) :
    Starts cfg (target + writeLength cfg target len) (len - writeLength cfg target len) t ↔
      Starts cfg target len t ∧ t ≠ target := by
  have hpos := @writeLength_pos cfg target len hlen
  have hle := @writeLength_le cfg target len
  constructor
  · rintro ⟨hlow, hhigh, hstart⟩
    refine ⟨⟨by omega, by omega, ?_⟩, by omega⟩
    rcases hstart with rfl | hdvd
    · exact .inr (dvd_next (by omega))
    · exact .inr hdvd
  · rintro ⟨⟨hlow, hhigh, hstart⟩, hne⟩
    obtain ⟨k, rfl⟩ := hstart.resolve_left hne
    have hk : target / cfg.pageSize < k := by
      rw [Nat.div_lt_iff_lt_mul cfg.pageSize_pos, Nat.mul_comm]
      omega
    have hpage : cfg.pageSize * (target / cfg.pageSize + 1) ≤ cfg.pageSize * k :=
      Nat.mul_le_mul_left _ hk
    have hdiv := Nat.div_add_mod target cfg.pageSize
    have hcount := @writeLength_eq cfg target len
    rw [Nat.mul_add, Nat.mul_one] at hpage
    exact ⟨by omega, by omega, .inr ⟨k, rfl⟩⟩

/-- The message that the driver sends for a page. -/
def packet (cfg : Config) (readBuf : Nat → Byte) (target count : Nat) : List Byte :=
  fillTargetAddress cfg.addressSize target ++ readBlock readBuf 0 count

theorem copyLoop_packet (readBuf : Nat → Byte) (target fuel : Nat) {count : Nat}
    (hcount : count < 256) :
    copyLoop readBuf count fuel 0 (fillTargetAddress cfg.addressSize target) =
      if count < fuel then some (packet cfg readBuf target count) else none :=
  copyLoop_eq readBuf hcount fuel 0 count _ (Nat.zero_add count)

theorem receive_packet (device : Nat) (readBuf : Nat → Byte) (target count : Nat)
    (memory : Memory) :
    receive cfg device (packet cfg readBuf target count) memory =
      match select cfg device (target % 256 ^ cfg.addressSize) with
      | none => memory
      | some loc => pageWrite cfg loc 0 (readBlock readBuf 0 count) memory := by
  have hlength : (fillTargetAddress cfg.addressSize target).length = cfg.addressSize :=
    fillTargetAddress_length _ _
  rw [receive, packet, List.take_append_of_le_length (Nat.le_of_eq hlength.symm),
    List.take_of_length_le (Nat.le_of_eq hlength), wordAddress_fillTargetAddress,
    List.drop_append_of_le_length (Nat.le_of_eq hlength.symm),
    List.drop_of_length_le (Nat.le_of_eq hlength)]
  rfl

theorem receive_own {addr target : Nat} (readBuf : Nat → Byte) (len : Nat) (memory : Memory)
    (haddr : addr < cfg.byteCount) (htarget : target < cfg.byteCount)
    (hhigh : target / 256 ^ cfg.addressSize = addr / 256 ^ cfg.addressSize) :
    receive cfg (cfg.i2cAddress addr) (packet cfg readBuf target (writeLength cfg target len))
        memory =
      overlay memory target (readBlock readBuf 0 (writeLength cfg target len)) := by
  have hdevice : cfg.i2cAddress addr = cfg.i2cAddress target :=
    (cfg.carries addr target haddr htarget).mpr hhigh.symm
  have hlt := Nat.mod_lt target cfg.pageSize_pos
  have hcount := @writeLength_eq cfg target len
  rw [receive_packet, hdevice, select_own htarget]
  exact pageWrite_eq _ _ _ (by rw [readBlock_length]; omega)

/-! ## Blocks that are written -/

theorem readBlock_shift (readBuf : Nat → Byte) (count length : Nat) :
    readBlock (fun i => readBuf (count + i)) 0 length = readBlock readBuf count length := by
  simp [readBlock]

theorem overlay_rest (memory : Memory) (target : Nat) (readBuf : Nat → Byte) {count len : Nat}
    (h : count ≤ len) :
    overlay (overlay memory target (readBlock readBuf 0 count)) (target + count)
        (readBlock (fun i => readBuf (count + i)) 0 (len - count)) =
      overlay memory target (readBlock readBuf 0 len) := by
  have hlen : len = count + (len - count) := by omega
  rw [readBlock_shift]
  conv => rhs; rw [hlen, readBlock_add, overlay_append, readBlock_length, Nat.zero_add]

theorem writeLoop_eq {addr : Nat} (haddr : addr < cfg.byteCount) (fuel : Nat) :
    ∀ (readBuf : Nat → Byte) (target len : Nat) (memory : Memory),
      target + len ≤ cfg.byteCount →
      (∀ t, Starts cfg target len t →
        t / 256 ^ cfg.addressSize = addr / 256 ^ cfg.addressSize ∧
          (cfg.pageSize - t % cfg.pageSize < 256 ∨ target + len - t < 256)) →
      256 + len < fuel →
      writeLoop cfg addr fuel readBuf target len memory =
        some (overlay memory target (readBlock readBuf 0 len)) := by
  induction fuel with
  | zero =>
      intro readBuf target len memory _ _ hfuel
      omega
  | succ fuel ih =>
      intro readBuf target len memory hend hstarts hfuel
      rw [writeLoop]
      split
      · rename_i hlen
        have hpos := @writeLength_pos cfg target len hlen
        have hle := @writeLength_le cfg target len
        have hcount := @writeLength_eq cfg target len
        obtain ⟨hhigh, hshort⟩ := hstarts target ⟨Nat.le_refl _, by omega, .inl rfl⟩
        dsimp only
        rw [copyLoop_packet readBuf target fuel (by omega), if_pos (by omega)]
        dsimp only
        rw [receive_own readBuf len memory haddr (by omega) hhigh,
          ih _ _ _ _ (by omega) ?_ (by omega), overlay_rest memory target readBuf hle]
        intro t ht
        have hend' : target + writeLength cfg target len + (len - writeLength cfg target len) =
            target + len := by omega
        rw [hend']
        exact hstarts t ((starts_next hlen).mp ht).1
      · rename_i hlen
        have hzero : len = 0 := by omega
        rw [hzero, readBlock_zero, overlay_nil]

theorem Writable.writesBlock {addr len : Nat} (h : Writable cfg addr len)
    (haddr : addr < cfg.byteCount) (hend : addr + len ≤ cfg.byteCount) :
    WritesBlock cfg addr len := by
  intro buf memory
  refine ⟨256 + len + 1, _, writeLoop_eq haddr _ buf addr len memory hend h (by omega), ?_, ?_⟩
  · intro i hi
    rw [overlay_inside _ _ _ (by simpa using hi), readBlock_getElem, Nat.zero_add]
  · intro a ha
    exact overlay_outside _ _ (by simpa using ha)

/-! ## Blocks that are not -/

theorem writeLoop_none {addr : Nat} (fuel : Nat) :
    ∀ (readBuf : Nat → Byte) (target len : Nat) (memory : Memory) (t : Nat),
      Starts cfg target len t → 256 ≤ cfg.pageSize - t % cfg.pageSize →
      256 ≤ target + len - t → writeLoop cfg addr fuel readBuf target len memory = none := by
  induction fuel with
  | zero => exact fun _ _ _ _ _ _ _ _ => rfl
  | succ fuel ih =>
      intro readBuf target len memory t ht hpage hrest
      have hlen : 0 < len := by
        have := ht.1
        have := ht.2.1
        omega
      have hle := @writeLength_le cfg target len
      rw [writeLoop, if_pos hlen]
      by_cases hfirst : t = target
      · have hcount := @writeLength_eq cfg target len
        dsimp only
        rw [copyLoop_none readBuf (by subst hfirst; omega)]
      · dsimp only
        split
        · rfl
        · exact ih _ _ _ _ t ((starts_next hlen).mpr ⟨ht, hfirst⟩) hpage (by omega)

/-- Every message goes to a page that ends before a target behind the device address. -/
theorem receive_behind {addr t : Nat} (haddr : addr < cfg.byteCount)
    (hlow : addr ≤ t) (hdvd : cfg.pageSize ∣ t)
    (hhigh : t / 256 ^ cfg.addressSize ≠ addr / 256 ^ cfg.addressSize) (readBuf : Nat → Byte)
    (target count : Nat) (memory : Memory) :
    receive cfg (cfg.i2cAddress addr) (packet cfg readBuf target count) memory t = memory t := by
  rw [receive_packet]
  split
  · rfl
  · rename_i loc hselect
    refine pageWrite_other _ _ _ fun hsame => ?_
    have hloc := select_high haddr hselect
    have hmono : addr / 256 ^ cfg.addressSize ≤ t / 256 ^ cfg.addressSize :=
      Nat.div_le_div_right hlow
    have hbefore : loc < t := by
      refine Nat.lt_of_not_le fun hle => ?_
      have := @Nat.div_le_div_right _ _ (256 ^ cfg.addressSize) hle
      omega
    obtain ⟨k, rfl⟩ := hdvd
    rw [Nat.mul_div_cancel_left _ cfg.pageSize_pos] at hsame
    have hdiv : loc / cfg.pageSize < k := by
      rw [Nat.div_lt_iff_lt_mul cfg.pageSize_pos, Nat.mul_comm]
      exact hbefore
    omega

theorem writeLoop_behind {addr t : Nat} (haddr : addr < cfg.byteCount) (hlow : addr ≤ t)
    (hdvd : cfg.pageSize ∣ t)
    (hhigh : t / 256 ^ cfg.addressSize ≠ addr / 256 ^ cfg.addressSize) (fuel : Nat) :
    ∀ (readBuf : Nat → Byte) (target len : Nat) (memory final : Memory),
      writeLoop cfg addr fuel readBuf target len memory = some final → final t = memory t := by
  induction fuel with
  | zero => exact nofun
  | succ fuel ih =>
      intro readBuf target len memory final hloop
      rw [writeLoop] at hloop
      split at hloop
      · dsimp only at hloop
        split at hloop
        · contradiction
        · rename_i completePacket hcopy
          rw [ih _ _ _ _ _ hloop]
          by_cases hcount : writeLength cfg target len < 256
          · rw [copyLoop_packet readBuf target fuel hcount] at hcopy
            split at hcopy
            · cases hcopy
              exact receive_behind haddr hlow hdvd hhigh _ _ _ _
            · contradiction
          · rw [copyLoop_none readBuf (by omega)] at hcopy
            contradiction
      · rw [Option.some.inj hloop]

theorem WritesBlock.writable {addr len : Nat} (h : WritesBlock cfg addr len)
    (haddr : addr < cfg.byteCount) : Writable cfg addr len := by
  intro t ht
  have hstarts := ht
  obtain ⟨hlow, hhigh, hstart⟩ := ht
  constructor
  · refine Decidable.byContradiction fun hne => ?_
    have hdvd : cfg.pageSize ∣ t := hstart.resolve_left fun heq => hne (heq ▸ rfl)
    obtain ⟨fuel, final, hwrite, hrange, -⟩ := h (fun _ => 1) (fun _ => 0)
    have hkept := writeLoop_behind haddr hlow hdvd hne fuel _ _ _ _ _ hwrite
    have hwritten := hrange (t - addr) (by omega)
    rw [Nat.add_sub_cancel' hlow, hkept] at hwritten
    contradiction
  · refine Decidable.byContradiction fun hlong => ?_
    obtain ⟨fuel, final, hwrite, -⟩ := h (fun _ => 0) (fun _ => 0)
    rw [eepromWriteBlock, writeLoop_none fuel _ _ _ _ t hstarts (by omega) (by omega)] at hwrite
    contradiction

/-- A block is written exactly where all its messages have the device address of the first
and fewer than 256 bytes. -/
theorem eepromWriteBlock_exact (cfg : Config) {addr len : Nat}
    (hend : addr + len ≤ cfg.byteCount) : WritesBlock cfg addr len ↔ Writable cfg addr len := by
  by_cases hlen : len = 0
  · subst hlen
    refine iff_of_true ?_ fun t ht => absurd ht.2.1 (Nat.not_lt_of_le ht.1)
    exact fun buf memory => ⟨1, memory, rfl, nofun, fun _ _ => rfl⟩
  · have haddr : addr < cfg.byteCount := by omega
    exact ⟨fun h => h.writable haddr, fun h => h.writesBlock haddr hend⟩

/-! ## Two devices -/

/-- One device address, and pages of 256 bytes. -/
def largePages : Config where
  byteCount := 65536
  pageSize := 256
  addressSize := 2
  i2cAddress _ := 0xA0
  pageSize_pos := by decide
  pageSize_le := by decide
  pageSize_dvd := by decide
  carries a b ha hb := by
    refine iff_of_true rfl ?_
    have hlow : a / 65536 = b / 65536 :=
      (Nat.div_eq_of_lt ha).trans (Nat.div_eq_of_lt hb).symm
    exact hlow

theorem bankAddress_inj : ∀ a, a < 4 → ∀ b, b < 4 →
    (0xA0 ||| ((a &&& 0x07) <<< 1) = 0xA0 ||| ((b &&& 0x07) <<< 1) ↔ a = b) := by
  decide

/-- Two bits of the location in the device address. -/
def fourBanks : Config where
  byteCount := 262144
  pageSize := 128
  addressSize := 2
  i2cAddress loc := 0xA0 ||| (((loc >>> 16) &&& 0x07) <<< 1)
  pageSize_pos := by decide
  pageSize_le := Nat.le_add_right 128 128
  pageSize_dvd := by decide
  carries a b ha hb := by
    rw [Nat.shiftRight_eq_div_pow, Nat.shiftRight_eq_div_pow]
    exact bankAddress_inj _ (Nat.div_lt_of_lt_mul ha) _ (Nat.div_lt_of_lt_mul hb)

theorem fourBanks_written : WritesBlock fourBanks 100 1000 := by
  refine (eepromWriteBlock_exact fourBanks (by decide)).mpr fun t ht => ⟨?_, .inl ?_⟩
  · have hlt : t < 256 ^ 2 := Nat.lt_trans ht.2.1 (by decide)
    exact Nat.div_eq_of_lt hlt
  · exact Nat.lt_of_le_of_lt (Nat.sub_le _ _) (by decide : 128 < 256)

/-- A whole page of 256 bytes is never sent, and what lies behind a bank goes to the first
one. -/
theorem blocks_not_written : ¬WritesBlock largePages 0 256 ∧ ¬WritesBlock fourBanks 65535 2 := by
  constructor
  · intro h
    have hwritable := h.writable (by decide) 0 ⟨by decide, by decide, .inl rfl⟩
    exact absurd hwritable.2 (by decide)
  · intro h
    have hwritable := h.writable (by decide) 65536 ⟨by decide, by decide, .inr (by decide)⟩
    exact absurd hwritable.1 (by decide)

end Qmk.I2cEeprom
