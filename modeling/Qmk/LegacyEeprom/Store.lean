import Qmk.LegacyEeprom.Image

/-!
# What the writing functions store

Each function that writes to the flash turns a live image of the old contents
into one of the new contents.  A path keeps what a power loss can leave on the
way: either the function erases the flash, or every prefix of its operations
leaves a live image whose bytes are old or new.
-/

namespace Qmk.LegacyEeprom

open Qmk.Lib

/-! ## Paths -/

/-- The flash after the operations of a list, last first. -/
def applyOps (flash : Nat → UInt16) (ops : List FlashOp) : Nat → UInt16 :=
  ops.foldr (fun op flash => op.apply flash) flash

def Path (P : (Nat → UInt16) → Prop) (s s' : State) : Prop :=
  ∃ ops, s'.ops = ops ++ s.ops ∧ s'.flash = applyOps s.flash ops ∧
    (.erase ∈ ops ∨ ∀ count, P (applyOps s.flash (ops.drop count)))

section Path

variable {P Q : (Nat → UInt16) → Prop} {s t u : State}

theorem applyOps_append (flash : Nat → UInt16) (second first : List FlashOp) :
    applyOps flash (second ++ first) =
      applyOps (applyOps flash first) second := by
  simp [applyOps]

theorem Path.none (h : P s.flash) (hops : t.ops = s.ops)
    (hflash : t.flash = s.flash) : Path P s t :=
  ⟨[], hops, hflash, .inr fun count => by simpa [applyOps] using h⟩

theorem Path.one {op : FlashOp} (hbefore : P s.flash)
    (hafter : P (op.apply s.flash)) (hops : t.ops = op :: s.ops)
    (hflash : t.flash = op.apply s.flash) : Path P s t := by
  refine ⟨[op], hops, hflash, .inr fun count => ?_⟩
  cases count with
  | zero => exact hafter
  | succ count => simpa [applyOps] using hbefore

theorem Path.mono (h : Path P s t) (himp : ∀ flash, P flash → Q flash) :
    Path Q s t := by
  obtain ⟨ops, hops, hflash, hcut⟩ := h
  exact ⟨ops, hops, hflash, hcut.imp_right fun hcut count =>
    himp _ (hcut count)⟩

theorem Path.trans (h : Path P s t) (hnext : Path P t u) : Path P s u := by
  obtain ⟨first, hfirst, hflash, hcut⟩ := h
  obtain ⟨second, hsecond, hflash', hcut'⟩ := hnext
  refine ⟨second ++ first, ?_, ?_, ?_⟩
  · rw [hsecond, hfirst, List.append_assoc]
  · rw [hflash', hflash, applyOps_append]
  · rcases hcut with herase | hcut
    · exact .inl (List.mem_append_right second herase)
    rcases hcut' with herase | hcut'
    · exact .inl (List.mem_append_left first herase)
    refine .inr fun count => ?_
    rw [List.drop_append]
    rcases Nat.le_total count second.length with hle | hge
    · rw [Nat.sub_eq_zero_of_le hle, List.drop_zero, applyOps_append, ← hflash]
      exact hcut' count
    · rw [List.drop_eq_nil_of_le hge, List.nil_append]
      exact hcut _

end Path

/-- Every byte of the buffer is old or new. -/
def Between (c : Config) (old new contents : Nat → UInt8) : Prop :=
  ∀ address < c.densityBytes,
    contents address = old address ∨ contents address = new address

def Recovers (c : Config) (old new : Nat → UInt8) (flash : Nat → UInt16) :
    Prop :=
  ∃ contents slot, Live c flash contents slot ∧ Between c old new contents

/-- The step from `s` to `s'` replaces `old` by `new`. -/
structure Stores (c : Config) (old new : Nat → UInt8) (s s' : State) : Prop where
  live : Live c s'.flash new s'.emptySlot
  path : Path (Recovers c old new) s s'

section Stores

variable {c : Config} {old mid new : Nat → UInt8} {s t u : State}
  {flash : Nat → UInt16} {slot : Nat}

theorem Live.recovers_old (h : Live c flash old slot) :
    Recovers c old new flash :=
  ⟨old, slot, h, fun _ _ => .inl rfl⟩

theorem Live.recovers_new (h : Live c flash new slot) :
    Recovers c old new flash :=
  ⟨new, slot, h, fun _ _ => .inr rfl⟩

theorem Stores.none (h : Live c s.flash new s.emptySlot) :
    Stores c old new s s :=
  ⟨h, .none h.recovers_new rfl rfl⟩

theorem Stores.congr (h : Stores c old mid s t)
    (heq : ∀ address < c.densityBytes, mid address = new address) :
    Stores c old new s t := by
  refine ⟨h.live.congr heq, h.path.mono fun flash => ?_⟩
  rintro ⟨contents, slot, hlive, hbetween⟩
  exact ⟨contents, slot, hlive, fun address haddress =>
    (hbetween address haddress).imp_right (·.trans (heq address haddress))⟩

theorem Stores.trans (h : Stores c old mid s t) (hnext : Stores c mid new t u)
    (hmid : Between c old new mid) : Stores c old new s u := by
  refine ⟨hnext.live, (h.path.mono fun flash => ?_).trans
    (hnext.path.mono fun flash => ?_)⟩
  · rintro ⟨contents, slot, hlive, hbetween⟩
    refine ⟨contents, slot, hlive, fun address haddress => ?_⟩
    rcases hbetween address haddress with hold | hold
    · exact .inl hold
    · rw [hold]
      exact hmid address haddress
  · rintro ⟨contents, slot, hlive, hbetween⟩
    refine ⟨contents, slot, hlive, fun address haddress => ?_⟩
    rcases hbetween address haddress with hold | hnew
    · rw [hold]
      exact hmid address haddress
    · exact .inr hnew

theorem Stores.one {op : FlashOp} (hbefore : Live c s.flash old s.emptySlot)
    (hafter : Live c (op.apply s.flash) new t.emptySlot)
    (hops : t.ops = op :: s.ops) (hflash : t.flash = op.apply s.flash) :
    Stores c old new s t :=
  ⟨hflash ▸ hafter, .one hbefore.recovers_old hafter.recovers_new hops hflash⟩

end Stores

/-! ## Compaction -/

theorem program_apply {flash : Nat → UInt16} {address : Nat} {data : UInt16}
    (h : flash address = feeEmptyWord) :
    (FlashOp.program address data).apply flash =
      Function.update flash address data := by
  simp [FlashOp.apply, h]

/-- The state after a loop of `eeprom_compact` over `count` words. -/
structure Compacted (count : Nat) (s s' : State) : Prop where
  dataBuf_eq : s'.dataBuf = s.dataBuf
  emptySlot_eq : s'.emptySlot = s.emptySlot
  cells : ∀ i < count, s'.flash i = ~~~ loadWord s.dataBuf (i * 2)
  others : ∀ i, count ≤ i → s'.flash i = s.flash i
  ops : ∃ ops, s'.ops = ops ++ s.ops ∧ s'.flash = applyOps s.flash ops

theorem compactLoop_succ (count : Nat) (s : State) :
    (compactLoop (count + 1) s).2 =
      if loadWord (compactLoop count s).2.dataBuf (2 * count) = 0 then
        (compactLoop count s).2
      else
        (compactLoop count s).2.record (.program count
          (~~~ loadWord (compactLoop count s).2.dataBuf (2 * count))) := by
  have hloop : compactLoop (count + 1) s =
      if loadWord (compactLoop count s).2.dataBuf (2 * count) ≠ 0 then
        (if (flashProgramHalfWord count
            (~~~ loadWord (compactLoop count s).2.dataBuf (2 * count))
            (compactLoop count s).2).1 ≠ .complete then
          (flashProgramHalfWord count
            (~~~ loadWord (compactLoop count s).2.dataBuf (2 * count))
            (compactLoop count s).2).1
        else (compactLoop count s).1,
        (flashProgramHalfWord count
          (~~~ loadWord (compactLoop count s).2.dataBuf (2 * count))
          (compactLoop count s).2).2)
      else compactLoop count s := by
    simp [compactLoop, List.range_succ]
  rw [hloop]
  by_cases hvalue : loadWord (compactLoop count s).2.dataBuf (2 * count) = 0
  · rw [if_neg (not_not.mpr hvalue), if_pos hvalue]
  · rw [if_pos hvalue, if_neg hvalue]
    rfl

theorem compactLoop_compacted {s : State} (count : Nat)
    (hempty : ∀ i < count, s.flash i = feeEmptyWord) :
    Compacted count s (compactLoop count s).2 := by
  induction count with
  | zero => exact ⟨rfl, rfl, by omega, fun _ _ => rfl, [], rfl, rfl⟩
  | succ count ih =>
      obtain ⟨hdata, hslot, hcells, hothers, ops, hops, hflash⟩ :=
        ih fun i hi => hempty i (by omega)
      have hcell := (hothers count (Nat.le_refl _)).trans
        (hempty count (by omega))
      rw [compactLoop_succ]
      simp only [hdata, Nat.mul_comm 2 count]
      by_cases hvalue : loadWord s.dataBuf (count * 2) = 0
      · -- a word that is zero keeps its cell unprogrammed
        rw [if_pos hvalue]
        refine ⟨hdata, hslot, fun i hi => ?_, fun i hi => hothers i (by omega),
          ops, hops, hflash⟩
        rcases Nat.lt_succ_iff_lt_or_eq.mp hi with hi | rfl
        · exact hcells i hi
        · rw [hcell, hvalue]
          rfl
      · rw [if_neg hvalue]
        refine ⟨hdata, hslot, fun i hi => ?_, fun i hi => ?_,
          .program count (~~~ loadWord s.dataBuf (count * 2)) :: ops, ?_, ?_⟩
        · simp only [State.record, program_apply hcell]
          rcases Nat.lt_succ_iff_lt_or_eq.mp hi with hi | rfl
          · rw [Function.update_of_ne (by omega)]
            exact hcells i hi
          · rw [Function.update_self]
        · simp only [State.record, program_apply hcell]
          rw [Function.update_of_ne (by omega)]
          exact hothers i (by omega)
        · simp [State.record, hops]
        · simp [State.record, hflash, applyOps]

section Compact

variable {c : Config} (old : Nat → UInt8) (s : State)

theorem eepromCompact_compacted :
    Compacted c.writeLogBase (eepromClear c s) (eepromCompact c s).2 :=
  compactLoop_compacted _ fun _ _ => rfl

@[simp] theorem eepromCompact_dataBuf :
    (eepromCompact c s).2.dataBuf = s.dataBuf :=
  (eepromCompact_compacted s).dataBuf_eq

theorem eepromCompact_emptySlot :
    (eepromCompact c s).2.emptySlot = c.writeLogBase :=
  (eepromCompact_compacted s).emptySlot_eq

theorem eepromCompact_cells {i : Nat} (hi : i < c.writeLogBase) :
    (eepromCompact c s).2.flash i = ~~~ loadWord s.dataBuf (i * 2) :=
  (eepromCompact_compacted s).cells i hi

theorem eepromCompact_live :
    Live c (eepromCompact c s).2.flash s.dataBuf (eepromCompact c s).2.emptySlot := by
  have h := eepromCompact_compacted (c := c) s
  rw [eepromCompact_emptySlot]
  exact Live.of_cells h.cells fun i hi _ => h.others i hi

theorem eepromCompact_stores : Stores c old s.dataBuf s (eepromCompact c s).2 := by
  refine ⟨eepromCompact_live s, ?_⟩
  obtain ⟨ops, hops, hflash⟩ := (eepromCompact_compacted (c := c) s).ops
  refine ⟨ops ++ [.erase], ?_, ?_, .inl (by simp)⟩
  · rw [hops]
    simp [eepromClear, State.record]
  · rw [hflash, applyOps_append]
    rfl

end Compact

end Qmk.LegacyEeprom
