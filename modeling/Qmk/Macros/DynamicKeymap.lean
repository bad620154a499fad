import Qmk.Macros.SendString

/-!
# Macros in the EEPROM

The macro buffer is an area of the EEPROM that the host writes as it likes.  A macro
is the part of it between two NUL bytes.
-/

namespace Qmk.Macros

/-- Where the macro buffer is; addresses are 16 bits wide. -/
structure MacroArea where
  eepromAddr : Nat
  size : Nat
  macroCount : Nat
  size_pos : 0 < size
  fits : eepromAddr + size ≤ 2 ^ 16

abbrev Eeprom := Nat → Byte

section Send

variable (area : MacroArea) (eeprom : Eeprom)

/-- `nvm_dynamic_keymap_macro_read_buffer` of one byte. -/
def byteAt (offset : Nat) : Byte :=
  if offset < area.size then eeprom (area.eepromAddr + offset) else 0

def readsAt (offset : Nat) : List Event :=
  if offset < area.size then [.read (area.eepromAddr + offset)] else []

def sendStringGetNextNvm : Getter Nat := fun offset =>
  { byte := byteAt area eeprom offset
    next := offset + 1
    events := .getter offset :: readsAt area offset }

/-- The loop over the first macros; `remaining` is `end - offset`. -/
def skipMacros : Nat → Nat → Nat → Option Nat × List Event
  | _, 0, offset => (some offset, [])
  | 0, _ + 1, _ => (none, [])
  | remaining + 1, id + 1, offset =>
      let rest :=
        if byteAt area eeprom offset = 0 then skipMacros remaining id (offset + 1)
        else skipMacros remaining (id + 1) (offset + 1)
      (rest.1, readsAt area offset ++ rest.2)

def dynamicKeymapMacroSend (luts : Luts) (macroDelay : Byte) (fuel : Nat) (id : Byte) :
    Option (List Event) :=
  if area.macroCount ≤ id.toNat then
    some []
  else
    let checked := readsAt area (area.size - 1)
    -- the last byte shows that the host is still writing
    if byteAt area eeprom (area.size - 1) ≠ 0 then
      some checked
    else
      match skipMacros area eeprom area.size id.toNat 0 with
      | (none, skipped) => some (checked ++ skipped)
      | (some offset, skipped) =>
          (sendStringWithDelayImpl (sendStringGetNextNvm area eeprom) luts macroDelay fuel
            offset).map (checked ++ skipped ++ ·)

end Send

/-! ## Segments -/

/-- The segment behind `id` NUL bytes, without the NUL that ends it. -/
def segment : Nat → List Byte → List Byte
  | 0, bytes => bytes.takeWhile (· ≠ 0)
  | id + 1, bytes => segment id ((bytes.dropWhile (· ≠ 0)).drop 1)

section Area

variable (area : MacroArea) (eeprom : Eeprom)

def macroBuffer : List Byte :=
  (List.range area.size).map fun offset => eeprom (area.eepromAddr + offset)

/-- The number of the segment that an offset, maybe that of its NUL, is in. -/
def segmentAt (offset : Nat) : Nat :=
  (List.range offset).countP (byteAt area eeprom · = 0)

/-- The getter is called in the segment only, and no read or lookup is out of bounds. -/
def Bounded (id : Nat) : Event → Prop
  | .getter offset => segmentAt area eeprom offset = id
  | .read address => area.eepromAddr ≤ address ∧ address < area.eepromAddr + area.size
  | .lookup table index => index < table.size
  | _ => True

/-- From the offset on, the string is spelled out in the segment. -/
def Spells (id : Nat) : List Byte → Nat → Prop
  | [], offset => byteAt area eeprom offset = 0 ∧ segmentAt area eeprom offset = id
  | c :: rest, offset =>
      byteAt area eeprom offset = c ∧ c ≠ 0 ∧ segmentAt area eeprom offset = id ∧
        Spells id rest (offset + 1)

variable {area eeprom} {id : Nat}

theorem segmentAt_succ (offset : Nat) :
    segmentAt area eeprom (offset + 1) =
      segmentAt area eeprom offset + if byteAt area eeprom offset = 0 then 1 else 0 := by
  simp [segmentAt, List.range_succ, List.countP_append, List.countP_cons]

theorem Spells.inSegment {bytes : List Byte} {offset : Nat}
    (h : Spells area eeprom id bytes offset) : segmentAt area eeprom offset = id := by
  cases bytes with
  | nil => exact h.2
  | cons c rest => exact h.2.2.1

theorem Spells.leaves {offset : Nat} (h : Spells area eeprom id [] offset) :
    segmentAt area eeprom (offset + 1) ≠ id := by
  rw [segmentAt_succ, h.1, if_pos rfl, h.2]
  exact Nat.succ_ne_self id

theorem readsAt_bounded (offset : Nat) :
    ∀ e ∈ readsAt area offset, Bounded area eeprom id e := by
  intro e he
  simp only [readsAt, List.mem_ite_nil_right, List.mem_singleton] at he
  obtain ⟨hlt, rfl⟩ := he
  exact ⟨Nat.le_add_right _ _, Nat.add_lt_add_left hlt _⟩

theorem getNext_bounded (offset : Nat) :
    (∀ e ∈ (sendStringGetNextNvm area eeprom offset).events, Bounded area eeprom id e) ↔
      segmentAt area eeprom offset = id := by
  simp only [sendStringGetNextNvm, List.forall_mem_cons]
  exact and_iff_left (readsAt_bounded offset)

theorem checksTables_bounded : ChecksTables (Bounded area eeprom id) :=
  ⟨fun _ _ => Iff.rfl, fun _ => trivial, fun _ => trivial, fun _ => trivial,
    fun _ _ => trivial, fun _ => trivial⟩

/-- How a command that was to interpret `bytes` has left the string; `fine` is whether
it and what is left of the string are interpretable. -/
inductive Leaves (area : MacroArea) (eeprom : Eeprom) (id : Nat) (done : Got Nat) :
    Bool → Prop
  | ended (byte : done.byte = 0) : Leaves area eeprom id done true
  | within {rest : List Byte} (byte : done.byte ≠ 0)
      (spells : Spells area eeprom id rest done.next) :
      Leaves area eeprom id done (Mode.text.interpretable rest)
  | behind (byte : done.byte ≠ 0) (outside : segmentAt area eeprom done.next ≠ id) :
      Leaves area eeprom id done false

theorem Leaves.withEvents {done : Got Nat} {fine : Bool}
    (h : Leaves area eeprom id done fine) (events : List Event) :
    Leaves area eeprom id { done with events := events } fine := by
  cases h with
  | ended byte => exact .ended byte
  | within byte spells => exact .within byte spells
  | behind byte outside => exact .behind byte outside

/-- The digits of a delay end in the segment, with its NUL or before. -/
theorem readDigits_bounded {bytes : List Byte} {fuel ms offset : Nat}
    {done : Nat × Got Nat} (hspells : Spells area eeprom id bytes offset)
    (hdone : readDigits (sendStringGetNextNvm area eeprom) fuel ms offset = some done) :
    (∀ e ∈ done.2.events, Bounded area eeprom id e) ∧
      Leaves area eeprom id done.2 (Mode.delay.interpretable bytes) := by
  induction fuel generalizing bytes ms offset done with
  | zero => simp [readDigits] at hdone
  | succ fuel ih =>
      have hgot := (getNext_bounded offset).mpr hspells.inSegment
      rw [readDigits] at hdone
      cases bytes with
      | nil =>
          have hbyte : (sendStringGetNextNvm area eeprom offset).byte = 0 := hspells.1
          have hdigit : isdigit 0 = false := by decide
          simp only [hbyte, hdigit] at hdone
          obtain rfl := Option.some.inj hdone
          exact ⟨hgot, .ended hbyte⟩
      | cons d rest =>
          obtain ⟨hbyte, hne, -, hrest⟩ := hspells
          have hread : (sendStringGetNextNvm area eeprom offset).byte = d := hbyte
          cases hdigit : isdigit d with
          | true =>
              simp only [hread, hdigit, if_true] at hdone
              obtain ⟨later, hlater, rfl⟩ := Option.map_eq_some_iff.mp hdone
              obtain ⟨hevents, hend⟩ := ih hrest hlater
              rw [Mode.interpretable, if_pos hdigit]
              exact ⟨List.forall_mem_append.mpr ⟨hgot, hevents⟩, hend.withEvents _⟩
          | false =>
              simp only [hread, hdigit] at hdone
              obtain rfl := Option.some.inj hdone
              rw [Mode.interpretable, if_neg (by simp [hdigit])]
              exact ⟨hgot, .within (hread ▸ hne) hrest⟩

/-- A keycode that is the NUL of the segment is taken, and the string goes on behind it. -/
theorem keyCommand_bounded {bytes : List Byte} {call : Byte → Event} {action : Got Nat}
    (hcall : ∀ keycode, Bounded area eeprom id (call keycode)) (hbyte : action.byte ≠ 0)
    (haction : ∀ e ∈ action.events, Bounded area eeprom id e)
    (hspells : Spells area eeprom id bytes action.next) :
    (∀ e ∈ (keyCommand (sendStringGetNextNvm area eeprom) call action).events,
      Bounded area eeprom id e) ∧
      Leaves area eeprom id (keyCommand (sendStringGetNextNvm area eeprom) call action)
        (Mode.keycode.interpretable bytes) := by
  constructor
  · rw [keyCommand]
    simp only [List.forall_mem_append, List.forall_mem_singleton]
    exact ⟨⟨haction, (getNext_bounded _).mpr hspells.inSegment⟩, hcall _⟩
  · cases bytes with
    | nil => exact .behind hbyte hspells.leaves
    | cons keycode rest => exact .within hbyte hspells.2.2.2

theorem command_bounded {bytes : List Byte} {fuel offset : Nat} {done : Got Nat}
    (hspells : Spells area eeprom id bytes offset)
    (hdone : command (sendStringGetNextNvm area eeprom) fuel offset = some done) :
    (∀ e ∈ done.events, Bounded area eeprom id e) ∧
      Leaves area eeprom id done (Mode.action.interpretable bytes) := by
  have hgot := (getNext_bounded offset).mpr hspells.inSegment
  have hchecks : ChecksTables (Bounded area eeprom id) := checksTables_bounded
  rw [command] at hdone
  cases bytes with
  | nil =>
      have hbyte : (sendStringGetNextNvm area eeprom offset).byte = 0 := hspells.1
      have hnone : (0 : Byte) ≠ ssTapCode ∧ (0 : Byte) ≠ ssDownCode ∧ (0 : Byte) ≠ ssUpCode ∧
          (0 : Byte) ≠ ssDelayCode := by decide
      simp only [hbyte, hnone.1, hnone.2.1, hnone.2.2.1, hnone.2.2.2, if_false] at hdone
      obtain rfl := Option.some.inj hdone
      exact ⟨hgot, .ended hbyte⟩
  | cons a rest =>
      obtain ⟨hbyte, hne, -, hrest⟩ := hspells
      have hread : (sendStringGetNextNvm area eeprom offset).byte = a := hbyte
      have hne' : (sendStringGetNextNvm area eeprom offset).byte ≠ 0 := hread ▸ hne
      simp only [hread] at hdone
      rw [Mode.interpretable]
      by_cases htap : a = ssTapCode
      · rw [if_pos htap] at hdone
        obtain rfl := Option.some.inj hdone
        rw [if_pos (.inl htap)]
        exact keyCommand_bounded hchecks.tapCode hne' hgot hrest
      by_cases hdown : a = ssDownCode
      · rw [if_neg htap, if_pos hdown] at hdone
        obtain rfl := Option.some.inj hdone
        rw [if_pos (.inr (.inl hdown))]
        exact keyCommand_bounded hchecks.registerCode hne' hgot hrest
      by_cases hup : a = ssUpCode
      · rw [if_neg htap, if_neg hdown, if_pos hup] at hdone
        obtain rfl := Option.some.inj hdone
        rw [if_pos (.inr (.inr hup))]
        exact keyCommand_bounded hchecks.unregisterCode hne' hgot hrest
      rw [if_neg htap, if_neg hdown, if_neg hup] at hdone
      rw [if_neg (by simp [htap, hdown, hup])]
      by_cases hdelay : a = ssDelayCode
      · rw [if_pos hdelay] at hdone
        rw [if_pos hdelay]
        obtain ⟨digits, hdigits, rfl⟩ := Option.map_eq_some_iff.mp hdone
        obtain ⟨hevents, hend⟩ := readDigits_bounded hrest hdigits
        refine ⟨?_, hend.withEvents _⟩
        simp only [List.forall_mem_append, List.forall_mem_singleton]
        exact ⟨⟨hgot, hevents⟩, hchecks.waitMs _⟩
      · rw [if_neg hdelay] at hdone
        rw [if_neg hdelay]
        obtain rfl := Option.some.inj hdone
        exact ⟨hgot, .within hne' hrest⟩

variable {luts : Luts} {interval : Byte}

theorem getter_mem_sendString {fuel offset : Nat} {events : List Event}
    (hevents : sendStringWithDelayImpl (sendStringGetNextNvm area eeprom) luts interval
      fuel offset = some events) : .getter offset ∈ events := by
  have hfirst : .getter offset ∈ (sendStringGetNextNvm area eeprom offset).events :=
    List.mem_cons_self
  cases fuel with
  | zero => simp [sendStringWithDelayImpl] at hevents
  | succ fuel =>
      rw [sendStringWithDelayImpl] at hevents
      by_cases hnul : (sendStringGetNextNvm area eeprom offset).byte = 0
      · rw [if_pos hnul] at hevents
        obtain rfl := Option.some.inj hevents
        exact hfirst
      · rw [if_neg hnul] at hevents
        split at hevents
        · obtain ⟨done, -, hrest⟩ := Option.bind_eq_some_iff.mp hevents
          split at hrest
          · obtain rfl := Option.some.inj hrest
            simp [hfirst]
          · obtain ⟨later, -, rfl⟩ := Option.map_eq_some_iff.mp hrest
            simp [hfirst]
        · obtain ⟨later, -, rfl⟩ := Option.map_eq_some_iff.mp hevents
          simp [hfirst]

/-- The interpreter keeps to its segment exactly if the segment is interpretable. -/
theorem sendString_bounded {bytes : List Byte} {fuel offset : Nat} {events : List Event}
    (hspells : Spells area eeprom id bytes offset)
    (hevents : sendStringWithDelayImpl (sendStringGetNextNvm area eeprom) luts interval
      fuel offset = some events) :
    (∀ e ∈ events, Bounded area eeprom id e) ↔ Mode.text.interpretable bytes = true := by
  induction fuel generalizing bytes offset events with
  | zero => simp [sendStringWithDelayImpl] at hevents
  | succ fuel ih =>
      have hgot := (getNext_bounded offset).mpr hspells.inSegment
      have hchecks : ChecksTables (Bounded area eeprom id) := checksTables_bounded
      rw [sendStringWithDelayImpl] at hevents
      cases bytes with
      | nil =>
          have hbyte : (sendStringGetNextNvm area eeprom offset).byte = 0 := hspells.1
          simp only [hbyte, if_true] at hevents
          obtain rfl := Option.some.inj hevents
          exact iff_of_true hgot (by simp [Mode.interpretable])
      | cons c rest =>
          obtain ⟨hbyte, hne, -, hrest⟩ := hspells
          have hread : (sendStringGetNextNvm area eeprom offset).byte = c := hbyte
          simp only [hread, hne, if_false] at hevents
          rw [Mode.interpretable]
          by_cases hprefix : c = ssQmkPrefix
          · rw [if_pos hprefix] at hevents
            rw [if_pos hprefix]
            obtain ⟨done, hdone, hlater⟩ := Option.bind_eq_some_iff.mp hevents
            obtain ⟨hcommand, hleaves⟩ := command_bounded hrest hdone
            have hsofar : ∀ e ∈ (sendStringGetNextNvm area eeprom offset).events ++
                done.events ++ [.waitMs interval.toNat], Bounded area eeprom id e := by
              simp only [List.forall_mem_append, List.forall_mem_singleton]
              exact ⟨⟨hgot, hcommand⟩, hchecks.waitMs _⟩
            generalize Mode.action.interpretable rest = fine at hleaves
            cases hleaves with
            | ended byte =>
                rw [if_pos byte] at hlater
                obtain rfl := Option.some.inj hlater
                exact iff_of_true hsofar rfl
            | within byte spells =>
                rw [if_neg byte] at hlater
                obtain ⟨later, hgoes, rfl⟩ := Option.map_eq_some_iff.mp hlater
                rw [List.forall_mem_append, ih spells hgoes]
                exact and_iff_right hsofar
            | behind byte outside =>
                rw [if_neg byte] at hlater
                obtain ⟨later, hgoes, rfl⟩ := Option.map_eq_some_iff.mp hlater
                refine iff_of_false (fun h => outside ?_) (by simp)
                exact (List.forall_mem_append.mp h).2 _ (getter_mem_sendString hgoes)
          · rw [if_neg hprefix] at hevents
            rw [if_neg hprefix]
            obtain ⟨later, hlater, rfl⟩ := Option.map_eq_some_iff.mp hevents
            rw [List.forall_mem_append, List.forall_mem_append,
              hchecks.sendCharWithDelay luts c interval, ih hrest hlater, Bool.and_eq_true,
              decide_eq_true_eq, and_iff_right hgot]

/-! ## Termination -/

theorem byteAt_of_size_le {offset : Nat} (h : area.size ≤ offset) :
    byteAt area eeprom offset = 0 :=
  if_neg (Nat.not_lt.mpr h)

theorem lt_size_of_byteAt {offset : Nat} (h : byteAt area eeprom offset ≠ 0) :
    offset < area.size := by
  by_contra hout
  exact h (byteAt_of_size_le (Nat.not_lt.mp hout))

theorem readDigits_isSome {fuel ms offset : Nat} (hfuel : area.size - offset < fuel) :
    ∃ done, readDigits (sendStringGetNextNvm area eeprom) fuel ms offset = some done ∧
      offset < done.2.next := by
  induction fuel generalizing ms offset with
  | zero => omega
  | succ fuel ih =>
      rw [readDigits]
      cases hdigit : isdigit (sendStringGetNextNvm area eeprom offset).byte with
      | true =>
          have hne : byteAt area eeprom offset ≠ 0 := by
            intro hzero
            have hread : (sendStringGetNextNvm area eeprom offset).byte = 0 := hzero
            rw [hread] at hdigit
            exact absurd hdigit (by decide)
          have hlt := lt_size_of_byteAt hne
          have hless : area.size - (offset + 1) < fuel := by omega
          obtain ⟨done, hdone, hnext⟩ := @ih
            (ms * 10 + ((sendStringGetNextNvm area eeprom offset).byte.toNat - 48))
            (offset + 1) hless
          refine ⟨_, Option.map_eq_some_iff.mpr ⟨done, hdone, rfl⟩, ?_⟩
          exact Nat.lt_of_succ_lt hnext
      | false => exact ⟨_, rfl, Nat.lt_succ_self offset⟩

theorem command_isSome {fuel offset : Nat} (hfuel : area.size - offset < fuel) :
    ∃ done, command (sendStringGetNextNvm area eeprom) fuel offset = some done ∧
      offset < done.next := by
  rw [command]
  split
  · exact ⟨_, rfl, Nat.lt_succ_of_lt (Nat.lt_succ_self _)⟩
  split
  · exact ⟨_, rfl, Nat.lt_succ_of_lt (Nat.lt_succ_self _)⟩
  split
  · exact ⟨_, rfl, Nat.lt_succ_of_lt (Nat.lt_succ_self _)⟩
  split
  · obtain ⟨done, hdone, hnext⟩ :=
      @readDigits_isSome area eeprom fuel 0 (offset + 1) (by omega)
    refine ⟨_, Option.map_eq_some_iff.mpr ⟨done, hdone, rfl⟩, ?_⟩
    exact Nat.lt_of_succ_lt hnext
  · exact ⟨_, rfl, Nat.lt_succ_self offset⟩

theorem sendString_isSome {fuel offset : Nat} (hfuel : area.size - offset < fuel) :
    ∃ events, sendStringWithDelayImpl (sendStringGetNextNvm area eeprom) luts interval
      fuel offset = some events := by
  induction fuel generalizing offset with
  | zero => omega
  | succ fuel ih =>
      rw [sendStringWithDelayImpl]
      by_cases hnul : (sendStringGetNextNvm area eeprom offset).byte = 0
      · exact ⟨_, if_pos hnul⟩
      · have hlt : offset < area.size := lt_size_of_byteAt hnul
        rw [if_neg hnul]
        split
        · obtain ⟨done, hdone, hnext⟩ :=
            @command_isSome area eeprom fuel (offset + 1) (by omega)
          have hcommand : command (sendStringGetNextNvm area eeprom) fuel
              (sendStringGetNextNvm area eeprom offset).next = some done := hdone
          obtain ⟨later, hlater⟩ := @ih done.next (by omega)
          rw [hcommand, Option.bind_some]
          split
          · exact ⟨_, rfl⟩
          · exact ⟨_, Option.map_eq_some_iff.mpr ⟨later, hlater, rfl⟩⟩
        · obtain ⟨later, hlater⟩ := @ih (offset + 1) (by omega)
          exact ⟨_, Option.map_eq_some_iff.mpr ⟨later, hlater, rfl⟩⟩

/-! ## The segment of a macro -/

theorem macroBuffer_drop {offset : Nat} (h : offset < area.size) :
    (macroBuffer area eeprom).drop offset =
      byteAt area eeprom offset :: (macroBuffer area eeprom).drop (offset + 1) := by
  have hlength : offset < (macroBuffer area eeprom).length := by simpa [macroBuffer]
  rw [List.drop_eq_getElem_cons hlength]
  simp [macroBuffer, byteAt, h]

theorem spells_takeWhile (left offset : Nat) (hleft : area.size - offset = left) :
    Spells area eeprom (segmentAt area eeprom offset)
      (((macroBuffer area eeprom).drop offset).takeWhile (· ≠ 0)) offset := by
  induction left generalizing offset with
  | zero =>
      have hend : ((macroBuffer area eeprom).drop offset) = [] :=
        List.drop_eq_nil_of_le (by simp [macroBuffer]; omega)
      rw [hend]
      exact ⟨byteAt_of_size_le (by omega), rfl⟩
  | succ left ih =>
      rw [macroBuffer_drop (by omega)]
      by_cases hnul : byteAt area eeprom offset = 0
      · rw [List.takeWhile_cons_of_neg (by simp [hnul])]
        exact ⟨hnul, rfl⟩
      · have hnext := ih (offset + 1) (by omega)
        rw [segmentAt_succ, if_neg hnul, Nat.add_zero] at hnext
        have hpos : decide (byteAt area eeprom offset ≠ 0) = true := decide_eq_true hnul
        simp only [List.takeWhile_cons, hpos, if_true]
        exact ⟨rfl, hnul, rfl, hnext⟩

theorem segment_nil (skip : Nat) : segment skip [] = [] := by
  induction skip with
  | zero => rfl
  | succ skip ih => exact ih

theorem segment_succ_cons (skip : Nat) (b : Byte) (bytes : List Byte) :
    segment (skip + 1) (b :: bytes) =
      if b = 0 then segment skip bytes else segment (skip + 1) bytes := by
  by_cases hb : b = 0
  · rw [if_pos hb, segment, List.dropWhile_cons_of_neg (by simp [hb])]
    rfl
  · have hpos : decide (b ≠ 0) = true := decide_eq_true hb
    simp only [segment, List.dropWhile_cons, hpos, if_true, if_neg hb]

/-- Skipping macros finds the segment, and misses none that has a byte. -/
theorem skipMacros_spec {left skip offset : Nat} {found : Option Nat} {events : List Event}
    (hleft : area.size - offset = left) (hin : offset ≤ area.size)
    (hskip : skipMacros area eeprom left skip offset = (found, events)) :
    (∀ e ∈ events, Bounded area eeprom id e) ∧
      (found = none → segment skip ((macroBuffer area eeprom).drop offset) = []) ∧
      ∀ start, found = some start → Spells area eeprom (segmentAt area eeprom offset + skip)
        (segment skip ((macroBuffer area eeprom).drop offset)) start := by
  induction left generalizing skip offset found events with
  | zero =>
      have hend : (macroBuffer area eeprom).drop offset = [] :=
        List.drop_eq_nil_of_le (by simp [macroBuffer]; omega)
      cases skip with
      | zero =>
          rw [skipMacros, Prod.mk.injEq] at hskip
          obtain ⟨rfl, rfl⟩ := hskip
          refine ⟨by simp, by simp, fun start hstart => ?_⟩
          obtain rfl := Option.some.inj hstart
          exact spells_takeWhile 0 offset hleft
      | succ skip =>
          rw [skipMacros, Prod.mk.injEq] at hskip
          obtain ⟨rfl, rfl⟩ := hskip
          refine ⟨by simp, fun _ => ?_, by simp⟩
          rw [hend, segment_nil]
  | succ left ih =>
      cases skip with
      | zero =>
          rw [skipMacros, Prod.mk.injEq] at hskip
          obtain ⟨rfl, rfl⟩ := hskip
          refine ⟨by simp, by simp, fun start hstart => ?_⟩
          obtain rfl := Option.some.inj hstart
          exact spells_takeWhile (left + 1) offset hleft
      | succ skip =>
          rw [skipMacros, Prod.mk.injEq] at hskip
          obtain ⟨rfl, rfl⟩ := hskip
          rw [macroBuffer_drop (by omega), segment_succ_cons]
          have hnumber := @segmentAt_succ area eeprom offset
          by_cases hnul : byteAt area eeprom offset = 0
          · rw [if_pos hnul] at hnumber ⊢
            simp only [hnul, if_true]
            obtain ⟨hevents, hnone, hsome⟩ :=
              @ih skip (offset + 1) _ _ (by omega) (by omega) rfl
            refine ⟨List.forall_mem_append.mpr ⟨readsAt_bounded _, hevents⟩, hnone, ?_⟩
            intro start hstart
            have hspells := hsome start hstart
            rw [hnumber, Nat.add_assoc, Nat.add_comm 1] at hspells
            exact hspells
          · rw [if_neg hnul] at hnumber ⊢
            simp only [hnul, if_false]
            obtain ⟨hevents, hnone, hsome⟩ :=
              @ih (skip + 1) (offset + 1) _ _ (by omega) (by omega) rfl
            refine ⟨List.forall_mem_append.mpr ⟨readsAt_bounded _, hevents⟩, hnone, ?_⟩
            intro start hstart
            have hspells := hsome start hstart
            rw [hnumber] at hspells
            exact hspells

end Area

/-! ## `dynamic_keymap_macro_send` -/

/-- A macro that is sent at all is interpretable. -/
def Interpretable (area : MacroArea) (eeprom : Eeprom) (id : Byte) : Prop :=
  id.toNat < area.macroCount → byteAt area eeprom (area.size - 1) = 0 →
    Mode.text.interpretable (segment id.toNat (macroBuffer area eeprom)) = true

/--
Sending a macro ends, and keeps to its segment, the buffer and the tables, exactly
if the macro is interpretable.
-/
theorem dynamicKeymapMacroSend_bounded (area : MacroArea) (eeprom : Eeprom) (luts : Luts)
    (macroDelay id : Byte) :
    (∀ fuel, area.size < fuel → ∃ events,
      dynamicKeymapMacroSend area eeprom luts macroDelay fuel id = some events ∧
        ∀ e ∈ events, Bounded area eeprom id.toNat e) ↔
      Interpretable area eeprom id := by
  by_cases hcount : area.macroCount ≤ id.toNat
  · refine iff_of_true (fun fuel _ => ⟨[], by simp [dynamicKeymapMacroSend, hcount]⟩) ?_
    exact fun hlt => absurd hcount (Nat.not_le.mpr hlt)
  have hchecked : ∀ e ∈ readsAt area (area.size - 1), Bounded area eeprom id.toNat e :=
    readsAt_bounded _
  by_cases hlast : byteAt area eeprom (area.size - 1) = 0
  · rcases hskip : skipMacros area eeprom area.size id.toNat 0 with ⟨found, skipped⟩
    obtain ⟨hskipped, hnone, hsome⟩ :=
      @skipMacros_spec area eeprom id.toNat _ _ _ _ _ (Nat.sub_zero _) (Nat.zero_le _) hskip
    rw [List.drop_zero] at hnone hsome
    have hinterpretable : Interpretable area eeprom id ↔
        Mode.text.interpretable (segment id.toNat (macroBuffer area eeprom)) = true :=
      ⟨fun h => h (Nat.not_le.mp hcount) hlast, fun h _ _ => h⟩
    rw [hinterpretable]
    cases found with
    | none =>
        rw [hnone rfl]
        refine iff_of_true (fun fuel _ => ⟨_, ?_, List.forall_mem_append.mpr
          ⟨hchecked, hskipped⟩⟩) (by simp [Mode.interpretable])
        simp [dynamicKeymapMacroSend, hcount, hlast, hskip]
    | some start =>
        have hspells := hsome start rfl
        have hzero : segmentAt area eeprom 0 = 0 := rfl
        rw [hzero, Nat.zero_add] at hspells
        have hsend : ∀ fuel events,
            sendStringWithDelayImpl (sendStringGetNextNvm area eeprom) luts macroDelay fuel
              start = some events →
            dynamicKeymapMacroSend area eeprom luts macroDelay fuel id =
              some (readsAt area (area.size - 1) ++ skipped ++ events) := by
          intro fuel events hevents
          simp [dynamicKeymapMacroSend, hcount, hlast, hskip, hevents]
        have hbefore : ∀ e ∈ readsAt area (area.size - 1) ++ skipped,
            Bounded area eeprom id.toNat e :=
          List.forall_mem_append.mpr ⟨hchecked, hskipped⟩
        constructor
        · intro h
          have hfuel : area.size - start < area.size + 1 := by omega
          obtain ⟨events, hevents⟩ := sendString_isSome hfuel
          obtain ⟨all, hall, hbounded⟩ := h (area.size + 1) (Nat.lt_succ_self _)
          rw [hsend _ _ hevents] at hall
          obtain rfl := Option.some.inj hall
          exact (sendString_bounded hspells hevents).mp (List.forall_mem_append.mp hbounded).2
        · intro h fuel hfuel
          obtain ⟨events, hevents⟩ :=
            sendString_isSome (Nat.lt_of_le_of_lt (Nat.sub_le _ start) hfuel)
          refine ⟨_, hsend _ _ hevents, List.forall_mem_append.mpr ⟨hbefore, ?_⟩⟩
          exact (sendString_bounded hspells hevents).mpr h
  · refine iff_of_true (fun fuel _ => ⟨_, ?_, hchecked⟩) (fun _ h => absurd h hlast)
    rw [dynamicKeymapMacroSend, if_neg hcount]
    exact if_pos hlast

/-! ## Macros that are not interpretable -/

/-- A buffer of five bytes for two macros. -/
def fiveBytes : MacroArea where
  eepromAddr := 0
  size := 5
  macroCount := 2
  size_pos := Nat.succ_pos 4
  fits := Nat.le_of_ble_eq_true rfl

/-- The first macro ends before the keycode of a tap, and the second one is an "a". -/
def cutOff (address : Nat) : Byte :=
  [1, 1, 0, 0x61, 0].getD address 0

/-- The first macro is a byte that is not ASCII. -/
def latin (address : Nat) : Byte :=
  [0xE4, 0, 0, 0, 0].getD address 0

/-- The cut-off tap goes on with the second macro, and the other byte is looked up
behind the tables. -/
theorem cutOff_latin_not_bounded :
    ¬ (∀ fuel, fiveBytes.size < fuel → ∃ events,
      dynamicKeymapMacroSend fiveBytes cutOff (fun _ _ => 0) 0 fuel 0 = some events ∧
        ∀ e ∈ events, Bounded fiveBytes cutOff 0 e) ∧
    ¬ (∀ fuel, fiveBytes.size < fuel → ∃ events,
      dynamicKeymapMacroSend fiveBytes latin (fun _ _ => 0) 0 fuel 0 = some events ∧
        ∀ e ∈ events, Bounded fiveBytes latin 0 e) := by
  constructor
  · intro h
    obtain ⟨events, hevents, hbounded⟩ := h 6 (by decide)
    have hmem : .getter 3 ∈
        (dynamicKeymapMacroSend fiveBytes cutOff (fun _ _ => 0) 0 6 0).getD [] := by
      decide
    rw [hevents] at hmem
    have hsegment : segmentAt fiveBytes cutOff 3 = 0 := hbounded _ hmem
    exact absurd hsegment (by decide)
  · intro h
    obtain ⟨events, hevents, hbounded⟩ := h 6 (by decide)
    have hmem : .lookup .asciiToKeycode 0xE4 ∈
        (dynamicKeymapMacroSend fiveBytes latin (fun _ _ => 0) 0 6 0).getD [] := by
      decide
    rw [hevents] at hmem
    have hindex : 0xE4 < 128 := hbounded _ hmem
    exact absurd hindex (by decide)

end Qmk.Macros
