import Mathlib.Data.List.DropRight
import Qmk.DynamicMacro.Buffer

/-!
# What the macros play

A recorder keeps a list of records for each macro.  The buffer holds the two lists
without overlap, and playing a macro hands out its list.
-/

namespace Qmk.DynamicMacro

open Qmk.Lib

variable {ρ : Type _}

/-! ## The recorder -/

/-- The macros as they were last recorded, and what has come in since a start. -/
structure Recorder (ρ : Type _) where
  saved : Slot → List (KeyRecord ρ)
  taken : Option (Slot × List (KeyRecord ρ))

def Recorder.init : Recorder ρ where
  saved _ := []
  taken := none

/-- The records from the first press on, as far as there is room for them. -/
def written (capacity : Nat) (taken : List (KeyRecord ρ)) : List (KeyRecord ρ) :=
  (taken.dropWhile (!·.pressed)).take capacity

/-- A macro ends with its last release. -/
def kept (capacity : Nat) (taken : List (KeyRecord ρ)) : List (KeyRecord ρ) :=
  (written capacity taken).rdropWhile (·.pressed)

section Recorder

variable (cfg : Config ρ)

/-- What the other macro leaves free. -/
def Recorder.capacity (r : Recorder ρ) (slot : Slot) : Nat :=
  cfg.dynamicMacroSize - (r.saved slot.other).length

def Recorder.stop (r : Recorder ρ) (slot : Slot) (taken : List (KeyRecord ρ)) :
    Recorder ρ where
  saved := Function.update r.saved slot (kept (r.capacity cfg slot) taken)
  taken := none

def Config.records (keycode : Keycode) (record : KeyRecord ρ) : Bool :=
  !(cfg.noNesting && keycode.isPlayKey) && cfg.validKey keycode record

def Recorder.step (r : Recorder ρ) (event : KeyEvent ρ) : Recorder ρ :=
  match r.taken with
  | none =>
      match event.1, event.2.pressed with
      | .recordStart slot, false => { r with taken := some (slot, []) }
      | _, _ => r
  | some (slot, taken) =>
      if event.1.isRecordKey then
        if event.2.pressed ^^ (event.1 ≠ .recordStop) then r.stop cfg slot taken else r
      else if cfg.records event.1 event.2 then
        { r with taken := some (slot, taken ++ [event.2]) }
      else r

end Recorder

theorem length_written_le (capacity : Nat) (taken : List (KeyRecord ρ)) :
    (written capacity taken).length ≤ capacity :=
  List.length_take_le _ _

theorem kept_prefix (capacity : Nat) (taken : List (KeyRecord ρ)) :
    kept capacity taken <+: written capacity taken :=
  List.rdropWhile_prefix _ _

@[simp] theorem written_nil (capacity : Nat) :
    written capacity ([] : List (KeyRecord ρ)) = [] := by
  simp [written]

theorem written_leading {capacity : Nat} {taken : List (KeyRecord ρ)}
    {record : KeyRecord ρ} (hnone : written capacity taken = [])
    (hrelease : record.pressed = false) : written capacity (taken ++ [record]) = [] := by
  rw [written, List.take_eq_nil_iff] at hnone ⊢
  rcases hnone with hcapacity | hdrop
  · exact .inl hcapacity
  · exact .inr (by simp [List.dropWhile_append, hdrop, hrelease])

theorem written_full {capacity : Nat} {taken : List (KeyRecord ρ)} {record : KeyRecord ρ}
    (hfull : (written capacity taken).length = capacity)
    (hpress : record.pressed = true ∨ written capacity taken ≠ []) :
    written capacity (taken ++ [record]) = written capacity taken := by
  rcases Nat.eq_zero_or_pos capacity with rfl | hpos
  · simp [written]
  · have hle : capacity ≤ (taken.dropWhile (!·.pressed)).length := by
      rw [written, List.length_take] at hfull
      omega
    have hsome : (taken.dropWhile (!·.pressed)).isEmpty = false := by
      cases h : taken.dropWhile (!·.pressed) with
      | nil => simp [h] at hle; omega
      | cons => rfl
    rw [written, List.dropWhile_append, hsome]
    exact List.take_append_of_le_length hle

theorem written_concat {capacity : Nat} {taken : List (KeyRecord ρ)} {record : KeyRecord ρ}
    (hroom : (written capacity taken).length < capacity)
    (hpress : record.pressed = true ∨ written capacity taken ≠ []) :
    written capacity (taken ++ [record]) = written capacity taken ++ [record] := by
  have hlt : (taken.dropWhile (!·.pressed)).length < capacity := by
    rw [written, List.length_take] at hroom
    omega
  have hall : written capacity taken = taken.dropWhile (!·.pressed) :=
    List.take_of_length_le (Nat.le_of_lt hlt)
  rw [hall] at hpress ⊢
  rw [written, List.dropWhile_append]
  cases hdrop : taken.dropWhile (!·.pressed) with
  | nil =>
      rw [hdrop] at hpress
      have hpressed : record.pressed = true := hpress.resolve_right (· rfl)
      have hone : [record].length ≤ capacity := Nat.succ_le_of_lt (Nat.zero_lt_of_lt hlt)
      simp [hpressed, List.take_of_length_le hone]
  | cons first rest =>
      have hmore : (first :: rest ++ [record]).length ≤ capacity := by
        rw [hdrop] at hlt
        rw [List.length_append]
        exact hlt
      exact List.take_of_length_le hmore

/-! ## The lists in the buffer -/

section Places

variable (cfg : Config ρ)

/-- The place of a macro's record. -/
def Slot.place (slot : Slot) (k : Nat) : Int :=
  slot.start cfg + slot.direction * k

def readSlot (buffer : Int → KeyRecord ρ) (slot : Slot) (n : Nat) : List (KeyRecord ρ) :=
  (List.range n).map fun k => buffer (slot.place cfg k)

end Places

variable {cfg : Config ρ}

@[simp] theorem Slot.place_zero (slot : Slot) : slot.place cfg 0 = slot.start cfg := by
  simp [Slot.place]

theorem Slot.place_succ (slot : Slot) (k : Nat) :
    slot.place cfg (k + 1) = slot.place cfg k + slot.direction := by
  cases slot <;> simp [Slot.place, Slot.direction] <;> omega

theorem Slot.place_inj {slot : Slot} {j k : Nat} :
    slot.place cfg j = slot.place cfg k ↔ j = k := by
  cases slot <;> simp [Slot.place, Slot.direction, Int.natCast_inj]

theorem Slot.place_other {slot : Slot} {j k : Nat} :
    slot.place cfg j = slot.other.place cfg k ↔ j + k + 1 = cfg.dynamicMacroSize := by
  cases slot <;> simp [Slot.place, Slot.direction, Slot.start, Slot.other] <;> omega

theorem readSlot_succ (buffer : Int → KeyRecord ρ) (slot : Slot) (n : Nat) :
    readSlot cfg buffer slot (n + 1) =
      readSlot cfg buffer slot n ++ [buffer (slot.place cfg n)] := by
  simp [readSlot, List.range_succ]

theorem readSlot_update_self (buffer : Int → KeyRecord ρ) (slot : Slot) (n : Nat)
    (record : KeyRecord ρ) :
    readSlot cfg (Function.update buffer (slot.place cfg n) record) slot (n + 1) =
      readSlot cfg buffer slot n ++ [record] := by
  rw [readSlot_succ, Function.update_self]
  congr 1
  refine List.map_congr_left fun k hk => Function.update_of_ne ?_ _ _
  rw [Ne, Slot.place_inj]
  exact Nat.ne_of_lt (List.mem_range.mp hk)

theorem readSlot_update_other (buffer : Int → KeyRecord ρ) (slot : Slot) {n m : Nat}
    (record : KeyRecord ρ) (hroom : n + m < cfg.dynamicMacroSize) :
    readSlot cfg (Function.update buffer (slot.place cfg n) record) slot.other m =
      readSlot cfg buffer slot.other m := by
  refine List.map_congr_left fun k hk => Function.update_of_ne ?_ _ _
  have hk := List.mem_range.mp hk
  intro hplace
  have hmeet := Slot.place_other.mp hplace.symm
  omega

theorem readSlot_prefix {buffer : Int → KeyRecord ρ} {slot : Slot} {n : Nat}
    {records : List (KeyRecord ρ)} (h : records <+: readSlot cfg buffer slot n) :
    readSlot cfg buffer slot records.length = records := by
  have hle : records.length ≤ n := by simpa [readSlot] using h.length_le
  rw [List.prefix_iff_eq_take] at h
  have htake : (readSlot cfg buffer slot n).take records.length =
      readSlot cfg buffer slot records.length := by
    simp [readSlot, ← List.map_take, List.take_range, Nat.min_eq_left hle]
  rw [← htake, ← h]

/-! ## Refinement -/

/-- The static variables hold what the recorder keeps. -/
structure Refines (cfg : Config ρ) (s : State ρ) (r : Recorder ρ) : Prop where
  macroId : s.macroId = r.taken.map Prod.fst
  fits : (r.saved .one).length + (r.saved .two).length ≤ cfg.dynamicMacroSize
  ends : ∀ slot, s.endOf slot = slot.place cfg (r.saved slot).length
  holds : ∀ slot, s.macroId ≠ some slot →
    readSlot cfg s.macroBuffer slot (r.saved slot).length = r.saved slot
  recording : ∀ slot taken, r.taken = some (slot, taken) →
    s.macroPointer = slot.place cfg (written (r.capacity cfg slot) taken).length ∧
    readSlot cfg s.macroBuffer slot (written (r.capacity cfg slot) taken).length =
      written (r.capacity cfg slot) taken

theorem refines_init (macroBuffer : Int → KeyRecord ρ) :
    Refines cfg (State.init cfg macroBuffer) Recorder.init where
  macroId := rfl
  fits := Nat.zero_le _
  ends slot := by cases slot <;> simp [State.init, State.endOf, Recorder.init, Slot.start]
  holds slot _ := rfl
  recording slot taken h := by simp [Recorder.init] at h

theorem Refines.fits_slot {s : State ρ} {r : Recorder ρ} (h : Refines cfg s r)
    (slot : Slot) :
    (r.saved slot).length + (r.saved slot.other).length ≤ cfg.dynamicMacroSize := by
  have hfits := h.fits
  cases slot <;> simp only [Slot.other] <;> omega

theorem Slot.other_ne (slot : Slot) : slot.other ≠ slot := by
  cases slot <;> decide

theorem Slot.eq_other_of_ne {slot other : Slot} (h : other ≠ slot) :
    other = slot.other := by
  cases slot <;> cases other <;> first | rfl | contradiction

theorem Refines.start {s : State ρ} {r : Recorder ρ} (h : Refines cfg s r)
    (hidle : r.taken = none) (slot : Slot) :
    Refines cfg (dynamicMacroRecordStart cfg s slot)
      { r with taken := some (slot, []) } where
  macroId := rfl
  fits := h.fits
  ends := h.ends
  holds other _ := h.holds other (by simp [h.macroId, hidle])
  recording slot' taken htaken := by
    obtain ⟨rfl, rfl⟩ : slot = slot' ∧ [] = taken := by simpa using htaken
    simp [dynamicMacroRecordStart, readSlot]

/-- The record behind the last one of the other macro would be its last one. -/
theorem Slot.place_sub_direction {slot : Slot} {n m : Nat} :
    slot.place cfg n - slot.direction = slot.other.place cfg m ↔
      n + m = cfg.dynamicMacroSize := by
  cases slot <;> simp [Slot.place, Slot.direction, Slot.start, Slot.other] <;> omega

theorem Refines.recordKey {s : State ρ} {r : Recorder ρ} (h : Refines cfg s r)
    {slot : Slot} {taken : List (KeyRecord ρ)} (htaken : r.taken = some (slot, taken))
    (record : KeyRecord ρ) :
    Refines cfg (dynamicMacroRecordKey cfg s slot record)
      { r with taken := some (slot, taken ++ [record]) } := by
  obtain ⟨hpointer, hread⟩ := h.recording slot taken htaken
  have hmacroId : s.macroId = some slot := by rw [h.macroId, htaken]; rfl
  have hfits := h.fits_slot slot
  have hle := length_written_le (r.capacity cfg slot) taken
  have hcapacity : r.capacity cfg slot =
      cfg.dynamicMacroSize - (r.saved slot.other).length := rfl
  have hempty : s.macroPointer = slot.start cfg ↔
      written (r.capacity cfg slot) taken = [] := by
    rw [hpointer, ← Slot.place_zero, Slot.place_inj, List.length_eq_zero_iff]
  -- what is said of a state that has the records of `written` in the buffer
  have hunchanged : written (r.capacity cfg slot) (taken ++ [record]) =
      written (r.capacity cfg slot) taken →
      Refines cfg s { r with taken := some (slot, taken ++ [record]) } := by
    intro hsame
    refine ⟨by rw [hmacroId]; rfl, h.fits, h.ends, h.holds, fun slot' taken' htaken' => ?_⟩
    obtain ⟨rfl, rfl⟩ : slot = slot' ∧ taken ++ [record] = taken' := by
      simpa using htaken'
    have hkept : written (Recorder.capacity cfg
        { r with taken := some (slot, taken ++ [record]) } slot) (taken ++ [record]) =
        written (r.capacity cfg slot) taken := hsame
    rw [hkept]
    exact ⟨hpointer, hread⟩
  rw [dynamicMacroRecordKey]
  by_cases hleading : ¬ record.pressed ∧ s.macroPointer = slot.start cfg
  · have hnone := hempty.mp hleading.2
    rw [if_pos hleading]
    apply hunchanged
    rw [hnone, written_leading hnone (by simpa using hleading.1)]
  · rw [if_neg hleading]
    have hpress : record.pressed = true ∨ written (r.capacity cfg slot) taken ≠ [] := by
      rw [Ne, ← hempty]
      by_contra hnot
      rw [not_or, not_not] at hnot
      exact hleading hnot
    have hroom : s.macroPointer - slot.direction = s.endOf slot.other ↔
        (written (r.capacity cfg slot) taken).length = r.capacity cfg slot := by
      rw [hpointer, h.ends, Slot.place_sub_direction, hcapacity]
      omega
    by_cases hfull : (written (r.capacity cfg slot) taken).length = r.capacity cfg slot
    · rw [if_neg (not_not.mpr (hroom.mpr hfull))]
      exact hunchanged (written_full hfull hpress)
    · rw [if_pos (mt hroom.mp hfull)]
      have hnext := written_concat (Nat.lt_of_le_of_ne hle hfull) hpress
      refine ⟨by rw [h.macroId, htaken]; rfl, h.fits, h.ends, fun other hother => ?_,
        fun slot' taken' htaken' => ?_⟩
      · have hne : other ≠ slot := fun heq => hother (heq ▸ hmacroId)
        obtain rfl := Slot.eq_other_of_ne hne
        have hbelow : (written (r.capacity cfg slot) taken).length +
            (r.saved slot.other).length < cfg.dynamicMacroSize := by omega
        rw [hpointer, readSlot_update_other _ _ _ hbelow]
        exact h.holds slot.other hother
      · obtain ⟨rfl, rfl⟩ : slot = slot' ∧ taken ++ [record] = taken' := by
          simpa using htaken'
        have hkept : written (Recorder.capacity cfg
            { r with taken := some (slot, taken ++ [record]) } slot) (taken ++ [record]) =
            written (r.capacity cfg slot) taken ++ [record] := hnext
        rw [hkept, List.length_append, List.length_singleton, Slot.place_succ, hpointer,
          readSlot_update_self, hread]
        exact ⟨rfl, rfl⟩

theorem trimPresses_place (buffer : Int → KeyRecord ρ) (slot : Slot)
    (records : List (KeyRecord ρ))
    (hread : readSlot cfg buffer slot records.length = records) :
    trimPresses buffer (slot.start cfg) slot.direction records.length
        (slot.place cfg records.length) =
      slot.place cfg (records.rdropWhile (·.pressed)).length := by
  induction records using List.reverseRecOn with
  | nil => simp [trimPresses]
  | append_singleton records record ih =>
      rw [List.length_append, List.length_singleton, readSlot_succ] at hread
      obtain ⟨hbefore, hlast⟩ := List.append_inj' hread rfl
      have hlast : buffer (slot.place cfg records.length) = record := by simpa using hlast
      have hback : slot.place cfg (records.length + 1) - slot.direction =
          slot.place cfg records.length := by
        rw [Slot.place_succ, Int.add_sub_cancel]
      have hmoved : slot.place cfg (records.length + 1) ≠ slot.start cfg := by
        rw [← Slot.place_zero, Ne, Slot.place_inj]
        exact Nat.succ_ne_zero _
      rw [List.length_append, List.length_singleton, trimPresses, hback, hlast]
      cases hpressed : record.pressed with
      | true =>
          rw [if_pos ⟨hmoved, rfl⟩, ih hbefore, List.rdropWhile_concat_pos _ _ _ hpressed]
      | false =>
          rw [if_neg (by simp), List.rdropWhile_concat_neg _ _ _ (by simp [hpressed])]
          simp

@[simp] theorem endOf_setEnd_self (s : State ρ) (macroEnd : Int) (slot : Slot) :
    (s.setEnd macroEnd slot).endOf slot = macroEnd := by
  cases slot <;> rfl

@[simp] theorem endOf_setEnd_other (s : State ρ) (macroEnd : Int) (slot : Slot) :
    (s.setEnd macroEnd slot).endOf slot.other = s.endOf slot.other := by
  cases slot <;> rfl

@[simp] theorem macroBuffer_setEnd (s : State ρ) (macroEnd : Int) (slot : Slot) :
    (s.setEnd macroEnd slot).macroBuffer = s.macroBuffer := by
  cases slot <;> rfl

theorem stopRecording_eq {s : State ρ} {slot : Slot} {records : List (KeyRecord ρ)}
    (hmacroId : s.macroId = some slot)
    (hpointer : s.macroPointer = slot.place cfg records.length)
    (hread : readSlot cfg s.macroBuffer slot records.length = records) :
    dynamicMacroStopRecording cfg s =
      { s.setEnd (slot.place cfg (records.rdropWhile (·.pressed)).length) slot with
        macroId := none } := by
  have hdistance : (slot.place cfg records.length - slot.start cfg).natAbs =
      records.length := by
    cases slot <;> simp only [Slot.place, Slot.direction, Slot.start] <;> omega
  rw [dynamicMacroStopRecording, hmacroId]
  simp only [dynamicMacroRecordEnd, hpointer, hdistance, trimPresses_place _ _ _ hread]

theorem Refines.stop {s : State ρ} {r : Recorder ρ} (h : Refines cfg s r)
    {slot : Slot} {taken : List (KeyRecord ρ)} (htaken : r.taken = some (slot, taken)) :
    Refines cfg (dynamicMacroStopRecording cfg s) (r.stop cfg slot taken) := by
  obtain ⟨hpointer, hread⟩ := h.recording slot taken htaken
  have hmacroId : s.macroId = some slot := by rw [h.macroId, htaken]; rfl
  have hprefix := kept_prefix (r.capacity cfg slot) taken
  have hroom : (kept (r.capacity cfg slot) taken).length + (r.saved slot.other).length ≤
      cfg.dynamicMacroSize := by
    have hle := hprefix.length_le.trans (length_written_le _ _)
    have hfits := h.fits_slot slot
    have hcapacity : r.capacity cfg slot =
        cfg.dynamicMacroSize - (r.saved slot.other).length := rfl
    omega
  have hself : (r.stop cfg slot taken).saved slot = kept (r.capacity cfg slot) taken :=
    Function.update_self _ _ _
  have hother : (r.stop cfg slot taken).saved slot.other = r.saved slot.other :=
    Function.update_of_ne slot.other_ne _ _
  rw [stopRecording_eq hmacroId hpointer hread]
  refine ⟨rfl, ?_, fun slot' => ?_, fun slot' _ => ?_, fun slot' taken' h' => ?_⟩
  · cases slot
    · rw [hself, show Slot.two = Slot.one.other from rfl, hother]
      exact hroom
    · rw [hself, show Slot.one = Slot.two.other from rfl, hother, Nat.add_comm]
      exact hroom
  · by_cases heq : slot' = slot
    · subst heq
      rw [hself]
      exact endOf_setEnd_self _ _ _
    · obtain rfl := Slot.eq_other_of_ne heq
      rw [hother, ← h.ends]
      exact endOf_setEnd_other _ _ _
  · have hbuffer : (s.setEnd (slot.place cfg ((written (r.capacity cfg slot)
        taken).rdropWhile (·.pressed)).length) slot).macroBuffer = s.macroBuffer :=
      macroBuffer_setEnd _ _ _
    simp only [hbuffer]
    by_cases heq : slot' = slot
    · subst heq
      rw [hself]
      exact readSlot_prefix (hread.symm ▸ hprefix)
    · obtain rfl := Slot.eq_other_of_ne heq
      rw [hother]
      exact h.holds slot.other (by rw [hmacroId, Ne, Option.some_inj]; exact Ne.symm heq)
  · cases h'

theorem Refines.step {s : State ρ} {r : Recorder ρ} (h : Refines cfg s r)
    (event : KeyEvent ρ) : Refines cfg (s.step cfg event) (r.step cfg event) := by
  obtain ⟨keycode, record⟩ := event
  rcases htaken : r.taken with _ | ⟨slot, taken⟩
  · have hidle : s.macroId = none := by rw [h.macroId, htaken]; rfl
    simp only [State.step, processDynamicMacro, hidle, processIdle, Recorder.step, htaken]
    cases hpressed : record.pressed with
    | true => cases keycode <;> exact h
    | false =>
        cases keycode with
        | recordStart slot => exact h.start htaken slot
        | recordStop => exact h
        | play slot => exact h
        | key keycode => exact h
  · have hmacroId : s.macroId = some slot := by rw [h.macroId, htaken]; rfl
    simp only [State.step, processDynamicMacro, hmacroId, processRecording, Recorder.step,
      htaken]
    by_cases hkey : keycode.isRecordKey = true
    · rw [if_pos hkey, if_pos hkey]
      by_cases hstops : (record.pressed ^^ decide (keycode ≠ .recordStop)) = true
      · rw [if_pos hstops, if_pos hstops]
        exact h.stop htaken
      · rw [if_neg hstops, if_neg hstops]
        exact h
    · have hrecords : cfg.records keycode record =
          (!(cfg.noNesting && keycode.isPlayKey) && cfg.validKey keycode record) := rfl
      rw [if_neg hkey, if_neg hkey, hrecords]
      by_cases hnested : cfg.noNesting = true ∧ keycode.isPlayKey = true
      · rw [if_pos hnested, hnested.1, hnested.2]
        exact h
      · have hplain : (cfg.noNesting && keycode.isPlayKey) = false := by
          simpa using hnested
        rw [if_neg hnested, hplain]
        cases hvalid : cfg.validKey keycode record with
        | true => exact h.recordKey htaken record
        | false => exact h

theorem refines_run (macroBuffer : Int → KeyRecord ρ) (events : List (KeyEvent ρ)) :
    Refines cfg (run (State.step cfg) (State.init cfg macroBuffer) events)
      (run (Recorder.step cfg) Recorder.init events) :=
  run_simulates (Refines cfg) (fun _ _ event h _ => h.step event)
    (fun event _ => (trivial : (fun _ => True) event)) (refines_init macroBuffer)

/-! ## What is played -/

theorem playLoop_place (buffer : Int → KeyRecord ρ) (slot : Slot) (fuel k n : Nat)
    (hfuel : n ≤ fuel) :
    playLoop buffer (slot.place cfg (k + n)) slot.direction fuel (slot.place cfg k) =
      some ((List.range' k n).map fun k => buffer (slot.place cfg k)) := by
  induction n generalizing fuel k with
  | zero => cases fuel <;> simp [playLoop]
  | succ n ih =>
      obtain ⟨fuel, rfl⟩ := Nat.exists_eq_succ_of_ne_zero (Nat.ne_zero_of_lt hfuel)
      have hne : slot.place cfg k ≠ slot.place cfg (k + (n + 1)) := by
        rw [Ne, Slot.place_inj]
        omega
      have hnext := ih fuel (k + 1) (Nat.le_of_succ_le_succ hfuel)
      rw [Nat.succ_add_eq_add_succ] at hnext
      rw [playLoop, if_neg hne, ← Slot.place_succ, hnext, List.range'_succ]
      rfl

theorem Refines.play {s : State ρ} {r : Recorder ρ} (h : Refines cfg s r) {slot : Slot}
    (hslot : s.macroId ≠ some slot) :
    dynamicMacroPlay cfg s slot = some (r.saved slot) := by
  have hfuel : (r.saved slot).length ≤ cfg.dynamicMacroSize := by
    have hfits := h.fits_slot slot
    omega
  have hloop := @playLoop_place ρ cfg s.macroBuffer slot cfg.dynamicMacroSize 0 _ hfuel
  rw [Nat.zero_add, ← List.range_eq_range', ← h.ends, Slot.place_zero] at hloop
  rw [dynamicMacroPlay, hloop]
  exact congrArg some (h.holds slot hslot)

/-- The end of a macro as far as it is written. -/
def State.limit (s : State ρ) (slot : Slot) : Int :=
  if s.macroId = some slot then s.macroPointer else s.endOf slot

def State.Occupies (cfg : Config ρ) (s : State ρ) : Slot → Int → Prop
  | .one, i => 0 ≤ i ∧ i < s.limit .one
  | .two, i => s.limit .two < i ∧ i ≤ cfg.dynamicMacroSize - 1

/-- Of the two macros, one of which may be in the middle of a recording, neither reaches
into the other one. -/
theorem Refines.limit {s : State ρ} {r : Recorder ρ} (h : Refines cfg s r) :
    ∃ n m, n + m ≤ cfg.dynamicMacroSize ∧ s.limit .one = Slot.one.place cfg n ∧
      s.limit .two = Slot.two.place cfg m := by
  rcases htaken : r.taken with _ | ⟨slot, taken⟩
  · have hidle : s.macroId = none := by rw [h.macroId, htaken]; rfl
    refine ⟨_, _, h.fits, ?_, ?_⟩ <;> simp [State.limit, hidle, h.ends]
  · have hmacroId : s.macroId = some slot := by rw [h.macroId, htaken]; rfl
    obtain ⟨hpointer, -⟩ := h.recording slot taken htaken
    have hle := length_written_le (r.capacity cfg slot) taken
    have hfits := h.fits
    cases slot with
    | one =>
        have hcapacity : r.capacity cfg .one =
            cfg.dynamicMacroSize - (r.saved .two).length := rfl
        refine ⟨(written (r.capacity cfg .one) taken).length, (r.saved .two).length,
          ?_, ?_, ?_⟩
        · omega
        · simp [State.limit, hmacroId, hpointer]
        · simp [State.limit, hmacroId, h.ends]
    | two =>
        have hcapacity : r.capacity cfg .two =
            cfg.dynamicMacroSize - (r.saved .one).length := rfl
        refine ⟨(r.saved .one).length, (written (r.capacity cfg .two) taken).length,
          ?_, ?_, ?_⟩
        · omega
        · simp [State.limit, hmacroId, h.ends]
        · simp [State.limit, hmacroId, hpointer]

theorem Recorder.step_recording {r : Recorder ρ} {slot : Slot}
    {taken : List (KeyRecord ρ)} (htaken : r.taken = some (slot, taken))
    (event : KeyEvent ρ) :
    r.step cfg event = r.stop cfg slot taken ∨
      ∃ later, r.step cfg event = { r with taken := some (slot, later) } := by
  have hsame : r = { r with taken := some (slot, taken) } := by rw [← htaken]
  simp only [Recorder.step, htaken]
  split
  · split
    · exact .inl rfl
    · exact .inr ⟨taken, hsame⟩
  · split
    · exact .inr ⟨_, rfl⟩
    · exact .inr ⟨taken, hsame⟩

/-- A recording, from its start to its stop, does not touch the other macro's list. -/
theorem Recorder.step_other {r : Recorder ρ} {slot : Slot} {event : KeyEvent ρ}
    (h : r.taken.map Prod.fst = some slot ∨
      (r.step cfg event).taken.map Prod.fst = some slot) :
    (r.step cfg event).saved slot.other = r.saved slot.other ∧
      r.taken.map Prod.fst ≠ some slot.other ∧
      (r.step cfg event).taken.map Prod.fst ≠ some slot.other := by
  have hne := slot.other_ne
  rcases htaken : r.taken with _ | ⟨current, taken⟩
  · rw [htaken] at h
    have h := h.resolve_left (by simp)
    have hsaved : (r.step cfg event).saved = r.saved := by
      simp only [Recorder.step, htaken]
      split <;> rfl
    rw [hsaved, h]
    simp [Ne.symm hne]
  · rw [htaken] at h
    rcases @Recorder.step_recording ρ cfg r current taken htaken event with hstep | ⟨later, hstep⟩
    · rw [hstep] at h ⊢
      obtain rfl : current = slot := by simpa [Recorder.stop] using h
      refine ⟨Function.update_of_ne hne _ _, ?_, ?_⟩ <;>
        simp [Recorder.stop, Ne.symm hne]
    · rw [hstep] at h ⊢
      obtain rfl : current = slot := by simpa using h
      simp [Ne.symm hne]

/--
After any key events the macros are apart, playing one of them hands out what was
recorded between its last start and stop, and recording one leaves the other as it is.
-/
theorem macros_apart (cfg : Config ρ) (macroBuffer : Int → KeyRecord ρ)
    (events : List (KeyEvent ρ)) :
    let s := run (State.step cfg) (State.init cfg macroBuffer) events
    let r := run (Recorder.step cfg) Recorder.init events
    (∀ slot i, s.Occupies cfg slot i →
      0 ≤ i ∧ i < cfg.dynamicMacroSize ∧ ¬ s.Occupies cfg slot.other i) ∧
    (∀ slot record, s.macroId = none → record.pressed = false →
      (processDynamicMacro cfg s (.play slot) record).played = some (r.saved slot)) ∧
    ∀ event slot, s.macroId = some slot ∨ (s.step cfg event).macroId = some slot →
      dynamicMacroPlay cfg (s.step cfg event) slot.other =
        dynamicMacroPlay cfg s slot.other := by
  intro s r
  have h : Refines cfg s r := refines_run macroBuffer events
  refine ⟨?_, fun slot record hidle hreleased => ?_, fun event slot hslot => ?_⟩
  · obtain ⟨n, m, hfits, hone, htwo⟩ := h.limit
    intro slot i
    cases slot <;>
      simp only [Slot.other, State.Occupies, hone, htwo, Slot.place, Slot.start,
        Slot.direction] <;>
      omega
  · have hne : s.macroId ≠ some slot := by simp [hidle]
    have hplay := h.play hne
    simp [processDynamicMacro, hidle, processIdle, hreleased, hplay]
  · have hnext := h.step event
    rw [h.macroId, hnext.macroId] at hslot
    obtain ⟨hsaved, hbefore, hafter⟩ := Recorder.step_other hslot
    rw [h.play (h.macroId ▸ hbefore), hnext.play (hnext.macroId ▸ hafter), hsaved]

end Qmk.DynamicMacro
