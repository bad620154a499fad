import Qmk.Action.OneshotLayer
import Qmk.DynamicMacro.Buffer

/-!
# What playing does to a macro

`dynamic_macro_play` hands pointers into the buffer to `process_record`, which may write through
them.  The buffer is a map from indices, as it is for the recording.
-/

namespace Qmk.DynamicMacro.Playback

open Qmk.Action (Firmware Board layerStateSet layerClear)

variable {w : Nat} {ρ : Type}

abbrev Buffer := Int → Tapping.KeyRecord

section Functions

variable (fw : Firmware w ρ)

/-- The loop of `dynamic_macro_play`; `none` is a loop that has not met the end of the macro. -/
def playLoop (macroEnd direction : Int) :
    Nat → Int → Board w ρ → Buffer → Option (Board w ρ × Buffer)
  | 0, macroBuffer, board, buffer => if macroBuffer = macroEnd then some (board, buffer) else none
  | fuel + 1, macroBuffer, board, buffer =>
      if macroBuffer = macroEnd then some (board, buffer)
      else
        let (board, record) := Action.processRecord fw board (buffer macroBuffer)
        playLoop macroEnd direction fuel (macroBuffer + direction) board
          (Function.update buffer macroBuffer record)

/-- What is done ahead of the loop; `kept` is the layer state of the recording, with
`DYNAMIC_MACRO_KEEP_ORIGINAL_LAYER_STATE`. -/
def beforePlay (kept : Option (BitVec w)) (board : Board w ρ) : Board w ρ :=
  let board := board.perform fw .clearKeyboard
  match kept with
  | some state => layerStateSet fw state board
  | none => layerClear fw board

/-- `dynamic_macro_play`, less its hook. -/
def dynamicMacroPlay (kept : Option (BitVec w)) (dynamicMacroSize : Nat)
    (macroBuffer macroEnd direction : Int) (board : Board w ρ) (buffer : Buffer) :
    Option (Board w ρ × Buffer) :=
  let savedLayerState := board.layerState
  (playLoop fw macroEnd direction dynamicMacroSize macroBuffer (beforePlay fw kept board)
    buffer).map fun played =>
      (layerStateSet fw savedLayerState (played.1.perform fw .clearKeyboard), played.2)

/-- The board after the first records of a macro. -/
def boardAt : Nat → Board w ρ → (Nat → Tapping.KeyRecord) → Board w ρ
  | 0, board, _ => board
  | k + 1, board, records =>
      boardAt k (Action.processRecord fw board (records 0)).1 fun j => records (j + 1)

end Functions

variable {fw : Firmware w ρ}

/-- The records of a macro, in the order in which they are played. -/
def records (slot : Slot) (start : Int) (buffer : Buffer) (k : Nat) : Tapping.KeyRecord :=
  buffer (start + slot.direction * k)

theorem place_succ (slot : Slot) (start : Int) (k : Nat) :
    start + slot.direction * (k + 1 : Nat) = start + slot.direction + slot.direction * k := by
  cases slot <;> simp [Slot.direction] <;> omega

theorem start_ne_place (slot : Slot) (start : Int) (k : Nat) :
    start ≠ start + slot.direction + slot.direction * k := by
  cases slot <;> simp [Slot.direction] <;> omega

theorem records_succ (slot : Slot) (start : Int) (buffer : Buffer) (k : Nat) :
    records slot start buffer (k + 1) = records slot (start + slot.direction) buffer k := by
  rw [records, place_succ]
  rfl

theorem records_update (slot : Slot) (start : Int) (buffer : Buffer)
    (record : Tapping.KeyRecord) :
    records slot (start + slot.direction) (Function.update buffer start record) =
      fun k => records slot start buffer (k + 1) := by
  funext k
  rw [records_succ]
  exact Function.update_of_ne (start_ne_place slot start k).symm _ _

/-- Each record is replaced by what `process_record` leaves of it. -/
theorem playLoop_spec (slot : Slot) (n : Nat) {fuel : Nat} (hfuel : n ≤ fuel) (start : Int)
    (board : Board w ρ) (buffer : Buffer) :
    ∃ board' buffer', playLoop fw (start + slot.direction * n) slot.direction fuel start board
        buffer = some (board', buffer') ∧
      (∀ k < n, records slot start buffer' k =
        (Action.processRecord fw (boardAt fw k board (records slot start buffer))
          (records slot start buffer k)).2) ∧
      ∀ place, (∀ k < n, place ≠ start + slot.direction * k) → buffer' place = buffer place := by
  induction n generalizing fuel start board buffer with
  | zero =>
      have hend : start = start + slot.direction * (0 : Nat) := by simp
      refine ⟨board, buffer, ?_, fun k hk => absurd hk (Nat.not_lt_zero k), fun _ _ => rfl⟩
      cases fuel with
      | zero => exact if_pos hend
      | succ fuel => exact if_pos hend
  | succ n ih =>
      obtain ⟨fuel, rfl⟩ : ∃ rest, fuel = rest + 1 := ⟨fuel - 1, by omega⟩
      have hmore : ¬ start = start + slot.direction * (n + 1 : Nat) := by
        rw [place_succ]
        exact start_ne_place slot start n
      obtain ⟨board', buffer', hplay, hrecords, hframe⟩ :=
        ih (Nat.le_of_succ_le_succ hfuel) (start + slot.direction)
          (Action.processRecord fw board (buffer start)).1
          (Function.update buffer start (Action.processRecord fw board (buffer start)).2)
      have hfirst : records slot start buffer 0 = buffer start := by simp [records]
      refine ⟨board', buffer', ?_, ?_, ?_⟩
      · rw [playLoop, if_neg hmore, place_succ]
        exact hplay
      · intro k hk
        cases k with
        | zero =>
            have hkept := hframe start fun k _ => start_ne_place slot start k
            rw [Function.update_self] at hkept
            rw [boardAt, hfirst, ← hkept]
            simp [records]
        | succ k =>
            rw [records_succ, hrecords k (Nat.lt_of_succ_lt_succ hk), records_update, boardAt,
              hfirst]
      · intro place hplace
        have hother : place ≠ start := by simpa using hplace 0 (Nat.succ_pos n)
        rw [hframe place fun k hk => ?_, Function.update_of_ne hother]
        rw [← place_succ]
        exact hplace (k + 1) (Nat.succ_lt_succ hk)

/-- The A key is pressed and released. -/
def typedA (place : Int) : Tapping.KeyRecord := Action.keyRecord (place = 0) 0

/-- The key of the first column is `OSL(1)`. -/
def oneshotKeys : Firmware 16 Unit :=
  { Action.keyA with
    storeOrGetAction := fun board record =>
      (if record.event.key.col = 0 then 0xA1F4 else 0x0004, board.rest) }

def columnRecord (col : UInt8) (pressed : Bool) (count : Nat) : Tapping.KeyRecord :=
  ⟨⟨⟨col, 0⟩, 0, .key, pressed⟩, ⟨false, count⟩⟩

/-- `OSL(1)` is tapped, and the A key is pressed and released. -/
def oneshotMacro (place : Int) : Tapping.KeyRecord :=
  if place = 0 then columnRecord 0 true 1
  else if place = 1 then columnRecord 0 false 1
  else if place = 2 then columnRecord 1 true 0
  else columnRecord 1 false 0

end Qmk.DynamicMacro.Playback
