import Qmk.Via.Packet

/-!
# Which bytes of a packet are accessed

Every command keeps to the packet by itself, but for the buffer commands, of which the size is the
host's.
-/

namespace Qmk.Via

open Qmk.Lib
open Qmk.Lib.Access
open DynamicKeymap (Byte Eeprom word high low)

variable {ρ : Type} (cfg : Config ρ)

/-! ## The commands that keep to the packet -/

theorem within_unhandled : Within packetSize (unhandled : Handler ρ Unit) :=
  within_write (by decide) _

theorem within_put32 (value : BitVec 32) : Within packetSize (put32 value : Handler ρ Unit) :=
  (within_write (by decide) _).bind fun _ => (within_write (by decide) _).bind fun _ =>
    (within_write (by decide) _).bind fun _ => within_write (by decide) _

theorem rowShifts_length : (rowShifts cfg).length = (cfg.matrixCols + 7) / 8 := by
  have hpos := cfg.matrixCols_pos
  have hle := cfg.matrixCols_le
  unfold rowShifts
  split_ifs <;> simp <;> omega

theorem within_writeRow (value : BitVec 32) {i : Nat} {shifts : List Nat}
    (hi : i + shifts.length < packetSize) :
    Within packetSize (writeRow value i shifts : Handler ρ Unit) := by
  induction shifts generalizing i with
  | nil => exact within_pure ()
  | cons shift shifts ih =>
      rw [List.length_cons] at hi
      exact (within_write (by omega) _).bind fun _ => ih (by omega)

theorem within_writeRows (offset : Nat) {rows row i : Nat}
    (hi : i + rows * (rowShifts cfg).length < packetSize) :
    Within packetSize (writeRows cfg offset rows row i) := by
  induction rows generalizing row i with
  | zero => exact within_pure ()
  | succ rows ih =>
      rw [Nat.succ_mul] at hi
      rw [writeRows]
      refine within_ite ?_ (within_pure ())
      exact (within_ask _).bind fun value =>
        (within_writeRow value (by omega)).bind fun _ => ih (by omega)

theorem within_switchMatrixState : Within packetSize (switchMatrixState cfg) := by
  refine (within_read (by decide)).bind fun offset => within_writeRows cfg _ ?_
  have hrows := Nat.div_mul_le_self 28 ((cfg.matrixCols + 7) / 8)
  rw [rowShifts_length, packetSize]
  omega

theorem within_getKeyboardValue : Within packetSize (getKeyboardValue cfg) := by
  refine (within_read (by decide)).bind fun valueId => ?_
  split
  · exact (within_ask _).bind within_put32
  · exact (within_ask _).bind within_put32
  · exact within_switchMatrixState cfg
  · exact within_put32 _
  · exact within_put32 _
  · exact within_unhandled

theorem within_setKeyboardValue : Within packetSize (setKeyboardValue cfg) := by
  refine (within_read (by decide)).bind fun valueId => ?_
  split
  · exact (within_read (by decide)).bind fun _ => (within_read (by decide)).bind fun _ =>
      (within_read (by decide)).bind fun _ => (within_read (by decide)).bind fun _ =>
        within_tell _
  · exact (within_read (by decide)).bind fun _ => within_tell _
  · exact within_unhandled

theorem valueBytes_le {values : List (Nat × Nat)} {valueId : Byte} {n bound : Nat}
    (h : valueBytes values valueId = some n) (hvalues : ∀ value ∈ values, value.2 ≤ bound) :
    n ≤ bound := by
  simp only [valueBytes, Option.map_eq_some_iff] at h
  obtain ⟨value, hfind, rfl⟩ := h
  exact hvalues value (List.mem_of_find?_eq_some hfind)

theorem within_moduleCommand (module : Module ρ) {setValues getValues : List (Nat × Nat)}
    (hset : ∀ value ∈ setValues, value.2 ≤ 2) (hget : ∀ value ∈ getValues, value.2 ≤ 2) :
    Within packetSize (moduleCommand module setValues getValues) := by
  refine (within_read (by decide)).bind fun commandId => ?_
  split
  · refine (within_read (by decide)).bind fun valueId => ?_
    split
    · rename_i n hbytes
      have hn := valueBytes_le hbytes hset
      exact (within_readMany n (by rw [packetSize]; omega)).bind fun _ => within_tell _
    · exact within_pure ()
  · refine (within_read (by decide)).bind fun valueId => ?_
    split
    · rename_i n hbytes
      have hn := valueBytes_le hbytes hget
      exact within_loop n fun k _ hk => (within_ask _).bind fun _ =>
        within_write (by rw [packetSize]; omega) _
    · exact within_pure ()
  · exact within_tell _
  · exact within_unhandled

theorem within_viaCustomValueCommand : Within packetSize (viaCustomValueCommand cfg) := by
  refine (within_read (by decide)).bind fun channelId => ?_
  refine within_ite (within_moduleCommand _ ?_ (by decide)) <|
    within_ite (within_moduleCommand _ (by decide) (by decide)) <|
    within_ite (within_moduleCommand _ (by decide) (by decide)) <|
    within_ite (within_moduleCommand _ (by decide) (by decide)) <|
    within_ite (within_moduleCommand _ (by decide) (by decide)) within_unhandled
  cases cfg.backlightBreathing <;> decide

theorem within_getKeycode : Within packetSize (getKeycode cfg) :=
  (within_read (by decide)).bind fun _ => (within_read (by decide)).bind fun _ =>
    (within_read (by decide)).bind fun _ => (within_ask _).bind fun _ =>
      (within_write (by decide) _).bind fun _ => within_write (by decide) _

theorem within_setKeycode : Within packetSize (setKeycode cfg) :=
  (within_read (by decide)).bind fun _ => (within_read (by decide)).bind fun _ =>
    (within_read (by decide)).bind fun _ => (within_read (by decide)).bind fun _ =>
      (within_read (by decide)).bind fun _ => within_tell _

theorem within_getEncoder : Within packetSize (getEncoder cfg) :=
  (within_read (by decide)).bind fun _ => (within_read (by decide)).bind fun _ =>
    (within_read (by decide)).bind fun _ => (within_ask _).bind fun _ =>
      (within_write (by decide) _).bind fun _ => within_write (by decide) _

theorem within_setEncoder : Within packetSize (setEncoder cfg) :=
  (within_read (by decide)).bind fun _ => (within_read (by decide)).bind fun _ =>
    (within_read (by decide)).bind fun _ => (within_read (by decide)).bind fun _ =>
      (within_read (by decide)).bind fun _ => within_tell _

theorem within_command {commandId : Nat}
    (hcommand : commandId ≠ 0x0E ∧ commandId ≠ 0x0F ∧ commandId ≠ 0x12 ∧ commandId ≠ 0x13) :
    Within packetSize (command cfg commandId) := by
  obtain ⟨hmacroGet, hmacroSet, hget, hset⟩ := hcommand
  unfold command
  split
  · exact (within_write (by decide) _).bind fun _ => within_write (by decide) _
  · exact within_getKeyboardValue cfg
  · exact within_setKeyboardValue cfg
  · exact within_getKeycode cfg
  · exact within_setKeycode cfg
  · exact within_tell _
  · exact within_viaCustomValueCommand cfg
  · exact within_viaCustomValueCommand cfg
  · exact within_viaCustomValueCommand cfg
  · exact within_ite (within_tell _) within_unhandled
  · exact within_write (by decide) _
  · exact (within_write (by decide) _).bind fun _ => within_write (by decide) _
  · exact absurd rfl hmacroGet
  · exact absurd rfl hmacroSet
  · exact within_tell _
  · exact within_write (by decide) _
  · exact absurd rfl hget
  · exact absurd rfl hset
  · exact within_ite (within_getEncoder cfg) within_unhandled
  · exact within_ite (within_setEncoder cfg) within_unhandled
  · exact within_unhandled

/-! ## The buffers -/

theorem touches_readBuffer (base limit offset size : Nat) :
    Touches (fun k => 4 ≤ k ∧ k < 4 + size)
      (readBuffer base limit offset size : Handler ρ Unit) := by
  have hbody (i : Nat) : Touches (fun k => False ∨ k = 4 + i) (do
      let value ← ask fun device : Device ρ =>
        if offset + i < limit then device.eeprom (base + offset + i) else 0
      write (4 + i) value) :=
    (touches_ask _).bind fun value => touches_write (4 + i) value
  refine (touches_loop hbody size 0).mono fun k => ?_
  constructor
  · rintro ⟨i, -, hlt, h | rfl⟩
    · exact h.elim
    · omega
  · rintro ⟨hle, hlt⟩
    exact ⟨k - 4, by omega, by omega, .inr (by omega)⟩

theorem touches_updateBuffer (base limit offset size : Nat) :
    Touches (fun k => 4 ≤ k ∧ k < 4 + size ∧ offset + (k - 4) < limit)
      (updateBuffer base limit offset size : Handler ρ Unit) := by
  have hbody (i : Nat) : Touches (fun k => offset + i < limit ∧ k = 4 + i)
      (if offset + i < limit then do
        let value ← read (4 + i)
        tellEeprom fun eeprom => Function.update eeprom (base + offset + i) value
      else pure () : Handler ρ Unit) := by
    by_cases hlimit : offset + i < limit
    · rw [if_pos hlimit]
      refine ((touches_read (4 + i)).bind fun value => touches_tell _).mono fun k => ?_
      simp [hlimit]
    · rw [if_neg hlimit]
      exact (touches_pure ()).mono fun k => by simp [hlimit]
  refine (touches_loop hbody size 0).mono fun k => ?_
  constructor
  · rintro ⟨i, -, hlt, hlimit, rfl⟩
    omega
  · rintro ⟨hle, hlt, hlimit⟩
    exact ⟨k - 4, by omega, by omega, hlimit, by omega⟩

/-! ## The packet -/

/-- The bytes of a buffer command are in the packet. -/
def Fits (data : Nat → Byte) : Prop :=
  let commandId := (data 0).toNat
  let offset := (word (data 1) (data 2)).toNat
  let size := (data 3).toNat
  (commandId = 0x0E ∨ commandId = 0x12 → size ≤ 28) ∧
    (commandId = 0x0F → size ≤ 28 ∨ cfg.macroSize ≤ offset + 28) ∧
    (commandId = 0x13 → size ≤ 28 ∨ cfg.keymapSize ≤ offset + 28)

theorem touches_rawHidSend : Touches (· < packetSize) (rawHidSend : Handler ρ Unit) := by
  have hbody (i : Nat) : Touches (fun k => k = i ∨ False)
      (do let _ ← read i : Handler ρ Unit) :=
    (touches_read i).bind fun _ => touches_pure ()
  refine (touches_loop hbody packetSize 0).mono fun k => ?_
  constructor
  · rintro ⟨i, -, hlt, rfl | h⟩
    · omega
    · exact h.elim
  · intro hlt
    exact ⟨k, Nat.zero_le k, by omega, .inl rfl⟩

/-- A packet, once the id of its command is read. -/
def dispatched (data : Nat → Byte) (device : Device ρ) : Traced Byte (Device ρ) :=
  ⟨data, [0], device⟩

theorem dispatched_within (data : Nat → Byte) (device : Device ρ) :
    ∀ i ∈ (dispatched data device).accessed, i < packetSize :=
  List.forall_mem_singleton.mpr (by decide)

theorem within_iff_command (data : Nat → Byte) (device : Device ρ) :
    (∀ i ∈ (rawHidReceive cfg (received data device)).2.accessed, i < packetSize) ↔
      ∀ i ∈ (command cfg (data 0).toNat (dispatched data device)).2.accessed, i < packetSize := by
  have hrun : rawHidReceive cfg (received data device) =
      rawHidSend (command cfg (data 0).toNat (dispatched data device)).2 := by
    rw [rawHidReceive, bind_run, bind_run]
    rfl
  have hsend := touches_rawHidSend (command cfg (data 0).toNat (dispatched data device)).2
  rw [hrun]
  constructor
  · intro h i hi
    exact h i ((hsend i).mpr (.inl hi))
  · intro h i hi
    exact ((hsend i).mp hi).elim (h i) id

theorem within_bufferCommand_iff {access : Nat → Nat → Handler ρ Unit}
    {cells : Nat → Nat → Nat → Prop} (haccess : ∀ offset size, Touches (cells offset size)
      (access offset size)) (data : Nat → Byte) (device : Device ρ) :
    (∀ i ∈ (bufferCommand access (dispatched data device)).2.accessed, i < packetSize) ↔
      ∀ i, cells (word (data 1) (data 2)).toNat (data 3).toNat i → i < packetSize := by
  have hrun : bufferCommand access (dispatched data device) =
      access (word (data 1) (data 2)).toNat (data 3).toNat ⟨data, [3, 2, 1, 0], device⟩ := by
    rw [bufferCommand, bind_run, bind_run, bind_run]
    rfl
  have hread : ∀ i ∈ [3, 2, 1, 0], i < packetSize := by decide
  rw [hrun]
  exact (haccess _ _).within_iff hread

theorem readCells_iff (size : Nat) :
    (∀ i, 4 ≤ i ∧ i < 4 + size → i < packetSize) ↔ size ≤ 28 := by
  constructor
  · intro h
    by_contra hsize
    exact absurd (h 32 ⟨by omega, by omega⟩) (by decide)
  · intro hsize i hi
    rw [packetSize]
    omega

theorem updateCells_iff (limit offset size : Nat) :
    (∀ i, 4 ≤ i ∧ i < 4 + size ∧ offset + (i - 4) < limit → i < packetSize) ↔
      size ≤ 28 ∨ limit ≤ offset + 28 := by
  constructor
  · intro h
    by_contra hnot
    exact absurd (h 32 ⟨by omega, by omega, by omega⟩) (by decide)
  · intro hsize i hi
    rw [packetSize]
    omega

/-- The bytes that `raw_hid_receive` accesses are those of the packet, just where the host's size
keeps to them. -/
theorem rawHidReceive_within_iff (data : Nat → Byte) (device : Device ρ) :
    (∀ i ∈ (rawHidReceive cfg (received data device)).2.accessed, i < packetSize) ↔
      Fits cfg data := by
  rw [within_iff_command, Fits]
  generalize (data 0).toNat = commandId
  by_cases hmacroGet : commandId = 0x0E
  · subst hmacroGet
    have hbuffer := within_bufferCommand_iff (touches_readBuffer cfg.macroAddr cfg.macroSize)
      data device
    rw [readCells_iff] at hbuffer
    simpa [command, macroGetBuffer] using hbuffer
  by_cases hget : commandId = 0x12
  · subst hget
    have hbuffer := within_bufferCommand_iff (touches_readBuffer cfg.eepromAddr cfg.keymapSize)
      data device
    rw [readCells_iff] at hbuffer
    simpa [command, getBuffer] using hbuffer
  by_cases hmacroSet : commandId = 0x0F
  · subst hmacroSet
    have hbuffer := within_bufferCommand_iff (touches_updateBuffer cfg.macroAddr cfg.macroSize)
      data device
    rw [updateCells_iff] at hbuffer
    simpa [command, macroSetBuffer] using hbuffer
  by_cases hset : commandId = 0x13
  · subst hset
    have hbuffer := within_bufferCommand_iff (touches_updateBuffer cfg.eepromAddr cfg.keymapSize)
      data device
    rw [updateCells_iff] at hbuffer
    simpa [command, setBuffer] using hbuffer
  · have hwithin := within_command cfg ⟨hmacroGet, hmacroSet, hget, hset⟩
    have hbounded := hwithin (dispatched data device) (dispatched_within data device)
    simp only [hmacroGet, hget, hmacroSet, hset, or_self, false_implies, and_self, iff_true]
    exact hbounded

def noModule : Module Unit where
  enable := false
  set _ _ rest := rest
  get _ _ _ := 0
  save device := device

/-- A keyboard with one key. -/
def oneKey : Config Unit where
  eepromAddr := 0
  maxAddr := 1023
  layerCount := 1
  matrixRows := 1
  matrixCols := 1
  numEncoders := 0
  maxAddr_le := Nat.le_of_ble_eq_true rfl
  room := Nat.le_of_ble_eq_true rfl
  matrixCols_pos := Nat.one_pos
  matrixCols_le := Nat.le_add_left 1 31
  encoderMap := false
  eepromAllowReset := false
  macroCount := 16
  firmwareVersion := 0
  keycodesVersion := 8
  timerRead32 _ := 0
  viaGetLayoutOptions _ := 0
  viaSetLayoutOptions _ device := device
  viaSetDeviceIndication _ rest := rest
  matrixGetRow _ _ := 0
  dynamicKeymapReset device := device
  dynamicKeymapMacroReset device := device
  eepromReset device := device
  backlightBreathing := false
  backlight := noModule
  rgblight := noModule
  rgbMatrix := noModule
  ledMatrix := noModule
  audio := noModule

/-- A read of 29 bytes of the keymap, one more than there is room for. -/
def getTwentyNine (i : Nat) : Byte := if i = 0 then 0x12 else if i = 3 then 29 else 0

theorem getTwentyNine_outside :
    ¬ ∀ i ∈ (rawHidReceive oneKey (received getTwentyNine ⟨fun _ => 0, ()⟩)).2.accessed,
      i < packetSize := by
  have hbuffer := within_bufferCommand_iff
    (touches_readBuffer oneKey.eepromAddr oneKey.keymapSize) getTwentyNine
    (⟨fun _ => 0, ()⟩ : Device Unit)
  have hcommand : command oneKey (getTwentyNine 0).toNat = getBuffer oneKey := rfl
  rw [within_iff_command, hcommand, getBuffer, hbuffer, readCells_iff]
  decide

end Qmk.Via
