import Qmk.DynamicKeymap.Regions

/-!
# The dynamic keymap as a store

The keymap, the encoders and the macros as tables, what each operation does to them, and
that the EEPROM holds just these tables.
-/

namespace Qmk.DynamicKeymap

open Qmk.Lib

structure Store where
  keycode : Nat → Nat → Nat → BitVec 16
  encoder : Nat → Nat → Bool → BitVec 16
  macroByte : Nat → Byte

/-- The offset of a key in the buffer of the keymap. -/
def keyOffset (cfg : Config) (layer row column : Nat) : Nat :=
  layer * cfg.matrixRows * cfg.matrixCols * 2 + row * cfg.matrixCols * 2 + column * 2

def encoderOffset (cfg : Config) (layer encoderId : Nat) (clockwise : Bool) : Nat :=
  layer * cfg.numEncoders * 2 * 2 + encoderId * 2 * 2 + directionOffset clockwise

/-- A keycode of which the two bytes from `index` on are written. -/
def patchWord (offset size : Nat) (data : Nat → Byte) (index : Nat) (old : BitVec 16) :
    BitVec 16 :=
  word (patch offset size data index (high old)) (patch offset size data (index + 1) (low old))

def Store.setKeycode (store : Store) (layer row column : Nat) (keycode : BitVec 16) : Store :=
  { store with
    keycode := fun l r c =>
      if l = layer ∧ r = row ∧ c = column then keycode else store.keycode l r c }

def Store.setEncoder (store : Store) (layer encoderId : Nat) (clockwise : Bool)
    (keycode : BitVec 16) : Store :=
  { store with
    encoder := fun l e d =>
      if l = layer ∧ e = encoderId ∧ d = clockwise then keycode else store.encoder l e d }

def Store.step (cfg : Config) (store : Store) : Op → Store
  | .setKeycode layer row column keycode =>
      if InKeymap cfg layer row column then store.setKeycode layer row column keycode else store
  | .setEncoder layer encoderId clockwise keycode =>
      if InEncoders cfg layer encoderId then store.setEncoder layer encoderId clockwise keycode
      else store
  | .setBuffer offset size data =>
      { store with
        keycode := fun l r c =>
          patchWord offset.toNat size.toNat data (keyOffset cfg l r c) (store.keycode l r c) }
  | .macroSetBuffer offset size data =>
      { store with
        macroByte := fun i => patch offset.toNat size.toNat data i (store.macroByte i) }

/-! ## What is read -/

def Store.getKeycode (store : Store) (cfg : Config) (layer row column : Nat) : BitVec 16 :=
  if InKeymap cfg layer row column then store.keycode layer row column else kcNo

def Store.getEncoder (store : Store) (cfg : Config) (layer encoderId : Nat)
    (clockwise : Bool) : BitVec 16 :=
  if InEncoders cfg layer encoderId then store.encoder layer encoderId clockwise else kcNo

/-- The byte at `i` of the keycodes, layer by layer and row by row, in big endian. -/
def Store.keymapByte (store : Store) (cfg : Config) (i : Nat) : Byte :=
  let key := i / 2
  let keycode := store.keycode (key / cfg.matrixCols / cfg.matrixRows)
    (key / cfg.matrixCols % cfg.matrixRows) (key % cfg.matrixCols)
  if i % 2 = 0 then high keycode else low keycode

def Store.getBuffer (store : Store) (cfg : Config) (offset size : BitVec 16) : List Byte :=
  (List.range size.toNat).map fun i =>
    if offset.toNat + i < cfg.keymapSize then store.keymapByte cfg (offset.toNat + i) else 0

def Store.macroGetBuffer (store : Store) (cfg : Config) (offset size : BitVec 16) : List Byte :=
  (List.range size.toNat).map fun i =>
    if offset.toNat + i < cfg.macroSize then store.macroByte (offset.toNat + i) else 0

/-- The tables that an EEPROM holds. -/
def Store.view (cfg : Config) (eeprom : Eeprom) : Store where
  keycode l r c := nvmDynamicKeymapReadKeycode cfg l r c eeprom
  encoder l e d := nvmDynamicKeymapReadEncoder cfg l e d eeprom
  macroByte i := eeprom (cfg.macroAddr + i)

variable {cfg : Config}

/-! ## Offsets -/

theorem keyOffset_eq (layer row column : Nat) :
    keyOffset cfg layer row column =
      2 * ((layer * cfg.matrixRows + row) * cfg.matrixCols + column) := by
  rw [keyOffset, Nat.add_mul]
  omega

theorem number_lt {major minor width height : Nat} (hmajor : major < height)
    (hminor : minor < width) : major * width + minor < height * width := by
  have hle : (major + 1) * width ≤ height * width := Nat.mul_le_mul_right width hmajor
  rw [Nat.add_mul] at hle
  omega

theorem number_div {major minor width : Nat} (h : minor < width) :
    (major * width + minor) / width = major := by
  rw [Nat.add_comm, Nat.add_mul_div_right _ _ (Nat.zero_lt_of_lt h), Nat.div_eq_of_lt h,
    Nat.zero_add]

theorem number_mod {major minor width : Nat} (h : minor < width) :
    (major * width + minor) % width = minor := by
  rw [Nat.add_comm, Nat.add_mul_mod_self_right, Nat.mod_eq_of_lt h]

theorem keyOffset_lt {layer row column : Nat} (h : InKeymap cfg layer row column) :
    keyOffset cfg layer row column + 1 < cfg.keymapSize := by
  have hnumber := number_lt (number_lt h.1 h.2.1) h.2.2
  rw [keyOffset_eq, Config.keymapSize]
  omega

theorem keyOffset_apart {l r c layer row column : Nat} (h : InKeymap cfg l r c)
    (h' : InKeymap cfg layer row column) :
    (l = layer ∧ r = row ∧ c = column) ∨
      keyOffset cfg l r c + 2 ≤ keyOffset cfg layer row column ∨
        keyOffset cfg layer row column + 2 ≤ keyOffset cfg l r c := by
  rw [keyOffset_eq, keyOffset_eq]
  by_cases heq : (l * cfg.matrixRows + r) * cfg.matrixCols + c =
      (layer * cfg.matrixRows + row) * cfg.matrixCols + column
  · have hrows := congrArg (· / cfg.matrixCols) heq
    have hcolumns := congrArg (· % cfg.matrixCols) heq
    simp only [number_div h.2.2, number_div h'.2.2] at hrows
    simp only [number_mod h.2.2, number_mod h'.2.2] at hcolumns
    have hlayers := congrArg (· / cfg.matrixRows) hrows
    have hrow := congrArg (· % cfg.matrixRows) hrows
    simp only [number_div h.2.1, number_div h'.2.1] at hlayers
    simp only [number_mod h.2.1, number_mod h'.2.1] at hrow
    exact .inl ⟨hlayers, hrow, hcolumns⟩
  · omega

theorem encoderOffset_eq (layer encoderId : Nat) (clockwise : Bool) :
    encoderOffset cfg layer encoderId clockwise =
      4 * (layer * cfg.numEncoders + encoderId) + directionOffset clockwise := by
  rw [encoderOffset]
  omega

theorem directionOffset_cases (clockwise : Bool) :
    directionOffset clockwise = 0 ∧ clockwise = true ∨
      directionOffset clockwise = 2 ∧ clockwise = false := by
  cases clockwise
  · exact .inr ⟨rfl, rfl⟩
  · exact .inl ⟨rfl, rfl⟩

theorem encoderOffset_lt {layer encoderId : Nat} (h : InEncoders cfg layer encoderId)
    (clockwise : Bool) :
    encoderOffset cfg layer encoderId clockwise + 1 <
      cfg.layerCount * cfg.numEncoders * 2 * 2 := by
  have hnumber := number_lt h.1 h.2
  rw [encoderOffset_eq]
  rcases directionOffset_cases clockwise with ⟨hdir, -⟩ | ⟨hdir, -⟩ <;> omega

theorem encoderOffset_apart {l e layer encoderId : Nat} (h : InEncoders cfg l e)
    (h' : InEncoders cfg layer encoderId) (d clockwise : Bool) :
    (l = layer ∧ e = encoderId ∧ d = clockwise) ∨
      encoderOffset cfg l e d + 2 ≤ encoderOffset cfg layer encoderId clockwise ∨
        encoderOffset cfg layer encoderId clockwise + 2 ≤ encoderOffset cfg l e d := by
  rw [encoderOffset_eq, encoderOffset_eq]
  by_cases heq : l * cfg.numEncoders + e = layer * cfg.numEncoders + encoderId
  · have hlayers := congrArg (· / cfg.numEncoders) heq
    have hencoders := congrArg (· % cfg.numEncoders) heq
    simp only [number_div h.2, number_div h'.2] at hlayers
    simp only [number_mod h.2, number_mod h'.2] at hencoders
    rcases directionOffset_cases d with ⟨hd, rfl⟩ | ⟨hd, rfl⟩ <;>
      rcases directionOffset_cases clockwise with ⟨hdir, rfl⟩ | ⟨hdir, rfl⟩
    · exact .inl ⟨hlayers, hencoders, rfl⟩
    · omega
    · omega
    · exact .inl ⟨hlayers, hencoders, rfl⟩
  · rcases directionOffset_cases d with ⟨hd, -⟩ | ⟨hd, -⟩ <;>
      rcases directionOffset_cases clockwise with ⟨hdir, -⟩ | ⟨hdir, -⟩ <;> omega

/-! ## The EEPROM holds the tables -/

structure Holds (cfg : Config) (eeprom : Eeprom) (store : Store) : Prop where
  keycode : ∀ l r c, InKeymap cfg l r c →
    readWord eeprom (cfg.eepromAddr + keyOffset cfg l r c) = store.keycode l r c
  encoder : ∀ l e d, InEncoders cfg l e →
    readWord eeprom (cfg.encoderAddr + encoderOffset cfg l e d) = store.encoder l e d
  macroByte : ∀ i, i < cfg.macroSize → eeprom (cfg.macroAddr + i) = store.macroByte i

theorem keyToEepromAddress_eq (layer row column : Nat) :
    keyToEepromAddress cfg layer row column = cfg.eepromAddr + keyOffset cfg layer row column := by
  rw [keyToEepromAddress, keyOffset]
  omega

theorem encoderToEepromAddress_eq (layer encoderId : Nat) (clockwise : Bool) :
    encoderToEepromAddress cfg layer encoderId + directionOffset clockwise =
      cfg.encoderAddr + encoderOffset cfg layer encoderId clockwise := by
  rw [encoderToEepromAddress, encoderOffset]
  omega

theorem Holds.view (cfg : Config) (eeprom : Eeprom) : Holds cfg eeprom (.view cfg eeprom) where
  keycode l r c hin := by
    simp only [Store.view, nvmDynamicKeymapReadKeycode, if_pos hin, keyToEepromAddress_eq]
  encoder l e d hin := by
    simp only [Store.view, nvmDynamicKeymapReadEncoder, if_pos hin, encoderToEepromAddress_eq]
  macroByte _ _ := rfl

theorem encoderAddr_eq (cfg : Config) : cfg.encoderAddr = cfg.eepromAddr + cfg.keymapSize := rfl

theorem macroAddr_eq (cfg : Config) :
    cfg.macroAddr = cfg.encoderAddr + cfg.layerCount * cfg.numEncoders * 2 * 2 := rfl

theorem keycode_of_same {eeprom eeprom' : Eeprom}
    (h : ∀ a, a < cfg.encoderAddr → eeprom' a = eeprom a) {l r c : Nat}
    (hin : InKeymap cfg l r c) :
    readWord eeprom' (cfg.eepromAddr + keyOffset cfg l r c) =
      readWord eeprom (cfg.eepromAddr + keyOffset cfg l r c) := by
  have hlt := keyOffset_lt hin
  have haddr := encoderAddr_eq cfg
  exact readWord_congr fun a _ ha => h a (by omega)

theorem encoder_of_same {eeprom eeprom' : Eeprom}
    (h : ∀ a, cfg.encoderAddr ≤ a → a < cfg.macroAddr → eeprom' a = eeprom a) {l e : Nat}
    (hin : InEncoders cfg l e) (d : Bool) :
    readWord eeprom' (cfg.encoderAddr + encoderOffset cfg l e d) =
      readWord eeprom (cfg.encoderAddr + encoderOffset cfg l e d) := by
  have hlt := encoderOffset_lt hin d
  have haddr := macroAddr_eq cfg
  exact readWord_congr fun a hle ha => h a (by omega) (by omega)

theorem setKeycode_holds {eeprom : Eeprom} {store : Store} (h : Holds cfg eeprom store)
    {layer row column : Nat} (keycode : BitVec 16) (hin : InKeymap cfg layer row column) :
    Holds cfg (updateWord eeprom (cfg.eepromAddr + keyOffset cfg layer row column) keycode)
      (store.setKeycode layer row column keycode) := by
  have hlt := keyOffset_lt hin
  have haddr := encoderAddr_eq cfg
  have hmacro := macroAddr_eq cfg
  refine ⟨fun l r c hkey => ?_, fun l e d henc => ?_, fun i hi => ?_⟩
  · rw [Store.setKeycode]
    dsimp only
    split
    · rename_i hsame
      obtain ⟨rfl, rfl, rfl⟩ := hsame
      exact readWord_updateWord _ _ _
    · rename_i hother
      rw [← h.keycode l r c hkey]
      have hapart := (keyOffset_apart hkey hin).resolve_left hother
      exact readWord_congr fun a _ _ => updateWord_outside _ _ (by omega)
  · rw [Store.setKeycode, ← h.encoder l e d henc]
    exact encoder_of_same (fun a _ _ => updateWord_outside _ _ (by omega)) henc d
  · rw [Store.setKeycode, ← h.macroByte i hi]
    exact updateWord_outside _ _ (by omega)

theorem setEncoder_holds {eeprom : Eeprom} {store : Store} (h : Holds cfg eeprom store)
    {layer encoderId : Nat} (clockwise : Bool) (keycode : BitVec 16)
    (hin : InEncoders cfg layer encoderId) :
    Holds cfg
      (updateWord eeprom (cfg.encoderAddr + encoderOffset cfg layer encoderId clockwise) keycode)
      (store.setEncoder layer encoderId clockwise keycode) := by
  have hlt := encoderOffset_lt hin clockwise
  have hmacro := macroAddr_eq cfg
  refine ⟨fun l r c hkey => ?_, fun l e d henc => ?_, fun i hi => ?_⟩
  · rw [Store.setEncoder, ← h.keycode l r c hkey]
    exact keycode_of_same (fun a _ => updateWord_outside _ _ (by omega)) hkey
  · rw [Store.setEncoder]
    dsimp only
    split
    · rename_i hsame
      obtain ⟨rfl, rfl, rfl⟩ := hsame
      exact readWord_updateWord _ _ _
    · rename_i hother
      rw [← h.encoder l e d henc]
      have hapart := (encoderOffset_apart henc hin d clockwise).resolve_left hother
      exact readWord_congr fun a _ _ => updateWord_outside _ _ (by omega)
  · rw [Store.setEncoder, ← h.macroByte i hi]
    exact updateWord_outside _ _ (by omega)

theorem step_holds {eeprom : Eeprom} {store : Store} (h : Holds cfg eeprom store) (op : Op) :
    Holds cfg (step cfg eeprom op) (Store.step cfg store op) := by
  have haddr := encoderAddr_eq cfg
  have hmacro := macroAddr_eq cfg
  cases op with
  | setKeycode layer row column keycode =>
      rw [step, Store.step, nvmDynamicKeymapUpdateKeycode, keyToEepromAddress_eq]
      split
      · rename_i hin
        exact setKeycode_holds h keycode hin
      · exact h
  | setEncoder layer encoderId clockwise keycode =>
      rw [step, Store.step, nvmDynamicKeymapUpdateEncoder, encoderToEepromAddress_eq]
      split
      · rename_i hin
        exact setEncoder_holds h clockwise keycode hin
      · exact h
  | setBuffer offset size data =>
      rw [step, Store.step, nvmDynamicKeymapUpdateBuffer]
      have houtside (a : Nat) (ha : cfg.encoderAddr ≤ a) :=
        updateBuffer_outside cfg.eepromAddr cfg.keymapSize offset.toNat data eeprom size.toNat
          (.inr (haddr ▸ ha))
      refine ⟨fun l r c hkey => ?_, fun l e d henc => ?_, fun i hi => ?_⟩
      · have hlt := keyOffset_lt hkey
        have hold := h.keycode l r c hkey
        rw [readWord] at hold ⊢
        rw [updateBuffer_inside _ _ _ _ _ (by omega), Nat.add_assoc,
          updateBuffer_inside _ _ _ _ _ hlt]
        simp only [patchWord, ← hold, high_word, low_word, Nat.add_assoc]
      · rw [← h.encoder l e d henc]
        exact encoder_of_same (fun a ha _ => houtside a ha) henc d
      · rw [← h.macroByte i hi]
        exact houtside _ (by omega)
  | macroSetBuffer offset size data =>
      rw [step, Store.step, nvmDynamicKeymapMacroUpdateBuffer]
      have houtside (a : Nat) (ha : a < cfg.macroAddr) :=
        updateBuffer_outside cfg.macroAddr cfg.macroSize offset.toNat data eeprom size.toNat
          (.inl ha)
      refine ⟨fun l r c hkey => ?_, fun l e d henc => ?_, fun i hi => ?_⟩
      · rw [← h.keycode l r c hkey]
        exact keycode_of_same (fun a ha => houtside a (by omega)) hkey
      · rw [← h.encoder l e d henc]
        exact encoder_of_same (fun a _ ha => houtside a ha) henc d
      · rw [updateBuffer_inside _ _ _ _ _ hi, h.macroByte i hi]

theorem step_outside (eeprom : Eeprom) (op : Op) {a : Nat}
    (ha : a < cfg.eepromAddr ∨ cfg.maxAddr < a) : step cfg eeprom op a = eeprom a := by
  have haddr := encoderAddr_eq cfg
  have hmacro := macroAddr_eq cfg
  have hroom := cfg.room
  have hsize : cfg.macroAddr + cfg.macroSize = cfg.maxAddr + 1 := by
    rw [Config.macroSize, Config.macroAddr, Config.encoderAddr, Config.keymapSize]
    omega
  cases op with
  | setKeycode layer row column keycode =>
      rw [step, nvmDynamicKeymapUpdateKeycode, keyToEepromAddress_eq]
      split
      · rename_i hin
        have hlt := keyOffset_lt hin
        exact updateWord_outside _ _ (by omega)
      · rfl
  | setEncoder layer encoderId clockwise keycode =>
      rw [step, nvmDynamicKeymapUpdateEncoder, encoderToEepromAddress_eq]
      split
      · rename_i hin
        have hlt := encoderOffset_lt hin clockwise
        exact updateWord_outside _ _ (by omega)
      · rfl
  | setBuffer offset size data => exact updateBuffer_outside _ _ _ _ _ _ (by omega)
  | macroSetBuffer offset size data => exact updateBuffer_outside _ _ _ _ _ _ (by omega)

/-! ## Reading -/

theorem Holds.readKeycode {eeprom : Eeprom} {store : Store} (h : Holds cfg eeprom store)
    (layer row column : Nat) :
    nvmDynamicKeymapReadKeycode cfg layer row column eeprom =
      store.getKeycode cfg layer row column := by
  rw [nvmDynamicKeymapReadKeycode, Store.getKeycode, keyToEepromAddress_eq]
  split
  · rename_i hin
    exact h.keycode layer row column hin
  · rfl

theorem Holds.readEncoder {eeprom : Eeprom} {store : Store} (h : Holds cfg eeprom store)
    (layer encoderId : Nat) (clockwise : Bool) :
    nvmDynamicKeymapReadEncoder cfg layer encoderId clockwise eeprom =
      store.getEncoder cfg layer encoderId clockwise := by
  rw [nvmDynamicKeymapReadEncoder, Store.getEncoder, encoderToEepromAddress_eq]
  split
  · rename_i hin
    exact h.encoder layer encoderId clockwise hin
  · rfl

theorem key_inKeymap {key : Nat} (h : key < cfg.layerCount * cfg.matrixRows * cfg.matrixCols) :
    InKeymap cfg (key / cfg.matrixCols / cfg.matrixRows) (key / cfg.matrixCols % cfg.matrixRows)
      (key % cfg.matrixCols) := by
  have hcols : 0 < cfg.matrixCols := by
    refine Nat.pos_of_ne_zero fun hzero => ?_
    rw [hzero, Nat.mul_zero] at h
    contradiction
  have hrow : key / cfg.matrixCols < cfg.layerCount * cfg.matrixRows :=
    (Nat.div_lt_iff_lt_mul hcols).mpr h
  have hrows : 0 < cfg.matrixRows := by
    refine Nat.pos_of_ne_zero fun hzero => ?_
    rw [hzero, Nat.mul_zero] at hrow
    contradiction
  exact ⟨(Nat.div_lt_iff_lt_mul hrows).mpr hrow, Nat.mod_lt _ hrows, Nat.mod_lt _ hcols⟩

theorem keyOffset_key (key : Nat) :
    keyOffset cfg (key / cfg.matrixCols / cfg.matrixRows)
      (key / cfg.matrixCols % cfg.matrixRows) (key % cfg.matrixCols) = 2 * key := by
  rw [keyOffset_eq, Nat.mul_comm (key / cfg.matrixCols / cfg.matrixRows), Nat.div_add_mod,
    Nat.mul_comm (key / cfg.matrixCols), Nat.div_add_mod]

theorem Holds.keymapByte {eeprom : Eeprom} {store : Store} (h : Holds cfg eeprom store)
    {i : Nat} (hi : i < cfg.keymapSize) :
    eeprom (cfg.eepromAddr + i) = store.keymapByte cfg i := by
  have hkey : i / 2 < cfg.layerCount * cfg.matrixRows * cfg.matrixCols := by
    rw [Config.keymapSize] at hi
    omega
  have hword := h.keycode _ _ _ (key_inKeymap hkey)
  rw [keyOffset_key] at hword
  simp only [Store.keymapByte, ← hword, readWord, high_word, low_word]
  split
  · have heven : 2 * (i / 2) = i := by omega
    rw [heven]
  · have hodd : 2 * (i / 2) + 1 = i := by omega
    rw [Nat.add_assoc, hodd]

theorem Holds.readBuffer {eeprom : Eeprom} {store : Store} (h : Holds cfg eeprom store)
    (offset size : BitVec 16) :
    nvmDynamicKeymapReadBuffer cfg offset size eeprom = store.getBuffer cfg offset size := by
  rw [nvmDynamicKeymapReadBuffer, DynamicKeymap.readBuffer, Store.getBuffer]
  refine List.map_congr_left fun i _ => ?_
  split
  · rename_i hlt
    rw [Nat.add_assoc]
    exact h.keymapByte hlt
  · rfl

theorem Holds.macroReadBuffer {eeprom : Eeprom} {store : Store} (h : Holds cfg eeprom store)
    (offset size : BitVec 16) :
    nvmDynamicKeymapMacroReadBuffer cfg offset size eeprom =
      store.macroGetBuffer cfg offset size := by
  rw [nvmDynamicKeymapMacroReadBuffer, DynamicKeymap.readBuffer, Store.macroGetBuffer]
  refine List.map_congr_left fun i _ => ?_
  split
  · rename_i hlt
    rw [Nat.add_assoc]
    exact h.macroByte _ hlt
  · rfl

/-- After any operations the accessors read what the tables say, and the EEPROM around the
three regions is as it was. -/
theorem dynamicKeymap_faithful (cfg : Config) (eeprom : Eeprom) (ops : List Op) :
    let final := run (step cfg) eeprom ops
    let store := run (Store.step cfg) (Store.view cfg eeprom) ops
    (∀ layer row column, nvmDynamicKeymapReadKeycode cfg layer row column final =
        store.getKeycode cfg layer row column) ∧
      (∀ layer encoderId clockwise,
        nvmDynamicKeymapReadEncoder cfg layer encoderId clockwise final =
          store.getEncoder cfg layer encoderId clockwise) ∧
      (∀ offset size, nvmDynamicKeymapReadBuffer cfg offset size final =
        store.getBuffer cfg offset size) ∧
      (∀ offset size, nvmDynamicKeymapMacroReadBuffer cfg offset size final =
        store.macroGetBuffer cfg offset size) ∧
      ∀ a, a < cfg.eepromAddr ∨ cfg.maxAddr < a → final a = eeprom a := by
  intro final store
  let Follows (eeprom' : Eeprom) (store' : Store) : Prop :=
    Holds cfg eeprom' store' ∧ ∀ a, a < cfg.eepromAddr ∨ cfg.maxAddr < a → eeprom' a = eeprom a
  have hstep (eeprom' : Eeprom) (store' : Store) (op : Op) (h : Follows eeprom' store')
      (_ : True) : Follows (step cfg eeprom' op) (Store.step cfg store' op) :=
    ⟨step_holds h.1 op, fun a ha => (step_outside eeprom' op ha).trans (h.2 a ha)⟩
  have hstart : Follows eeprom (.view cfg eeprom) := ⟨.view cfg eeprom, fun _ _ => rfl⟩
  obtain ⟨hholds, houtside⟩ : Follows final store :=
    run_simulates Follows hstep (fun _ _ => trivial) hstart
  exact ⟨hholds.readKeycode, hholds.readEncoder, hholds.readBuffer, hholds.macroReadBuffer,
    houtside⟩

end Qmk.DynamicKeymap
