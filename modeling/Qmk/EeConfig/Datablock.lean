import Mathlib.Algebra.Group.Nat.Defs
import Mathlib.Tactic.SplitIfs
import Qmk.Lib.LittleEndian
import Qmk.Lib.Run

/-!
# Data blocks in the EEPROM

The keyboard and user data blocks of `nvm_eeconfig.c`, each with the version word that makes it
valid.  Offsets and lengths are 32 bits wide, pointers have the width of the platform, and the
difference of two pointers is signed.
-/

namespace Qmk.EeConfig

open Qmk.Lib

abbrev Byte := BitVec 8

/-- An access to `length` bytes of the EEPROM. -/
inductive Access where
  | read (address length : Nat)
  | write (address length : Nat)
  deriving DecidableEq

def Access.address : Access → Nat
  | .read address _ | .write address _ => address

def Access.length : Access → Nat
  | .read _ length | .write _ length => length

structure State where
  eeprom : Nat → Byte
  accesses : List Access

/-- A block, where it lies, and its version word. -/
structure Datablock where
  pointerBits : Nat
  versionAddress : Nat
  address : Nat
  size : Nat
  version : BitVec 32
  /-- The counter of the loop over the block is an `int`. -/
  counter_fits : size + 16 ≤ 2 ^ (min pointerBits 32 - 1)
  version_before : versionAddress + 4 ≤ address
  addressable : address + size < 2 ^ pointerBits

section Blocks

/-- `offsetof(eeprom_core_t, keyboard)`. -/
def eeconfigKeyboard : Nat := 15

/-- `offsetof(eeprom_core_t, user)`. -/
def eeconfigUser : Nat := 19

/-- `sizeof(eeprom_core_t)`. -/
def eeconfigBaseSize : Nat := 37

structure Config where
  pointerBits : Nat
  kbDataSize : Nat
  kbDataVersion : BitVec 32
  userDataSize : Nat
  userDataVersion : BitVec 32
  kbDataSize_fits : kbDataSize + 16 ≤ 2 ^ (min pointerBits 32 - 1)
  userDataSize_fits : userDataSize + 16 ≤ 2 ^ (min pointerBits 32 - 1)
  addressable : eeconfigBaseSize + kbDataSize + userDataSize < 2 ^ pointerBits

variable (c : Config)

/-- `EECONFIG_KB_DATABLOCK`. -/
def kbDatablock : Datablock where
  pointerBits := c.pointerBits
  versionAddress := eeconfigKeyboard
  address := eeconfigBaseSize
  size := c.kbDataSize
  version := c.kbDataVersion
  counter_fits := c.kbDataSize_fits
  version_before := Nat.le_add_left 19 18
  addressable := Nat.lt_of_le_of_lt (Nat.le_add_right _ _) c.addressable

/-- `EECONFIG_USER_DATABLOCK`. -/
def userDatablock : Datablock where
  pointerBits := c.pointerBits
  versionAddress := eeconfigUser
  address := eeconfigBaseSize + c.kbDataSize
  size := c.userDataSize
  version := c.userDataVersion
  counter_fits := c.userDataSize_fits
  version_before := Nat.le_trans (Nat.le_add_left 23 14) (Nat.le_add_right _ _)
  addressable := c.addressable

/-- The block that a function is about. -/
inductive Block where
  | kb
  | user

def Config.datablock : Block → Datablock
  | .kb => kbDatablock c
  | .user => userDatablock c

end Blocks

section Functions

variable (b : Datablock)

/-! ## The EEPROM driver -/

def Datablock.pointers : Nat := 2 ^ b.pointerBits

/-- Byte `i` of the `length` bytes at a pointer. -/
def Datablock.cell (address i : Nat) : Nat := (address + i) % b.pointers

def State.access (s : State) (access : Access) : State :=
  { s with accesses := s.accesses ++ [access] }

def eepromReadBlock (address length : Nat) (s : State) : (Nat → Byte) × State :=
  (fun i => s.eeprom (b.cell address i), s.access (.read address length))

def eepromWriteBlock (data : Nat → Byte) (address length : Nat) (s : State) : State :=
  { eeprom := fun a =>
      if a < b.pointers ∧ (a + b.pointers - address) % b.pointers < length then
        data ((a + b.pointers - address) % b.pointers)
      else s.eeprom a
    accesses := s.accesses ++ [.write address length] }

def eepromUpdateBlock (data : Nat → Byte) (address length : Nat) (s : State) : State :=
  if ∀ i < length, (eepromReadBlock b address length s).1 i = data i then
    (eepromReadBlock b address length s).2
  else eepromWriteBlock b data address length (eepromReadBlock b address length s).2

def dwordBytes (value : BitVec 32) (i : Nat) : Byte := (leBytes 4 value.toNat).getD i 0

def eepromReadDword (address : Nat) (s : State) : BitVec 32 × State :=
  let (bytes, s) := eepromReadBlock b address 4 s
  (BitVec.ofNat 32 (leValue ((List.range 4).map bytes)), s)

def eepromUpdateDword (address : Nat) (value : BitVec 32) (s : State) : State :=
  if (eepromReadDword b address s).1 ≠ value then
    eepromWriteBlock b (dwordBytes value) address 4 (eepromReadDword b address s).2
  else (eepromReadDword b address s).2

/-! ## The functions of a block -/

def isDatablockValid (s : State) : Bool × State :=
  let (version, s) := eepromReadDword b b.versionAddress s
  (version = b.version, s)

def eeStart (offset : BitVec 32) : Nat := b.cell b.address offset.toNat

def eeEnd (offset length : BitVec 32) : Nat :=
  b.cell b.address (min b.size (offset + length).toNat)

/-- `ee_end - ee_start`, a `ptrdiff_t`. -/
def eeSpan (offset length : BitVec 32) : Int :=
  Int.bmod ((eeEnd b offset length : Int) - eeStart b offset) b.pointers

/-- The difference as a `size_t`. -/
def eeLength (offset length : BitVec 32) : Nat :=
  (eeSpan b offset length % b.pointers).toNat

/-- The caller's buffer after `length` bytes of it are filled. -/
def fill (data bytes : Nat → Byte) (length i : Nat) : Byte :=
  if i < length then bytes i else data i

/-- The buffer, the result and the state. -/
def readDatablock (data : Nat → Byte) (offset length : BitVec 32) (s : State) :
    (Nat → Byte) × BitVec 32 × State :=
  let (valid, s) := isDatablockValid b s
  if valid then
    let (bytes, s) := eepromReadBlock b (eeStart b offset) (eeLength b offset length) s
    (fill data bytes (eeLength b offset length), BitVec.ofInt 32 (eeSpan b offset length), s)
  else (fill data (fun _ => 0) length.toNat, length, s)

def updateDatablock (data : Nat → Byte) (offset length : BitVec 32) (s : State) :
    BitVec 32 × State :=
  let s := eepromUpdateDword b b.versionAddress b.version s
  (BitVec.ofInt 32 (eeSpan b offset length),
    eepromUpdateBlock b data (eeStart b offset) (eeLength b offset length) s)

/-- The loop that writes zeros, sixteen at a time; its fuel is at least the passes left. -/
def initLoop : Nat → Nat → Nat → Nat → State → State
  | 0, _, _, _, s => s
  | fuel + 1, i, start, remaining, s =>
      if i < b.size then
        let thisLoop := if remaining < 16 then remaining else 16
        initLoop fuel (i + 16) (start + thisLoop) (remaining - thisLoop)
          (eepromUpdateBlock b (fun _ => 0) start thisLoop s)
      else s

def initDatablock (s : State) : State :=
  initLoop b b.size 0 b.address b.size (eepromUpdateDword b b.versionAddress b.version s)

end Functions

/-! ## The keyboard and the user block -/

section Functions

variable (c : Config)

def nvmEeconfigIsKbDatablockValid := isDatablockValid (c.datablock .kb)

def nvmEeconfigReadKbDatablock := readDatablock (c.datablock .kb)

def nvmEeconfigUpdateKbDatablock := updateDatablock (c.datablock .kb)

def nvmEeconfigInitKbDatablock := initDatablock (c.datablock .kb)

def nvmEeconfigIsUserDatablockValid := isDatablockValid (c.datablock .user)

def nvmEeconfigReadUserDatablock := readDatablock (c.datablock .user)

def nvmEeconfigUpdateUserDatablock := updateDatablock (c.datablock .user)

def nvmEeconfigInitUserDatablock := initDatablock (c.datablock .user)

end Functions

inductive Operation where
  | init
  | isValid
  | read (data : Nat → Byte) (offset length : BitVec 32)
  | update (data : Nat → Byte) (offset length : BitVec 32)

def perform (b : Datablock) (s : State) : Operation → State
  | .init => initDatablock b s
  | .isValid => (isDatablockValid b s).2
  | .read data offset length => (readDatablock b data offset length s).2.2
  | .update data offset length => (updateDatablock b data offset length s).2

/-! ## What a block is for -/

/-- The bytes that were written since the block became valid, over zeros. -/
abbrev Store := Option (Nat → Byte)

def Store.bytes (store : Store) : Nat → Byte := store.getD fun _ => 0

def written (store : Store) : Operation → Store
  | .init => some fun _ => 0
  | .update data offset length =>
      some fun i =>
        if offset.toNat ≤ i ∧ i < offset.toNat + length.toNat then data (i - offset.toNat)
        else store.bytes i
  | .isValid | .read _ _ _ => store

section Spec

variable (b : Datablock)

/-- The bytes of the block that an offset and a length ask for. -/
def count (offset length : BitVec 32) : Nat :=
  min b.size (offset.toNat + length.toNat) - offset.toNat

/-- The access is to bytes of the block or to its version word. -/
def Covers (access : Access) : Prop :=
  (b.address ≤ access.address ∧ access.address + access.length ≤ b.address + b.size) ∨
    (access.address = b.versionAddress ∧ access.length = 4)

/-- The address is one of the block or of its version word. -/
def Owns (a : Nat) : Prop :=
  (b.address ≤ a ∧ a < b.address + b.size) ∨
    (b.versionAddress ≤ a ∧ a < b.versionAddress + 4)

/-- Only the block and its version word are read and written. -/
structure Keeps (s s' : State) : Prop where
  accesses : ∃ accesses, s'.accesses = s.accesses ++ accesses ∧ ∀ access ∈ accesses, Covers b access
  others : ∀ a, ¬ Owns b a → s'.eeprom a = s.eeprom a

structure Holds (store : Store) (s : State) : Prop where
  valid : (isDatablockValid b s).1 = store.isSome
  bytes : ∀ contents, store = some contents → ∀ i < b.size, s.eeprom (b.address + i) = contents i

/-- What the call gives its caller. -/
def Serves (store : Store) (s : State) : Operation → Prop
  | .init => True
  | .isValid => (isDatablockValid b s).1 = store.isSome
  | .read data offset length =>
      match store with
      | none =>
          (readDatablock b data offset length s).1 = fill data (fun _ => 0) length.toNat ∧
            (readDatablock b data offset length s).2.1 = length
      | some contents =>
          (readDatablock b data offset length s).1 =
              fill data (fun i => contents (offset.toNat + i)) (count b offset length) ∧
            (readDatablock b data offset length s).2.1.toNat = count b offset length
  | .update data offset length =>
      (updateDatablock b data offset length s).1.toNat = count b offset length

/-- Every call of the run keeps to the block, gives what was written, and writes what it is given. -/
def Framed : Store → State → List Operation → Prop
  | store, s, [] => Holds b store s
  | store, s, operation :: operations =>
      Holds b store s ∧ Keeps b s (perform b s operation) ∧ Serves b store s operation ∧
        Framed (written store operation) (perform b s operation) operations

/-- What was written before the run, if the block is valid. -/
def stored (s : State) : Store :=
  if (isDatablockValid b s).1 then some fun i => s.eeprom (b.address + i) else none

/-- The offset is not behind the block, and the sum does not wrap. -/
def InBlock (offset length : BitVec 32) : Prop :=
  offset.toNat ≤ b.size ∧ offset.toNat + length.toNat < 2 ^ 32

/-- The bytes that an update leaves alone are zeros. -/
def RestZero (offset length : BitVec 32) (s : State) : Prop :=
  ∀ i < b.size, i < offset.toNat ∨ offset.toNat + length.toNat ≤ i → s.eeprom (b.address + i) = 0

def Sound (s : State) : Operation → Prop
  | .init | .isValid => True
  | .read _ offset length => (isDatablockValid b s).1 = true → InBlock b offset length
  | .update _ offset length =>
      InBlock b offset length ∧
        ((isDatablockValid b s).1 = true ∨ RestZero b offset length s)

end Spec

/-! ## Pointers -/

section Pointers

variable {b : Datablock} {offset length : BitVec 32} {address : Nat} {data : Nat → Byte} {s : State}

theorem Datablock.size_lt : 2 * b.size < b.pointers ∧ b.size < 2 ^ 31 := by
  have hcounter := b.counter_fits
  have hbits : min b.pointerBits 32 - 1 ≤ 31 := by omega
  have hpow : 2 ^ (min b.pointerBits 32 - 1) ≤ 2 ^ 31 := Nat.pow_le_pow_right (by decide) hbits
  refine ⟨?_, by omega⟩
  rcases Nat.eq_zero_or_pos b.pointerBits with hzero | hpos
  · rw [hzero] at hcounter
    exact absurd hcounter (by simp)
  · have hhalf : 2 ^ (min b.pointerBits 32 - 1) ≤ 2 ^ (b.pointerBits - 1) :=
      Nat.pow_le_pow_right (by decide) (by omega)
    have hdouble : b.pointers = 2 * 2 ^ (b.pointerBits - 1) := by
      rw [Datablock.pointers, ← Nat.pow_succ', Nat.succ_eq_add_one, Nat.sub_add_cancel hpos]
    omega

theorem InBlock.add_toNat (h : InBlock b offset length) :
    (offset + length).toNat = offset.toNat + length.toNat := by
  rw [BitVec.toNat_add]
  exact Nat.mod_eq_of_lt h.2

theorem InBlock.eeStart_eq (h : InBlock b offset length) :
    eeStart b offset = b.address + offset.toNat := by
  have hfits : b.address + b.size < b.pointers := b.addressable
  exact Nat.mod_eq_of_lt (Nat.lt_of_le_of_lt (Nat.add_le_add_left h.1 _) hfits)

theorem InBlock.eeEnd_eq (h : InBlock b offset length) :
    eeEnd b offset length = b.address + min b.size (offset.toNat + length.toNat) := by
  have hfits : b.address + b.size < b.pointers := b.addressable
  rw [eeEnd, h.add_toNat]
  exact Nat.mod_eq_of_lt
    (Nat.lt_of_le_of_lt (Nat.add_le_add_left (Nat.min_le_left _ _) _) hfits)

theorem count_le (h : InBlock b offset length) :
    offset.toNat + count b offset length ≤ b.size := by
  have hoffset := h.1
  rw [count]
  omega

theorem InBlock.eeSpan_eq (h : InBlock b offset length) :
    eeSpan b offset length = count b offset length := by
  have hsize := b.size_lt.1
  have hcount := count_le h
  have hoffset := h.1
  have hdiff : ((eeEnd b offset length : Int) - eeStart b offset) = count b offset length := by
    rw [h.eeEnd_eq, h.eeStart_eq, count]
    omega
  rw [eeSpan, hdiff]
  exact Int.bmod_eq_of_le (by omega) (by omega)

theorem InBlock.eeLength_eq (h : InBlock b offset length) :
    eeLength b offset length = count b offset length := by
  have hsize := b.size_lt.1
  have hcount := count_le h
  rw [eeLength, h.eeSpan_eq, ← Int.natCast_emod, Int.toNat_natCast]
  exact Nat.mod_eq_of_lt (by omega)

theorem InBlock.result_eq (h : InBlock b offset length) :
    (BitVec.ofInt 32 (eeSpan b offset length)).toNat = count b offset length := by
  have hsize := b.size_lt.2
  have hcount := count_le h
  rw [h.eeSpan_eq, BitVec.ofInt_natCast, BitVec.toNat_ofNat]
  exact Nat.mod_eq_of_lt (by omega)

/-! ## Accesses that do not wrap -/

theorem eepromReadBlock_apply {count i : Nat} (h : address + count ≤ b.pointers) (hi : i < count) :
    (eepromReadBlock b address count s).1 i = s.eeprom (address + i) :=
  congrArg s.eeprom (Nat.mod_eq_of_lt (by omega))

theorem eepromWriteBlock_apply {count : Nat} (h : address + count ≤ b.pointers) (a : Nat) :
    (eepromWriteBlock b data address count s).eeprom a =
      if address ≤ a ∧ a < address + count then data (a - address) else s.eeprom a := by
  have hwrap : a < b.pointers → a < address →
      (a + b.pointers - address) % b.pointers = a + b.pointers - address :=
    fun _ _ => Nat.mod_eq_of_lt (by omega)
  have hplain : a < b.pointers → address ≤ a →
      (a + b.pointers - address) % b.pointers = a - address := by
    intro _ _
    have hshift : a + b.pointers - address = a - address + b.pointers := by omega
    rw [hshift, Nat.add_mod_right]
    exact Nat.mod_eq_of_lt (by omega)
  simp only [eepromWriteBlock]
  by_cases hin : address ≤ a ∧ a < address + count
  · have hlt : a < b.pointers := by omega
    rw [if_pos hin, hplain hlt hin.1, if_pos ⟨hlt, by omega⟩]
  · rw [if_neg hin, if_neg]
    rintro ⟨hlt, hoffset⟩
    rcases Nat.lt_or_ge a address with hbefore | hafter
    · rw [hwrap hlt hbefore] at hoffset
      omega
    · rw [hplain hlt hafter] at hoffset
      omega

/-- All accesses of the step are to these bytes. -/
def AccessesAt (address length : Nat) (s s' : State) : Prop :=
  ∃ accesses, s'.accesses = s.accesses ++ accesses ∧
    ∀ access ∈ accesses, access.address = address ∧ access.length = length

theorem eepromUpdateBlock_apply {count : Nat} (h : address + count ≤ b.pointers) (a : Nat) :
    (eepromUpdateBlock b data address count s).eeprom a =
      if address ≤ a ∧ a < address + count then data (a - address) else s.eeprom a := by
  unfold eepromUpdateBlock
  split_ifs with hsame hin
  · have hbyte := hsame (a - address) (by omega)
    rw [eepromReadBlock_apply h (by omega)] at hbyte
    rw [← hbyte]
    exact congrArg s.eeprom (by omega)
  · rfl
  · rw [eepromWriteBlock_apply h, if_pos ‹_›]
  · rw [eepromWriteBlock_apply h, if_neg ‹_›]
    rfl

theorem eepromUpdateBlock_accesses (data : Nat → Byte) (address count : Nat) (s : State) :
    AccessesAt address count s (eepromUpdateBlock b data address count s) := by
  unfold eepromUpdateBlock
  split_ifs
  · exact ⟨[.read address count], rfl, by simp [Access.address, Access.length]⟩
  · refine ⟨[.read address count, .write address count], ?_, by simp [Access.address, Access.length]⟩
    simp [eepromWriteBlock, eepromReadBlock, State.access]

theorem AccessesAt.trans {address' count count' : Nat} {s' s'' : State} {P : Access → Prop}
    (h : AccessesAt address count s s') (h' : AccessesAt address' count' s' s'')
    (hfirst : ∀ access : Access, access.address = address → access.length = count → P access)
    (hsecond : ∀ access : Access, access.address = address' → access.length = count' → P access) :
    ∃ accesses, s''.accesses = s.accesses ++ accesses ∧ ∀ access ∈ accesses, P access := by
  obtain ⟨first, heq, hall⟩ := h
  obtain ⟨second, heq', hall'⟩ := h'
  refine ⟨first ++ second, by rw [heq', heq, List.append_assoc], fun access haccess => ?_⟩
  rcases List.mem_append.mp haccess with haccess | haccess
  · exact hfirst access (hall access haccess).1 (hall access haccess).2
  · exact hsecond access (hall' access haccess).1 (hall' access haccess).2

/-! ## The version word -/

theorem isDatablockValid_congr {s' : State}
    (h : ∀ i < 4, s'.eeprom (b.versionAddress + i) = s.eeprom (b.versionAddress + i)) :
    (isDatablockValid b s').1 = (isDatablockValid b s).1 := by
  have hfits : b.address + b.size < b.pointers := b.addressable
  have hbefore := b.version_before
  have hbytes : (List.range 4).map (eepromReadBlock b b.versionAddress 4 s').1 =
      (List.range 4).map (eepromReadBlock b b.versionAddress 4 s).1 := by
    refine List.map_congr_left fun i hi => ?_
    have hlt := List.mem_range.mp hi
    rw [eepromReadBlock_apply (by omega) hlt, eepromReadBlock_apply (by omega) hlt]
    exact h i hlt
  exact decide_eq_decide.mpr (iff_of_eq (congrArg
    (fun bytes => BitVec.ofNat 32 (leValue bytes) = b.version) hbytes))

theorem isDatablockValid_accesses (b : Datablock) (s : State) :
    AccessesAt b.versionAddress 4 s (isDatablockValid b s).2 :=
  ⟨[.read b.versionAddress 4], rfl, by simp [Access.address, Access.length]⟩

/-- `eeprom_update_dword` of the version. -/
def updateVersion (b : Datablock) (s : State) : State :=
  eepromUpdateDword b b.versionAddress b.version s

theorem updateVersion_others (s : State) {a : Nat}
    (h : a < b.versionAddress ∨ b.versionAddress + 4 ≤ a) :
    (updateVersion b s).eeprom a = s.eeprom a := by
  have hfits : b.address + b.size < b.pointers := b.addressable
  have hbefore := b.version_before
  unfold updateVersion eepromUpdateDword
  split_ifs
  · rw [eepromWriteBlock_apply (by omega), if_neg (by omega)]
    rfl
  · rfl

theorem updateVersion_valid (b : Datablock) (s : State) :
    (isDatablockValid b (updateVersion b s)).1 = true := by
  have hfits : b.address + b.size < b.pointers := b.addressable
  have hbefore := b.version_before
  unfold updateVersion eepromUpdateDword
  split_ifs with hsame
  · have hbytes : (List.range 4).map (eepromReadBlock b b.versionAddress 4 (eepromWriteBlock b
        (dwordBytes b.version) b.versionAddress 4 (eepromReadDword b b.versionAddress s).2)).1 =
        leBytes 4 b.version.toNat := by
      refine List.ext_getElem (by simp) fun i hi hi' => ?_
      have hlt : i < 4 := by simpa using hi
      rw [List.getElem_map, List.getElem_range, eepromReadBlock_apply (by omega) hlt,
        eepromWriteBlock_apply (by omega), if_pos (by omega), dwordBytes, Nat.add_sub_cancel_left]
      rw [List.getD_eq_getElem?_getD, List.getElem?_eq_getElem hi', Option.getD_some]
    have hlt : b.version.toNat < 256 ^ 4 := b.version.isLt
    have hversion : BitVec.ofNat 32 (leValue (leBytes 4 b.version.toNat)) = b.version := by
      rw [leValue_leBytes, Nat.mod_eq_of_lt hlt, BitVec.ofNat_toNat, BitVec.setWidth_eq]
    exact decide_eq_true ((congrArg (fun bytes => BitVec.ofNat 32 (leValue bytes)) hbytes).trans
      hversion)
  · exact decide_eq_true (not_not.mp hsame)

theorem updateVersion_accesses (b : Datablock) (s : State) :
    AccessesAt b.versionAddress 4 s (updateVersion b s) := by
  unfold updateVersion eepromUpdateDword
  split_ifs
  · refine ⟨[.read b.versionAddress 4, .write b.versionAddress 4], ?_,
      by simp [Access.address, Access.length]⟩
    simp [eepromWriteBlock, eepromReadDword, eepromReadBlock, State.access]
  · exact ⟨[.read b.versionAddress 4], rfl, by simp [Access.address, Access.length]⟩

end Pointers

/-! ## The loop over the block -/

section Init

variable {b : Datablock}

theorem initLoop_done {i : Nat} (h : b.size ≤ i) (fuel start remaining : Nat) (s : State) :
    initLoop b fuel i start remaining s = s := by
  cases fuel with
  | zero => rfl
  | succ fuel => rw [initLoop, if_neg (Nat.not_lt.mpr h)]

/-- The bytes from `i` on are zeros, and all accesses are to them. -/
structure Cleared (b : Datablock) (i : Nat) (s s' : State) : Prop where
  eeprom : ∀ a, s'.eeprom a =
    if b.address + i ≤ a ∧ a < b.address + b.size then 0 else s.eeprom a
  accesses : ∃ accesses, s'.accesses = s.accesses ++ accesses ∧
    ∀ access ∈ accesses, b.address ≤ access.address ∧
      access.address + access.length ≤ b.address + b.size

theorem Cleared.of_done {i : Nat} (h : b.size ≤ i) (s : State) : Cleared b i s s := by
  refine ⟨fun a => ?_, [], (List.append_nil _).symm, by simp⟩
  rw [if_neg (by omega)]

theorem initLoop_cleared (fuel : Nat) {i : Nat} (h : b.size ≤ i + fuel) (s : State) :
    Cleared b i s (initLoop b fuel i (b.address + i) (b.size - i) s) := by
  induction fuel generalizing i s with
  | zero => exact .of_done h s
  | succ fuel ih =>
      have hfits : b.address + b.size < b.pointers := b.addressable
      rw [initLoop]
      by_cases hmore : i < b.size
      · rw [if_pos hmore]
        dsimp only
        obtain ⟨pass, hpass, hle, hnext⟩ : ∃ pass,
            (if b.size - i < 16 then b.size - i else 16) = pass ∧ i + pass ≤ b.size ∧
              ∀ t, Cleared b (i + pass) t
                (initLoop b fuel (i + 16) (b.address + i + pass) (b.size - i - pass) t) := by
          split_ifs
          · refine ⟨_, rfl, by omega, fun t => ?_⟩
            rw [initLoop_done (by omega)]
            exact .of_done (by omega) t
          · refine ⟨_, rfl, by omega, fun t => ?_⟩
            have hrest := @ih (i + 16) (by omega) t
            rwa [← Nat.add_assoc, ← Nat.sub_sub] at hrest
        rw [hpass]
        obtain ⟨heeprom, accesses, haccesses, hall⟩ :=
          hnext (eepromUpdateBlock b (fun _ => 0) (b.address + i) pass s)
        obtain ⟨first, hfirst, hall'⟩ :=
          eepromUpdateBlock_accesses (b := b) (fun _ => 0) (b.address + i) pass s
        refine ⟨fun a => ?_, first ++ accesses, ?_, fun access haccess => ?_⟩
        · rw [heeprom, eepromUpdateBlock_apply (by omega)]
          split_ifs <;> first | rfl | omega
        · rw [haccesses, hfirst, List.append_assoc]
        · rcases List.mem_append.mp haccess with haccess | haccess
          · have hrange := hall' access haccess
            omega
          · exact hall access haccess
      · rw [if_neg hmore]
        exact .of_done (Nat.not_lt.mp hmore) s

end Init

/-! ## Calls -/

section Calls

variable {b : Datablock} {store : Store} {s s' : State} {offset length : BitVec 32}
  {data : Nat → Byte}

theorem covers_version {access : Access} (haddress : access.address = b.versionAddress)
    (hlength : access.length = 4) : Covers b access :=
  .inr ⟨haddress, hlength⟩

theorem InBlock.covers (h : InBlock b offset length) {access : Access}
    (haddress : access.address = b.address + offset.toNat)
    (hlength : access.length = count b offset length) : Covers b access := by
  have hcount := count_le h
  exact .inl ⟨by omega, by omega⟩

theorem Holds.congr (h : Holds b store s) (heeprom : s'.eeprom = s.eeprom) : Holds b store s' :=
  ⟨(isDatablockValid_congr fun i _ => congrFun heeprom _).trans h.valid, fun contents hsome i hi => by
    rw [heeprom]
    exact h.bytes contents hsome i hi⟩

theorem Keeps.of_eeprom_eq (heeprom : s'.eeprom = s.eeprom)
    (haccesses : ∃ accesses, s'.accesses = s.accesses ++ accesses ∧
      ∀ access ∈ accesses, Covers b access) : Keeps b s s' :=
  ⟨haccesses, fun a _ => congrFun heeprom a⟩

theorem isValid_keeps (b : Datablock) (s : State) : Keeps b s (isDatablockValid b s).2 := by
  obtain ⟨accesses, heq, hall⟩ := isDatablockValid_accesses b s
  exact .of_eeprom_eq rfl
    ⟨accesses, heq, fun access haccess => .inr (hall access haccess)⟩

theorem readDatablock_eq (b : Datablock) (data : Nat → Byte) (offset length : BitVec 32)
    (s : State) :
    readDatablock b data offset length s =
      if (isDatablockValid b s).1 = true then
        (fill data (eepromReadBlock b (eeStart b offset) (eeLength b offset length)
            (isDatablockValid b s).2).1 (eeLength b offset length),
          BitVec.ofInt 32 (eeSpan b offset length),
          (eepromReadBlock b (eeStart b offset) (eeLength b offset length)
            (isDatablockValid b s).2).2)
      else (fill data (fun _ => 0) length.toNat, length, (isDatablockValid b s).2) := rfl

theorem readDatablock_eeprom (data : Nat → Byte) (offset length : BitVec 32) (s : State) :
    (readDatablock b data offset length s).2.2.eeprom = s.eeprom := by
  rw [readDatablock_eq]
  split_ifs
  · rfl
  · rfl

theorem readDatablock_keeps (h : (isDatablockValid b s).1 = true → InBlock b offset length) :
    Keeps b s (readDatablock b data offset length s).2.2 := by
  refine .of_eeprom_eq (readDatablock_eeprom _ _ _ _) ?_
  rw [readDatablock_eq]
  split_ifs with hvalid
  · have hin := h hvalid
    have hread : AccessesAt (b.address + offset.toNat) (count b offset length)
        (isDatablockValid b s).2 (eepromReadBlock b (eeStart b offset) (eeLength b offset length)
          (isDatablockValid b s).2).2 := by
      rw [hin.eeStart_eq, hin.eeLength_eq]
      exact ⟨[.read _ _], rfl, by simp [Access.address, Access.length]⟩
    exact (isDatablockValid_accesses b s).trans hread (fun _ => covers_version)
      fun _ => hin.covers
  · exact (isValid_keeps b s).accesses

theorem readDatablock_serves (hholds : Holds b store s)
    (h : (isDatablockValid b s).1 = true → InBlock b offset length) :
    Serves b store s (.read data offset length) := by
  have hvalid := hholds.valid
  cases store with
  | none =>
      have hinvalid : ¬ (isDatablockValid b s).1 = true := by
        rw [hvalid]
        decide
      have hread := readDatablock_eq b data offset length s
      rw [if_neg hinvalid] at hread
      exact ⟨congrArg Prod.fst hread, congrArg (fun result => result.2.1) hread⟩
  | some contents =>
      have hpresent : (isDatablockValid b s).1 = true := hvalid
      have hin := h hpresent
      have hcount := count_le hin
      have hfits : b.address + b.size < b.pointers := b.addressable
      have hread := readDatablock_eq b data offset length s
      rw [if_pos hpresent] at hread
      refine ⟨(congrArg Prod.fst hread).trans ?_,
        (congrArg (fun result => result.2.1.toNat) hread).trans hin.result_eq⟩
      funext i
      dsimp only
      rw [hin.eeLength_eq, hin.eeStart_eq, fill, fill]
      split_ifs with hi
      · rw [eepromReadBlock_apply (by omega) hi, Nat.add_assoc]
        exact hholds.bytes contents rfl (offset.toNat + i) (by omega)
      · rfl

theorem updateDatablock_state (hin : InBlock b offset length) :
    (updateDatablock b data offset length s).2 =
      eepromUpdateBlock b data (b.address + offset.toNat) (count b offset length)
        (updateVersion b s) := by
  rw [← hin.eeStart_eq, ← hin.eeLength_eq]
  rfl

theorem updateDatablock_apply (hin : InBlock b offset length) (a : Nat) :
    (updateDatablock b data offset length s).2.eeprom a =
      if b.address + offset.toNat ≤ a ∧ a < b.address + offset.toNat + count b offset length then
        data (a - (b.address + offset.toNat))
      else (updateVersion b s).eeprom a := by
  have hcount := count_le hin
  have hfits : b.address + b.size < b.pointers := b.addressable
  rw [updateDatablock_state hin]
  exact eepromUpdateBlock_apply (by omega) a

theorem updateDatablock_keeps (hin : InBlock b offset length) :
    Keeps b s (updateDatablock b data offset length s).2 := by
  have hcount := count_le hin
  refine ⟨?_, fun a howns => ?_⟩
  · rw [updateDatablock_state hin]
    exact (updateVersion_accesses b s).trans (eepromUpdateBlock_accesses _ _ _ _)
      (fun _ => covers_version) fun _ => hin.covers
  · unfold Owns at howns
    rw [updateDatablock_apply hin, if_neg (by omega)]
    exact updateVersion_others s (by omega)

theorem updateDatablock_valid (hin : InBlock b offset length) :
    (isDatablockValid b (updateDatablock b data offset length s).2).1 = true := by
  have hbefore := b.version_before
  rw [← updateVersion_valid b s]
  refine isDatablockValid_congr fun i hi => ?_
  rw [updateDatablock_apply hin, if_neg (by omega)]

theorem updateDatablock_holds (hholds : Holds b store s) (hin : InBlock b offset length)
    (hrest : (isDatablockValid b s).1 = true ∨ RestZero b offset length s) :
    Holds b (written store (.update data offset length))
      (updateDatablock b data offset length s).2 := by
  have hbefore := b.version_before
  have hoffset := hin.1
  refine ⟨updateDatablock_valid hin, fun contents hsome i hi => ?_⟩
  obtain rfl := Option.some.inj hsome
  dsimp only
  rw [updateDatablock_apply hin]
  by_cases hcovered : offset.toNat ≤ i ∧ i < offset.toNat + length.toNat
  · rw [if_pos hcovered, if_pos ⟨by omega, by rw [count]; omega⟩]
    exact congrArg data (by omega)
  · rw [if_neg hcovered, if_neg (by rw [count]; omega), updateVersion_others s (by omega)]
    cases store with
    | some contents => exact hholds.bytes contents rfl i hi
    | none =>
        rcases hrest with hvalid | hzero
        · exact absurd (hvalid.symm.trans hholds.valid) (by decide)
        · exact hzero i hi (by omega)

theorem initDatablock_cleared (b : Datablock) (s : State) :
    Cleared b 0 (updateVersion b s) (initDatablock b s) :=
  initLoop_cleared b.size (Nat.le_add_left _ _) (updateVersion b s)

theorem initDatablock_keeps (b : Datablock) (s : State) : Keeps b s (initDatablock b s) := by
  obtain ⟨heeprom, accesses, haccesses, hall⟩ := initDatablock_cleared b s
  obtain ⟨first, hfirst, hall'⟩ := updateVersion_accesses b s
  refine ⟨⟨first ++ accesses, by rw [haccesses, hfirst, List.append_assoc],
    fun access haccess => ?_⟩, fun a howns => ?_⟩
  · rcases List.mem_append.mp haccess with haccess | haccess
    · exact .inr (hall' access haccess)
    · exact .inl (hall access haccess)
  · unfold Owns at howns
    rw [heeprom, if_neg (by omega)]
    exact updateVersion_others s (by omega)

theorem initDatablock_holds (store : Store) (s : State) :
    Holds b (written store .init) (initDatablock b s) := by
  obtain ⟨heeprom, -⟩ := initDatablock_cleared b s
  have hbefore := b.version_before
  refine ⟨?_, fun contents hsome i hi => ?_⟩
  · rw [written, Option.isSome_some, ← updateVersion_valid b s]
    refine isDatablockValid_congr fun i hi => ?_
    rw [heeprom, if_neg (by omega)]
  · obtain rfl := Option.some.inj hsome
    rw [heeprom, if_pos ⟨by omega, by omega⟩]

theorem perform_step (hholds : Holds b store s) {operation : Operation}
    (hsound : Sound b s operation) :
    Keeps b s (perform b s operation) ∧ Serves b store s operation ∧
      Holds b (written store operation) (perform b s operation) := by
  cases operation with
  | init => exact ⟨initDatablock_keeps b s, trivial, initDatablock_holds store s⟩
  | isValid => exact ⟨isValid_keeps b s, hholds.valid, hholds.congr rfl⟩
  | read data offset length =>
      exact ⟨readDatablock_keeps hsound, readDatablock_serves hholds hsound,
        hholds.congr (readDatablock_eeprom _ _ _ _)⟩
  | update data offset length =>
      exact ⟨updateDatablock_keeps hsound.1, hsound.1.result_eq,
        updateDatablock_holds hholds hsound.1 hsound.2⟩

theorem stored_holds (b : Datablock) (s : State) : Holds b (stored b s) s := by
  unfold stored
  split_ifs with hvalid
  · exact ⟨hvalid, fun contents hsome i _ => congrFun (Option.some.inj hsome) i⟩
  · exact ⟨Bool.not_eq_true _ ▸ hvalid, fun _ hsome => nomatch hsome⟩

theorem Holds.framed (hholds : Holds b store s) {operations : List Operation}
    (hsound : Meets (perform b) (Sound b) s operations) : Framed b store s operations := by
  induction operations generalizing s store with
  | nil => exact hholds
  | cons operation operations ih =>
      obtain ⟨hkeeps, hserves, hnext⟩ := perform_step hholds hsound.1
      exact ⟨hholds, hkeeps, hserves, ih hnext hsound.2⟩

end Calls

/-- The keyboard and the user block are framed stores, in the runs that ask for no bytes behind the
block and make no block valid that still has old bytes. -/
theorem datablocks_framed (c : Config) (which : Block) (s : State) {operations : List Operation}
    (h : Meets (perform (c.datablock which)) (Sound (c.datablock which)) s operations) :
    Framed (c.datablock which) (stored (c.datablock which) s) s operations :=
  (stored_holds _ s).framed h

/-- Eight bytes for each block. -/
def eightBytes : Config where
  pointerBits := 32
  kbDataSize := 8
  kbDataVersion := 8
  userDataSize := 8
  userDataVersion := 8
  kbDataSize_fits := by decide
  userDataSize_fits := by decide
  addressable := by decide

/-- An EEPROM full of old bytes. -/
def oldBytes : State := ⟨fun _ => 0xAA, []⟩

theorem eightBytes_framed :
    Framed (eightBytes.datablock .user) (stored (eightBytes.datablock .user) oldBytes) oldBytes
      [.init, .update (fun _ => 7) 2 9, .read (fun _ => 0) 1 3] :=
  datablocks_framed eightBytes .user oldBytes
    ⟨trivial, ⟨⟨by decide, by decide⟩, .inl (by decide +kernel)⟩,
      ⟨fun _ => ⟨by decide, by decide⟩, trivial⟩⟩

/-- A read of one byte behind the block asks the EEPROM for almost its whole address space. -/
theorem readBehind_unframed :
    ¬ ∀ (s : State) (operations : List Operation),
      Framed (eightBytes.datablock .kb) (stored (eightBytes.datablock .kb) s) s operations := by
  intro h
  have hserves := (h oldBytes [.init, .read (fun _ => 0) 9 1]).2.2.2.2.2.1
  exact absurd hserves.2 (by decide +kernel)

-- An update of one byte brings the old byte behind it back.
example :
    (readDatablock (eightBytes.datablock .kb) (fun _ => 0) 0 2
      (updateDatablock (eightBytes.datablock .kb) (fun _ => 7) 0 1 oldBytes).2).1 1 = 0xAA := by
  decide +kernel

end Qmk.EeConfig
