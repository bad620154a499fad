import Mathlib.Algebra.Group.Nat.Defs
import Mathlib.Logic.Function.Basic
import Qmk.Lib.Memory

/-!
# A NOR flash chip

Programming clears bits and wraps inside the page of its address, erasing sets the bits of a
block.  Both need the write-enable latch, and reset it.  `burn` is what the bytes of a run do to
the memory when no page end lies between them.
-/

namespace Qmk.Lib

structure FlashGeometry where
  pageSize : Nat
  blockSize : Nat
  size : Nat
  addressSize : Nat
  pageSize_pos : 0 < pageSize
  blockSize_pos : 0 < blockSize
  addressed : size ≤ 256 ^ addressSize

structure NorFlash where
  mem : Nat → BitVec 8
  writeEnabled : Bool

/-! ## Addresses on the wire -/

/-- Big-endian. -/
def wireAddress (bytes : List (BitVec 8)) : Nat :=
  bytes.foldl (fun address byte => address * 256 + byte.toNat) 0

def addressWire : Nat → Nat → List (BitVec 8)
  | 0, _ => []
  | size + 1, address => addressWire size (address / 256) ++ [BitVec.ofNat 8 address]

theorem wireAddress_addressWire (size address : Nat) :
    wireAddress (addressWire size address) = address % 256 ^ size := by
  induction size generalizing address with
  | zero => simp [wireAddress, addressWire, Nat.mod_one]
  | succ size ih =>
      have last : wireAddress (addressWire (size + 1) address) =
          wireAddress (addressWire size (address / 256)) * 256 + address % 256 := by
        simp [wireAddress, addressWire]
      rw [last, ih, Nat.pow_succ, Nat.mul_comm (256 ^ size), Nat.mod_mul]
      omega

/-! ## Clearing bits -/

/-- The bytes are and-ed into the memory from the address on. -/
def burn (mem : Nat → BitVec 8) (address : Nat) (bytes : List (BitVec 8)) : Nat → BitVec 8 :=
  fun a => mem a &&& overlay (fun _ => BitVec.allOnes 8) address bytes a

section Burn

variable (mem : Nat → BitVec 8) {address a : Nat} (bytes : List (BitVec 8))

@[simp] theorem burn_nil : burn mem address [] = mem := by
  funext a
  rw [burn, overlay_nil, BitVec.and_allOnes]

theorem burn_outside (outside : a < address ∨ address + bytes.length ≤ a) :
    burn mem address bytes a = mem a := by
  rw [burn, overlay_outside _ bytes outside, BitVec.and_allOnes]

theorem burn_inside (start : Nat) {i : Nat} (inside : i < bytes.length) :
    burn mem start bytes (start + i) = mem (start + i) &&& bytes[i] := by
  rw [burn, overlay_inside _ start bytes inside]

theorem burn_append (more : List (BitVec 8)) :
    burn mem address (bytes ++ more) =
      burn (burn mem address bytes) (address + bytes.length) more := by
  funext a
  rcases Nat.lt_or_ge a (address + bytes.length) with before | after
  · rw [burn_outside _ more (.inl before), burn, burn, overlay_append,
      overlay_before _ more before]
  · have past : overlay (fun _ => BitVec.allOnes 8) address bytes a = BitVec.allOnes 8 :=
      overlay_after _ bytes after
    simp only [burn, overlay_append, past, BitVec.and_allOnes]
    congr 1
    simp only [overlay] at past ⊢
    rw [past]

theorem burn_singleton (byte : BitVec 8) :
    burn mem address [byte] = Function.update mem address (mem address &&& byte) := by
  funext a
  by_cases here : a = address
  · subst here
    simp [burn, overlay]
  · rw [Function.update_of_ne here]
    exact burn_outside mem [byte] (by simp; omega)

end Burn

/-! ## The commands -/

namespace NorFlash

variable (g : FlashGeometry) (chip : NorFlash)

def writeEnable : NorFlash := { chip with writeEnabled := true }

def writeDisable : NorFlash := { chip with writeEnabled := false }

/-- The cell of byte `j` of a page program, inside the page of the address. -/
def pageCell (address j : Nat) : Nat :=
  address / g.pageSize * g.pageSize + (address % g.pageSize + j) % g.pageSize

def programCells (address : Nat) : Nat → List (BitVec 8) → (Nat → BitVec 8) → Nat → BitVec 8
  | _, [], mem => mem
  | j, byte :: bytes, mem =>
      let cell := pageCell g address j
      programCells address (j + 1) bytes (Function.update mem cell (mem cell &&& byte))

def pageProgram (wire bytes : List (BitVec 8)) : NorFlash :=
  if chip.writeEnabled = true then
    ⟨programCells g (wireAddress wire) 0 bytes chip.mem, false⟩
  else chip

def blockErase (wire : List (BitVec 8)) : NorFlash :=
  if chip.writeEnabled = true then
    ⟨fun a => if a / g.blockSize = wireAddress wire / g.blockSize then BitVec.allOnes 8
      else chip.mem a, false⟩
  else chip

def read (wire : List (BitVec 8)) (length : Nat) : List (BitVec 8) :=
  readBlock chip.mem (wireAddress wire) length

variable {g}

theorem pageCell_eq {address j : Nat} (inside : address % g.pageSize + j < g.pageSize) :
    pageCell g address j = address + j := by
  rw [pageCell, Nat.mod_eq_of_lt inside, ← Nat.add_assoc, Nat.mul_comm, Nat.div_add_mod]

theorem programCells_eq {address : Nat} (bytes : List (BitVec 8)) (j : Nat)
    (mem : Nat → BitVec 8) (inside : address % g.pageSize + j + bytes.length ≤ g.pageSize) :
    programCells g address j bytes mem = burn mem (address + j) bytes := by
  induction bytes generalizing j mem with
  | nil => simp [programCells]
  | cons byte bytes ih =>
      rw [List.length_cons] at inside
      have cell : pageCell g address j = address + j := pageCell_eq (by omega)
      rw [programCells, ih (j + 1) _ (by omega), cell, ← List.singleton_append, burn_append,
        burn_singleton]
      rfl

variable {chip}

theorem pageProgram_eq {address : Nat} {bytes : List (BitVec 8)}
    (enabled : chip.writeEnabled = true) (inChip : address < g.size)
    (inPage : address % g.pageSize + bytes.length ≤ g.pageSize) :
    chip.pageProgram g (addressWire g.addressSize address) bytes =
      ⟨burn chip.mem address bytes, false⟩ := by
  have bound := g.addressed
  rw [pageProgram, if_pos enabled, wireAddress_addressWire, Nat.mod_eq_of_lt (by omega),
    programCells_eq bytes 0 chip.mem inPage, Nat.add_zero]

theorem blockErase_eq {address : Nat} (enabled : chip.writeEnabled = true)
    (inChip : address < g.size) :
    chip.blockErase g (addressWire g.addressSize address) =
      ⟨fun a => if a / g.blockSize = address / g.blockSize then BitVec.allOnes 8
        else chip.mem a, false⟩ := by
  have bound := g.addressed
  rw [blockErase, if_pos enabled, wireAddress_addressWire, Nat.mod_eq_of_lt (by omega)]

theorem read_eq {address : Nat} (inChip : address < g.size) (length : Nat) :
    chip.read (addressWire g.addressSize address) length = readBlock chip.mem address length := by
  have bound := g.addressed
  rw [read, wireAddress_addressWire, Nat.mod_eq_of_lt (by omega)]

end NorFlash

end Qmk.Lib
