import Mathlib.Algebra.Group.Nat.Defs
import Qmk.WearLeveling.LogEntry

/-!
# The backing store and the engine's state

`wear_leveling_internal.h` leaves the backing store to a flash driver.  Here a
driver is an oracle that decides, from the calls made so far, whether the next
call succeeds and what a failed call leaves behind.
-/

namespace Qmk.WearLeveling

open Qmk.Lib

/-- `BACKING_STORE_WRITE_SIZE`; anything else is a compile-time error. -/
inductive WriteSize where
  | two
  | four
  | eight
  deriving DecidableEq, Repr

def WriteSize.bytes : WriteSize → Nat
  | .two => 2
  | .four => 4
  | .eight => 8

/--
The configuration, with the checks of `wear_leveling_internal.h`.  Addresses of
the backing store are `uint32_t`: the last field keeps those of the store, and
of the entry that follows its end, inside that type.
-/
structure Config where
  writeSize : WriteSize
  logicalSize : Nat
  backingSize : Nat
  logicalSize_pos : 0 < logicalSize
  backingSize_ge : logicalSize * 2 ≤ backingSize
  writeSize_dvd : writeSize.bytes ∣ logicalSize
  logicalSize_dvd : logicalSize ∣ backingSize
  backingSize_u32 : backingSize + 8 ≤ 2 ^ 32

/-- A call of the backing store API. -/
inductive Call where
  | init
  | unlock
  | erase
  | write (address : Nat) (value : List UInt8)
  | lock
  | read (address : Nat)
  deriving DecidableEq, Repr

structure Event where
  call : Call
  ok : Bool
  deriving DecidableEq, Repr

/-- The driver's answer to a call; `junk` is what a failed call leaves behind. -/
structure Verdict where
  ok : Bool
  junk : Nat → UInt8 := fun _ => 0

/-- A build of the firmware on a board. -/
structure Platform extends Config where
  fnv64aBuf : List UInt8 → WriteLogEntry
  verdict : List Event → Call → Verdict

/-- No call of the backing store fails. -/
def Platform.Reliable (p : Platform) : Prop :=
  ∀ trace call, (p.verdict trace call).ok = true

/-- The static `wear_leveling`, the backing store, and the calls made, last first. -/
structure State where
  cache : Nat → UInt8
  writeAddress : Nat
  unlocked : Bool
  mem : Nat → UInt8
  trace : List Event

/-- Power-up: statics are zero and the backing store keeps its contents. -/
def boot (mem : Nat → UInt8) : State :=
  ⟨fun _ => 0, 0, false, mem, []⟩

/-- `wear_leveling_status_t`. -/
inductive Status where
  | failed
  | success
  | consolidated
  deriving DecidableEq, Repr

/-- `backing_store_lock_status_t`. -/
inductive LockStatus where
  | failure
  | success
  | unchanged
  deriving DecidableEq, Repr

section Backing

variable (p : Platform)

/-- The number of bytes of a `backing_store_int_t`. -/
abbrev Platform.width : Nat := p.writeSize.bytes

def Platform.answer (s : State) (call : Call) : Verdict :=
  p.verdict s.trace call

def State.record (s : State) (call : Call) (ok : Bool) : State :=
  { s with trace := ⟨call, ok⟩ :: s.trace }

def backingStoreInit (s : State) : Bool × State :=
  ((p.answer s .init).ok, s.record .init (p.answer s .init).ok)

def backingStoreUnlock (s : State) : Bool × State :=
  ((p.answer s .unlock).ok, s.record .unlock (p.answer s .unlock).ok)

def backingStoreLock (s : State) : Bool × State :=
  ((p.answer s .lock).ok, s.record .lock (p.answer s .lock).ok)

/-- A failed erase leaves anything at all. -/
def backingStoreErase (s : State) : Bool × State :=
  let v := p.answer s .erase
  (v.ok, { s.record .erase v.ok with mem := if v.ok then fun _ => 0 else v.junk })

/-- A failed write leaves anything in the cells it addresses. -/
def backingStoreWrite (address : Nat) (value : List UInt8) (s : State) :
    Bool × State :=
  let v := p.answer s (.write address value)
  (v.ok, { s.record (.write address value) v.ok with
    mem := overlay s.mem address
      (if v.ok then value else readBlock v.junk address p.width) })

def backingStoreRead (address : Nat) (s : State) : Bool × List UInt8 × State :=
  let v := p.answer s (.read address)
  (v.ok, readBlock (if v.ok then s.mem else v.junk) address p.width,
    s.record (.read address) v.ok)

/--
The weak `backing_store_read_bulk`.  After a failed read the rest of the
caller's buffer holds junk.
-/
def backingStoreReadBulk : Nat → Nat → State → Bool × List UInt8 × State
  | _, 0, s => (true, [], s)
  | address, count + 1, s =>
      match backingStoreRead p address s with
      | (true, value, after) =>
          let (ok, values, after) :=
            backingStoreReadBulk (address + p.width) count after
          (ok, value ++ values, after)
      | (false, _, after) =>
          (false, readBlock (p.answer s (.read address)).junk address
            ((count + 1) * p.width), after)

/-- The weak `backing_store_write_bulk`. -/
def backingStoreWriteBulk : Nat → List UInt8 → Nat → State → Bool × State
  | _, _, 0, s => (true, s)
  | address, values, count + 1, s =>
      match backingStoreWrite p address (values.take p.width) s with
      | (true, s) =>
          backingStoreWriteBulk (address + p.width) (values.drop p.width) count s
      | (false, s) => (false, s)

end Backing

/-- A board with two-byte words, sixteen bytes of data and a reliable flash. -/
def smallBoard : Platform where
  writeSize := .two
  logicalSize := 16
  backingSize := 32
  logicalSize_pos := by decide
  backingSize_ge := by decide
  writeSize_dvd := by decide
  logicalSize_dvd := by decide
  backingSize_u32 := by decide
  fnv64aBuf := fun data i => UInt8.ofNat (data.length + i)
  verdict := fun _ _ => ⟨true, fun _ => 0⟩

/-- A board with four-byte words and four bytes of data. -/
def wordBoard : Platform where
  writeSize := .four
  logicalSize := 4
  backingSize := 32
  logicalSize_pos := by decide
  backingSize_ge := by decide
  writeSize_dvd := by decide
  logicalSize_dvd := by decide
  backingSize_u32 := by decide
  fnv64aBuf := fun data i => UInt8.ofNat (data.length + i)
  verdict := fun _ _ => ⟨true, fun _ => 0⟩

end Qmk.WearLeveling
