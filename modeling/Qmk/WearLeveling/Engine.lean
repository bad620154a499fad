import Qmk.WearLeveling.Platform

/-!
# The wear-leveling engine

The functions of `wear_leveling.c`, in the order of that file.  A function
takes the state it starts from as its last argument and returns its result
with the state it leaves.  The `while` loops carry fuel; their callers supply
the length still to be written, or the size of the backing store, which is
never less than the number of iterations.
-/

namespace Qmk.WearLeveling

open Qmk.Lib

section Engine

variable (p : Platform)

def wearLevelingUnlock (s : State) : LockStatus × State :=
  if s.unlocked then (.unchanged, s)
  else
    match backingStoreUnlock p s with
    | (false, s) => (.failure, s)
    | (true, s) => (.success, { s with unlocked := true })

def wearLevelingLock (s : State) : LockStatus × State :=
  if !s.unlocked then (.unchanged, s)
  else
    match backingStoreLock p s with
    | (false, s) => (.failure, s)
    | (true, s) => (.success, { s with unlocked := false })

/-- Where the write log starts: the hash of the consolidated data takes 8 bytes. -/
def Platform.logStart : Nat := p.logicalSize + 8

def wearLevelingClearCache (s : State) : State :=
  { s with cache := fun _ => 0, writeAddress := p.logStart }

def wearLevelingReadConsolidated (s : State) : Status × State :=
  match backingStoreReadBulk p 0 (p.logicalSize / p.width) s with
  | (false, _, s) => (.failed, wearLevelingClearCache p s)
  | (true, values, s) =>
      let s := { s with cache := overlay s.cache 0 values }
      let expected := p.fnv64aBuf (readBlock s.cache 0 p.logicalSize)
      -- the result of this read is ignored by the source
      let (_, entry, s) := backingStoreReadBulk p p.logicalSize (8 / p.width) s
      if entry = readBlock expected 0 8 then (.success, s)
      else (.success, wearLevelingClearCache p s)

def wearLevelingWriteConsolidated (s : State) : Status × State :=
  let (lockStatus, s) := wearLevelingUnlock p s
  let (status, s) :=
    match backingStoreWriteBulk p 0 (readBlock s.cache 0 p.logicalSize)
        (p.logicalSize / p.width) s with
    | (false, s) => (Status.failed, s)
    | (true, s) =>
        let entry := p.fnv64aBuf (readBlock s.cache 0 p.logicalSize)
        match backingStoreWriteBulk p p.logicalSize (readBlock entry 0 8)
            (8 / p.width) s with
        | (false, s) => (Status.failed, s)
        | (true, s) => (Status.consolidated, s)
  let s := if lockStatus = .success then (wearLevelingLock p s).2 else s
  (status, s)

def wearLevelingConsolidateForce (s : State) : Status × State :=
  match backingStoreErase p s with
  | (false, s) => (.failed, s)
  | (true, s) =>
      let (status, s) := wearLevelingWriteConsolidated p s
      (status, { s with writeAddress := p.logStart })

def wearLevelingConsolidateIfNeeded (s : State) : Status × State :=
  if p.backingSize ≤ s.writeAddress then wearLevelingConsolidateForce p s
  else (.success, s)

/-- The cursor is a `uint32_t`. -/
def wearLevelingAppendRaw (value : List UInt8) (s : State) : Status × State :=
  match backingStoreWrite p s.writeAddress value s with
  | (false, s) => (.failed, s)
  | (true, s) =>
      wearLevelingConsolidateIfNeeded p
        { s with writeAddress := (s.writeAddress + p.width) % 2 ^ 32 }

/-- `raw16[k]`, `raw32[k]` or `raw64` of an entry. -/
def Platform.rawWord (log : WriteLogEntry) (k : Nat) : List UInt8 :=
  readBlock log (p.width * k) p.width

def wearLevelingWriteRawMultibyte (address : Nat) (value : List UInt8)
    (s : State) : Status × State :=
  let log := overlay (logEntryMakeMultibyte address value.length) 3 value
  match p.writeSize with
  | .two =>
      match wearLevelingAppendRaw p (p.rawWord log 0) s with
      | (.success, s) =>
          match wearLevelingAppendRaw p (p.rawWord log 1) s with
          | (.success, s) =>
              match
                if 1 < value.length then
                  wearLevelingAppendRaw p (p.rawWord log 2) s
                else (.success, s)
              with
              | (.success, s) =>
                  if 3 < value.length then
                    wearLevelingAppendRaw p (p.rawWord log 3) s
                  else (.success, s)
              | result => result
          | result => result
      | result => result
  | .four =>
      match wearLevelingAppendRaw p (p.rawWord log 0) s with
      | (.success, s) =>
          if 1 < value.length then wearLevelingAppendRaw p (p.rawWord log 1) s
          else (.success, s)
      | result => result
  | .eight => wearLevelingAppendRaw p (p.rawWord log 0) s

/-- `((uint16_t)p[1]) << 8 | p[0]`. -/
def littleEndian16 (low high : UInt8) : Nat :=
  (high.toNat <<< 8) ||| low.toNat

def wearLevelingWriteRaw : Nat → Nat → List UInt8 → State → Status × State
  | 0, _, _, s => (.success, s)
  | _ + 1, _, [], s => (.success, s)
  | fuel + 1, address, first :: rest, s =>
      if p.writeSize = .two ∧ rest ≠ [] ∧ address % 2 = 0 ∧ address < 16384 ∧
          (littleEndian16 first (rest.headD 0) = 0 ∨
            littleEndian16 first (rest.headD 0) = 1) then
        let v := littleEndian16 first (rest.headD 0)
        match wearLevelingAppendRaw p (p.rawWord (logEntryMakeWord01 address v) 0) s with
        | (.success, s) => wearLevelingWriteRaw fuel (address + 2) rest.tail s
        | result => result
      else if p.writeSize = .two ∧ address < 64 then
        match
          wearLevelingAppendRaw p
            (p.rawWord (logEntryMakeOptimized64 address first) 0) s
        with
        | (.success, s) => wearLevelingWriteRaw fuel (address + 1) rest s
        | result => result
      else
        match
          wearLevelingWriteRawMultibyte p address
            ((first :: rest).take logEntryMultibyteMaxBytes) s
        with
        | (.success, s) =>
            wearLevelingWriteRaw fuel
              (address + ((first :: rest).take logEntryMultibyteMaxBytes).length)
              ((first :: rest).drop logEntryMultibyteMaxBytes) s
        | result => result

/-! ## Playback -/

/-- Reads `raw16[k]` or `raw32[k]` of an entry when `wanted`, else reads nothing. -/
def playbackReadWord (wanted : Bool) (k address : Nat) (log : WriteLogEntry)
    (s : State) : Bool × Nat × WriteLogEntry × State :=
  if wanted then
    match backingStoreRead p address s with
    | (true, value, s) =>
        (true, address + p.width, overlay log (p.width * k) value, s)
    | (false, _, s) => (false, address, log, s)
  else (true, address, log, s)

/--
The case `LOG_ENTRY_TYPE_MULTIBYTE`.  Like the loop body it belongs to, it
returns `failed` to cancel the playback and `success` to go on.
-/
def playbackMultibyte (address : Nat) (log : WriteLogEntry) (s : State) :
    Status × Nat × State :=
  match playbackReadWord p (p.writeSize = .two) 1 address log s with
  | (false, address, _, s) => (.failed, address, s)
  | (true, address, log, s) =>
      let a := logEntryMultibyteGetAddress log
      let l := logEntryMultibyteGetLength log
      if p.logicalSize < a + l then (.failed, address, s)
      else
        match
          playbackReadWord p (p.writeSize ≠ .eight ∧ 1 < l)
            (if p.writeSize = .two then 2 else 1) address log s
        with
        | (false, address, _, s) => (.failed, address, s)
        | (true, address, log, s) =>
            match playbackReadWord p (p.writeSize = .two ∧ 3 < l) 3 address log s with
            | (false, address, _, s) => (.failed, address, s)
            | (true, address, log, s) =>
                (.success, address,
                  { s with cache := overlay s.cache a (readBlock log 3 l) })

def playbackOptimized64 (address : Nat) (log : WriteLogEntry) (s : State) :
    Status × Nat × State :=
  let a := logEntryOptimized64GetAddress log
  let v := logEntryOptimized64GetValue log
  if p.logicalSize ≤ a then (.failed, address, s)
  else (.success, address, { s with cache := overlay s.cache a [v] })

def playbackWord01 (address : Nat) (log : WriteLogEntry) (s : State) :
    Status × Nat × State :=
  let a := logEntryWord01GetAddress log
  let v := logEntryWord01GetValue log
  if p.logicalSize ≤ a + 1 then (.failed, address, s)
  else (.success, address, { s with cache := overlay s.cache a [v, 0] })

/-- The `switch` of the playback loop. -/
def playbackEntry (address : Nat) (log : WriteLogEntry) (s : State) :
    Status × Nat × State :=
  if logEntryGetType log = logEntryTypeMultibyte then
    playbackMultibyte p address log s
  else if p.writeSize = .two ∧ logEntryGetType log = logEntryTypeOptimized64 then
    playbackOptimized64 p address log s
  else if p.writeSize = .two ∧ logEntryGetType log = logEntryTypeWord01 then
    playbackWord01 p address log s
  else (.failed, address, s)

def playbackLoop : Nat → Nat → State → Status × Nat × State
  | 0, address, s => (.success, address, s)
  | fuel + 1, address, s =>
      if address < p.backingSize then
        match backingStoreRead p address s with
        | (false, _, s) => (.failed, address, s)
        | (true, value, s) =>
            if value = List.replicate p.width 0 then (.success, address, s)
            else
              match
                playbackEntry p (address + p.width) (overlay (fun _ => 0) 0 value) s
              with
              | (.success, address, s) => playbackLoop fuel address s
              | result => result
      else (.success, address, s)

def wearLevelingPlaybackLog (s : State) : Status × State :=
  let (status, address, s) := playbackLoop p p.backingSize p.logStart s
  let s := { s with writeAddress := address }
  if status = .failed then wearLevelingConsolidateForce p s
  else wearLevelingConsolidateIfNeeded p s

/-! ## The interface -/

def wearLevelingInit (s : State) : Status × State :=
  let s := wearLevelingClearCache p s
  match backingStoreInit p s with
  | (false, s) => (.failed, wearLevelingClearCache p s)
  | (true, s) =>
      match wearLevelingReadConsolidated p s with
      | (.failed, s) => (.failed, wearLevelingClearCache p s)
      | (_, s) =>
          match wearLevelingPlaybackLog p s with
          | (.failed, s) => (.failed, wearLevelingClearCache p s)
          | result => result

def wearLevelingErase (s : State) : Status × State :=
  match wearLevelingUnlock p s with
  | (.failure, s) => (.failed, (wearLevelingLock p s).2)
  | (lockStatus, s) =>
      let (ret, s) := backingStoreErase p s
      let s := wearLevelingClearCache p s
      let (ret, s) :=
        if lockStatus = .success then
          let (relocked, s) := wearLevelingLock p s
          (ret && relocked ≠ .failure, s)
        else (ret, s)
      (if ret then .success else .failed, s)

def wearLevelingWrite (address : Nat) (value : List UInt8) (s : State) :
    Status × State :=
  if p.logicalSize < address + value.length then (.failed, s)
  else if value = readBlock s.cache address value.length then (.success, s)
  else
    let s := { s with cache := overlay s.cache address value }
    match wearLevelingUnlock p s with
    | (.failure, s) => (.failed, (wearLevelingLock p s).2)
    | (lockStatus, s) =>
        let (status, s) := wearLevelingWriteRaw p value.length address value s
        let (status, s) :=
          if status = .success then wearLevelingConsolidateIfNeeded p s
          else (status, s)
        if lockStatus = .success then
          match wearLevelingLock p s with
          | (.failure, s) => (.failed, s)
          | (_, s) => (status, s)
        else (status, s)

def wearLevelingRead (address length : Nat) (s : State) : Status × List UInt8 :=
  if p.logicalSize < address + length then (.failed, [])
  else (.success, readBlock s.cache address length)

end Engine

end Qmk.WearLeveling
