import Mathlib.Tactic.SplitIfs
import Qmk.WearLeveling.Engine

/-!
# Log entries as data

An `Entry` is what one call of the append functions puts into the write log.
`scanEntry` is what the playback loop makes of the cells at an address when
every read succeeds.  Reading back the words of an entry yields that entry.
-/

namespace Qmk.WearLeveling

open Qmk.Lib

/-- The number of words of a multi-byte entry that carries `length` bytes. -/
def WriteSize.multibyteWords : WriteSize → Nat → Nat
  | .two, length =>
      2 + (if 1 < length then 1 else 0) + (if 3 < length then 1 else 0)
  | .four, length => 1 + (if 1 < length then 1 else 0)
  | .eight, _ => 1

inductive Entry where
  | multibyte (address : Nat) (value : List UInt8)
  | optimized64 (address : Nat) (value : UInt8)
  | word01 (address value : Nat)
  deriving DecidableEq, Repr

namespace Entry

def log : Entry → WriteLogEntry
  | .multibyte address value =>
      overlay (logEntryMakeMultibyte address value.length) 3 value
  | .optimized64 address value => logEntryMakeOptimized64 address value
  | .word01 address value => logEntryMakeWord01 address value

def address : Entry → Nat
  | .multibyte address _ => address
  | .optimized64 address _ => address
  | .word01 address _ => address

def value : Entry → List UInt8
  | .multibyte _ value => value
  | .optimized64 _ value => [value]
  | .word01 _ value => [UInt8.ofNat value, 0]

def apply (entry : Entry) (cache : Nat → UInt8) : Nat → UInt8 :=
  overlay cache entry.address entry.value

variable (p : Platform)

def wordCount : Entry → Nat
  | .multibyte _ value => p.writeSize.multibyteWords value.length
  | _ => 1

def size (entry : Entry) : Nat := p.width * entry.wordCount p

def words (entry : Entry) : List (List UInt8) :=
  (List.range (entry.wordCount p)).map (p.rawWord entry.log)

def bytes (entry : Entry) : List UInt8 := readBlock entry.log 0 (entry.size p)

/-- The entries the append functions make for writes inside the logical area. -/
def Valid : Entry → Prop
  | .multibyte address value =>
      1 ≤ value.length ∧ value.length ≤ logEntryMultibyteMaxBytes ∧
        address < 2 ^ 19 ∧ address + value.length ≤ p.logicalSize
  | .optimized64 address _ =>
      p.writeSize = .two ∧ address < 64 ∧ address < p.logicalSize
  | .word01 address value =>
      p.writeSize = .two ∧ address % 2 = 0 ∧ address < 16384 ∧
        address + 2 ≤ p.logicalSize ∧ value ≤ 1

end Entry

theorem WriteSize.bytes_pos (w : WriteSize) : 0 < w.bytes := by
  cases w <;> decide

theorem Platform.width_le (p : Platform) : p.width ≤ 8 := by
  cases h : p.writeSize <;> simp [Platform.width, h, WriteSize.bytes]

theorem Platform.logical_items (p : Platform) :
    p.logicalSize / p.width * p.width = p.logicalSize :=
  Nat.div_mul_cancel p.writeSize_dvd

theorem Platform.hash_items (p : Platform) : 8 / p.width * p.width = 8 := by
  cases h : p.writeSize <;> simp [Platform.width, h, WriteSize.bytes]

theorem Platform.width_dvd_backing (p : Platform) : p.width ∣ p.backingSize :=
  Nat.dvd_trans p.writeSize_dvd p.logicalSize_dvd

theorem Platform.width_dvd_start (p : Platform) : p.width ∣ p.logStart := by
  have hhash : p.width ∣ 8 := Dvd.intro_left _ p.hash_items
  exact Nat.dvd_add p.writeSize_dvd hhash

theorem Platform.word_le (p : Platform) {address bound : Nat}
    (haligned : p.width ∣ address) (hbound : p.width ∣ bound)
    (h : address < bound) : address + p.width ≤ bound := by
  obtain ⟨k, rfl⟩ := haligned
  obtain ⟨n, rfl⟩ := hbound
  have hlt : k < n := Nat.lt_of_mul_lt_mul_left h
  rw [← Nat.mul_succ]
  exact Nat.mul_le_mul_left _ hlt

theorem WriteSize.multibyteWords_pos (w : WriteSize) (length : Nat) :
    0 < w.multibyteWords length := by
  cases w <;> simp only [WriteSize.multibyteWords] <;> omega

/-- The words of a multi-byte entry hold its three header bytes and its value. -/
theorem WriteSize.multibyte_fits (w : WriteSize) {length : Nat}
    (h : length ≤ logEntryMultibyteMaxBytes) (hpos : 1 ≤ length) :
    3 + length ≤ w.bytes * w.multibyteWords length := by
  simp only [logEntryMultibyteMaxBytes] at h
  cases w with
  | two =>
      simp only [WriteSize.bytes, WriteSize.multibyteWords]
      split_ifs <;> omega
  | four =>
      simp only [WriteSize.bytes, WriteSize.multibyteWords]
      split_ifs <;> omega
  | eight =>
      simp only [WriteSize.bytes, WriteSize.multibyteWords]
      omega

theorem Entry.wordCount_pos (p : Platform) (entry : Entry) :
    0 < entry.wordCount p := by
  cases entry with
  | multibyte address value => exact WriteSize.multibyteWords_pos _ _
  | optimized64 address value => exact Nat.one_pos
  | word01 address value => exact Nat.one_pos

theorem Entry.width_le_size (p : Platform) (entry : Entry) :
    p.width ≤ entry.size p :=
  Nat.le_mul_of_pos_right _ (entry.wordCount_pos p)

theorem Entry.size_pos (p : Platform) (entry : Entry) : 0 < entry.size p :=
  Nat.lt_of_lt_of_le p.writeSize.bytes_pos (entry.width_le_size p)

@[simp] theorem Entry.bytes_length (p : Platform) (entry : Entry) :
    (entry.bytes p).length = entry.size p := by
  simp [Entry.bytes]

theorem Entry.words_flatten (p : Platform) (entry : Entry) :
    (entry.words p).flatten = entry.bytes p := by
  rw [Entry.words, Entry.bytes, Entry.size]
  induction entry.wordCount p with
  | zero => simp
  | succ count ih =>
      rw [List.range_succ, List.map_append, List.flatten_append, ih,
        Nat.mul_succ, readBlock_add]
      simp [Platform.rawWord]

theorem Entry.words_length_of_mem (p : Platform) (entry : Entry)
    {word : List UInt8} (h : word ∈ entry.words p) :
    word.length = p.width := by
  simp only [Entry.words, List.mem_map] at h
  obtain ⟨k, -, rfl⟩ := h
  simp [Platform.rawWord]

/-! ## Reading an entry back -/

/-- What an entry found in the log does: its size, and the bytes it restores. -/
structure LogRecord where
  size : Nat
  address : Nat
  value : List UInt8

/-- The union after the first `size` bytes of it were read from `address`. -/
def readEntry (mem : Nat → UInt8) (address size : Nat) : WriteLogEntry :=
  overlay (fun _ => 0) 0 (readBlock mem address size)

theorem readEntry_apply (mem : Nat → UInt8) (address : Nat) {size i : Nat}
    (h : i < size) : readEntry mem address size i = mem (address + i) := by
  simp [readEntry, overlay, readBlock, h]

theorem readEntry_overlay (mem : Nat → UInt8) (address size more : Nat) :
    overlay (readEntry mem address size) size
        (readBlock mem (address + size) more) =
      readEntry mem address (size + more) := by
  simp only [readEntry, readBlock_add, overlay_append, readBlock_length,
    Nat.zero_add]

/-- The size of the multi-byte entry whose first word is at `position`. -/
def multibyteSize (p : Platform) (mem : Nat → UInt8) (position : Nat) : Nat :=
  p.width * p.writeSize.multibyteWords
    (logEntryMultibyteGetLength (readEntry mem position p.width))

def scanMultibyte (p : Platform) (mem : Nat → UInt8) (position : Nat) :
    Option LogRecord :=
  let log := readEntry mem position (multibyteSize p mem position)
  let address := logEntryMultibyteGetAddress log
  let length := logEntryMultibyteGetLength log
  if p.logicalSize < address + length then none
  else
    some ⟨multibyteSize p mem position, address, readBlock log 3 length⟩

/-- The playback's reading of the cells at `position`, all reads succeeding. -/
def scanEntry (p : Platform) (mem : Nat → UInt8) (position : Nat) :
    Option LogRecord :=
  let head := readEntry mem position p.width
  if logEntryGetType head = logEntryTypeMultibyte then
    scanMultibyte p mem position
  else if p.writeSize = .two ∧
      logEntryGetType head = logEntryTypeOptimized64 then
    let address := logEntryOptimized64GetAddress head
    if p.logicalSize ≤ address then none
    else some ⟨p.width, address, [logEntryOptimized64GetValue head]⟩
  else if p.writeSize = .two ∧ logEntryGetType head = logEntryTypeWord01 then
    let address := logEntryWord01GetAddress head
    if p.logicalSize ≤ address + 1 then none
    else some ⟨p.width, address, [logEntryWord01GetValue head, 0]⟩
  else none

theorem logEntryGetType_congr {first second : WriteLogEntry}
    (h : first 0 = second 0) :
    logEntryGetType first = logEntryGetType second := by
  simp [logEntryGetType, h]

theorem logEntryMultibyteGetLength_congr {first second : WriteLogEntry}
    (h : first 0 = second 0) :
    logEntryMultibyteGetLength first = logEntryMultibyteGetLength second := by
  simp [logEntryMultibyteGetLength, h]

theorem logEntryMultibyteGetAddress_congr {first second : WriteLogEntry}
    (h : ∀ i < 3, first i = second i) :
    logEntryMultibyteGetAddress first = logEntryMultibyteGetAddress second := by
  simp [logEntryMultibyteGetAddress, h 0 (by decide), h 1 (by decide),
    h 2 (by decide)]

section Codec

variable (p : Platform)

theorem Entry.log_multibyte_header (address : Nat) (value : List UInt8)
    {i : Nat} (h : i < 3) :
    (Entry.multibyte address value).log i =
      logEntryMakeMultibyte address value.length i :=
  overlay_before _ _ h

theorem Entry.multibyte_type (address : Nat) {value : List UInt8}
    (h : value.length ≤ logEntryMultibyteMaxBytes) :
    logEntryGetType (Entry.multibyte address value).log =
      logEntryTypeMultibyte := by
  simp only [logEntryMultibyteMaxBytes] at h
  rw [logEntryGetType_eq, Entry.log_multibyte_header _ _ (by decide),
    makeMultibyte_zero, logEntryTypeMultibyte]
  omega

theorem Entry.multibyte_length (address : Nat) {value : List UInt8}
    (h : value.length ≤ logEntryMultibyteMaxBytes) :
    logEntryMultibyteGetLength (Entry.multibyte address value).log =
      value.length := by
  simp only [logEntryMultibyteMaxBytes] at h
  rw [logEntryMultibyteGetLength_eq,
    Entry.log_multibyte_header _ _ (by decide), makeMultibyte_zero]
  omega

theorem Entry.multibyte_address {address : Nat} (value : List UInt8)
    (h : address < 2 ^ 19) :
    logEntryMultibyteGetAddress (Entry.multibyte address value).log =
      address := by
  rw [logEntryMultibyteGetAddress_eq,
    Entry.log_multibyte_header _ _ (by decide : 0 < 3),
    Entry.log_multibyte_header _ _ (by decide : 1 < 3),
    Entry.log_multibyte_header _ _ (by decide : 2 < 3),
    makeMultibyte_zero, makeMultibyte_one, makeMultibyte_two]
  omega

theorem Entry.multibyte_value (address : Nat) (value : List UInt8) :
    readBlock (Entry.multibyte address value).log 3 value.length = value :=
  readBlock_overlay _ _ _

/-- Every entry starts with a nonzero byte, so it is not taken for a free slot. -/
theorem Entry.log_zero_ne {entry : Entry} (h : entry.Valid p) :
    entry.log 0 ≠ 0 := by
  intro hzero
  have hnat := congrArg UInt8.toNat hzero
  cases entry with
  | multibyte address value =>
      obtain ⟨hpos, hmax, -, -⟩ := h
      simp only [logEntryMultibyteMaxBytes] at hmax
      rw [Entry.log_multibyte_header _ _ (by decide), makeMultibyte_zero]
        at hnat
      simp at hnat
      omega
  | optimized64 address value =>
      simp only [Entry.log, makeOptimized64_zero] at hnat
      simp at hnat
  | word01 address value =>
      simp only [Entry.log, makeWord01_zero] at hnat
      simp at hnat

/-- The cells that hold an entry's bytes are read back as that entry. -/
theorem scanEntry_bytes {entry : Entry} (h : entry.Valid p)
    {mem : Nat → UInt8} {position : Nat}
    (hmem : readBlock mem position (entry.size p) = entry.bytes p) :
    scanEntry p mem position =
      some ⟨entry.size p, entry.address, entry.value⟩ := by
  have hread : ∀ size ≤ entry.size p, ∀ i < size,
      readEntry mem position size i = entry.log i := by
    intro size hsize i hi
    have hget := congrArg (fun l => l[i]?) hmem
    rw [readEntry_apply _ _ hi]
    simpa [Entry.bytes, readBlock, Nat.lt_of_lt_of_le hi hsize] using hget
  have hwidth := p.writeSize.bytes_pos
  have hhead : readEntry mem position p.width 0 = entry.log 0 :=
    hread _ (entry.width_le_size p) _ hwidth
  cases entry with
  | multibyte address value =>
      obtain ⟨hpos, hmax, haddress, hbound⟩ := h
      have hsize : multibyteSize p mem position =
          (Entry.multibyte address value).size p := by
        rw [multibyteSize, logEntryMultibyteGetLength_congr hhead,
          Entry.multibyte_length _ hmax]
        rfl
      have hfits : 3 + value.length ≤ (Entry.multibyte address value).size p :=
        p.writeSize.multibyte_fits hmax hpos
      have hlog := hread _ (Nat.le_refl ((Entry.multibyte address value).size p))
      have hlength : logEntryMultibyteGetLength (readEntry mem position
          ((Entry.multibyte address value).size p)) = value.length :=
        (logEntryMultibyteGetLength_congr (hlog 0 (by omega))).trans
          (Entry.multibyte_length _ hmax)
      have haddr : logEntryMultibyteGetAddress (readEntry mem position
          ((Entry.multibyte address value).size p)) = address :=
        (logEntryMultibyteGetAddress_congr fun i hi => hlog i (by omega)).trans
          (Entry.multibyte_address value haddress)
      have hvalue : readBlock (readEntry mem position
          ((Entry.multibyte address value).size p)) 3 value.length = value := by
        conv_rhs => rw [← Entry.multibyte_value address value]
        exact readBlock_congr fun i hi => hlog _ (by omega)
      simp only [scanEntry, scanMultibyte, logEntryGetType_congr hhead,
        Entry.multibyte_type _ hmax, if_true, hsize, hlength, haddr, hvalue,
        Nat.not_lt.mpr hbound, if_false]
      rfl
  | optimized64 address value =>
      obtain ⟨hw, haddress, hbound⟩ := h
      have hone : readEntry mem position p.width 1 =
          (Entry.optimized64 address value).log 1 :=
        hread _ (Entry.width_le_size _ _) _ (by
          simp [Platform.width, hw, WriteSize.bytes])
      have htype : logEntryGetType (readEntry mem position p.width) = 1 := by
        rw [logEntryGetType_congr hhead, logEntryGetType_eq, Entry.log,
          makeOptimized64_zero]
        omega
      have haddr : logEntryOptimized64GetAddress
          (readEntry mem position p.width) = address := by
        rw [logEntryOptimized64GetAddress_eq, hhead, Entry.log,
          makeOptimized64_zero]
        omega
      have hvalue : logEntryOptimized64GetValue
          (readEntry mem position p.width) = value := by
        rw [logEntryOptimized64GetValue, hone, Entry.log, makeOptimized64_one]
      simp [scanEntry, htype, hw, haddr, hvalue, hbound,
        logEntryTypeMultibyte, logEntryTypeOptimized64, Entry.size,
        Entry.wordCount, Entry.address, Entry.value]
  | word01 address value =>
      obtain ⟨hw, heven, haddress, hbound, hone⟩ := h
      have hbyte : readEntry mem position p.width 1 =
          (Entry.word01 address value).log 1 :=
        hread _ (Entry.width_le_size _ _) _ (by
          simp [Platform.width, hw, WriteSize.bytes])
      have hbit : (if value ≠ 0 then 1 else 0) = value := by
        split <;> omega
      have hfirst := hhead
      simp only [Entry.log] at hfirst hbyte
      have htype : logEntryGetType (readEntry mem position p.width) = 2 := by
        rw [logEntryGetType_eq, hfirst, makeWord01_zero, hbit]
        omega
      have haddr : logEntryWord01GetAddress
          (readEntry mem position p.width) = address := by
        rw [logEntryWord01GetAddress_eq, hfirst, hbyte, makeWord01_zero,
          makeWord01_one, hbit]
        omega
      have hvalue : logEntryWord01GetValue
          (readEntry mem position p.width) = UInt8.ofNat value := by
        rw [logEntryWord01GetValue_eq, hfirst, makeWord01_zero, hbit]
        congr 1
        omega
      have hnot : ¬ p.logicalSize ≤ address + 1 := by omega
      simp [scanEntry, htype, hw, haddr, hvalue, hnot,
        logEntryTypeMultibyte, logEntryTypeOptimized64, logEntryTypeWord01,
        Entry.size, Entry.wordCount, Entry.address, Entry.value]

end Codec

end Qmk.WearLeveling
