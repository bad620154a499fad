import Qmk.WearLeveling.Replay

/-!
# The write log as a list of entries

The log area holds the bytes of a list of entries, one after the other,
followed by free cells.  Replaying it applies the entries in order and stops
exactly at the first free cell, although entries may end in zero words.
-/

namespace Qmk.WearLeveling

open Qmk.Lib

def logBytes (p : Platform) (entries : List Entry) : List UInt8 :=
  entries.flatMap fun entry => entry.bytes p

/-- The address behind the last entry of the log. -/
def logEnd (p : Platform) (entries : List Entry) : Nat :=
  p.logStart + (logBytes p entries).length

def applyEntries (entries : List Entry) (cache : Nat → UInt8) : Nat → UInt8 :=
  entries.foldl (fun cache entry => entry.apply cache) cache

@[simp] theorem logBytes_nil (p : Platform) : logBytes p [] = [] := rfl

@[simp] theorem logBytes_cons (p : Platform) (entry : Entry)
    (entries : List Entry) :
    logBytes p (entry :: entries) = entry.bytes p ++ logBytes p entries := rfl

theorem logBytes_append (p : Platform) (first second : List Entry) :
    logBytes p (first ++ second) = logBytes p first ++ logBytes p second := by
  simp [logBytes]

@[simp] theorem applyEntries_nil (cache : Nat → UInt8) :
    applyEntries [] cache = cache := rfl

@[simp] theorem applyEntries_cons (entry : Entry) (entries : List Entry)
    (cache : Nat → UInt8) :
    applyEntries (entry :: entries) cache =
      applyEntries entries (entry.apply cache) := rfl

theorem applyEntries_append (first second : List Entry)
    (cache : Nat → UInt8) :
    applyEntries (first ++ second) cache =
      applyEntries second (applyEntries first cache) := by
  simp [applyEntries]

theorem length_le_logBytes (p : Platform) (entries : List Entry) :
    entries.length ≤ (logBytes p entries).length := by
  induction entries with
  | nil => simp
  | cons entry entries ih =>
      have hpos := entry.size_pos p
      simp only [List.length_cons, logBytes_cons, List.length_append,
        Entry.bytes_length]
      omega

theorem readBlock_append_iff {mem : Nat → UInt8} {position : Nat}
    {first second : List UInt8} :
    readBlock mem position (first ++ second).length = first ++ second ↔
      readBlock mem position first.length = first ∧
        readBlock mem (position + first.length) second.length = second := by
  rw [List.length_append, readBlock_add]
  constructor
  · intro h
    exact List.append_inj h (by simp)
  · rintro ⟨hfirst, hsecond⟩
    rw [hfirst, hsecond]

section Replay

variable {p : Platform} {mem : Nat → UInt8}

theorem entry_not_free {entry : Entry} (h : entry.Valid p) {position : Nat}
    (hmem : readBlock mem position (entry.size p) = entry.bytes p) :
    readBlock mem position p.width ≠ List.replicate p.width 0 := by
  intro hzero
  have hwidth := p.writeSize.bytes_pos
  have hsize := entry.size_pos p
  have hfirst := congrArg (fun l => l[0]?) hmem
  have hword := congrArg (fun l => l[0]?) hzero
  simp only [Entry.bytes, readBlock_getElem? _ _ _ _ hsize,
    Option.some.injEq, Nat.zero_add] at hfirst
  simp only [readBlock_getElem? _ _ _ _ hwidth,
    List.getElem?_replicate_of_lt hwidth, Option.some.injEq] at hword
  exact Entry.log_zero_ne p h (hfirst.symm.trans hword)

theorem replayLoop_entry {entry : Entry} (h : entry.Valid p) {position : Nat}
    (hmem : readBlock mem position (entry.size p) = entry.bytes p)
    (hposition : position < p.backingSize) (fuel : Nat)
    (cache : Nat → UInt8) :
    replayLoop p mem (fuel + 1) position cache =
      replayLoop p mem fuel (position + entry.size p) (entry.apply cache) := by
  simp only [replayLoop, hposition, if_true, entry_not_free h hmem, if_false,
    scanEntry_bytes p h hmem, Entry.apply]

theorem replayLoop_entries {entries : List Entry}
    (hvalid : ∀ entry ∈ entries, entry.Valid p) {position : Nat}
    (hmem : readBlock mem position (logBytes p entries).length =
      logBytes p entries)
    (hend : position + (logBytes p entries).length ≤ p.backingSize)
    (fuel : Nat) (cache : Nat → UInt8) :
    replayLoop p mem (entries.length + fuel) position cache =
      replayLoop p mem fuel (position + (logBytes p entries).length)
        (applyEntries entries cache) := by
  induction entries generalizing position cache with
  | nil => simp
  | cons entry entries ih =>
      have hsize := entry.size_pos p
      simp only [logBytes_cons, List.length_append, Entry.bytes_length] at hend
      rw [logBytes_cons, readBlock_append_iff, Entry.bytes_length] at hmem
      rw [List.length_cons, Nat.add_right_comm,
        replayLoop_entry (hvalid entry (by simp)) hmem.1 (by omega),
        ih (fun other hother => hvalid other (by simp [hother])) hmem.2
          (by omega)]
      simp [Nat.add_assoc]

/-- The loop ends at the end of the backing store and at a free slot. -/
theorem replayLoop_stop (fuel position : Nat) (cache : Nat → UInt8)
    (h : position < p.backingSize →
      readBlock mem position p.width = List.replicate p.width 0) :
    replayLoop p mem fuel position cache = (.success, position, cache) := by
  cases fuel with
  | zero => rfl
  | succ fuel =>
      by_cases hposition : position < p.backingSize
      · simp [replayLoop, hposition, h hposition]
      · simp [replayLoop, hposition]

theorem le_replayLoop (fuel position : Nat) (cache : Nat → UInt8) :
    position ≤ (replayLoop p mem fuel position cache).2.1 := by
  induction fuel generalizing position cache with
  | zero => exact Nat.le_refl _
  | succ fuel ih =>
      simp only [replayLoop]
      split
      · split
        · exact Nat.le_refl _
        · cases hscan : scanEntry p mem position with
          | none => exact Nat.le_refl _
          | some record =>
              exact Nat.le_trans (Nat.le_add_right _ _) (ih _ _)
      · exact Nat.le_refl _

end Replay

/--
The backing store holds `base` in the consolidated area and `entries` in the
write log, and nothing behind them.
-/
structure Holds (p : Platform) (mem : Nat → UInt8) (base : Nat → UInt8)
    (entries : List Entry) : Prop where
  view : consolidatedView p mem = base
  valid : ∀ entry ∈ entries, entry.Valid p
  log : readBlock mem p.logStart (logBytes p entries).length =
    logBytes p entries
  free : ∀ i, logEnd p entries ≤ i → mem i = 0

theorem readBlock_free {mem : Nat → UInt8} {start : Nat}
    (h : ∀ i, start ≤ i → mem i = 0) (length : Nat) :
    readBlock mem start length = List.replicate length 0 := by
  apply List.ext_getElem
  · simp
  · intro i hi _
    simp [readBlock, h]

theorem Holds.replay {p : Platform} {mem base : Nat → UInt8}
    {entries : List Entry} (h : Holds p mem base entries)
    (hroom : logEnd p entries ≤ p.backingSize) :
    replay p mem =
      (.success, logEnd p entries, applyEntries entries base) := by
  have hcount := length_le_logBytes p entries
  have hfuel : p.backingSize =
      entries.length + (p.backingSize - entries.length) := by
    simp only [logEnd] at hroom
    omega
  rw [WearLeveling.replay, h.view, hfuel,
    replayLoop_entries h.valid h.log hroom]
  exact replayLoop_stop _ _ _ fun _ => readBlock_free h.free _

/-- An entry that starts inside the store is passed, wherever it ends. -/
theorem Holds.replay_ge {p : Platform} {mem base : Nat → UInt8}
    {entries : List Entry} {last : Entry}
    (h : Holds p mem base (entries ++ [last]))
    (hroom : logEnd p entries < p.backingSize) :
    logEnd p (entries ++ [last]) ≤ (WearLeveling.replay p mem).2.1 := by
  have hcount := length_le_logBytes p entries
  have hfuel : p.backingSize =
      entries.length + ((p.backingSize - entries.length - 1) + 1) := by
    simp only [logEnd] at hroom
    omega
  have hlog := h.log
  rw [logBytes_append, readBlock_append_iff] at hlog
  obtain ⟨hfirst, hlast⟩ := hlog
  simp only [logBytes_cons, logBytes_nil, List.append_nil,
    Entry.bytes_length] at hlast
  rw [WearLeveling.replay, h.view, hfuel,
    replayLoop_entries (fun entry hentry => h.valid entry (by simp [hentry]))
      hfirst (Nat.le_of_lt hroom),
    replayLoop_entry (h.valid last (by simp)) hlast hroom]
  refine Nat.le_trans (Nat.le_of_eq ?_) (le_replayLoop _ _ _)
  rw [logEnd, logBytes_append, List.length_append, logBytes_cons, logBytes_nil,
    List.append_nil, Entry.bytes_length, Nat.add_assoc]

end Qmk.WearLeveling
