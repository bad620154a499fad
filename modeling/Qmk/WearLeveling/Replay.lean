import Mathlib.Tactic.SplitIfs
import Qmk.Lib.Trace
import Qmk.WearLeveling.Entry

/-!
# Initialisation as a function of the backing store

While reads succeed, `wear_leveling_init` computes a function of the cells of
the backing store.  `replay` is that function: the consolidated area, if its
hash matches, overlaid with the entries of the write log up to the first free
slot.  The lemmas named `_works` relate the source's functions to it.
-/

namespace Qmk.WearLeveling

open Qmk.Lib

/-! ## Calls that leave the backing store alone -/

def Event.Quiet (event : Event) : Prop :=
  event.call = .init ∨ ∃ address, event.call = .read address

/-- Only quiet calls were made since `past`. -/
def QuietSince : List Event → List Event → Prop :=
  Extends fun _ event => event.Quiet

theorem QuietSince.read (past : List Event) (address : Nat) (ok : Bool) :
    QuietSince past (⟨.read address, ok⟩ :: past) :=
  .one (.inr ⟨address, rfl⟩)

/-- Initialisation and reads succeed. -/
def Platform.ReadsWork (p : Platform) : Prop :=
  ∀ trace, (p.verdict trace .init).ok = true ∧
    ∀ address, (p.verdict trace (.read address)).ok = true

theorem Platform.Reliable.readsWork {p : Platform} (h : p.Reliable) :
    p.ReadsWork :=
  fun trace => ⟨h trace _, fun _ => h trace _⟩

/-! ## What initialisation computes -/

/-- The cache after `wear_leveling_read_consolidated`. -/
def consolidatedView (p : Platform) (mem : Nat → UInt8) : Nat → UInt8 :=
  let cache := overlay (fun _ => 0) 0 (readBlock mem 0 p.logicalSize)
  if readBlock mem p.logicalSize 8 =
      readBlock (p.fnv64aBuf (readBlock mem 0 p.logicalSize)) 0 8 then cache
  else fun _ => 0

/-- The playback loop on the cells alone: its verdict, its position, the cache. -/
def replayLoop (p : Platform) (mem : Nat → UInt8) :
    Nat → Nat → (Nat → UInt8) → Status × Nat × (Nat → UInt8)
  | 0, position, cache => (.success, position, cache)
  | fuel + 1, position, cache =>
      if position < p.backingSize then
        if readBlock mem position p.width = List.replicate p.width 0 then
          (.success, position, cache)
        else
          match scanEntry p mem position with
          | none => (.failed, position, cache)
          | some record =>
              replayLoop p mem fuel (position + record.size)
                (overlay cache record.address record.value)
      else (.success, position, cache)

def replay (p : Platform) (mem : Nat → UInt8) : Status × Nat × (Nat → UInt8) :=
  replayLoop p mem p.backingSize p.logStart (consolidatedView p mem)

section Works

variable {p : Platform}

theorem backingStoreRead_works (h : p.ReadsWork) (address : Nat) (s : State) :
    backingStoreRead p address s =
      (true, readBlock s.mem address p.width, s.record (.read address) true) := by
  simp [backingStoreRead, Platform.answer, (h s.trace).2 address]

theorem backingStoreReadBulk_works (h : p.ReadsWork) (address count : Nat)
    (s : State) :
    ∃ trace, QuietSince s.trace trace ∧
      backingStoreReadBulk p address count s =
        (true, readBlock s.mem address (count * p.width),
          { s with trace := trace }) := by
  induction count generalizing address s with
  | zero => exact ⟨s.trace, .refl, by simp [backingStoreReadBulk]⟩
  | succ count ih =>
      obtain ⟨trace, hquiet, hrest⟩ :=
        ih (address + p.width) (s.record (.read address) true)
      refine ⟨trace, (QuietSince.read _ _ _).trans hquiet, ?_⟩
      simp only [backingStoreReadBulk, backingStoreRead_works h, hrest]
      rw [Nat.succ_mul, Nat.add_comm (count * p.width), readBlock_add]
      rfl

/-- Reading word `k` of an entry whose first `k` words are in the union. -/
theorem playbackReadWord_works (h : p.ReadsWork) (wanted : Bool)
    (k position : Nat) (s : State) :
    ∃ trace, QuietSince s.trace trace ∧
      playbackReadWord p wanted k (position + p.width * k)
          (readEntry s.mem position (p.width * k)) s =
        (true, position + p.width * (k + wanted.toNat),
          readEntry s.mem position (p.width * (k + wanted.toNat)),
          { s with trace := trace }) := by
  cases wanted with
  | false => exact ⟨s.trace, .refl, by simp [playbackReadWord]⟩
  | true =>
      refine ⟨_, QuietSince.read s.trace (position + p.width * k) true, ?_⟩
      simp only [playbackReadWord, if_true, backingStoreRead_works h,
        readEntry_overlay, Bool.toNat_true, Nat.mul_add, Nat.mul_one,
        Nat.add_assoc]
      rfl

theorem playbackReadWord_unwanted (k position : Nat) (log : WriteLogEntry)
    (s : State) :
    playbackReadWord p false k position log s = (true, position, log, s) := rfl

/-- The first three bytes of a multi-byte entry decide what it addresses. -/
theorem multibyte_header_congr (mem : Nat → UInt8) (position : Nat)
    {first second : Nat} (hfirst : 3 ≤ first) (hsecond : 3 ≤ second) :
    logEntryMultibyteGetAddress (readEntry mem position first) =
        logEntryMultibyteGetAddress (readEntry mem position second) ∧
      logEntryMultibyteGetLength (readEntry mem position first) =
        logEntryMultibyteGetLength (readEntry mem position second) := by
  have heq : ∀ i < 3,
      readEntry mem position first i = readEntry mem position second i := by
    intro i hi
    rw [readEntry_apply _ _ (by omega), readEntry_apply _ _ (by omega)]
  exact ⟨logEntryMultibyteGetAddress_congr heq,
    logEntryMultibyteGetLength_congr (heq 0 (by decide))⟩

/-- The words that playback reads of a multi-byte entry, one condition a word. -/
theorem multibyteWords_eq (w : WriteSize) (length : Nat) :
    w.multibyteWords length =
      1 + (decide (w = .two)).toNat +
        (decide (w ≠ .eight ∧ 1 < length)).toNat +
        (decide (w = .two ∧ 3 < length)).toNat := by
  by_cases h1 : 1 < length <;> by_cases h3 : 3 < length <;> cases w <;>
    simp [WriteSize.multibyteWords, h1, h3]

/--
What one round of playback returns, given the entry it found at `position`;
`stop` is where it gives up when it finds none.
-/
def afterEntry (s : State) (position stop : Nat) (trace : List Event) :
    Option LogRecord → Status × Nat × State
  | none => (.failed, stop, { s with trace := trace })
  | some record =>
      (.success, position + record.size,
        { s with
          cache := overlay s.cache record.address record.value, trace := trace })

theorem playbackMultibyte_works (h : p.ReadsWork) (position : Nat) (s : State) :
    ∃ trace stop, QuietSince s.trace trace ∧
      playbackMultibyte p (position + p.width)
          (readEntry s.mem position p.width) s =
        afterEntry s position stop trace (scanMultibyte p s.mem position) := by
  obtain ⟨t1, q1, h1⟩ :=
    playbackReadWord_works h (decide (p.writeSize = .two)) 1 position s
  have hthree : 3 ≤ p.width * (1 + (decide (p.writeSize = .two)).toNat) := by
    cases hw : p.writeSize <;> simp [Platform.width, hw, WriteSize.bytes]
  have hfull : p.width * (1 + (decide (p.writeSize = .two)).toNat) ≤
      multibyteSize p s.mem position := by
    rw [multibyteSize, multibyteWords_eq]
    exact Nat.mul_le_mul_left _ (by omega)
  obtain ⟨haddress, hlength⟩ := multibyte_header_congr s.mem position hthree
    (Nat.le_trans hthree hfull)
  rw [Nat.mul_one] at h1
  simp only [playbackMultibyte, h1, scanMultibyte, haddress, hlength]
  by_cases hbound : p.logicalSize <
      logEntryMultibyteGetAddress
          (readEntry s.mem position (multibyteSize p s.mem position)) +
        logEntryMultibyteGetLength
          (readEntry s.mem position (multibyteSize p s.mem position))
  · exact ⟨t1, _, q1, by simp only [hbound, if_true]; rfl⟩
  · simp only [hbound, if_false]
    have hwords := multibyteWords_eq p.writeSize
      (logEntryMultibyteGetLength (readEntry s.mem position p.width))
    have hhead : logEntryMultibyteGetLength
        (readEntry s.mem position p.width) =
          logEntryMultibyteGetLength
            (readEntry s.mem position (multibyteSize p s.mem position)) := by
      have hwidth := p.writeSize.bytes_pos
      apply logEntryMultibyteGetLength_congr
      rw [readEntry_apply _ _ hwidth, readEntry_apply _ _ (by omega)]
    rw [hhead] at hwords
    generalize hl : logEntryMultibyteGetLength
      (readEntry s.mem position (multibyteSize p s.mem position)) = l at *
    have hsize : multibyteSize p s.mem position =
        p.width * p.writeSize.multibyteWords l := by
      rw [multibyteSize, hhead]
    have hindex : (if p.writeSize = .two then 2 else 1) =
        1 + (decide (p.writeSize = .two)).toNat := by
      by_cases hw : p.writeSize = .two <;> simp [hw]
    obtain ⟨t2, q2, h2⟩ := playbackReadWord_works h
      (decide (p.writeSize ≠ .eight ∧ 1 < l))
      (1 + (decide (p.writeSize = .two)).toNat) position
      { s with trace := t1 }
    simp only [hindex, h2]
    by_cases hlast : p.writeSize = .two ∧ 3 < l
    · obtain ⟨t3, q3, h3⟩ := playbackReadWord_works h
        (decide (p.writeSize = .two ∧ 3 < l)) 3 position
        { s with trace := t2 }
      have hthird : 1 + (decide (p.writeSize = .two)).toNat +
          (decide (p.writeSize ≠ .eight ∧ 1 < l)).toNat = 3 := by
        have : 1 < l := by omega
        simp [hlast.1, this]
      rw [hthird] at hwords ⊢
      refine ⟨t3, 0, q1.trans (q2.trans q3), ?_⟩
      simp only [h3, afterEntry, hsize, hwords]
    · have hunwanted : decide (p.writeSize = .two ∧ 3 < l) = false := by
        simpa using hlast
      refine ⟨t2, 0, q1.trans q2, ?_⟩
      rw [hunwanted] at hwords ⊢
      simp only [playbackReadWord_unwanted, afterEntry, hsize, hwords,
        Bool.toNat_false, Nat.add_zero]

theorem playbackEntry_works (h : p.ReadsWork) (position : Nat) (s : State) :
    ∃ trace stop, QuietSince s.trace trace ∧
      playbackEntry p (position + p.width)
          (readEntry s.mem position p.width) s =
        afterEntry s position stop trace (scanEntry p s.mem position) := by
  simp only [playbackEntry, scanEntry]
  split_ifs with htype h64 hbound64 h01 hbound01
  · exact playbackMultibyte_works h position s
  · exact ⟨s.trace, position + p.width, .refl, by
      simp only [playbackOptimized64, hbound64, if_true, afterEntry]⟩
  · exact ⟨s.trace, 0, .refl, by
      simp only [playbackOptimized64, hbound64, if_false, afterEntry]⟩
  · exact ⟨s.trace, position + p.width, .refl, by
      simp only [playbackWord01, hbound01, if_true, afterEntry]⟩
  · exact ⟨s.trace, 0, .refl, by
      simp only [playbackWord01, hbound01, if_false, afterEntry]⟩
  · exact ⟨s.trace, _, .refl, rfl⟩

theorem playbackLoop_works (h : p.ReadsWork) (fuel position : Nat) (s : State) :
    ∃ trace stop, QuietSince s.trace trace ∧
      playbackLoop p fuel position s =
        ((replayLoop p s.mem fuel position s.cache).1, stop,
          { s with
            cache := (replayLoop p s.mem fuel position s.cache).2.2,
            trace := trace }) ∧
      ((replayLoop p s.mem fuel position s.cache).1 = .success →
        stop = (replayLoop p s.mem fuel position s.cache).2.1) := by
  induction fuel generalizing position s with
  | zero => exact ⟨s.trace, position, .refl, rfl, fun _ => rfl⟩
  | succ fuel ih =>
      simp only [playbackLoop, replayLoop]
      by_cases hposition : position < p.backingSize
      · simp only [hposition, if_true, backingStoreRead_works h]
        by_cases hfree :
            readBlock s.mem position p.width = List.replicate p.width 0
        · simp only [hfree, if_true]
          exact ⟨_, position, QuietSince.read _ _ _, rfl, fun _ => rfl⟩
        · simp only [hfree, if_false]
          obtain ⟨trace, stop, hquiet, hentry⟩ :=
            playbackEntry_works h position (s.record (.read position) true)
          have hquiet := (QuietSince.read s.trace position true).trans hquiet
          have hread : overlay (fun _ => 0) 0
              (readBlock s.mem position p.width) =
                readEntry (s.record (.read position) true).mem position
                  p.width := rfl
          rw [hread, hentry]
          cases hscan : scanEntry p s.mem position with
          | none =>
              simp only [State.record, hscan, afterEntry]
              exact ⟨trace, stop, hquiet, rfl, by simp⟩
          | some record =>
              simp only [State.record, hscan, afterEntry]
              obtain ⟨trace', stop', hquiet', hrest⟩ :=
                ih (position + record.size)
                  { s with
                    cache := overlay s.cache record.address record.value,
                    trace := trace }
              exact ⟨trace', stop', hquiet.trans hquiet', hrest⟩
      · simp only [hposition, if_false]
        exact ⟨s.trace, position, .refl, by simp, fun _ => rfl⟩

theorem wearLevelingReadConsolidated_works (h : p.ReadsWork) (s : State)
    (hcache : s.cache = fun _ => 0) (haddress : s.writeAddress = p.logStart) :
    ∃ trace, QuietSince s.trace trace ∧
      wearLevelingReadConsolidated p s =
        (.success, { s with
          cache := consolidatedView p s.mem, trace := trace }) := by
  obtain ⟨t1, q1, h1⟩ :=
    backingStoreReadBulk_works h 0 (p.logicalSize / p.width) s
  obtain ⟨t2, q2, h2⟩ :=
    backingStoreReadBulk_works h p.logicalSize (8 / p.width)
      { s with
        cache := overlay s.cache 0 (readBlock s.mem 0 p.logicalSize),
        trace := t1 }
  rw [p.logical_items] at h1
  rw [p.hash_items] at h2
  have hbuffer : readBlock
      (overlay s.cache 0 (readBlock s.mem 0 p.logicalSize)) 0 p.logicalSize =
        readBlock s.mem 0 p.logicalSize := by
    have hread := readBlock_overlay s.cache 0 (readBlock s.mem 0 p.logicalSize)
    rwa [readBlock_length] at hread
  refine ⟨t2, q1.trans q2, ?_⟩
  simp only [wearLevelingReadConsolidated, h1, h2, hbuffer, consolidatedView]
  split
  · rw [hcache]
  · simp [wearLevelingClearCache, haddress]

/-- Initialisation loads what `replay` computes when that leaves room in the log. -/
theorem wearLevelingInit_works (h : p.ReadsWork) {s : State} {stop : Nat}
    {cache : Nat → UInt8} (hreplay : replay p s.mem = (.success, stop, cache))
    (hroom : stop < p.backingSize) :
    ∃ trace, QuietSince s.trace trace ∧
      wearLevelingInit p s =
        (.success, { s with
          cache := cache, writeAddress := stop, trace := trace }) := by
  have hinit : backingStoreInit p (wearLevelingClearCache p s) =
      (true, (wearLevelingClearCache p s).record .init true) := by
    simp [backingStoreInit, Platform.answer,
      (h (wearLevelingClearCache p s).trace).1]
  obtain ⟨t1, q1, h1⟩ := wearLevelingReadConsolidated_works h
    ((wearLevelingClearCache p s).record .init true) rfl rfl
  obtain ⟨t2, stop', q2, h2, hstop⟩ :=
    playbackLoop_works h p.backingSize p.logStart
      { (wearLevelingClearCache p s).record .init true with
        cache := consolidatedView p s.mem, trace := t1 }
  have hquiet : QuietSince s.trace t2 :=
    have hfirst : QuietSince s.trace (⟨.init, true⟩ :: s.trace) :=
      .one (.inl rfl)
    hfirst.trans (q1.trans q2)
  have hloop : replayLoop p s.mem p.backingSize p.logStart
      (consolidatedView p s.mem) = (.success, stop, cache) := hreplay
  simp only [State.record, wearLevelingClearCache, hloop] at h2 hstop
  have hstop : stop' = stop := hstop trivial
  refine ⟨t2, hquiet, ?_⟩
  simp only [wearLevelingInit, hinit, h1]
  simp only [State.record, wearLevelingClearCache, wearLevelingPlaybackLog, h2,
    hstop, reduceCtorEq, if_false, wearLevelingConsolidateIfNeeded,
    Nat.not_le.mpr hroom]

end Works

end Qmk.WearLeveling
