import Qmk.WearLeveling.Append

/-!
# Consolidation

Consolidation erases the backing store and writes the cache and its hash to
its start.  A consolidation that reports success left exactly that behind.
-/

namespace Qmk.WearLeveling

open Qmk.Lib

/-- The backing store after the data of `cache` was consolidated. -/
def consolidatedMem (p : Platform) (cache : Nat → UInt8) : Nat → UInt8 :=
  overlay (overlay (fun _ => 0) 0 (readBlock cache 0 p.logicalSize))
    p.logicalSize
    (readBlock (p.fnv64aBuf (readBlock cache 0 p.logicalSize)) 0 8)

section Calls

variable (p : Platform)

theorem wearLevelingUnlock_frame (s : State) :
    ∃ unlocked trace, (wearLevelingUnlock p s).2 =
      { s with unlocked := unlocked, trace := trace } := by
  by_cases hs : s.unlocked = true
  · exact ⟨s.unlocked, s.trace, by rw [wearLevelingUnlock, if_pos hs]⟩
  · rw [wearLevelingUnlock, if_neg hs, backingStoreUnlock]
    cases hok : (p.answer s .unlock).ok with
    | true => exact ⟨true, ⟨.unlock, true⟩ :: s.trace, rfl⟩
    | false => exact ⟨s.unlocked, ⟨.unlock, false⟩ :: s.trace, rfl⟩

theorem wearLevelingLock_frame (s : State) :
    ∃ unlocked trace, (wearLevelingLock p s).2 =
      { s with unlocked := unlocked, trace := trace } := by
  by_cases hs : (!s.unlocked) = true
  · exact ⟨s.unlocked, s.trace, by rw [wearLevelingLock, if_pos hs]⟩
  · rw [wearLevelingLock, if_neg hs, backingStoreLock]
    cases hok : (p.answer s .lock).ok with
    | true => exact ⟨false, ⟨.lock, true⟩ :: s.trace, rfl⟩
    | false => exact ⟨s.unlocked, ⟨.lock, false⟩ :: s.trace, rfl⟩

theorem backingStoreWriteBulk_cases (address count : Nat)
    {values : List UInt8} (hlength : values.length = count * p.width)
    (s : State) :
    (∃ trace, backingStoreWriteBulk p address values count s =
      (true, { s with
        mem := overlay s.mem address values, trace := trace })) ∨
    ∃ mem trace, backingStoreWriteBulk p address values count s =
      (false, { s with mem := mem, trace := trace }) := by
  induction count generalizing address values s with
  | zero =>
      rw [Nat.zero_mul] at hlength
      have hnil := List.length_eq_zero_iff.mp hlength
      exact .inl ⟨s.trace, by simp [backingStoreWriteBulk, hnil]⟩
  | succ count ih =>
      rw [Nat.succ_mul] at hlength
      simp only [backingStoreWriteBulk, backingStoreWrite]
      cases hok : (p.answer s (.write address (values.take p.width))).ok with
      | false => exact .inr ⟨_, _, rfl⟩
      | true =>
          have hdrop : (values.drop p.width).length = count * p.width := by
            rw [List.length_drop]
            omega
          have htake : (values.take p.width).length = p.width := by
            rw [List.length_take]
            omega
          have hsplit : overlay s.mem address values =
              overlay (overlay s.mem address (values.take p.width))
                (address + p.width) (values.drop p.width) := by
            conv_lhs =>
              rw [← List.take_append_drop p.width values, overlay_append, htake]
          rw [hsplit]
          exact ih _ hdrop _

theorem wearLevelingWriteConsolidated_cases (s : State) :
    (∃ unlocked trace, wearLevelingWriteConsolidated p s =
      (.consolidated, { s with
        mem := overlay (overlay s.mem 0 (readBlock s.cache 0 p.logicalSize))
          p.logicalSize
          (readBlock (p.fnv64aBuf (readBlock s.cache 0 p.logicalSize)) 0 8)
        unlocked := unlocked, trace := trace })) ∨
    ∃ mem unlocked trace, wearLevelingWriteConsolidated p s =
      (.failed, { s with
        mem := mem, unlocked := unlocked, trace := trace }) := by
  have hdata : (readBlock s.cache 0 p.logicalSize).length =
      p.logicalSize / p.width * p.width := by
    rw [readBlock_length, p.logical_items]
  have hhash : (readBlock (p.fnv64aBuf (readBlock s.cache 0 p.logicalSize))
      0 8).length = 8 / p.width * p.width := by
    rw [readBlock_length, p.hash_items]
  obtain ⟨u, t, hunlock⟩ := wearLevelingUnlock_frame p s
  have hrelock : ∀ after : State, ∃ unlocked trace,
      (if (wearLevelingUnlock p s).1 = .success then (wearLevelingLock p after).2
        else after) = { after with unlocked := unlocked, trace := trace } := by
    intro after
    split
    · exact wearLevelingLock_frame p after
    · exact ⟨after.unlocked, after.trace, rfl⟩
  simp only [wearLevelingWriteConsolidated, hunlock]
  rcases backingStoreWriteBulk_cases p 0 _ hdata
    { s with unlocked := u, trace := t } with ⟨t1, h1⟩ | ⟨mem, t1, h1⟩
  · rw [h1]
    rcases backingStoreWriteBulk_cases p p.logicalSize _ hhash
      { s with
        mem := overlay s.mem 0 (readBlock s.cache 0 p.logicalSize)
        unlocked := u, trace := t1 } with ⟨t2, h2⟩ | ⟨mem, t2, h2⟩
    · obtain ⟨u3, t3, h3⟩ := hrelock { s with
        mem := overlay (overlay s.mem 0 (readBlock s.cache 0 p.logicalSize))
          p.logicalSize
          (readBlock (p.fnv64aBuf (readBlock s.cache 0 p.logicalSize)) 0 8)
        unlocked := u, trace := t2 }
      simp only [h2, h3]
      exact .inl ⟨u3, t3, rfl⟩
    · obtain ⟨u3, t3, h3⟩ :=
        hrelock { s with mem := mem, unlocked := u, trace := t2 }
      simp only [h2, h3]
      exact .inr ⟨mem, u3, t3, rfl⟩
  · obtain ⟨u3, t3, h3⟩ :=
      hrelock { s with mem := mem, unlocked := u, trace := t1 }
    simp only [h1, h3]
    exact .inr ⟨mem, u3, t3, rfl⟩

theorem wearLevelingConsolidateForce_cases (s : State) :
    (∃ unlocked trace, wearLevelingConsolidateForce p s =
      (.consolidated, { s with
        mem := consolidatedMem p s.cache, writeAddress := p.logStart,
        unlocked := unlocked, trace := trace })) ∨
    ∃ mem address unlocked trace,
      (address = s.writeAddress ∨ address = p.logStart) ∧
      wearLevelingConsolidateForce p s =
        (.failed, { s with
          mem := mem, writeAddress := address, unlocked := unlocked,
          trace := trace }) := by
  simp only [wearLevelingConsolidateForce, backingStoreErase]
  cases hok : (p.answer s .erase).ok with
  | false => exact .inr ⟨_, _, _, _, .inl rfl, rfl⟩
  | true =>
      rcases wearLevelingWriteConsolidated_cases p
        { s.record .erase true with mem := fun _ => 0 } with
        ⟨u, t, h⟩ | ⟨mem, u, t, h⟩
      · simp only [if_true, h]
        exact .inl ⟨u, t, rfl⟩
      · simp only [if_true, h]
        exact .inr ⟨mem, _, u, t, .inr rfl, rfl⟩

end Calls

section Reliable

variable {p : Platform} (hp : p.Reliable)

include hp

theorem backingStoreWriteBulk_reliable (address : Nat) (values : List UInt8)
    (count : Nat) (s : State) :
    (backingStoreWriteBulk p address values count s).1 = true := by
  induction count generalizing address values s with
  | zero => rfl
  | succ count ih =>
      simp only [backingStoreWriteBulk, backingStoreWrite, Platform.answer,
        hp _ _]
      exact ih _ _ _

theorem wearLevelingConsolidateForce_reliable (s : State) :
    (wearLevelingConsolidateForce p s).1 = .consolidated := by
  have hbulk : ∀ address values count after,
      backingStoreWriteBulk p address values count after =
        (true, (backingStoreWriteBulk p address values count after).2) :=
    fun address values count after => Prod.ext
      (backingStoreWriteBulk_reliable hp address values count after) rfl
  simp only [wearLevelingConsolidateForce, backingStoreErase, Platform.answer,
    hp _ _, wearLevelingWriteConsolidated]
  rw [hbulk]
  simp only
  rw [hbulk]

end Reliable

/-! ## The store a consolidation leaves -/

theorem consolidatedView_congr {p : Platform} {mem other : Nat → UInt8}
    (h : ∀ i < p.logStart, mem i = other i) :
    consolidatedView p mem = consolidatedView p other := by
  have hdata : readBlock mem 0 p.logicalSize = readBlock other 0 p.logicalSize :=
    readBlock_congr fun i hi => h _ (by simp only [Platform.logStart]; omega)
  have hhash : readBlock mem p.logicalSize 8 = readBlock other p.logicalSize 8 :=
    readBlock_congr fun i hi => h _ (by simp only [Platform.logStart]; omega)
  rw [consolidatedView, consolidatedView, hdata, hhash]

theorem Holds.erased (p : Platform) : Holds p (fun _ => 0) (fun _ => 0) [] where
  view := by
    have hzero : overlay (fun _ => 0) 0
        (readBlock (fun _ => (0 : UInt8)) 0 p.logicalSize) = fun _ => 0 :=
      overlay_readBlock _ _ _
    simp [consolidatedView, hzero]
  valid := by simp
  log := rfl
  free := fun _ _ => rfl

theorem Holds.consolidated {p : Platform} {cache : Nat → UInt8}
    (hbeyond : ∀ i, p.logicalSize ≤ i → cache i = 0) :
    Holds p (consolidatedMem p cache) cache [] where
  view := by
    have hlength : (readBlock cache 0 p.logicalSize).length = p.logicalSize :=
      readBlock_length _ _ _
    have hdata : readBlock (consolidatedMem p cache) 0 p.logicalSize =
        readBlock cache 0 p.logicalSize := by
      rw [consolidatedMem, readBlock_overlay_outside _ _ (.inl (by omega))]
      conv_lhs => rw [← hlength]
      rw [hlength]
      have hself := readBlock_overlay (fun _ => (0 : UInt8)) 0
        (readBlock cache 0 p.logicalSize)
      rwa [hlength] at hself
    have hhash : readBlock (consolidatedMem p cache) p.logicalSize 8 =
        readBlock (p.fnv64aBuf (readBlock cache 0 p.logicalSize)) 0 8 := by
      have hself := readBlock_overlay
        (overlay (fun _ => (0 : UInt8)) 0 (readBlock cache 0 p.logicalSize))
        p.logicalSize
        (readBlock (p.fnv64aBuf (readBlock cache 0 p.logicalSize)) 0 8)
      rwa [readBlock_length] at hself
    rw [consolidatedView, hdata, hhash, if_pos rfl]
    funext i
    by_cases hi : i < p.logicalSize
    · rw [overlay_inside' _ _ _ (Nat.zero_le i) (by simpa using hi)]
      simp [readBlock]
    · rw [overlay_after _ _ (by simpa using hi), hbeyond i (by omega)]
  valid := by simp
  log := rfl
  free := by
    intro i hi
    have hstart : p.logicalSize + 8 ≤ i := hi
    rw [consolidatedMem, overlay_after _ _ (by simpa using hstart),
      overlay_after _ _ (by simp; omega)]

theorem Holds.append {p : Platform} {mem base : Nat → UInt8}
    {entries more : List Entry} (h : Holds p mem base entries)
    (hmore : ∀ entry ∈ more, entry.Valid p) :
    Holds p (overlay mem (logEnd p entries) (logBytes p more)) base
      (entries ++ more) where
  view := by
    rw [← h.view]
    apply consolidatedView_congr
    intro i hi
    exact overlay_before _ _ (Nat.lt_of_lt_of_le hi (Nat.le_add_right _ _))
  valid := by
    intro entry hentry
    rcases List.mem_append.mp hentry with hentry | hentry
    · exact h.valid entry hentry
    · exact hmore entry hentry
  log := by
    rw [logBytes_append]
    refine readBlock_append_iff.mpr ⟨?_, readBlock_overlay _ _ _⟩
    rw [readBlock_overlay_outside _ _ (.inl (by rw [logEnd]))]
    exact h.log
  free := by
    intro i hi
    rw [logEnd, logBytes_append, List.length_append] at hi
    rw [overlay_after _ _ (by rw [logEnd]; omega)]
    exact h.free i (by rw [logEnd]; omega)

end Qmk.WearLeveling
