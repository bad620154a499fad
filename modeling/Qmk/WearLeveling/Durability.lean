import Qmk.WearLeveling.Write

/-!
# Durability

The log always decodes to the entries that were appended, and these rebuild
the cache from the consolidated area.  So the cache is the array that the
writes describe, and initialising again finds that array.
-/

namespace Qmk.WearLeveling

open Qmk.Lib

/-- Between calls the backing store holds what the cache serves. -/
structure Live (p : Platform) (s : State) (base : Nat → UInt8)
    (entries : List Entry) : Prop where
  holds : Holds p s.mem base entries
  cursor : s.writeAddress = logEnd p entries
  room : s.writeAddress < p.backingSize
  cache : s.cache = applyEntries entries base
  beyond : ∀ i, p.logicalSize ≤ i → s.cache i = 0

theorem Live.of_frame {p : Platform} {s : State} {base : Nat → UInt8}
    {entries : List Entry} (h : Live p s base entries) (unlocked : Bool)
    (trace : List Event) :
    Live p { s with unlocked := unlocked, trace := trace } base entries :=
  ⟨h.holds, h.cursor, h.room, h.cache, h.beyond⟩

theorem overlay_beyond {cache : Nat → UInt8} {logicalSize address : Nat}
    {value : List UInt8} (h : ∀ i, logicalSize ≤ i → cache i = 0)
    (hbound : address + value.length ≤ logicalSize) :
    ∀ i, logicalSize ≤ i → overlay cache address value i = 0 := by
  intro i hi
  rw [overlay_after _ _ (by omega)]
  exact h i hi

section Calls

variable {p : Platform} {s : State} {base : Nat → UInt8} {entries : List Entry}

theorem Live.replay (h : Live p s base entries) :
    replay p s.mem = (.success, s.writeAddress, s.cache) := by
  rw [h.holds.replay (by rw [← h.cursor]; exact Nat.le_of_lt h.room), h.cursor,
    h.cache]

theorem Live.init_eq (hp : p.ReadsWork) (h : Live p s base entries)
    {other : State} (hmem : other.mem = s.mem) :
    ∃ trace, QuietSince other.trace trace ∧ wearLevelingInit p other =
      (.success, { other with
        cache := s.cache, writeAddress := s.writeAddress, trace := trace }) := by
  have hreplay := h.replay
  rw [← hmem] at hreplay
  exact wearLevelingInit_works hp hreplay h.room

theorem Live.of_init (h : Live p s base entries) {other : State}
    (hmem : other.mem = s.mem) (trace : List Event) :
    Live p { other with
      cache := s.cache, writeAddress := s.writeAddress, trace := trace }
      base entries :=
  ⟨hmem ▸ h.holds, h.cursor, h.room, h.cache, h.beyond⟩

theorem Live.of_consolidated (hroom : p.logStart < p.backingSize)
    (hbeyond : ∀ i, p.logicalSize ≤ i → s.cache i = 0) (unlocked : Bool)
    (trace : List Event) :
    Live p { s with
      mem := consolidatedMem p s.cache, writeAddress := p.logStart
      unlocked := unlocked, trace := trace } s.cache [] :=
  ⟨.consolidated hbeyond, rfl, hroom, rfl, hbeyond⟩

theorem words_length_flatten {words : List (List UInt8)} {width : Nat}
    (h : ∀ word ∈ words, word.length = width) :
    words.flatten.length = width * words.length := by
  induction words with
  | nil => rfl
  | cons word words ih =>
      rw [List.flatten_cons, List.length_append, h word (by simp),
        ih fun other hother => h other (by simp [hother]), List.length_cons,
        Nat.mul_succ, Nat.add_comm]

/-- The write is in the cache, and the store is as it was before it. -/
structure Started (s : State) (address : Nat) (value : List UInt8)
    (after : State) : Prop where
  cache : after.cache = overlay s.cache address value
  mem : after.mem = s.mem
  cursor : after.writeAddress = s.writeAddress

theorem Live.of_appended (h : Live p s base entries)
    (hlogical : p.logicalSize ≤ 2 ^ 19) {address : Nat} {value : List UInt8}
    (hbound : address + value.length ≤ p.logicalSize) {after : State}
    (hafter : Started s address value after)
    (hroom : (after.appended p (wordsFor p address value)).writeAddress <
      p.backingSize) :
    Live p (after.appended p (wordsFor p address value)) base
      (entries ++ entriesFor p value.length address value) where
  holds := by
    have hvalid := entriesFor_valid hlogical value.length hbound
    have happend := h.holds.append hvalid
    rw [← wordsFor_flatten, ← h.cursor, ← hafter.mem, ← hafter.cursor] at happend
    exact happend
  cursor := by
    have hwords : ∀ word ∈ wordsFor p address value, word.length = p.width :=
      fun _ hword => wordsFor_length_of_mem hword
    have hlength := words_length_flatten hwords
    simp only [State.appended]
    rw [logEnd, logBytes_append, List.length_append, ← wordsFor_flatten,
      hlength, hafter.cursor, h.cursor, logEnd, Nat.add_assoc]
  room := hroom
  cache := by
    rw [applyEntries_append, ← h.cache,
      applyEntries_entriesFor _ _ _ (Nat.le_refl _)]
    exact hafter.cache
  beyond := by
    rw [State.appended_cache, hafter.cache]
    exact overlay_beyond h.beyond hbound

/-- What `wear_leveling_write` does between unlocking and locking. -/
theorem Live.of_started (hp : p.Reliable) (h : Live p s base entries)
    (hstart : p.logStart < p.backingSize) (hlogical : p.logicalSize ≤ 2 ^ 19)
    {address : Nat} {value : List UInt8}
    (hbound : address + value.length ≤ p.logicalSize) {after : State}
    (hafter : Started s address value after) (lockStatus : LockStatus) :
    ∃ final base entries,
      (relock p lockStatus
        (appendThenConsolidate p (wordsFor p address value) after)).2 = final ∧
      final.cache = overlay s.cache address value ∧
      Live p final base entries := by
  have hwords : ∀ word ∈ wordsFor p address value, word.length = p.width :=
    fun _ hword => wordsFor_length_of_mem hword
  have hroom := h.room
  rw [← hafter.cursor] at hroom
  have hbeyond := overlay_beyond h.beyond hbound
  rw [← hafter.cache] at hbeyond
  have happends := appendAll_appends _ hwords hroom
  rw [appendThenConsolidate_eq hwords hroom]
  generalize appendAll p (wordsFor p address value) after = result at happends
  obtain ⟨u, t, hframe, -⟩ := relock_cases (p := p) lockStatus result
  cases happends with
  | done hroom =>
      have hlive := h.of_appended hlogical hbound hafter hroom
      exact ⟨_, base, _, hframe, hafter.cache, hlive.of_frame u t⟩
  | failed before rest word hsplit hroom hfail =>
      rw [Platform.answer, hp] at hfail
      exact absurd hfail Bool.noConfusion
  | full before rest word hsplit hroom hfull =>
      have hstatus := wearLevelingConsolidateForce_reliable hp
        (after.appended p (before ++ [word]))
      rcases wearLevelingConsolidateForce_cases p
        (after.appended p (before ++ [word])) with
        ⟨u', t', hforce⟩ | ⟨mem, a, u', t', -, hforce⟩
      · rw [hforce] at hframe ⊢
        exact ⟨_, _, [], hframe, hafter.cache,
          .of_consolidated hstart hbeyond u t⟩
      · rw [hforce] at hstatus
        exact absurd hstatus Status.noConfusion

theorem Live.write (hp : p.Reliable) (h : Live p s base entries)
    (hstart : p.logStart < p.backingSize) (hlogical : p.logicalSize ≤ 2 ^ 19)
    {address : Nat} {value : List UInt8}
    (hbound : address + value.length ≤ p.logicalSize) :
    ∃ final base entries, (wearLevelingWrite p address value s).2 = final ∧
      final.cache = overlay s.cache address value ∧
      Live p final base entries := by
  by_cases hsame : value = readBlock s.cache address value.length
  · rw [wearLevelingWrite_repeated hbound hsame]
    exact ⟨s, base, entries, rfl, (overlay_of_readBlock_eq hsame.symm).symm, h⟩
  · rw [wearLevelingWrite_eq hbound hsame]
    obtain ⟨u, t, hunlock⟩ := wearLevelingUnlock_frame p
      { s with cache := overlay s.cache address value }
    rcases hlock : wearLevelingUnlock p
      { s with cache := overlay s.cache address value } with ⟨status, after⟩
    rw [hlock] at hunlock
    simp only at hunlock
    have hafter : Started s address value after := by
      rw [hunlock]
      exact ⟨rfl, rfl, rfl⟩
    cases status with
    | failure =>
        simp only [wearLevelingUnlock, backingStoreUnlock, Platform.answer,
          hp _ _] at hlock
        split at hlock <;> cases hlock
    | success => exact h.of_started hp hstart hlogical hbound hafter .success
    | unchanged => exact h.of_started hp hstart hlogical hbound hafter .unchanged

theorem wearLevelingErase_live (hp : p.Reliable)
    (hstart : p.logStart < p.backingSize) :
    Live p (wearLevelingErase p s).2 (fun _ => 0) [] ∧
      (wearLevelingErase p s).2.cache = fun _ => 0 := by
  have hlive : ∀ unlocked trace, Live p
      ⟨fun _ => 0, p.logStart, unlocked, fun _ => 0, trace⟩ (fun _ => 0) [] :=
    fun _ _ => ⟨.erased p, rfl, hstart, rfl, fun _ _ => rfl⟩
  cases hs : s.unlocked with
  | true =>
      simp only [wearLevelingErase, wearLevelingUnlock, hs, if_true,
        backingStoreErase, Platform.answer, hp _ _, wearLevelingClearCache,
        reduceCtorEq, if_false]
      exact ⟨hlive _ _, trivial⟩
  | false =>
      simp only [wearLevelingErase, wearLevelingUnlock, hs, Bool.false_eq_true,
        if_false, backingStoreUnlock, backingStoreErase, Platform.answer,
        hp _ _, if_true, wearLevelingClearCache, wearLevelingLock,
        backingStoreLock, State.record, Bool.not_true]
      exact ⟨hlive _ _, trivial⟩

end Calls

/-! ## Runs -/

/-- What the operations mean: an array of bytes, all zero at first. -/
def Operation.meaning (array : Nat → UInt8) : Operation → Nat → UInt8
  | .erase => fun _ => 0
  | .write address value => overlay array address value
  | _ => array

section Runs

variable {p : Platform} (hp : p.Reliable)
  (hstart : p.logicalSize + 8 < p.backingSize)
  (hlogical : p.logicalSize ≤ 2 ^ 19)

/-- The engine serves `array`. -/
def Serves (p : Platform) (s : State) (array : Nat → UInt8) : Prop :=
  s.cache = array ∧ ∃ base entries, Live p s base entries

include hp hstart hlogical

theorem Serves.step {s : State} {array : Nat → UInt8} (h : Serves p s array)
    (op : Operation) (hop : op.InBounds p) :
    Serves p (perform p s op) (op.meaning array) := by
  obtain ⟨hcache, base, entries, hlive⟩ := h
  cases op with
  | init =>
      obtain ⟨trace, -, hinit⟩ := hlive.init_eq hp.readsWork rfl
      simp only [perform, hinit]
      exact ⟨hcache, base, entries, hlive.of_init rfl trace⟩
  | erase =>
      obtain ⟨hlive, hzero⟩ := wearLevelingErase_live (s := s) hp hstart
      exact ⟨hzero, _, _, hlive⟩
  | write address value =>
      obtain ⟨final, base, entries, hfinal, hwrite, hlive⟩ :=
        hlive.write hp hstart hlogical hop
      rw [perform, hfinal]
      exact ⟨hcache ▸ hwrite, base, entries, hlive⟩
  | read address length => exact ⟨hcache, base, entries, hlive⟩

omit hlogical in
theorem Serves.start :
    Serves p (perform p (boot fun _ => 0) .init) fun _ => 0 := by
  have hreplay : replay p (boot fun _ => 0).mem =
      (.success, p.logStart, fun _ => 0) :=
    (Holds.erased p).replay (Nat.le_of_lt hstart)
  obtain ⟨trace, -, hinit⟩ :=
    wearLevelingInit_works hp.readsWork (s := boot fun _ => 0) hreplay hstart
  simp only [perform, hinit]
  exact ⟨rfl, fun _ => 0, [], .erased p, rfl, hstart, rfl, fun _ _ => rfl⟩

theorem Serves.run {ops : List Operation} (hops : ∀ op ∈ ops, op.InBounds p) :
    Serves p (run (perform p) (boot fun _ => 0) (.init :: ops))
      (Lib.run Operation.meaning (fun _ => 0) ops) := by
  rw [run_cons]
  exact run_simulates (Serves p)
    (fun s array op h hop => Serves.step hp hstart hlogical h op hop) hops
    (Serves.start hp hstart)

omit hstart hlogical in
theorem Serves.reboot {s : State} {array : Nat → UInt8} (h : Serves p s array) :
    Serves p (wearLevelingInit p (boot s.mem)).2 array := by
  obtain ⟨hcache, base, entries, hlive⟩ := h
  have hmem : (boot s.mem).mem = s.mem := rfl
  obtain ⟨trace, -, hinit⟩ := hlive.init_eq hp.readsWork hmem
  rw [hinit]
  exact ⟨hcache, base, entries,
    hlive.of_init hmem trace⟩

omit hp hstart hlogical in
theorem Serves.read {s : State} {array : Nat → UInt8} (h : Serves p s array)
    {address length : Nat} (hbound : address + length ≤ p.logicalSize) :
    wearLevelingRead p address length s =
      (.success, readBlock array address length) := by
  rw [wearLevelingRead, if_neg (Nat.not_lt.mpr hbound), h.1]

/--
After any run the engine serves the array that the operations describe, and so
does the engine that initialises on the same backing store.
-/
theorem wearLeveling_durable {ops : List Operation}
    (hops : ∀ op ∈ ops, op.InBounds p) {address length : Nat}
    (hbound : address + length ≤ p.logicalSize) :
    wearLevelingRead p address length
        (run (perform p) (boot fun _ => 0) (.init :: ops)) =
      (.success,
        readBlock (run Operation.meaning (fun _ => 0) ops) address length) ∧
    wearLevelingRead p address length
        (wearLevelingInit p
          (boot (run (perform p) (boot fun _ => 0) (.init :: ops)).mem)).2 =
      (.success,
        readBlock (run Operation.meaning (fun _ => 0) ops) address length) := by
  have hserves := Serves.run hp hstart hlogical hops
  exact ⟨hserves.read hbound, (hserves.reboot hp).read hbound⟩

end Runs

theorem smallBoard_durable :
    smallBoard.Reliable ∧
      wearLevelingRead smallBoard 2 4
          (wearLevelingInit smallBoard
            (boot (run (perform smallBoard) (boot fun _ => 0)
              [.init, .write 0 [7, 8, 9, 10], .write 3 [1, 0, 1]]).mem)).2 =
        (.success,
          readBlock (run Operation.meaning (fun _ => 0)
            [.write 0 [7, 8, 9, 10], .write 3 [1, 0, 1]]) 2 4) := by
  have hp : smallBoard.Reliable := fun _ _ => rfl
  exact ⟨hp, (@wearLeveling_durable smallBoard hp (by decide) (by decide)
    [.write 0 [7, 8, 9, 10], .write 3 [1, 0, 1]]
    (by simp [Operation.InBounds, smallBoard]) 2 4 (by decide)).2⟩

end Qmk.WearLeveling
