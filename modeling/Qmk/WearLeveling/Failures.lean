import Qmk.WearLeveling.Torn
import Qmk.WearLeveling.Bounds

/-!
# Writes after failures

A write that fails has already changed the cache, and it may have left part of
an entry in the log.  Later writes are then skipped because the cache has their
value, or are glued to the torn entry.  This module follows both: `Audit` keeps
the bytes that the cache has and the store may not.
-/

namespace Qmk.WearLeveling

open Qmk.Lib

/-- The store without the cells from the cursor on. -/
def storeBelow (s : State) : Nat → UInt8 :=
  fun i => if i < s.writeAddress then s.mem i else 0

/-- Whole entries fill the log up to the cursor; only the word there may be spoiled. -/
structure LogTidy (p : Platform) (s : State) (base : Nat → UInt8)
    (entries : List Entry) : Prop where
  holds : Holds p (storeBelow s) base entries
  cursor : s.writeAddress = logEnd p entries
  room : s.writeAddress < p.backingSize
  free : ∀ i, s.writeAddress + p.width ≤ i → s.mem i = 0

def Tidy (p : Platform) (s : State) : Prop :=
  ∃ base entries, LogTidy p s base entries

/-- No cell from the cursor on is spoiled. -/
def Clean (p : Platform) (s : State) : Prop :=
  Tidy p s ∧ ∀ i, s.writeAddress ≤ i → s.mem i = 0

def eraseCount (trace : List Event) : Nat :=
  trace.countP fun event => event.call = .erase

/-! ## Where a write can end -/

/-- The state and status that a write which is not skipped can end with. -/
inductive Outcome (p : Platform) (s : State) (address : Nat)
    (value : List UInt8) : Status → State → Prop
  | refused (final : State) (hfinal : Started s address value final) :
      Outcome p s address value .failed final
  | appended (after final : State) (status : Status)
      (hafter : Started s address value after)
      (hroom : (after.appended p (wordsFor p address value)).writeAddress <
        p.backingSize)
      (hmem : final.mem = (after.appended p (wordsFor p address value)).mem)
      (hcursor : final.writeAddress =
        (after.appended p (wordsFor p address value)).writeAddress)
      (hcache : final.cache = after.cache)
      (hstatus : status = .success ∨ status = .failed) :
      Outcome p s address value status final
  | spoiled (after final : State) (before rest : List (List UInt8))
      (word : List UInt8) (hafter : Started s address value after)
      (hwords : wordsFor p address value = before ++ word :: rest)
      (hroom : (after.appended p before).writeAddress < p.backingSize)
      (hmem : final.mem = ((after.appended p before).spoiled p word).mem)
      (hcursor : final.writeAddress = (after.appended p before).writeAddress)
      (hcache : final.cache = after.cache) :
      Outcome p s address value .failed final
  | consolidated (final : State)
      (hcache : final.cache = overlay s.cache address value)
      (hmem : final.mem = consolidatedMem p final.cache)
      (hcursor : final.writeAddress = p.logStart)
      (hfull : p.backingSize ≤
        s.writeAddress + p.width * (wordsFor p address value).length) :
      Outcome p s address value .consolidated final
  | lost (final : State)
      (hcache : final.cache = overlay s.cache address value)
      (herase : eraseCount s.trace < eraseCount final.trace) :
      Outcome p s address value .failed final

section Outcome

variable {p : Platform}

theorem appendTrace_suffix (words : List (List UInt8)) (address : Nat)
    (trace : List Event) : trace <:+ appendTrace p address words trace := by
  induction words generalizing address trace with
  | nil => exact List.suffix_rfl
  | cons word words ih =>
      exact (List.suffix_cons _ _).trans (ih _ _)

theorem eraseCount_le {past trace : List Event} (h : past <:+ trace) :
    eraseCount past ≤ eraseCount trace :=
  h.countP_le

theorem wearLevelingConsolidateForce_erases (h : p.logStart ≤ p.backingSize)
    (s : State) :
    eraseCount s.trace <
      eraseCount (wearLevelingConsolidateForce p s).2.trace := by
  have hone : ∀ ok, eraseCount s.trace <
      eraseCount (⟨.erase, ok⟩ :: s.trace) := by
    intro ok
    simp [eraseCount]
  simp only [wearLevelingConsolidateForce, backingStoreErase]
  cases hok : (p.answer s .erase).ok with
  | false => exact hone false
  | true =>
      have hwritten := wearLevelingWriteConsolidated_within h
        { s.record .erase true with mem := fun _ => 0 }
      exact Nat.lt_of_lt_of_le (hone true) (eraseCount_le hwritten.suffix)

theorem wearLevelingWrite_outcome (hstart : p.logStart ≤ p.backingSize)
    {s : State} {address : Nat} {value : List UInt8}
    (hbound : address + value.length ≤ p.logicalSize)
    (hnew : value ≠ readBlock s.cache address value.length)
    (hroom : s.writeAddress < p.backingSize) :
    Outcome p s address value (wearLevelingWrite p address value s).1
      (wearLevelingWrite p address value s).2 := by
  have hwords : ∀ word ∈ wordsFor p address value, word.length = p.width :=
    fun _ hword => wordsFor_length_of_mem hword
  rw [wearLevelingWrite_eq hbound hnew]
  have hunlock := wearLevelingUnlock_within (p := p)
    { s with cache := overlay s.cache address value }
  obtain ⟨u, t, hframe⟩ := wearLevelingUnlock_frame p
    { s with cache := overlay s.cache address value }
  rcases hlock : wearLevelingUnlock p
    { s with cache := overlay s.cache address value } with ⟨lockStatus, after⟩
  rw [hlock] at hframe hunlock
  simp only at hframe
  have hafter : Started s address value after := by
    rw [hframe]
    exact ⟨rfl, rfl, rfl⟩
  have hbody : ∀ lockStatus, Outcome p s address value
      (relock p lockStatus
        (appendThenConsolidate p (wordsFor p address value) after)).1
      (relock p lockStatus
        (appendThenConsolidate p (wordsFor p address value) after)).2 := by
    intro lockStatus
    rw [← hafter.cursor] at hroom
    have happends := appendAll_appends _ hwords hroom
    rw [appendThenConsolidate_eq hwords hroom]
    generalize appendAll p (wordsFor p address value) after = result at happends
    have hrelock := relock_within (p := p) lockStatus result
    obtain ⟨u, t, hfinal, hstatus⟩ := relock_cases (p := p) lockStatus result
    generalize relock p lockStatus result = final at *
    obtain ⟨status, final⟩ := final
    simp only at hfinal hstatus hrelock
    cases happends with
    | done hdone =>
        exact .appended after final status hafter hdone (by rw [hfinal])
          (by rw [hfinal]) (by rw [hfinal]; rfl) hstatus
    | failed before rest word hsplit hbefore hfail =>
        have hstatus : status = .failed := hstatus.elim id id
        subst hstatus
        exact .spoiled after final before rest word hafter hsplit hbefore
          (by rw [hfinal]) (by rw [hfinal]; rfl) (by rw [hfinal]; rfl)
    | full before rest word hsplit hbefore hfull =>
        have hcount := wearLevelingConsolidateForce_erases hstart
          (after.appended p (before ++ [word]))
        have hgrown := eraseCount_le
          (hunlock.suffix.trans (appendTrace_suffix (p := p) (before ++ [word])
            after.writeAddress after.trace))
        have hlost : eraseCount s.trace < eraseCount final.trace :=
          Nat.lt_of_le_of_lt hgrown
            (Nat.lt_of_lt_of_le hcount (eraseCount_le hrelock.suffix))
        rcases wearLevelingConsolidateForce_cases p
          (after.appended p (before ++ [word])) with
          ⟨u', t', hforce⟩ | ⟨mem, a, u', t', -, hforce⟩
        · rw [hforce] at hfinal hstatus
          have hcache : final.cache = overlay s.cache address value := by
            rw [hfinal]
            exact hafter.cache
          rcases hstatus with rfl | rfl
          · refine .consolidated final hcache (by rw [hfinal])
              (by rw [hfinal]) ?_
            have hlength : (before ++ [word]).length ≤
                (wordsFor p address value).length := by
              rw [hsplit]
              simp
            have hmul := Nat.mul_le_mul_left p.width hlength
            simp only [State.appended, hafter.cursor] at hfull
            omega
          · exact .lost final hcache hlost
        · rw [hforce] at hfinal hstatus
          have hstatus : status = .failed := hstatus.elim id id
          subst hstatus
          refine .lost final ?_ hlost
          rw [hfinal]
          exact hafter.cache
  cases lockStatus with
  | failure =>
      obtain ⟨u, t, hlocked⟩ := wearLevelingLock_frame p after
      simp only [hlocked]
      exact .refused _ ⟨hafter.cache, hafter.mem, hafter.cursor⟩
  | success => exact hbody .success
  | unchanged => exact hbody .unchanged

end Outcome

/-! ## Tidy logs -/

section Tidy

variable {p : Platform} {s : State} {base : Nat → UInt8} {entries : List Entry}

theorem storeBelow_clean (h : ∀ i, s.writeAddress ≤ i → s.mem i = 0) :
    storeBelow s = s.mem := by
  funext i
  by_cases hi : i < s.writeAddress
  · exact if_pos hi
  · rw [storeBelow, if_neg hi, h i (Nat.le_of_not_lt hi)]

theorem storeBelow_free (s : State) :
    ∀ i, s.writeAddress ≤ i → storeBelow s i = 0 :=
  fun _ hi => if_neg (Nat.not_lt.mpr hi)

theorem LogTidy.replay (h : LogTidy p s base entries) :
    replay p (storeBelow s) =
      (.success, s.writeAddress, applyEntries entries base) := by
  rw [h.cursor]
  exact h.holds.replay (by rw [← h.cursor]; exact Nat.le_of_lt h.room)

theorem LogTidy.init (hp : p.ReadsWork) (h : LogTidy p s base entries)
    (hclean : ∀ i, s.writeAddress ≤ i → s.mem i = 0) {other : State}
    (hmem : other.mem = s.mem) :
    (wearLevelingInit p other).2.cache = applyEntries entries base := by
  have hreplay := h.replay
  rw [storeBelow_clean hclean, ← hmem] at hreplay
  obtain ⟨trace, -, hinit⟩ := wearLevelingInit_works hp hreplay h.room
  rw [hinit]

theorem storeBelow_appended {address : Nat} {value : List UInt8}
    {after final : State} (hafter : Started s address value after)
    {words : List (List UInt8)} (hwords : ∀ word ∈ words, word.length = p.width)
    (hmem : ∀ i < final.writeAddress,
      final.mem i = (after.appended p words).mem i)
    (hcursor : final.writeAddress = (after.appended p words).writeAddress) :
    storeBelow final =
      overlay (storeBelow s) s.writeAddress words.flatten := by
  have hlength := words_length_flatten hwords
  have hend : final.writeAddress = s.writeAddress + words.flatten.length := by
    rw [hcursor, hlength, ← hafter.cursor]
    rfl
  funext i
  rw [storeBelow]
  by_cases hi : i < final.writeAddress
  · rw [if_pos hi, hmem i hi]
    simp only [State.appended, hafter.mem, hafter.cursor]
    by_cases hlow : i < s.writeAddress
    · rw [overlay_before _ _ hlow, overlay_before _ _ hlow, storeBelow,
        if_pos hlow]
    · rw [overlay_inside' _ _ _ (by omega) (by omega),
        overlay_inside' _ _ _ (by omega) (by omega)]
  · rw [if_neg hi, overlay_after _ _ (by omega), storeBelow_free s i (by omega)]

theorem LogTidy.appended (h : LogTidy p s base entries)
    (hlogical : p.logicalSize ≤ 2 ^ 19) {address : Nat} {value : List UInt8}
    (hbound : address + value.length ≤ p.logicalSize) (hvalue : value ≠ [])
    {after final : State} (hafter : Started s address value after)
    (hroom : (after.appended p (wordsFor p address value)).writeAddress <
      p.backingSize)
    (hmem : final.mem = (after.appended p (wordsFor p address value)).mem)
    (hcursor : final.writeAddress =
      (after.appended p (wordsFor p address value)).writeAddress) :
    LogTidy p final base (entries ++ entriesFor p value.length address value) ∧
      ∀ i, final.writeAddress ≤ i → final.mem i = 0 := by
  have hwords : ∀ word ∈ wordsFor p address value, word.length = p.width :=
    fun _ hword => wordsFor_length_of_mem hword
  have hlength := words_length_flatten hwords
  have hend : final.writeAddress =
      s.writeAddress + (wordsFor p address value).flatten.length := by
    rw [hcursor, hlength, ← hafter.cursor]
    rfl
  have hlog := entriesFor_bytes_pos (p := p) address hvalue
  rw [← wordsFor_flatten] at hlog
  have hclean : ∀ i, final.writeAddress ≤ i → final.mem i = 0 := by
    intro i hi
    rw [hmem]
    simp only [State.appended, hafter.mem, hafter.cursor]
    rw [overlay_after _ _ (by omega)]
    exact h.free i (by omega)
  refine ⟨⟨?_, ?_, by rw [hcursor]; exact hroom, fun i hi => ?_⟩, hclean⟩
  · rw [storeBelow_appended hafter hwords (fun i _ => by rw [hmem]) hcursor,
      h.cursor, wordsFor_flatten]
    exact h.holds.append (entriesFor_valid hlogical _ hbound)
  · rw [hend, wordsFor_flatten, h.cursor, logEnd, logEnd, logBytes_append,
      List.length_append, Nat.add_assoc]
  · exact hclean i (Nat.le_trans (Nat.le_add_right _ _) hi)

theorem cut_whole_or_torn (entries : List Entry) {count : Nat}
    (hcount : count ≤ (entries.flatMap fun entry => entry.words p).length) :
    ((∀ i, ¬ zeroFilled p entries count i) ∧
        (logBytes p (cut p entries count)).length = p.width * count) ∨
      ∃ whole last, cut p entries count = whole ++ [last] ∧
        (logBytes p whole).length < p.width * count ∧
        p.width * count < (logBytes p (cut p entries count)).length := by
  induction entries generalizing count with
  | nil =>
      have hzero : count = 0 := by simpa using hcount
      exact .inl ⟨fun i hi => hi, by simp [cut, hzero]⟩
  | cons entry entries ih =>
      have hlength : (entry.words p).length = entry.wordCount p := by
        simp [Entry.words]
      rw [List.flatMap_cons, List.length_append, hlength] at hcount
      have hwidth : 0 < p.width := p.writeSize.bytes_pos
      simp only [cut, zeroFilled]
      by_cases hwhole : entry.wordCount p ≤ count
      · have hsum : entry.size p + p.width * (count - entry.wordCount p) =
            p.width * count := by
          rw [Entry.size, ← Nat.mul_add]
          congr 1
          omega
        simp only [if_pos hwhole, logBytes_cons, List.length_append,
          Entry.bytes_length]
        rcases @ih (count - entry.wordCount p) (by omega) with
          ⟨hnot, heq⟩ | ⟨whole, last, hcut, hlow, hhigh⟩
        · exact .inl ⟨hnot, by omega⟩
        · refine .inr ⟨entry :: whole, last, by rw [hcut]; rfl, ?_, by omega⟩
          rw [logBytes_cons, List.length_append, Entry.bytes_length]
          omega
      · simp only [if_neg hwhole]
        by_cases hnone : count = 0
        · left
          exact ⟨fun i hi => hi.1 hnone, by simp [hnone]⟩
        · right
          have hlow := Nat.mul_pos hwidth (Nat.pos_of_ne_zero hnone)
          have hhigh : p.width * count < entry.size p :=
            Nat.mul_lt_mul_of_pos_left (Nat.lt_of_not_le hwhole) hwidth
          refine ⟨[], entry.torn p count, by rw [if_neg hnone]; rfl, hlow, ?_⟩
          rw [if_neg hnone, logBytes_cons, logBytes_nil, List.append_nil,
            Entry.bytes_length, Entry.torn_size]
          exact hhigh

/-- A tidy log after a failed append changed nothing outside the write. -/
theorem LogTidy.spoiled (h : LogTidy p s base entries)
    (hlogical : p.logicalSize ≤ 2 ^ 19) {address : Nat} {value : List UInt8}
    (hbound : address + value.length ≤ p.logicalSize)
    {after final : State} (hafter : Started s address value after)
    {before rest : List (List UInt8)} {word : List UInt8}
    (hwords : wordsFor p address value = before ++ word :: rest)
    (hmem : final.mem = ((after.appended p before).spoiled p word).mem)
    (hcursor : final.writeAddress = (after.appended p before).writeAddress)
    {base' : Nat → UInt8} {entries' : List Entry}
    (hfinal : LogTidy p final base' entries') {i : Nat}
    (hi : ¬ (address ≤ i ∧ i < address + value.length)) :
    applyEntries entries' base' i = applyEntries entries base i := by
  have hwidth : ∀ other ∈ before, other.length = p.width := fun other hother =>
    wordsFor_length_of_mem (by rw [hwords]; exact List.mem_append_left _ hother)
  have htake : before = (wordsFor p address value).take before.length := by
    rw [hwords, List.take_left' rfl]
  have hbelow : storeBelow final =
      overlay (storeBelow s) s.writeAddress before.flatten := by
    refine storeBelow_appended hafter hwidth (fun j hj => ?_) hcursor
    rw [hmem]
    exact overlay_before _ _ (by rw [← hcursor]; exact hj)
  have hvalid := entriesFor_valid hlogical value.length hbound
  have hsplits := entriesFor_splits (p := p) _ address value (Nat.le_refl _)
  have hcount : before.length ≤
      ((entriesFor p value.length address value).flatMap fun entry =>
        entry.words p).length := by
    rw [← wordsFor, hwords]
    simp
  have hend : final.writeAddress = s.writeAddress + p.width * before.length := by
    rw [hcursor, ← hafter.cursor]
    rfl
  rw [htake, wordsFor] at hbelow
  generalize entriesFor p value.length address value = new at *
  rw [overlay_words_take new before.length (storeBelow_free s), h.cursor]
    at hbelow
  have hholds := h.holds.append (cut_valid hvalid before.length)
  rw [← hbelow] at hholds
  have hreplay := hfinal.replay
  rcases cut_whole_or_torn new hcount with
    ⟨hnot, hlength⟩ | ⟨whole, last, hcut, hlow, hhigh⟩
  · have hstop : logEnd p (entries ++ cut p new before.length) =
        final.writeAddress := by
      rw [hend, h.cursor, logEnd, logBytes_append, List.length_append, hlength,
        logEnd, Nat.add_assoc]
    rw [hholds.replay (by rw [hstop]; exact Nat.le_of_lt hfinal.room),
      Prod.mk.injEq, Prod.mk.injEq] at hreplay
    rw [← hreplay.2.2, applyEntries_append]
    rcases (cut_apply hsplits before.length (applyEntries entries base) i).2
      (hnot i) with hold | ⟨hle, hnew⟩
    · exact hold
    · refine absurd ⟨hle, ?_⟩ hi
      by_contra hge
      rw [List.getElem?_eq_none (by omega)] at hnew
      exact absurd hnew (by simp)
  · rw [hcut, ← List.append_assoc] at hholds
    have hstart : logEnd p (entries ++ whole) < final.writeAddress := by
      rw [hend, h.cursor, logEnd, logBytes_append, List.length_append, logEnd]
      omega
    have hpassed := hholds.replay_ge (Nat.lt_trans hstart hfinal.room)
    rw [hreplay, List.append_assoc, ← hcut] at hpassed
    simp only [hend, h.cursor, logEnd, logBytes_append, List.length_append]
      at hpassed
    omega

end Tidy

/-! ## The audit -/

/-- The state with the bytes that the cache has and the store may not. -/
structure Audit where
  state : State
  dirty : Nat → Prop

section Audit

variable (p : Platform)

/--
A failed write leaves its bytes dirty, and all bytes if it erased the store or
found the log torn.  A write that succeeds cleans its bytes, a consolidation all.
-/
def dirtyAfter (s : State) (dirty : Nat → Prop) (address : Nat)
    (value : List UInt8) : Status × State → Nat → Prop
  | (.success, _), i => dirty i ∧ ¬ (address ≤ i ∧ i < address + value.length)
  | (.consolidated, _), _ => False
  | (.failed, after), i =>
      dirty i ∨ (address + value.length ≤ p.logicalSize ∧
        ((address ≤ i ∧ i < address + value.length) ∨
          eraseCount s.trace < eraseCount after.trace ∨ ¬ Tidy p s))

/-- A call of `wear_leveling_write`, given its address and value. -/
def audit (g : Audit) (write : Nat × List UInt8) : Audit where
  state := perform p g.state (.write write.1 write.2)
  dirty := dirtyAfter p g.state g.dirty write.1 write.2
    (wearLevelingWrite p write.1 write.2 g.state)

/-- After `wear_leveling_init` on an erased store. -/
def auditStart : Audit :=
  ⟨perform p (boot fun _ => 0) .init, fun _ => False⟩

/--
A write that the cache has already must find a clean log and no dirty byte; any
other write must find a tidy log, or fill it up.
-/
def AuditSafe (g : Audit) (write : Nat × List UInt8) : Prop :=
  write.1 + write.2.length ≤ p.logicalSize →
    if write.2 = readBlock g.state.cache write.1 write.2.length then
      ∀ i, write.1 ≤ i → i < write.1 + write.2.length →
        Clean p g.state ∧ ¬ g.dirty i
    else
      Tidy p g.state ∨ (g.state.writeAddress < p.backingSize ∧
        p.backingSize ≤
          g.state.writeAddress + p.width * (wordsFor p write.1 write.2).length)

/-- A tidy log restores every byte that is not dirty. -/
structure AuditInv (g : Audit) : Prop where
  beyond : ∀ i, p.logicalSize ≤ i → g.state.cache i = 0
  agrees : ∀ base entries, LogTidy p g.state base entries →
    ∀ i, ¬ g.dirty i → applyEntries entries base i = g.state.cache i

theorem run_audit_state (g : Audit) (writes : List (Nat × List UInt8)) :
    (run (audit p) g writes).state =
      run (perform p) g.state
        (writes.map fun write => .write write.1 write.2) := by
  induction writes generalizing g with
  | nil => rfl
  | cons write writes ih => exact ih _

end Audit

section Step

variable {p : Platform}

theorem LogTidy.unique {s : State} {base base' : Nat → UInt8}
    {entries entries' : List Entry} (h : LogTidy p s base entries)
    (h' : LogTidy p s base' entries') :
    applyEntries entries base = applyEntries entries' base' := by
  have hreplay := h.replay
  rw [h'.replay, Prod.mk.injEq, Prod.mk.injEq] at hreplay
  exact hreplay.2.2.symm

theorem readBlock_of_eq {mem : Nat → UInt8} {address : Nat}
    {value : List UInt8}
    (h : ∀ i, address ≤ i → i < address + value.length →
      mem i = overlay mem address value i) :
    readBlock mem address value.length = value := by
  rw [readBlock_eq_iff]
  intro i hi
  rw [h _ (Nat.le_add_right _ _) (by omega), overlay_inside _ _ _ hi]

/-- What a call of `wear_leveling_write` promises when it does not fail. -/
def Durable (p : Platform) (address : Nat) (value : List UInt8)
    (result : Status × State) : Prop :=
  result.1 ≠ .failed → ∀ other : State, other.mem = result.2.mem →
    wearLevelingRead p address value.length (wearLevelingInit p other).2 =
      (.success, value)

theorem wearLevelingRead_eq {s : State} {address : Nat} {value : List UInt8}
    (hbound : address + value.length ≤ p.logicalSize)
    (h : readBlock s.cache address value.length = value) :
    wearLevelingRead p address value.length s = (.success, value) := by
  rw [wearLevelingRead, if_neg (Nat.not_lt.mpr hbound), h]

theorem AuditInv.repeated (hp : p.ReadsWork) {g : Audit} (h : AuditInv p g)
    {address : Nat} {value : List UInt8}
    (hbound : address + value.length ≤ p.logicalSize)
    (hsame : value = readBlock g.state.cache address value.length)
    (hsafe : ∀ i, address ≤ i → i < address + value.length →
      Clean p g.state ∧ ¬ g.dirty i) :
    AuditInv p (audit p g (address, value)) ∧
      Durable p address value (wearLevelingWrite p address value g.state) := by
  have hwrite := wearLevelingWrite_repeated hbound hsame
  constructor
  · refine ⟨?_, fun base entries htidy i hi => ?_⟩
    · simp only [audit, perform, hwrite]
      exact h.beyond
    · simp only [audit, perform, dirtyAfter, hwrite] at htidy hi ⊢
      by_cases hin : address ≤ i ∧ i < address + value.length
      · exact h.agrees base entries htidy i (hsafe i hin.1 hin.2).2
      · exact h.agrees base entries htidy i fun hdirty => hi ⟨hdirty, hin⟩
  · rintro - other hmem
    rw [hwrite] at hmem
    apply wearLevelingRead_eq hbound
    conv_rhs => rw [hsame]
    apply readBlock_congr
    intro k hk
    obtain ⟨⟨⟨base, entries, htidy⟩, hclean⟩, hnot⟩ :=
      hsafe (address + k) (Nat.le_add_right _ _) (by omega)
    rw [htidy.init hp hclean hmem]
    exact h.agrees base entries htidy _ hnot

theorem LogTidy.consolidated (hstart : p.logStart < p.backingSize) {s : State}
    (hbeyond : ∀ i, p.logicalSize ≤ i → s.cache i = 0)
    (hmem : s.mem = consolidatedMem p s.cache)
    (hcursor : s.writeAddress = p.logStart) :
    LogTidy p s s.cache [] ∧ ∀ i, s.writeAddress ≤ i → s.mem i = 0 := by
  have hholds := Holds.consolidated (p := p) hbeyond
  have hclean : ∀ i, s.writeAddress ≤ i → s.mem i = 0 := by
    intro i hi
    rw [hmem]
    exact hholds.free i (by rw [hcursor] at hi; exact hi)
  refine ⟨⟨?_, hcursor, by rw [hcursor]; exact hstart, fun i hi => ?_⟩, hclean⟩
  · rw [storeBelow_clean hclean, hmem]
    exact hholds
  · exact hclean i (Nat.le_trans (Nat.le_add_right _ _) hi)

theorem Outcome.audit (hp : p.ReadsWork) (hstart : p.logStart < p.backingSize)
    (hlogical : p.logicalSize ≤ 2 ^ 19) {s : State} {dirty : Nat → Prop}
    (h : AuditInv p ⟨s, dirty⟩) {address : Nat} {value : List UInt8}
    (hbound : address + value.length ≤ p.logicalSize) (hvalue : value ≠ [])
    (hsafe : Tidy p s ∨ (s.writeAddress < p.backingSize ∧
      p.backingSize ≤
        s.writeAddress + p.width * (wordsFor p address value).length))
    {status : Status} {final : State}
    (hout : Outcome p s address value status final) :
    AuditInv p ⟨final, dirtyAfter p s dirty address value (status, final)⟩ ∧
      Durable p address value (status, final) := by
  have hbeyond := overlay_beyond h.beyond hbound
  cases hout with
  | refused _ hfinal =>
      refine ⟨⟨by rw [hfinal.cache]; exact hbeyond, ?_⟩, fun hne => absurd rfl hne⟩
      intro base entries htidy i hi
      have hbefore : LogTidy p s base entries := by
        obtain ⟨hholds, hcursor, hroom, hfree⟩ := htidy
        rw [hfinal.cursor] at hcursor hroom hfree
        rw [hfinal.mem] at hfree
        refine ⟨?_, hcursor, hroom, hfree⟩
        have hbelow : storeBelow final = storeBelow s := by
          funext i
          rw [storeBelow, storeBelow, hfinal.mem, hfinal.cursor]
        rwa [hbelow] at hholds
      simp only [dirtyAfter, not_or, not_and] at hi
      rw [hfinal.cache, overlay_outside _ _ (by have := (hi.2 hbound).1; omega)]
      exact h.agrees base entries hbefore i hi.1
  | appended after _ _ hafter hroom hmem hcursor hcache hstatus =>
      obtain ⟨base, entries, htidy⟩ := hsafe.resolve_right fun hfills => by
        have hend : (after.appended p (wordsFor p address value)).writeAddress =
            s.writeAddress + p.width * (wordsFor p address value).length := by
          rw [← hafter.cursor]
          rfl
        omega
      obtain ⟨hfinal, hclean⟩ := htidy.appended hlogical hbound hvalue hafter
        hroom hmem hcursor
      have hrestored : ∀ i, applyEntries
          (entries ++ entriesFor p value.length address value) base i =
            overlay (applyEntries entries base) address value i := by
        intro i
        rw [applyEntries_append, applyEntries_entriesFor _ _ _ (Nat.le_refl _)]
      rw [hafter.cache] at hcache
      refine ⟨⟨by rw [hcache]; exact hbeyond, ?_⟩, fun _ other hother => ?_⟩
      · intro base' entries' htidy' i hi
        rw [← hfinal.unique htidy', hrestored, hcache]
        by_cases hin : address ≤ i ∧ i < address + value.length
        · rw [overlay_inside' _ _ _ hin.1 (by omega),
            overlay_inside' _ _ _ hin.1 (by omega)]
        · rw [overlay_outside _ _ (by omega), overlay_outside _ _ (by omega)]
          apply h.agrees base entries htidy
          rcases hstatus with rfl | rfl
          · exact fun hdirty => hi ⟨hdirty, hin⟩
          · exact fun hdirty => hi (.inl hdirty)
      · apply wearLevelingRead_eq hbound
        rw [hfinal.init hp hclean hother]
        apply readBlock_of_eq
        intro i hlow hhigh
        rw [hrestored, overlay_inside' _ _ _ hlow (by omega),
          overlay_inside' _ _ _ hlow (by omega)]
  | spoiled after _ before rest word hafter hwords hroom hmem hcursor hcache =>
      rw [hafter.cache] at hcache
      refine ⟨⟨by rw [hcache]; exact hbeyond, ?_⟩, fun hne => absurd rfl hne⟩
      intro base' entries' htidy' i hi
      simp only [dirtyAfter, not_or, not_and, not_not] at hi
      obtain ⟨hdirty, hrest⟩ := hi
      obtain ⟨hin, -, base, entries, htidy⟩ := hrest hbound
      rw [htidy.spoiled hlogical hbound hafter hwords hmem hcursor htidy'
        (by omega), hcache, overlay_outside _ _ (by omega)]
      exact h.agrees base entries htidy i hdirty
  | consolidated _ hcache hmem hcursor hfull =>
      rw [← hcache] at hbeyond
      obtain ⟨hfinal, hclean⟩ :=
        LogTidy.consolidated hstart hbeyond hmem hcursor
      refine ⟨⟨hbeyond, ?_⟩, fun _ other hother => ?_⟩
      · intro base' entries' htidy' i _
        rw [← hfinal.unique htidy']
        rfl
      · apply wearLevelingRead_eq hbound
        rw [hfinal.init hp hclean hother, applyEntries_nil, hcache,
          readBlock_overlay]
  | lost _ hcache herase =>
      refine ⟨⟨by rw [hcache]; exact hbeyond, ?_⟩, fun hne => absurd rfl hne⟩
      intro base entries _ i hi
      exact absurd (.inr ⟨hbound, .inr (.inl herase)⟩) hi

theorem AuditInv.step (hp : p.ReadsWork) (hstart : p.logStart < p.backingSize)
    (hlogical : p.logicalSize ≤ 2 ^ 19) {g : Audit} (h : AuditInv p g)
    {write : Nat × List UInt8} (hsafe : AuditSafe p g write) :
    AuditInv p (audit p g write) ∧
      (write.1 + write.2.length ≤ p.logicalSize →
        Durable p write.1 write.2 (wearLevelingWrite p write.1 write.2 g.state)) := by
  obtain ⟨address, value⟩ := write
  by_cases hbound : address + value.length ≤ p.logicalSize
  · have hsafe := hsafe hbound
    by_cases hsame : value = readBlock g.state.cache address value.length
    · rw [if_pos hsame] at hsafe
      have hstep := h.repeated hp hbound hsame hsafe
      exact ⟨hstep.1, fun _ => hstep.2⟩
    · rw [if_neg hsame] at hsafe
      have hvalue : value ≠ [] := by
        rintro rfl
        exact hsame rfl
      have hroom : g.state.writeAddress < p.backingSize := by
        rcases hsafe with ⟨base, entries, htidy⟩ | hfills
        · exact htidy.room
        · exact hfills.1
      have hstep := Outcome.audit hp hstart hlogical h hbound hvalue hsafe
        (wearLevelingWrite_outcome (Nat.le_of_lt hstart) hbound hsame hroom)
      exact ⟨hstep.1, fun _ => hstep.2⟩
  · refine ⟨⟨?_, fun base entries htidy i hi => ?_⟩,
      fun hin => absurd hin hbound⟩
    · simp only [WearLeveling.audit, perform, wearLevelingWrite_outside hbound]
      exact h.beyond
    · simp only [WearLeveling.audit, perform,
        wearLevelingWrite_outside hbound] at htidy hi ⊢
      exact h.agrees base entries htidy i fun hdirty => hi (.inl hdirty)

theorem auditStart_tidy (hp : p.ReadsWork) (hstart : p.logStart < p.backingSize) :
    LogTidy p (auditStart p).state (fun _ => 0) [] ∧
      (auditStart p).state.cache = fun _ => 0 := by
  have hreplay : replay p (boot fun _ => 0).mem =
      (.success, p.logStart, fun _ => 0) :=
    (Holds.erased p).replay (Nat.le_of_lt hstart)
  obtain ⟨trace, -, hinit⟩ :=
    wearLevelingInit_works hp (s := boot fun _ => 0) hreplay hstart
  simp only [auditStart, perform, hinit]
  refine ⟨⟨?_, rfl, hstart, fun _ _ => rfl⟩, trivial⟩
  rw [storeBelow_clean fun _ _ => rfl]
  exact .erased p

theorem AuditInv.start (hp : p.ReadsWork) (hstart : p.logStart < p.backingSize) :
    AuditInv p (auditStart p) := by
  obtain ⟨htidy, hcache⟩ := auditStart_tidy hp hstart
  refine ⟨fun i _ => by rw [hcache], fun base entries hother i _ => ?_⟩
  rw [hother.unique htidy, hcache]
  rfl

/--
In a run of writes that are all safe, a write that does not fail is found again
by the next initialisation, whatever calls failed before.
-/
theorem wearLeveling_write_durable (hp : p.ReadsWork)
    (hstart : p.logicalSize + 8 < p.backingSize)
    (hlogical : p.logicalSize ≤ 2 ^ 19) {writes : List (Nat × List UInt8)}
    {address : Nat} {value : List UInt8}
    (hsafe : Meets (audit p) (AuditSafe p) (auditStart p)
      (writes ++ [(address, value)]))
    {s : State}
    (hs : s = run (perform p) (boot fun _ => 0)
      (.init :: writes.map fun write => .write write.1 write.2))
    (hstatus : (wearLevelingWrite p address value s).1 ≠ .failed)
    {other : State}
    (hother : other.mem = (wearLevelingWrite p address value s).2.mem) :
    wearLevelingRead p address value.length (wearLevelingInit p other).2 =
      (.success, value) := by
  rw [Meets.append_iff] at hsafe
  have hinv := hsafe.1.preserves (AuditInv p)
    (fun g write h hsafe => (h.step hp hstart hlogical hsafe).1)
    (AuditInv.start hp hstart)
  have hlast := (hinv.step hp hstart hlogical hsafe.2.1).2
  rw [run_audit_state] at hlast
  rw [run_cons] at hs
  rw [hs] at hstatus hother
  have hbound : address + value.length ≤ p.logicalSize := by
    by_contra hout
    rw [wearLevelingWrite_outside hout] at hstatus
    exact hstatus rfl
  exact hlast hbound hstatus other hother

end Step

/-- Like `smallBoard`, but the first unlock fails. -/
def flakyBoard : Platform :=
  { smallBoard with
    verdict := fun trace call =>
      ⟨call != .unlock || trace.any fun event => event.call == .unlock,
        fun _ => 0⟩ }

/-- The second attempt is skipped: it succeeds, but the byte was never stored. -/
theorem flakyBoard_skips_write :
    flakyBoard.ReadsWork ∧
      (wearLevelingWrite flakyBoard 0 [2]
        (run (perform flakyBoard) (boot fun _ => 0)
          [.init, .write 0 [2]])).1 = .success ∧
      wearLevelingRead flakyBoard 0 1
          (wearLevelingInit flakyBoard (wearLevelingWrite flakyBoard 0 [2]
            (run (perform flakyBoard) (boot fun _ => 0)
              [.init, .write 0 [2]])).2).2 =
        (.success, [0]) := by
  refine ⟨fun trace => ⟨rfl, fun address => rfl⟩, ?_, ?_⟩
  · decide
  · decide

theorem smallBoard_write_durable :
    wearLevelingRead smallBoard 1 3
        (wearLevelingInit smallBoard (boot (wearLevelingWrite smallBoard 1
          [3, 4, 5] (run (perform smallBoard) (boot fun _ => 0)
            [.init, .write 0 [2]])).2.mem)).2 =
      (.success, [3, 4, 5]) := by
  have hp : smallBoard.ReadsWork := fun trace => ⟨rfl, fun address => rfl⟩
  refine @wearLeveling_write_durable smallBoard hp (by decide) (by decide)
    [(0, [2])] 1 [3, 4, 5] ⟨?_, ?_, trivial⟩ _ rfl (by decide) _ rfl
  · intro _
    rw [if_neg (by decide)]
    exact .inl ⟨_, _, (auditStart_tidy hp (by decide)).1⟩
  · intro _
    rw [if_neg (by decide)]
    exact .inr ⟨by decide, by decide⟩

end Qmk.WearLeveling
