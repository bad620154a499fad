import Qmk.WearLeveling.Durability

/-!
# No cell is written twice between erases

While no call fails, every cell written since the last erase lies before the
cursor, and the cursor stays inside the log.  A power cycle or a further
initialisation recomputes the same cursor.
-/

namespace Qmk.WearLeveling

open Qmk.Lib

def writtenSinceErase : List Event → Nat → Prop
  | [], _ => False
  | ⟨.erase, _⟩ :: _, _ => False
  | ⟨.write address value, _⟩ :: past, i =>
      (address ≤ i ∧ i < address + value.length) ∨ writtenSinceErase past i
  | _ :: past, i => writtenSinceErase past i

/-- A write goes to one aligned word of the store, erased and not yet written. -/
def WriteOnce (p : Platform) (past : List Event) (event : Event) : Prop :=
  ∀ address value, event.call = .write address value →
    p.width ∣ address ∧ address + p.width ≤ p.backingSize ∧
      value.length = p.width ∧
      ∀ i, address ≤ i → i < address + p.width → ¬ writtenSinceErase past i

/-- The trace obeys the rule, and what was written lies before `cursor`. -/
structure WrittenBelow (p : Platform) (trace : List Event) (cursor : Nat) :
    Prop where
  once : Always (WriteOnce p) trace
  below : ∀ i, writtenSinceErase trace i → i < cursor
  aligned : p.width ∣ cursor

section Trace

variable {p : Platform} {trace : List Event} {cursor : Nat}

theorem WrittenBelow.idle (h : WrittenBelow p trace cursor) {event : Event}
    (hwrite : ∀ address value, event.call ≠ .write address value)
    (herase : event.call ≠ .erase) :
    WrittenBelow p (event :: trace) cursor where
  once := Always.cons_iff.mpr
    ⟨h.once, fun address value hcall => absurd hcall (hwrite address value)⟩
  below := by
    intro i hi
    obtain ⟨call, ok⟩ := event
    cases call with
    | erase => exact absurd rfl herase
    | write address value => exact absurd rfl (hwrite address value)
    | init => exact h.below i hi
    | unlock => exact h.below i hi
    | lock => exact h.below i hi
    | read address => exact h.below i hi
  aligned := h.aligned

theorem WrittenBelow.quiet (h : WrittenBelow p trace cursor)
    {later : List Event} (hquiet : QuietSince trace later) :
    WrittenBelow p later cursor := by
  refine hquiet.preserves (fun later => WrittenBelow p later cursor) ?_ h
  intro past event hpast hevent
  rcases hevent with hcall | ⟨address, hcall⟩
  · exact hpast.idle (by simp [hcall]) (by simp [hcall])
  · exact hpast.idle (by simp [hcall]) (by simp [hcall])

theorem WrittenBelow.erase (h : WrittenBelow p trace cursor) (ok : Bool)
    {start : Nat} (hstart : p.width ∣ start) :
    WrittenBelow p (⟨.erase, ok⟩ :: trace) start where
  once := Always.cons_iff.mpr ⟨h.once, fun _ _ hcall => by cases hcall⟩
  below := fun _ hi => hi.elim
  aligned := hstart

theorem WrittenBelow.write (h : WrittenBelow p trace cursor) (ok : Bool)
    {value : List UInt8} (hvalue : value.length = p.width)
    (hbound : cursor < p.backingSize) :
    WrittenBelow p (⟨.write cursor value, ok⟩ :: trace) (cursor + p.width) where
  once := by
    refine Always.cons_iff.mpr ⟨h.once, fun address other hcall => ?_⟩
    cases hcall
    refine ⟨h.aligned, p.word_le h.aligned p.width_dvd_backing hbound, hvalue, ?_⟩
    intro i hi _ hwritten
    exact absurd (h.below i hwritten) (Nat.not_lt.mpr hi)
  below := by
    intro i hi
    rcases hi with hi | hi
    · omega
    · exact Nat.lt_of_lt_of_le (h.below i hi) (Nat.le_add_right _ _)
  aligned := Nat.dvd_add h.aligned (Nat.dvd_refl _)

end Trace

section Calls

variable {p : Platform} (hp : p.Reliable)

include hp

theorem backingStoreWriteBulk_below (count : Nat) {address : Nat}
    {values : List UInt8} (hlength : values.length = count * p.width)
    {s : State} (h : WrittenBelow p s.trace address)
    (hbound : address + count * p.width ≤ p.backingSize) :
    WrittenBelow p (backingStoreWriteBulk p address values count s).2.trace
      (address + count * p.width) := by
  induction count generalizing address values s with
  | zero => simpa [backingStoreWriteBulk] using h
  | succ count ih =>
      have hwidth : 0 < p.width := p.writeSize.bytes_pos
      rw [Nat.succ_mul] at hlength hbound
      have htake : (values.take p.width).length = p.width := by
        rw [List.length_take]
        omega
      have hdrop : (values.drop p.width).length = count * p.width := by
        rw [List.length_drop]
        omega
      have hword := h.write true htake (by omega)
      simp only [backingStoreWriteBulk, backingStoreWrite, Platform.answer,
        hp _ _]
      rw [Nat.succ_mul, Nat.add_comm (count * p.width), ← Nat.add_assoc]
      exact ih hdrop hword (by omega)

theorem wearLevelingUnlock_below {s : State} {cursor : Nat}
    (h : WrittenBelow p s.trace cursor) :
    WrittenBelow p (wearLevelingUnlock p s).2.trace cursor := by
  simp only [wearLevelingUnlock, backingStoreUnlock, Platform.answer, hp _ _]
  split
  · exact h
  · exact h.idle (by simp) (by simp)

theorem wearLevelingLock_below {s : State} {cursor : Nat}
    (h : WrittenBelow p s.trace cursor) :
    WrittenBelow p (wearLevelingLock p s).2.trace cursor := by
  simp only [wearLevelingLock, backingStoreLock, Platform.answer, hp _ _]
  split
  · exact h
  · exact h.idle (by simp) (by simp)

/-- The cursor is inside the log, and what was written lies before it. -/
structure InLog (p : Platform) (s : State) : Prop where
  below : WrittenBelow p s.trace s.writeAddress
  start : p.logStart ≤ s.writeAddress
  room : s.writeAddress < p.backingSize

theorem wearLevelingWriteConsolidated_below {s : State}
    (h : WrittenBelow p s.trace 0) (hstart : p.logStart ≤ p.backingSize) :
    WrittenBelow p (wearLevelingWriteConsolidated p s).2.trace p.logStart := by
  have hunlock := wearLevelingUnlock_below hp h
  rcases hlock : wearLevelingUnlock p s with ⟨lockStatus, s1⟩
  rw [hlock] at hunlock
  have hdata : (readBlock s1.cache 0 p.logicalSize).length =
      p.logicalSize / p.width * p.width := by
    rw [readBlock_length, p.logical_items]
  have hbulk := backingStoreWriteBulk_below hp _ hdata hunlock
    (by rw [p.logical_items]; simp only [Platform.logStart] at hstart; omega)
  have hok := backingStoreWriteBulk_reliable hp 0
    (readBlock s1.cache 0 p.logicalSize) (p.logicalSize / p.width) s1
  rcases hwrite : backingStoreWriteBulk p 0
    (readBlock s1.cache 0 p.logicalSize) (p.logicalSize / p.width) s1 with ⟨ok, s2⟩
  rw [hwrite] at hbulk hok
  simp only [p.logical_items, Nat.zero_add] at hbulk hok
  subst hok
  have hhash : (readBlock (p.fnv64aBuf (readBlock s2.cache 0 p.logicalSize))
      0 8).length = 8 / p.width * p.width := by
    rw [readBlock_length, p.hash_items]
  have hbulk' := backingStoreWriteBulk_below hp _ hhash hbulk
    (by rw [p.hash_items]; exact hstart)
  have hok' := backingStoreWriteBulk_reliable hp p.logicalSize
    (readBlock (p.fnv64aBuf (readBlock s2.cache 0 p.logicalSize)) 0 8)
    (8 / p.width) s2
  rcases hwrite' : backingStoreWriteBulk p p.logicalSize
    (readBlock (p.fnv64aBuf (readBlock s2.cache 0 p.logicalSize)) 0 8)
    (8 / p.width) s2 with ⟨ok, s3⟩
  rw [hwrite'] at hbulk' hok'
  simp only [p.hash_items] at hbulk' hok'
  subst hok'
  simp only [wearLevelingWriteConsolidated, hlock, hwrite, hwrite']
  split
  · exact wearLevelingLock_below hp hbulk'
  · exact hbulk'

theorem wearLevelingConsolidateForce_inLog {s : State} {cursor : Nat}
    (h : WrittenBelow p s.trace cursor) (hstart : p.logStart < p.backingSize) :
    InLog p (wearLevelingConsolidateForce p s).2 := by
  have herased := h.erase true (Nat.dvd_zero p.width)
  have hwritten := wearLevelingWriteConsolidated_below hp
    (s := { s.record .erase true with mem := fun _ => 0 }) herased
    (Nat.le_of_lt hstart)
  simp only [wearLevelingConsolidateForce, backingStoreErase, Platform.answer,
    hp _ _, if_true]
  exact ⟨hwritten, Nat.le_refl _, hstart⟩

theorem wearLevelingAppendRaw_inLog {s : State} (h : InLog p s)
    (hstart : p.logStart < p.backingSize) {word : List UInt8}
    (hword : word.length = p.width) :
    InLog p (wearLevelingAppendRaw p word s).2 := by
  have hwritten := h.below.write true hword h.room
  rw [wearLevelingAppendRaw_cases h.room, Platform.answer, hp, if_pos rfl,
    wearLevelingConsolidateIfNeeded]
  have happended : WrittenBelow p (s.appended p [word]).trace
      (s.appended p [word]).writeAddress := by
    simpa [State.appended, appendTrace] using hwritten
  split
  · exact wearLevelingConsolidateForce_inLog hp happended hstart
  · next hroom =>
      refine ⟨happended, ?_, Nat.lt_of_not_le hroom⟩
      exact Nat.le_trans h.start (Nat.le_add_right _ _)

theorem appendAll_inLog {words : List (List UInt8)} {s : State}
    (h : InLog p s) (hstart : p.logStart < p.backingSize)
    (hwords : ∀ word ∈ words, word.length = p.width) :
    InLog p (appendAll p words s).2 := by
  induction words generalizing s with
  | nil => exact h
  | cons word words ih =>
      have hfirst := wearLevelingAppendRaw_inLog hp h hstart
        (hwords word (by simp))
      simp only [appendAll]
      rcases hraw : wearLevelingAppendRaw p word s with ⟨status, after⟩
      rw [hraw] at hfirst
      cases status with
      | success =>
          exact ih hfirst fun other hother => hwords other (by simp [hother])
      | failed => exact hfirst
      | consolidated => exact hfirst

theorem wearLevelingLock_inLog {s : State} (h : InLog p s) :
    InLog p (wearLevelingLock p s).2 := by
  have hbelow := wearLevelingLock_below hp h.below
  obtain ⟨u, t, hframe⟩ := wearLevelingLock_frame p s
  rw [hframe] at hbelow ⊢
  exact ⟨hbelow, h.start, h.room⟩

theorem relock_inLog {result : Status × State} (h : InLog p result.2)
    (lockStatus : LockStatus) : InLog p (relock p lockStatus result).2 := by
  have hlock := wearLevelingLock_inLog hp h
  rw [relock]
  split
  · rcases hresult : wearLevelingLock p result.2 with ⟨status, after⟩
    rw [hresult] at hlock
    cases status <;> exact hlock
  · exact h

theorem wearLevelingWrite_inLog {s : State} (h : InLog p s)
    (hstart : p.logStart < p.backingSize) (address : Nat)
    (value : List UInt8) :
    InLog p (wearLevelingWrite p address value s).2 := by
  by_cases hbound : address + value.length ≤ p.logicalSize
  · by_cases hsame : value = readBlock s.cache address value.length
    · rw [wearLevelingWrite_repeated hbound hsame]
      exact h
    · have hwords : ∀ word ∈ wordsFor p address value, word.length = p.width :=
        fun _ hword => wordsFor_length_of_mem hword
      rw [wearLevelingWrite_eq hbound hsame]
      have hbelow := wearLevelingUnlock_below hp
        (s := { s with cache := overlay s.cache address value }) h.below
      obtain ⟨u, t, hframe⟩ := wearLevelingUnlock_frame p
        { s with cache := overlay s.cache address value }
      rcases hlock : wearLevelingUnlock p
        { s with cache := overlay s.cache address value } with ⟨lockStatus, after⟩
      rw [hlock] at hframe hbelow
      simp only at hframe hbelow
      have hafter : InLog p after := by
        rw [hframe] at hbelow ⊢
        exact ⟨hbelow, h.start, h.room⟩
      have hall := appendAll_inLog hp hafter hstart hwords
      rw [← appendThenConsolidate_eq hwords hafter.room] at hall
      cases lockStatus with
      | failure => exact wearLevelingLock_inLog hp hafter
      | success => exact relock_inLog hp hall .success
      | unchanged => exact relock_inLog hp hall .unchanged
  · rw [wearLevelingWrite_outside hbound]
    exact h

theorem wearLevelingErase_inLog {s : State} {cursor : Nat}
    (h : WrittenBelow p s.trace cursor) (hstart : p.logStart < p.backingSize) :
    InLog p (wearLevelingErase p s).2 := by
  have hafter : ∀ s1 : State, WrittenBelow p s1.trace cursor →
      InLog p (wearLevelingClearCache p
        { s1.record .erase true with mem := fun _ => 0 }) := fun s1 h1 =>
    ⟨h1.erase true p.width_dvd_start, Nat.le_refl _, hstart⟩
  have hunlock := wearLevelingUnlock_below hp h
  rcases hlock : wearLevelingUnlock p s with ⟨lockStatus, s1⟩
  rw [hlock] at hunlock
  simp only [wearLevelingErase, hlock, backingStoreErase, Platform.answer,
    hp _ _, if_true]
  cases lockStatus with
  | failure =>
      simp only [wearLevelingUnlock, backingStoreUnlock, Platform.answer,
        hp _ _] at hlock
      split at hlock <;> cases hlock
  | success => exact wearLevelingLock_inLog hp (hafter s1 hunlock)
  | unchanged => exact hafter s1 hunlock

end Calls

/-! ## Runs -/

section Runs

variable {p : Platform} (hp : p.Reliable)
  (hstart : p.logicalSize + 8 < p.backingSize)
  (hlogical : p.logicalSize ≤ 2 ^ 19)

/-- Between calls the cursor is inside the log and agrees with what is stored. -/
structure Disciplined (p : Platform) (s : State) : Prop where
  live : ∃ base entries, Live p s base entries
  inLog : InLog p s

include hp hstart hlogical

theorem Disciplined.step {s : State} (h : Disciplined p s) (op : Operation) :
    Disciplined p (perform p s op) := by
  obtain ⟨⟨base, entries, hlive⟩, hlog⟩ := h
  cases op with
  | init =>
      obtain ⟨trace, hquiet, hinit⟩ := hlive.init_eq hp.readsWork rfl
      simp only [perform, hinit]
      exact ⟨⟨base, entries, hlive.of_init rfl trace⟩,
        hlog.below.quiet hquiet, hlog.start, hlog.room⟩
  | erase =>
      exact ⟨⟨_, _, (wearLevelingErase_live hp hstart).1⟩,
        wearLevelingErase_inLog hp hlog.below hstart⟩
  | write address value =>
      refine ⟨?_, wearLevelingWrite_inLog hp hlog hstart address value⟩
      by_cases hbound : address + value.length ≤ p.logicalSize
      · obtain ⟨final, base, entries, hfinal, -, hfinallive⟩ :=
          hlive.write hp hstart hlogical hbound
        rw [perform, hfinal]
        exact ⟨base, entries, hfinallive⟩
      · rw [perform, wearLevelingWrite_outside hbound]
        exact ⟨base, entries, hlive⟩
  | read address length => exact ⟨⟨base, entries, hlive⟩, hlog⟩

omit hlogical in
/-- The first call on an erased store sets the cursor, unless it is a write. -/
theorem Disciplined.first {op : Operation}
    (hop : op = .init ∨ op = .erase) :
    Disciplined p (perform p (boot fun _ => 0) op) := by
  have hempty : WrittenBelow p (boot fun _ => 0).trace p.logStart :=
    ⟨.nil, fun _ hi => hi.elim, p.width_dvd_start⟩
  rcases hop with rfl | rfl
  · have hreplay : replay p (boot fun _ => 0).mem =
        (.success, p.logStart, fun _ => 0) :=
      (Holds.erased p).replay (Nat.le_of_lt hstart)
    obtain ⟨trace, hquiet, hinit⟩ :=
      wearLevelingInit_works hp.readsWork (s := boot fun _ => 0) hreplay hstart
    simp only [perform, hinit]
    exact ⟨⟨fun _ => 0, [], .erased p, rfl, hstart, rfl, fun _ _ => rfl⟩,
      hempty.quiet hquiet, Nat.le_refl _, hstart⟩
  · exact ⟨⟨_, _, (wearLevelingErase_live hp hstart).1⟩,
      wearLevelingErase_inLog hp hempty hstart⟩

/--
In a run that starts with an initialisation or an erase, every write goes to
one aligned word inside the store that was not written since the last erase,
and the cursor stays inside the log.
-/
theorem wearLeveling_write_once {op : Operation}
    (hop : op = .init ∨ op = .erase) (ops : List Operation) :
    Always (WriteOnce p) (run (perform p) (boot fun _ => 0) (op :: ops)).trace ∧
      p.logicalSize + 8 ≤
        (run (perform p) (boot fun _ => 0) (op :: ops)).writeAddress ∧
      (run (perform p) (boot fun _ => 0) (op :: ops)).writeAddress <
        p.backingSize := by
  have hmeets : Meets (perform p) (fun _ _ => True)
      (perform p (boot fun _ => 0) op) ops :=
    .of_forall (fun _ => True) (fun _ _ _ => trivial) (by simp) _
  have hend := hmeets.preserves (Disciplined p)
    (fun s op h _ => Disciplined.step hp hstart hlogical h op)
    (Disciplined.first hp hstart hop)
  exact ⟨hend.inLog.below.once, hend.inLog.start, hend.inLog.room⟩

end Runs

theorem smallBoard_write_once :
    Always (WriteOnce smallBoard)
      (run (perform smallBoard) (boot fun _ => 0)
        [.init, .write 0 [7, 8, 9, 10], .init, .write 1 [5, 5, 5]]).trace := by
  have hp : smallBoard.Reliable := fun _ _ => rfl
  exact (wearLeveling_write_once hp (by decide) (by decide) (.inl rfl)
    [.write 0 [7, 8, 9, 10], .init, .write 1 [5, 5, 5]]).1

end Qmk.WearLeveling
