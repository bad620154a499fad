import Qmk.WearLeveling.Write

/-!
# The lock discipline

`wear_leveling_write` and `wear_leveling_erase` unlock the store before they
touch it.  The consolidation that ends a playback does not: it erases first and
unlocks only to write.  The results hold for both readings of a failed call of
`backing_store_lock`: that the store counts as locked after it, or as it was.
-/

namespace Qmk.WearLeveling

open Qmk.Lib

section Discipline

variable (lockFailureLocks : Bool)

/-- The store is unlocked after the calls of the trace. -/
def storeUnlocked : List Event → Bool
  | [] => false
  | ⟨.unlock, true⟩ :: _ => true
  | ⟨.lock, ok⟩ :: past =>
      if ok || lockFailureLocks then false else storeUnlocked past
  | _ :: past => storeUnlocked past

def Event.Touches (event : Event) : Prop :=
  event.call = .erase ∨ ∃ address value, event.call = .write address value

/-- The store is written and erased only while it is unlocked. -/
def TouchedUnlocked (past : List Event) (event : Event) : Prop :=
  event.Touches → storeUnlocked lockFailureLocks past = true

/-- The store is unlocked and the engine knows it. -/
structure Opened (s : State) : Prop where
  store : storeUnlocked lockFailureLocks s.trace = true
  flag : s.unlocked = true

/-- The calls made since `s` touch an unlocked store and leave it unlocked. -/
structure KeepsOpen (s after : State) : Prop where
  calls : Extends (TouchedUnlocked lockFailureLocks) s.trace after.trace
  opened : Opened lockFailureLocks after

end Discipline

section Open

variable {p : Platform} {b : Bool} {s after : State}

theorem storeUnlocked_cons {event : Event} (hunlock : event.call ≠ .unlock)
    (hlock : event.call ≠ .lock) (past : List Event) :
    storeUnlocked b (event :: past) = storeUnlocked b past := by
  obtain ⟨call, ok⟩ := event
  cases call with
  | unlock => exact absurd rfl hunlock
  | lock => exact absurd rfl hlock
  | init => rfl
  | erase => rfl
  | write address value => rfl
  | read address => rfl

theorem Opened.keeps (h : Opened b s) : KeepsOpen b s s :=
  ⟨.refl, h⟩

theorem KeepsOpen.trans {final : State} (h : KeepsOpen b s after)
    (h' : KeepsOpen b after final) : KeepsOpen b s final :=
  ⟨h.calls.trans h'.calls, h'.opened⟩

theorem Opened.touch (h : Opened b s) {event : Event}
    (hunlock : event.call ≠ .unlock) (hlock : event.call ≠ .lock)
    (htrace : after.trace = event :: s.trace)
    (hflag : after.unlocked = s.unlocked) : KeepsOpen b s after where
  calls := by
    rw [htrace]
    exact .one fun _ => h.store
  opened := by
    refine ⟨?_, hflag.trans h.flag⟩
    rw [htrace, storeUnlocked_cons hunlock hlock]
    exact h.store

theorem backingStoreErase_open (h : Opened b s) :
    KeepsOpen b s (backingStoreErase p s).2 :=
  h.touch (show Call.erase ≠ .unlock by simp) (by simp) rfl rfl

theorem backingStoreWrite_open (h : Opened b s) (address : Nat)
    (value : List UInt8) :
    KeepsOpen b s (backingStoreWrite p address value s).2 :=
  h.touch (show Call.write address value ≠ .unlock by simp) (by simp) rfl rfl

theorem backingStoreWriteBulk_open (count : Nat) (h : Opened b s)
    (address : Nat) (values : List UInt8) :
    KeepsOpen b s (backingStoreWriteBulk p address values count s).2 := by
  induction count generalizing s address values with
  | zero => exact h.keeps
  | succ count ih =>
      have hwrite := backingStoreWrite_open (p := p) h address
        (values.take p.width)
      simp only [backingStoreWriteBulk]
      rcases hresult : backingStoreWrite p address (values.take p.width) s with
        ⟨ok, final⟩
      rw [hresult] at hwrite
      cases ok with
      | true => exact hwrite.trans (ih hwrite.opened _ _)
      | false => exact hwrite

/-- The two bulk writes of a consolidation. -/
def writeImage (p : Platform) (s : State) : Status × State :=
  match backingStoreWriteBulk p 0 (readBlock s.cache 0 p.logicalSize)
      (p.logicalSize / p.width) s with
  | (false, s) => (.failed, s)
  | (true, s) =>
      match backingStoreWriteBulk p p.logicalSize
          (readBlock (p.fnv64aBuf (readBlock s.cache 0 p.logicalSize)) 0 8)
          (8 / p.width) s with
      | (false, s) => (.failed, s)
      | (true, s) => (.consolidated, s)

theorem wearLevelingWriteConsolidated_eq (s : State) :
    wearLevelingWriteConsolidated p s =
      ((writeImage p (wearLevelingUnlock p s).2).1,
        if (wearLevelingUnlock p s).1 = .success then
          (wearLevelingLock p (writeImage p (wearLevelingUnlock p s).2).2).2
        else (writeImage p (wearLevelingUnlock p s).2).2) := by
  rcases hunlock : wearLevelingUnlock p s with ⟨lockStatus, after⟩
  rcases hdata : backingStoreWriteBulk p 0 (readBlock after.cache 0 p.logicalSize)
    (p.logicalSize / p.width) after with ⟨ok, final⟩
  cases ok with
  | false => simp [wearLevelingWriteConsolidated, writeImage, hunlock, hdata]
  | true =>
      rcases hhash : backingStoreWriteBulk p p.logicalSize
        (readBlock (p.fnv64aBuf (readBlock final.cache 0 p.logicalSize)) 0 8)
        (8 / p.width) final with ⟨ok, last⟩
      cases ok <;>
        simp [wearLevelingWriteConsolidated, writeImage, hunlock, hdata, hhash]

theorem writeImage_open (h : Opened b s) : KeepsOpen b s (writeImage p s).2 := by
  have hdata := backingStoreWriteBulk_open (p := p) (p.logicalSize / p.width) h 0
    (readBlock s.cache 0 p.logicalSize)
  simp only [writeImage]
  rcases hwrite : backingStoreWriteBulk p 0 (readBlock s.cache 0 p.logicalSize)
    (p.logicalSize / p.width) s with ⟨ok, final⟩
  rw [hwrite] at hdata
  cases ok with
  | false => exact hdata
  | true =>
      have hhash := backingStoreWriteBulk_open (p := p) (8 / p.width) hdata.opened
        p.logicalSize
        (readBlock (p.fnv64aBuf (readBlock final.cache 0 p.logicalSize)) 0 8)
      rcases hwrite' : backingStoreWriteBulk p p.logicalSize
        (readBlock (p.fnv64aBuf (readBlock final.cache 0 p.logicalSize)) 0 8)
        (8 / p.width) final with ⟨ok, last⟩
      rw [hwrite'] at hhash
      simp only [hwrite']
      cases ok <;> exact hdata.trans hhash

theorem wearLevelingUnlock_opened (h : Opened b s) :
    wearLevelingUnlock p s = (.unchanged, s) := by
  rw [wearLevelingUnlock, if_pos h.flag]

theorem wearLevelingConsolidateForce_open (h : Opened b s) :
    KeepsOpen b s (wearLevelingConsolidateForce p s).2 := by
  have herase := backingStoreErase_open (p := p) h
  simp only [wearLevelingConsolidateForce]
  rcases hresult : backingStoreErase p s with ⟨ok, final⟩
  rw [hresult] at herase
  cases ok with
  | false => exact herase
  | true =>
      have himage := writeImage_open (p := p) herase.opened
      simp only [wearLevelingWriteConsolidated_eq,
        wearLevelingUnlock_opened herase.opened, reduceCtorEq, if_false]
      exact herase.trans ⟨himage.calls, himage.opened.store, himage.opened.flag⟩

theorem wearLevelingConsolidateIfNeeded_open (h : Opened b s) :
    KeepsOpen b s (wearLevelingConsolidateIfNeeded p s).2 := by
  rw [wearLevelingConsolidateIfNeeded]
  split
  · exact wearLevelingConsolidateForce_open h
  · exact h.keeps

theorem appendAll_open (words : List (List UInt8)) (h : Opened b s) :
    KeepsOpen b s (appendAll p words s).2 := by
  induction words generalizing s with
  | nil => exact h.keeps
  | cons word words ih =>
      have hraw : KeepsOpen b s (wearLevelingAppendRaw p word s).2 := by
        have hwrite := backingStoreWrite_open (p := p) h s.writeAddress word
        simp only [wearLevelingAppendRaw]
        rcases hresult : backingStoreWrite p s.writeAddress word s with ⟨ok, final⟩
        rw [hresult] at hwrite
        cases ok with
        | false => exact hwrite
        | true =>
            have hmoved : KeepsOpen b s { final with
                writeAddress := (final.writeAddress + p.width) % 2 ^ 32 } :=
              ⟨hwrite.calls, hwrite.opened.store, hwrite.opened.flag⟩
            exact hmoved.trans
              (wearLevelingConsolidateIfNeeded_open hmoved.opened)
      simp only [appendAll]
      rcases hresult : wearLevelingAppendRaw p word s with ⟨status, final⟩
      rw [hresult] at hraw
      cases status with
      | success => exact hraw.trans (ih hraw.opened)
      | failed => exact hraw
      | consolidated => exact hraw

theorem appendThenConsolidate_open (words : List (List UInt8))
    (h : Opened b s) :
    KeepsOpen b s (appendThenConsolidate p words s).2 := by
  have hall := appendAll_open (p := p) words h
  simp only [appendThenConsolidate]
  rcases hresult : appendAll p words s with ⟨status, final⟩
  rw [hresult] at hall
  cases status with
  | success => exact hall.trans (wearLevelingConsolidateIfNeeded_open hall.opened)
  | failed => exact hall
  | consolidated => exact hall

end Open

/-! ## Between calls -/

/-- Neither locking nor unlocking fails. -/
def Platform.LocksWork (p : Platform) : Prop :=
  ∀ trace, (p.verdict trace .unlock).ok = true ∧
    (p.verdict trace .lock).ok = true

/-- The engine's flag agrees with the store, up to failed calls of `lock`. -/
structure InStep (p : Platform) (b : Bool) (s : State) : Prop where
  flag : s.unlocked = true → b = false → storeUnlocked b s.trace = true
  store : storeUnlocked b s.trace = true → s.unlocked = true
  closed : p.LocksWork → s.unlocked = false

section Between

variable {p : Platform} {b : Bool} {s : State}

theorem InStep.boot (mem : Nat → UInt8) : InStep p b (boot mem) :=
  ⟨fun h => absurd h Bool.noConfusion, fun h => absurd h Bool.noConfusion,
    fun _ => rfl⟩

theorem InStep.of_eq (h : InStep p b s) {after : State}
    (hflag : after.unlocked = s.unlocked)
    (hstore : storeUnlocked b after.trace = storeUnlocked b s.trace) :
    InStep p b after := by
  constructor
  · rw [hflag, hstore]
    exact h.flag
  · rw [hflag, hstore]
    exact h.store
  · rw [hflag]
    exact h.closed

theorem wearLevelingLock_opened (h : Opened b s) :
    Extends (TouchedUnlocked b) s.trace (wearLevelingLock p s).2.trace ∧
      InStep p b (wearLevelingLock p s).2 := by
  have hidle : ∀ ok, TouchedUnlocked b s.trace ⟨.lock, ok⟩ := by
    rintro ok (hcall | ⟨address, value, hcall⟩)
    · cases hcall
    · cases hcall
  simp only [wearLevelingLock, h.flag, Bool.not_true, Bool.false_eq_true,
    if_false, backingStoreLock]
  cases hok : (p.answer s .lock).ok with
  | true =>
      refine ⟨.one (hidle true), fun hflag => absurd hflag Bool.noConfusion,
        fun hstore => ?_, fun _ => rfl⟩
      simp [storeUnlocked, State.record] at hstore
  | false =>
      refine ⟨.one (hidle false), fun _ hb => ?_, fun _ => h.flag, fun hworks => ?_⟩
      · simp [storeUnlocked, State.record, hb, ← h.store]
      · rw [Platform.answer, (hworks s.trace).2] at hok
        exact absurd hok Bool.noConfusion

theorem wearLevelingUnlock_inStep (h : InStep p b s)
    (hs : s.unlocked = false ∨ b = false) :
    Extends (TouchedUnlocked b) s.trace (wearLevelingUnlock p s).2.trace ∧
      (((wearLevelingUnlock p s).1 = .failure ∧
          InStep p b (wearLevelingUnlock p s).2 ∧
          (wearLevelingUnlock p s).2.unlocked = false) ∨
        ((wearLevelingUnlock p s).1 = .success ∧
          Opened b (wearLevelingUnlock p s).2) ∨
        ((wearLevelingUnlock p s).1 = .unchanged ∧ s.unlocked = true ∧
          Opened b (wearLevelingUnlock p s).2)) := by
  have hidle : ∀ ok, TouchedUnlocked b s.trace ⟨.unlock, ok⟩ := by
    rintro ok (hcall | ⟨address, value, hcall⟩)
    · cases hcall
    · cases hcall
  cases hflag : s.unlocked with
  | true =>
      have hb : b = false := by
        rcases hs with hs | hb
        · rw [hs] at hflag
          exact absurd hflag Bool.noConfusion
        · exact hb
      rw [wearLevelingUnlock, if_pos hflag]
      exact ⟨.refl, .inr (.inr ⟨rfl, rfl, h.flag hflag hb, hflag⟩)⟩
  | false =>
      rw [wearLevelingUnlock, if_neg (by simp [hflag]), backingStoreUnlock]
      cases hok : (p.answer s .unlock).ok with
      | true => exact ⟨.one (hidle true), .inr (.inl ⟨rfl, rfl, rfl⟩)⟩
      | false => exact ⟨.one (hidle false), .inl ⟨rfl, h.of_eq rfl rfl, hflag⟩⟩

theorem wearLevelingLock_closed (hs : s.unlocked = false) :
    wearLevelingLock p s = (.unchanged, s) := by
  rw [wearLevelingLock, if_pos (by simp [hs])]

theorem relock_inStep (lockStatus : LockStatus) {result : Status × State}
    (h : Opened b result.2)
    (hstatus : lockStatus ≠ .success → ¬ p.LocksWork) :
    Extends (TouchedUnlocked b) result.2.trace
        (relock p lockStatus result).2.trace ∧
      InStep p b (relock p lockStatus result).2 := by
  have hlock := wearLevelingLock_opened (p := p) h
  rw [relock]
  split
  · rcases hresult : wearLevelingLock p result.2 with ⟨status, after⟩
    rw [hresult] at hlock
    cases status <;> exact hlock
  · next hne =>
      exact ⟨.refl, fun _ _ => h.store, fun _ => h.flag,
        fun hworks => absurd hworks (hstatus hne)⟩

/-- A write keeps the discipline if the engine believes the store locked. -/
theorem wearLevelingWrite_inStep (h : InStep p b s)
    (hs : s.unlocked = false ∨ b = false) (address : Nat)
    (value : List UInt8) :
    Extends (TouchedUnlocked b) s.trace
        (wearLevelingWrite p address value s).2.trace ∧
      InStep p b (wearLevelingWrite p address value s).2 := by
  by_cases hbound : address + value.length ≤ p.logicalSize
  · by_cases hsame : value = readBlock s.cache address value.length
    · rw [wearLevelingWrite_repeated hbound hsame]
      exact ⟨.refl, h⟩
    · have hunlock := wearLevelingUnlock_inStep (p := p) (b := b)
        (s := { s with cache := overlay s.cache address value })
        (h.of_eq rfl rfl) hs
      rw [wearLevelingWrite_eq hbound hsame]
      rcases hresult : wearLevelingUnlock p
        { s with cache := overlay s.cache address value } with ⟨lockStatus, after⟩
      rw [hresult] at hunlock
      obtain ⟨hcalls, ⟨hstatus, hstep, hflag⟩ | ⟨hstatus, hopen⟩ |
        ⟨hstatus, hflag, hopen⟩⟩ := hunlock
      · simp only at hstatus hflag hstep hcalls
        subst hstatus
        simp only [wearLevelingLock_closed hflag]
        exact ⟨hcalls, hstep⟩
      · simp only at hstatus hopen hcalls
        subst hstatus
        have hbody := appendThenConsolidate_open (p := p)
          (wordsFor p address value) hopen
        have hlock := relock_inStep (p := p) .success hbody.opened
          fun hne => absurd rfl hne
        exact ⟨(hcalls.trans hbody.calls).trans hlock.1, hlock.2⟩
      · simp only at hstatus hflag hopen hcalls
        subst hstatus
        have hbody := appendThenConsolidate_open (p := p)
          (wordsFor p address value) hopen
        have hlock := relock_inStep (p := p) .unchanged hbody.opened
          fun _ hworks => by
            have hclosed := h.closed hworks
            rw [hflag] at hclosed
            exact absurd hclosed Bool.noConfusion
        exact ⟨(hcalls.trans hbody.calls).trans hlock.1, hlock.2⟩
  · rw [wearLevelingWrite_outside hbound]
    exact ⟨.refl, h⟩

theorem wearLevelingErase_inStep (h : InStep p b s)
    (hs : s.unlocked = false ∨ b = false) :
    Extends (TouchedUnlocked b) s.trace (wearLevelingErase p s).2.trace ∧
      InStep p b (wearLevelingErase p s).2 := by
  have hunlock := wearLevelingUnlock_inStep (p := p) h hs
  simp only [wearLevelingErase]
  rcases hresult : wearLevelingUnlock p s with ⟨lockStatus, after⟩
  rw [hresult] at hunlock
  obtain ⟨hcalls, ⟨hstatus, hstep, hflag⟩ | ⟨hstatus, hopen⟩ |
    ⟨hstatus, hflag, hopen⟩⟩ := hunlock
  · simp only at hstatus hflag hstep hcalls
    subst hstatus
    simp only [wearLevelingLock_closed hflag]
    exact ⟨hcalls, hstep⟩
  · simp only at hstatus hopen hcalls
    subst hstatus
    have herase := backingStoreErase_open (p := p) hopen
    have hcleared : Opened b
        (wearLevelingClearCache p (backingStoreErase p after).2) :=
      ⟨herase.opened.store, herase.opened.flag⟩
    have hlock := wearLevelingLock_opened (p := p) hcleared
    exact ⟨(hcalls.trans herase.calls).trans hlock.1, hlock.2⟩
  · simp only at hstatus hflag hopen hcalls
    subst hstatus
    have herase := backingStoreErase_open (p := p) hopen
    refine ⟨hcalls.trans herase.calls, fun _ _ => herase.opened.store,
      fun _ => herase.opened.flag, fun hworks => ?_⟩
    have hclosed := h.closed hworks
    rw [hflag] at hclosed
    exact absurd hclosed Bool.noConfusion

end Between

/-! ## Initialisation -/

/-- Only quiet calls were made, and the lock was left alone. -/
structure Quietly (s after : State) : Prop where
  calls : QuietSince s.trace after.trace
  flag : after.unlocked = s.unlocked

section Init

variable {p : Platform} {b : Bool} {s after : State}

theorem Quietly.none (s : State) : Quietly s s :=
  ⟨.refl, rfl⟩

theorem Quietly.trans {final : State} (h : Quietly s after)
    (h' : Quietly after final) : Quietly s final :=
  ⟨h.calls.trans h'.calls, h'.flag.trans h.flag⟩

theorem Quietly.storeUnlocked (h : Quietly s after) :
    storeUnlocked b after.trace = storeUnlocked b s.trace := by
  refine h.calls.preserves (fun trace => WearLeveling.storeUnlocked b trace =
    WearLeveling.storeUnlocked b s.trace) ?_ rfl
  rintro past event hpast (hcall | ⟨address, hcall⟩)
  · rw [storeUnlocked_cons (by simp [hcall]) (by simp [hcall]), hpast]
  · rw [storeUnlocked_cons (by simp [hcall]) (by simp [hcall]), hpast]

theorem Quietly.touched (h : Quietly s after) :
    Extends (TouchedUnlocked b) s.trace after.trace := by
  refine h.calls.mono fun past event hquiet htouch => ?_
  rcases hquiet with hcall | ⟨address, hcall⟩ <;>
    rcases htouch with htouch | ⟨_, _, htouch⟩ <;>
      rw [hcall] at htouch <;> cases htouch

theorem InStep.quietly (h : InStep p b s) (hquiet : Quietly s after) :
    InStep p b after :=
  h.of_eq hquiet.flag hquiet.storeUnlocked

theorem backingStoreRead_quietly (address : Nat) (s : State) :
    Quietly s (backingStoreRead p address s).2.2 :=
  ⟨.read _ _ _, rfl⟩

theorem backingStoreReadBulk_quietly (count address : Nat) (s : State) :
    Quietly s (backingStoreReadBulk p address count s).2.2 := by
  induction count generalizing address s with
  | zero => exact .none s
  | succ count ih =>
      have hread := backingStoreRead_quietly (p := p) address s
      simp only [backingStoreReadBulk]
      rcases hresult : backingStoreRead p address s with ⟨ok, value, final⟩
      rw [hresult] at hread
      cases ok with
      | true => exact hread.trans (ih _ final)
      | false => exact hread

theorem wearLevelingReadConsolidated_quietly (s : State) :
    Quietly s (wearLevelingReadConsolidated p s).2 := by
  have hdata := backingStoreReadBulk_quietly (p := p)
    (p.logicalSize / p.width) 0 s
  simp only [wearLevelingReadConsolidated]
  rcases hresult : backingStoreReadBulk p 0 (p.logicalSize / p.width) s with
    ⟨ok, values, final⟩
  rw [hresult] at hdata
  cases ok with
  | false => exact ⟨hdata.calls, hdata.flag⟩
  | true =>
      have hhash := backingStoreReadBulk_quietly (p := p) (8 / p.width)
        p.logicalSize { final with cache := overlay final.cache 0 values }
      have hcached : Quietly s { final with cache := overlay final.cache 0 values } :=
        ⟨hdata.calls, hdata.flag⟩
      have hboth := hcached.trans hhash
      simp only
      split
      · exact hboth
      · exact ⟨hboth.calls, hboth.flag⟩

theorem playbackReadWord_quietly (wanted : Bool) (k address : Nat)
    (log : WriteLogEntry) (s : State) :
    Quietly s (playbackReadWord p wanted k address log s).2.2.2 := by
  cases wanted with
  | false => exact .none s
  | true =>
      have hread := backingStoreRead_quietly (p := p) address s
      simp only [playbackReadWord, if_true]
      rcases hresult : backingStoreRead p address s with ⟨ok, value, final⟩
      rw [hresult] at hread
      cases ok <;> exact hread

theorem playbackMultibyte_quietly (address : Nat) (log : WriteLogEntry)
    (s : State) : Quietly s (playbackMultibyte p address log s).2.2 := by
  have h1 := playbackReadWord_quietly (p := p) (p.writeSize = .two) 1 address log s
  simp only [playbackMultibyte]
  rcases hresult : playbackReadWord p (p.writeSize = .two) 1 address log s with
    ⟨ok, address1, log1, s1⟩
  rw [hresult] at h1
  cases ok with
  | false => exact h1
  | true =>
      simp only
      split
      · exact h1
      · have h2 := playbackReadWord_quietly (p := p)
          (p.writeSize ≠ .eight ∧ 1 < logEntryMultibyteGetLength log1)
          (if p.writeSize = .two then 2 else 1) address1 log1 s1
        rcases hresult : playbackReadWord p
          (p.writeSize ≠ .eight ∧ 1 < logEntryMultibyteGetLength log1)
          (if p.writeSize = .two then 2 else 1) address1 log1 s1 with
          ⟨ok, address2, log2, s2⟩
        rw [hresult] at h2
        cases ok with
        | false => exact h1.trans h2
        | true =>
            have h3 := playbackReadWord_quietly (p := p)
              (p.writeSize = .two ∧ 3 < logEntryMultibyteGetLength log1) 3
              address2 log2 s2
            simp only
            rcases hresult : playbackReadWord p
              (p.writeSize = .two ∧ 3 < logEntryMultibyteGetLength log1) 3
              address2 log2 s2 with ⟨ok, address3, log3, s3⟩
            rw [hresult] at h3
            have hall := (h1.trans h2).trans h3
            cases ok with
            | false => exact hall
            | true => exact ⟨hall.calls, hall.flag⟩

theorem playbackEntry_quietly (address : Nat) (log : WriteLogEntry)
    (s : State) : Quietly s (playbackEntry p address log s).2.2 := by
  simp only [playbackEntry, playbackOptimized64, playbackWord01]
  split
  · exact playbackMultibyte_quietly address log s
  · split
    · split <;> exact ⟨.refl, rfl⟩
    · split
      · split <;> exact ⟨.refl, rfl⟩
      · exact .none s

theorem playbackLoop_quietly (fuel address : Nat) (s : State) :
    Quietly s (playbackLoop p fuel address s).2.2 := by
  induction fuel generalizing address s with
  | zero => exact .none s
  | succ fuel ih =>
      have hread := backingStoreRead_quietly (p := p) address s
      simp only [playbackLoop]
      split
      · rcases hresult : backingStoreRead p address s with ⟨ok, value, final⟩
        rw [hresult] at hread
        cases ok with
        | false => exact hread
        | true =>
            simp only
            split
            · exact hread
            · have hentry := playbackEntry_quietly (p := p)
                (address + p.width) (overlay (fun _ => 0) 0 value) final
              rcases hresult : playbackEntry p (address + p.width)
                (overlay (fun _ => 0) 0 value) final with ⟨status, next, last⟩
              rw [hresult] at hentry
              have hboth := hread.trans hentry
              cases status with
              | success => exact hboth.trans (ih next last)
              | failed => exact hboth
              | consolidated => exact hboth
      · exact .none s

/-- What the playback loop of `wear_leveling_init` ends with, if it is reached. -/
def initPlayback (p : Platform) (s : State) : Option (Status × Nat × State) :=
  match backingStoreInit p (wearLevelingClearCache p s) with
  | (false, _) => none
  | (true, s) =>
      match wearLevelingReadConsolidated p s with
      | (.failed, _) => none
      | (_, s) => some (playbackLoop p p.backingSize p.logStart s)

/-- Initialisation takes one of the branches that consolidate. -/
def InitConsolidates (p : Platform) (s : State) : Prop :=
  ∃ status address after, initPlayback p s = some (status, address, after) ∧
    (status = .failed ∨ p.backingSize ≤ address)

theorem initPlayback_quietly {status : Status} {address : Nat}
    (h : initPlayback p s = some (status, address, after)) :
    Quietly s after := by
  have hinit : Quietly s (backingStoreInit p (wearLevelingClearCache p s)).2 :=
    ⟨.one (.inl rfl), rfl⟩
  simp only [initPlayback] at h
  rcases hresult : backingStoreInit p (wearLevelingClearCache p s) with ⟨ok, s1⟩
  rw [hresult] at hinit h
  cases ok with
  | false => cases h
  | true =>
      have hread := wearLevelingReadConsolidated_quietly (p := p) s1
      simp only at h
      rcases hresult : wearLevelingReadConsolidated p s1 with ⟨status, s2⟩
      rw [hresult] at hread h
      have hloop := playbackLoop_quietly (p := p) p.backingSize p.logStart s2
      have hall := (hinit.trans hread).trans hloop
      cases status with
      | failed => cases h
      | success =>
          simp only [Option.some.injEq] at h
          rw [h] at hall
          exact hall
      | consolidated =>
          simp only [Option.some.injEq] at h
          rw [h] at hall
          exact hall

theorem wearLevelingInit_none (h : initPlayback p s = none) :
    Quietly s (wearLevelingInit p s).2 := by
  have hinit : Quietly s (backingStoreInit p (wearLevelingClearCache p s)).2 :=
    ⟨.one (.inl rfl), rfl⟩
  simp only [initPlayback] at h
  simp only [wearLevelingInit]
  rcases hresult : backingStoreInit p (wearLevelingClearCache p s) with ⟨ok, s1⟩
  rw [hresult] at hinit h
  cases ok with
  | false => exact ⟨hinit.calls, hinit.flag⟩
  | true =>
      have hread := wearLevelingReadConsolidated_quietly (p := p) s1
      simp only at h
      rcases hresult : wearLevelingReadConsolidated p s1 with ⟨status, s2⟩
      rw [hresult] at hread h
      have hboth := hinit.trans hread
      cases status with
      | failed => simp only [hresult]; exact ⟨hboth.calls, hboth.flag⟩
      | success => cases h
      | consolidated => cases h

/-- What `wear_leveling_init` does after the playback loop. -/
theorem wearLevelingInit_some {status : Status} {address : Nat}
    (h : initPlayback p s = some (status, address, after)) :
    wearLevelingInit p s =
      match
        if status = .failed then
          wearLevelingConsolidateForce p { after with writeAddress := address }
        else
          wearLevelingConsolidateIfNeeded p { after with writeAddress := address }
      with
      | (.failed, s) => (.failed, wearLevelingClearCache p s)
      | result => result := by
  simp only [initPlayback] at h
  simp only [wearLevelingInit]
  rcases hresult : backingStoreInit p (wearLevelingClearCache p s) with ⟨ok, s1⟩
  rw [hresult] at h
  cases ok with
  | false => cases h
  | true =>
      simp only at h
      rcases hresult : wearLevelingReadConsolidated p s1 with ⟨found, s2⟩
      rw [hresult] at h
      cases found with
      | failed => cases h
      | success =>
          simp only [Option.some.injEq] at h
          simp only [hresult, wearLevelingPlaybackLog, h]
          all_goals rfl
      | consolidated =>
          simp only [Option.some.injEq] at h
          simp only [hresult, wearLevelingPlaybackLog, h]
          all_goals rfl

theorem wearLevelingInit_cases (s : State) :
    (¬ InitConsolidates p s ∧ Quietly s (wearLevelingInit p s).2) ∨
    ∃ before : State, InitConsolidates p s ∧ Quietly s before ∧
      (wearLevelingInit p s).2.trace =
        (wearLevelingConsolidateForce p before).2.trace ∧
      (wearLevelingInit p s).2.unlocked =
        (wearLevelingConsolidateForce p before).2.unlocked := by
  rcases hplayback : initPlayback p s with _ | ⟨status, address, after⟩
  · exact .inl ⟨by simp [InitConsolidates, hplayback],
      wearLevelingInit_none hplayback⟩
  · have hquiet := initPlayback_quietly hplayback
    have hbefore : Quietly s { after with writeAddress := address } :=
      ⟨hquiet.calls, hquiet.flag⟩
    have hcleared : ∀ result : Status × State,
        (match result with
          | (.failed, s) => (Status.failed, wearLevelingClearCache p s)
          | result => result).2.trace = result.2.trace ∧
        (match result with
          | (.failed, s) => (Status.failed, wearLevelingClearCache p s)
          | result => result).2.unlocked = result.2.unlocked := by
      rintro ⟨status, final⟩
      cases status <;> exact ⟨rfl, rfl⟩
    rw [wearLevelingInit_some hplayback]
    by_cases hgoes : status = .failed ∨ p.backingSize ≤ address
    · right
      refine ⟨_, ⟨status, address, after, hplayback, hgoes⟩, hbefore, ?_⟩
      have hforce : (if status = .failed then
            wearLevelingConsolidateForce p { after with writeAddress := address }
          else wearLevelingConsolidateIfNeeded p
            { after with writeAddress := address }) =
          wearLevelingConsolidateForce p
            { after with writeAddress := address } := by
        rcases hgoes with hfailed | haddress
        · rw [if_pos hfailed]
        · simp only [wearLevelingConsolidateIfNeeded, haddress, if_true, ite_self]
      rw [hforce]
      exact hcleared _
    · rw [not_or] at hgoes
      have hidle : (if status = .failed then
            wearLevelingConsolidateForce p { after with writeAddress := address }
          else wearLevelingConsolidateIfNeeded p
            { after with writeAddress := address }) =
          (.success, { after with writeAddress := address }) := by
        simp only [hgoes.1, if_false, wearLevelingConsolidateIfNeeded, hgoes.2]
      rw [hidle]
      refine .inl ⟨?_, hbefore⟩
      rintro ⟨status', address', after', hsame, hbad⟩
      rw [hplayback] at hsame
      cases hsame
      exact hbad.elim hgoes.1 hgoes.2

theorem wearLevelingInit_inStep (h : InStep p b s)
    (hs : ¬ InitConsolidates p s ∨ (s.unlocked = true ∧ b = false)) :
    Extends (TouchedUnlocked b) s.trace (wearLevelingInit p s).2.trace ∧
      InStep p b (wearLevelingInit p s).2 := by
  rcases wearLevelingInit_cases (p := p) s with
    ⟨-, hquiet⟩ | ⟨before, hgoes, hquiet, htrace, hflag⟩
  · exact ⟨hquiet.touched, h.quietly hquiet⟩
  · obtain ⟨hopen, hb⟩ := hs.resolve_left fun hnot => hnot hgoes
    have hbefore := h.quietly hquiet
    have hopened : Opened b before :=
      have hflag := hquiet.flag.trans hopen
      ⟨hbefore.flag hflag hb, hflag⟩
    have hforce := wearLevelingConsolidateForce_open (p := p) hopened
    rw [htrace]
    refine ⟨hquiet.touched.trans hforce.calls, ?_⟩
    refine ⟨fun _ _ => htrace ▸ hforce.opened.store,
      fun _ => hflag.trans hforce.opened.flag, fun hworks => ?_⟩
    rw [h.closed hworks] at hopen
    exact absurd hopen Bool.noConfusion

/-- While locking works, a consolidation of a locked store locks it again. -/
theorem wearLevelingConsolidateForce_closed (hworks : p.LocksWork)
    (h : InStep p b s) : InStep p b (wearLevelingConsolidateForce p s).2 := by
  have herased : ∀ ok mem, InStep p b { s.record .erase ok with mem := mem } :=
    fun ok mem => h.of_eq rfl rfl
  simp only [wearLevelingConsolidateForce, backingStoreErase]
  cases hok : (p.answer s .erase).ok with
  | false => exact herased false _
  | true =>
      simp only [if_true]
      have hstep := herased true fun _ => 0
      have hunlock := (wearLevelingUnlock_inStep (p := p) hstep
        (.inl (hstep.closed hworks))).2
      rw [wearLevelingWriteConsolidated_eq]
      rcases hunlock with ⟨hstatus, -, -⟩ | ⟨hstatus, hopen⟩ | ⟨-, hflag, -⟩
      · rw [wearLevelingUnlock, if_neg (by rw [hstep.closed hworks]; simp),
          backingStoreUnlock, Platform.answer, (hworks _).1] at hstatus
        exact absurd hstatus LockStatus.noConfusion
      · have hclosed := (wearLevelingLock_opened (p := p)
          (writeImage_open (p := p) hopen).opened).2
        simp only [hstatus, if_true]
        exact hclosed.of_eq rfl rfl
      · rw [hstep.closed hworks] at hflag
        exact absurd hflag Bool.noConfusion

theorem wearLevelingInit_closed (hworks : p.LocksWork) (h : InStep p b s) :
    InStep p b (wearLevelingInit p s).2 := by
  rcases wearLevelingInit_cases (p := p) s with
    ⟨-, hquiet⟩ | ⟨before, -, hquiet, htrace, hflag⟩
  · exact h.quietly hquiet
  · have hforce := wearLevelingConsolidateForce_closed hworks (h.quietly hquiet)
    exact hforce.of_eq hflag (by rw [htrace])

end Init

/-! ## Runs -/

/--
The call does not touch a locked store: an initialisation must not consolidate,
and no call may rely on an earlier call of `lock` having failed.
-/
def LockSafe (p : Platform) (b : Bool) (s : State) : Operation → Prop
  | .init => ¬ InitConsolidates p s ∨ (s.unlocked = true ∧ b = false)
  | .erase => s.unlocked = false ∨ b = false
  | .write address value =>
      s.unlocked = false ∨ b = false ∨ p.logicalSize < address + value.length ∨
        value = readBlock s.cache address value.length
  | .read _ _ => True

section Runs

variable {p : Platform} {b : Bool}

theorem LockSafe.step {s : State}
    (h : Always (TouchedUnlocked b) s.trace ∧ InStep p b s) (op : Operation)
    (hop : LockSafe p b s op) :
    Always (TouchedUnlocked b) (perform p s op).trace ∧
      InStep p b (perform p s op) := by
  obtain ⟨halways, hstep⟩ := h
  cases op with
  | init =>
      have hinit := wearLevelingInit_inStep hstep hop
      exact ⟨halways.extend hinit.1, hinit.2⟩
  | erase =>
      have herase := wearLevelingErase_inStep hstep hop
      exact ⟨halways.extend herase.1, herase.2⟩
  | write address value =>
      rcases hop with hs | hb | hbound | hsame
      · have hwrite := wearLevelingWrite_inStep hstep (.inl hs) address value
        exact ⟨halways.extend hwrite.1, hwrite.2⟩
      · have hwrite := wearLevelingWrite_inStep hstep (.inr hb) address value
        exact ⟨halways.extend hwrite.1, hwrite.2⟩
      · rw [perform, wearLevelingWrite_outside (Nat.not_le.mpr hbound)]
        exact ⟨halways, hstep⟩
      · by_cases hbound : address + value.length ≤ p.logicalSize
        · rw [perform, wearLevelingWrite_repeated hbound hsame]
          exact ⟨halways, hstep⟩
        · rw [perform, wearLevelingWrite_outside hbound]
          exact ⟨halways, hstep⟩
  | read address length => exact ⟨halways, hstep⟩

theorem InStep.step (hworks : p.LocksWork) {s : State} (h : InStep p b s)
    (op : Operation) : InStep p b (perform p s op) := by
  cases op with
  | init => exact wearLevelingInit_closed hworks h
  | erase => exact (wearLevelingErase_inStep h (.inl (h.closed hworks))).2
  | write address value =>
      exact (wearLevelingWrite_inStep h (.inl (h.closed hworks)) address value).2
  | read address length => exact h

/--
A run whose calls are safe touches the store only while it is unlocked; and
when no locking call fails, any run leaves the store locked.
-/
theorem wearLeveling_lock_discipline (p : Platform) (b : Bool)
    (mem : Nat → UInt8) (ops : List Operation) :
    (Meets (perform p) (LockSafe p b) (boot mem) ops →
      Always (TouchedUnlocked b) (run (perform p) (boot mem) ops).trace) ∧
    (p.LocksWork →
      storeUnlocked b (run (perform p) (boot mem) ops).trace = false) := by
  constructor
  · intro hmeets
    exact (hmeets.preserves
      (fun s => Always (TouchedUnlocked b) s.trace ∧ InStep p b s)
      (fun s op h hop => LockSafe.step h op hop) ⟨.nil, .boot mem⟩).1
  · intro hworks
    have hmeets : Meets (perform p) (fun _ _ => True) (boot mem) ops :=
      .of_forall (fun _ => True) (fun _ _ _ => trivial) (by simp) _
    have hend := hmeets.preserves (InStep p b)
      (fun s op h _ => h.step hworks op) (.boot mem)
    cases hstore : storeUnlocked b (run (perform p) (boot mem) ops).trace with
    | false => rfl
    | true =>
        have hflag := hend.store hstore
        rw [hend.closed hworks] at hflag
        exact absurd hflag Bool.noConfusion

end Runs

/-- A log that starts with an entry of unknown type. -/
def corruptLog : Nat → UInt8 := fun i => if i = 24 then 192 else 0

/-- Initialising on a corrupt log erases the locked store. -/
theorem smallBoard_erases_locked :
    smallBoard.Reliable ∧
      ∀ b ∈ [true, false], ¬ Always (TouchedUnlocked b)
        (run (perform smallBoard) (boot corruptLog) [.init]).trace := by
  refine ⟨fun _ _ => rfl, ?_⟩
  intro b hb halways
  have herase :
      (run (perform smallBoard) (boot corruptLog) [.init]).trace.drop 14 =
        ⟨.erase, true⟩ ::
          (run (perform smallBoard) (boot corruptLog) [.init]).trace.drop 15 := by
    decide
  have hlast := halways.drop 14
  rw [herase, Always.cons_iff] at hlast
  have hlocked : ∀ b ∈ [true, false], storeUnlocked b
      ((run (perform smallBoard) (boot corruptLog) [.init]).trace.drop 15) =
        false := by decide
  have hopen := hlast.2 (.inl rfl)
  rw [hlocked b hb] at hopen
  exact absurd hopen Bool.noConfusion

theorem smallBoard_lock_discipline :
    Always (TouchedUnlocked true)
        (run (perform smallBoard) (boot fun _ => 0)
          [.init, .write 0 [7, 8], .erase]).trace ∧
      storeUnlocked true
        (run (perform smallBoard) (boot fun _ => 0)
          [.init, .write 0 [7, 8], .erase]).trace = false := by
  obtain ⟨hsafe, hlocked⟩ := wearLeveling_lock_discipline smallBoard true
    (fun _ => 0) [.init, .write 0 [7, 8], .erase]
  refine ⟨hsafe ⟨.inl ?_, .inl (by decide), .inl (by decide),
    trivial⟩, hlocked fun _ => ⟨rfl, rfl⟩⟩
  rintro ⟨status, address, after, hplayback, hbad⟩
  have hshort := congrArg (Option.map fun result => (result.1, result.2.1)) hplayback
  have hempty : (initPlayback smallBoard (boot fun _ => 0)).map
      (fun result => (result.1, result.2.1)) = some (.success, 24) := by
    decide
  rw [hempty] at hshort
  simp only [Option.map_some, Option.some.injEq, Prod.mk.injEq] at hshort
  rcases hbad with hfailed | haddress
  · rw [← hshort.1] at hfailed
    exact absurd hfailed Status.noConfusion
  · rw [← hshort.2] at haddress
    exact absurd haddress (by decide)

end Qmk.WearLeveling
