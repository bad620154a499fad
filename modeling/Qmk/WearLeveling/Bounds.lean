import Qmk.WearLeveling.LockDiscipline

/-!
# Accesses outside the backing store

The cursor can pass the end of the store: a consolidation whose erase fails
leaves it there.  Playback checks its position once for each entry, so it can
read past the end of the store when the log ends inside a multi-byte entry.
-/

namespace Qmk.WearLeveling

open Qmk.Lib

/-- Reads and writes stay inside the backing store. -/
def InBounds (p : Platform) (_ : List Event) (event : Event) : Prop :=
  ∀ address, (event.call = .read address ∨
      ∃ value, event.call = .write address value) →
    address + p.width ≤ p.backingSize

/-- The calls made since `s` stay inside the backing store. -/
def Within (p : Platform) (s after : State) : Prop :=
  Extends (InBounds p) s.trace after.trace

section Walk

variable (p : Platform)

/-- A further word of a multi-byte entry is wanted, but the store ends before it. -/
def multibyteRunsOver (address : Nat) (log : WriteLogEntry) (s : State) : Prop :=
  (p.writeSize = .two ∧ p.backingSize ≤ address) ∨
  match playbackReadWord p (p.writeSize = .two) 1 address log s with
  | (false, _) => False
  | (true, address, log, s) =>
      let l := logEntryMultibyteGetLength log
      logEntryMultibyteGetAddress log + l ≤ p.logicalSize ∧
        ((p.writeSize ≠ .eight ∧ 1 < l ∧ p.backingSize ≤ address) ∨
        match
          playbackReadWord p (p.writeSize ≠ .eight ∧ 1 < l)
            (if p.writeSize = .two then 2 else 1) address log s
        with
        | (false, _) => False
        | (true, address, _) =>
            p.writeSize = .two ∧ 3 < l ∧ p.backingSize ≤ address)

/-- The playback loop reaches a multi-byte entry that the end of the store cuts off. -/
def playbackRunsOver : Nat → Nat → State → Prop
  | 0, _, _ => False
  | fuel + 1, address, s =>
      address < p.backingSize ∧
      match backingStoreRead p address s with
      | (false, _) => False
      | (true, value, s) =>
          let log := overlay (fun _ => 0) 0 value
          value ≠ List.replicate p.width 0 ∧
            ((logEntryGetType log = logEntryTypeMultibyte ∧
              multibyteRunsOver p (address + p.width) log s) ∨
            match playbackEntry p (address + p.width) log s with
            | (.success, address, s) => playbackRunsOver fuel address s
            | _ => False)

/-- The log that `wear_leveling_init` plays back ends inside an entry. -/
def InitRunsOver (s : State) : Prop :=
  match backingStoreInit p (wearLevelingClearCache p s) with
  | (false, _) => False
  | (true, s) =>
      match wearLevelingReadConsolidated p s with
      | (.failed, _) => False
      | (_, s) => playbackRunsOver p p.backingSize p.logStart s

end Walk

section Within

variable {p : Platform} {s after : State}

theorem InBounds.idle {event : Event}
    (hread : ∀ address, event.call ≠ .read address)
    (hwrite : ∀ address value, event.call ≠ .write address value)
    (past : List Event) : InBounds p past event := by
  rintro address (hcall | ⟨value, hcall⟩)
  · exact absurd hcall (hread address)
  · exact absurd hcall (hwrite address value)

theorem backingStoreRead_within (address : Nat)
    (h : address + p.width ≤ p.backingSize) (s : State) :
    Within p s (backingStoreRead p address s).2.2 := by
  refine .one fun other hcall => ?_
  rcases hcall with hcall | ⟨value, hcall⟩
  · cases hcall
    exact h
  · cases hcall

theorem backingStoreWrite_within (address : Nat)
    (h : address + p.width ≤ p.backingSize) (value : List UInt8) (s : State) :
    Within p s (backingStoreWrite p address value s).2 := by
  refine .one fun other hcall => ?_
  rcases hcall with hcall | ⟨value, hcall⟩
  · cases hcall
  · cases hcall
    exact h

theorem backingStoreErase_within (s : State) :
    Within p s (backingStoreErase p s).2 :=
  .one (.idle (by simp) (by simp) _)

theorem wearLevelingUnlock_within (s : State) :
    Within p s (wearLevelingUnlock p s).2 := by
  rw [wearLevelingUnlock]
  split
  · exact .refl
  · rw [backingStoreUnlock]
    cases (p.answer s .unlock).ok <;> exact .one (.idle (by simp) (by simp) _)

theorem wearLevelingLock_within (s : State) :
    Within p s (wearLevelingLock p s).2 := by
  rw [wearLevelingLock]
  split
  · exact .refl
  · rw [backingStoreLock]
    cases (p.answer s .lock).ok <;> exact .one (.idle (by simp) (by simp) _)

theorem relock_within (lockStatus : LockStatus) (result : Status × State) :
    Within p result.2 (relock p lockStatus result).2 := by
  have hlock := wearLevelingLock_within (p := p) result.2
  rw [relock]
  split
  · rcases hresult : wearLevelingLock p result.2 with ⟨status, after⟩
    rw [hresult] at hlock
    cases status <;> exact hlock
  · exact .refl

/-! ## Writes -/

theorem backingStoreWriteBulk_within (count address : Nat)
    (h : address + count * p.width ≤ p.backingSize) (values : List UInt8)
    (s : State) :
    Within p s (backingStoreWriteBulk p address values count s).2 := by
  induction count generalizing address values s with
  | zero => exact .refl
  | succ count ih =>
      rw [Nat.succ_mul] at h
      have hwrite := backingStoreWrite_within (p := p) address (by omega)
        (values.take p.width) s
      simp only [backingStoreWriteBulk]
      rcases hresult : backingStoreWrite p address (values.take p.width) s with
        ⟨ok, final⟩
      rw [hresult] at hwrite
      cases ok with
      | true => exact Extends.trans hwrite (ih _ (by omega) _ final)
      | false => exact hwrite

theorem writeImage_within (h : p.logStart ≤ p.backingSize) (s : State) :
    Within p s (writeImage p s).2 := by
  simp only [Platform.logStart] at h
  have hdata := backingStoreWriteBulk_within (p := p) (p.logicalSize / p.width)
    0 (by rw [p.logical_items]; omega)
    (readBlock s.cache 0 p.logicalSize) s
  simp only [writeImage]
  rcases hwrite : backingStoreWriteBulk p 0 (readBlock s.cache 0 p.logicalSize)
    (p.logicalSize / p.width) s with ⟨ok, final⟩
  rw [hwrite] at hdata
  cases ok with
  | false => exact hdata
  | true =>
      have hhash := backingStoreWriteBulk_within (p := p) (8 / p.width)
        p.logicalSize (by rw [p.hash_items]; exact h)
        (readBlock (p.fnv64aBuf (readBlock final.cache 0 p.logicalSize)) 0 8)
        final
      rcases hwrite' : backingStoreWriteBulk p p.logicalSize
        (readBlock (p.fnv64aBuf (readBlock final.cache 0 p.logicalSize)) 0 8)
        (8 / p.width) final with ⟨ok, last⟩
      rw [hwrite'] at hhash
      simp only [hwrite']
      cases ok <;> exact Extends.trans hdata hhash

theorem wearLevelingWriteConsolidated_within
    (h : p.logStart ≤ p.backingSize) (s : State) :
    Within p s (wearLevelingWriteConsolidated p s).2 := by
  have hunlock := wearLevelingUnlock_within (p := p) s
  have himage := writeImage_within h (wearLevelingUnlock p s).2
  have hlock := wearLevelingLock_within (p := p)
    (writeImage p (wearLevelingUnlock p s).2).2
  have hwritten := Extends.trans hunlock himage
  rw [wearLevelingWriteConsolidated_eq]
  simp only
  split
  · exact hwritten.trans hlock
  · exact hwritten

theorem wearLevelingConsolidateForce_within (h : p.logStart ≤ p.backingSize)
    (s : State) : Within p s (wearLevelingConsolidateForce p s).2 := by
  have herase := backingStoreErase_within (p := p) s
  simp only [wearLevelingConsolidateForce]
  rcases hresult : backingStoreErase p s with ⟨ok, erased⟩
  rw [hresult] at herase
  cases ok with
  | false => exact herase
  | true =>
      exact Extends.trans herase (wearLevelingWriteConsolidated_within h erased)

theorem wearLevelingConsolidateForce_aligned (h : p.width ∣ s.writeAddress) :
    p.width ∣ (wearLevelingConsolidateForce p s).2.writeAddress := by
  rcases wearLevelingConsolidateForce_cases p s with
    ⟨u, t, hforce⟩ | ⟨mem, address, u, t, haddress, hforce⟩
  · rw [hforce]
    exact p.width_dvd_start
  · rw [hforce]
    rcases haddress with rfl | rfl
    · exact h
    · exact p.width_dvd_start

/-- Appending at a cursor inside the store stays inside; success leaves it inside. -/
theorem wearLevelingAppendRaw_within (hstart : p.logStart ≤ p.backingSize)
    (haligned : p.width ∣ s.writeAddress) (hcursor : s.writeAddress < p.backingSize)
    (word : List UInt8) :
    Within p s (wearLevelingAppendRaw p word s).2 ∧
      p.width ∣ (wearLevelingAppendRaw p word s).2.writeAddress ∧
      ((wearLevelingAppendRaw p word s).1 = .success →
        (wearLevelingAppendRaw p word s).2.writeAddress < p.backingSize) := by
  have hwrite := backingStoreWrite_within _ (p.word_le haligned p.width_dvd_backing hcursor) word s
  simp only [wearLevelingAppendRaw]
  rcases hresult : backingStoreWrite p s.writeAddress word s with ⟨ok, final⟩
  have hfinal : final.writeAddress = s.writeAddress := by
    rw [backingStoreWrite, Prod.mk.injEq] at hresult
    rw [← hresult.2]
    rfl
  rw [hresult] at hwrite
  cases ok with
  | false =>
      refine ⟨hwrite, ?_, fun hne => absurd hne Status.noConfusion⟩
      rw [hfinal]
      exact haligned
  | true =>
      have hpow : p.width ∣ 2 ^ 32 := by
        cases hw : p.writeSize <;> simp only [Platform.width, hw, WriteSize.bytes] <;>
          decide
      have hmoved : p.width ∣ (final.writeAddress + p.width) % 2 ^ 32 := by
        rw [Nat.dvd_mod_iff hpow, hfinal]
        exact Nat.dvd_add haligned (Nat.dvd_refl _)
      simp only [wearLevelingConsolidateIfNeeded]
      split
      · have hforce := wearLevelingConsolidateForce_within hstart
          { final with writeAddress := (final.writeAddress + p.width) % 2 ^ 32 }
        refine ⟨Extends.trans hwrite hforce,
          wearLevelingConsolidateForce_aligned hmoved, fun hsuccess => ?_⟩
        exact absurd hsuccess (wearLevelingConsolidateForce_ne_success _)
      · next hroom => exact ⟨hwrite, hmoved, fun _ => Nat.lt_of_not_le hroom⟩

theorem appendAll_within (hstart : p.logStart ≤ p.backingSize)
    (words : List (List UInt8)) (haligned : p.width ∣ s.writeAddress)
    (hcursor : s.writeAddress < p.backingSize) :
    Within p s (appendAll p words s).2 ∧
      p.width ∣ (appendAll p words s).2.writeAddress := by
  induction words generalizing s with
  | nil => exact ⟨.refl, haligned⟩
  | cons word words ih =>
      obtain ⟨hcalls, hnext, hroom⟩ :=
        wearLevelingAppendRaw_within hstart haligned hcursor word
      simp only [appendAll]
      rcases hresult : wearLevelingAppendRaw p word s with ⟨status, final⟩
      rw [hresult] at hcalls hnext hroom
      cases status with
      | success =>
          have hrest := ih hnext (hroom rfl)
          exact ⟨Extends.trans hcalls hrest.1, hrest.2⟩
      | failed => exact ⟨hcalls, hnext⟩
      | consolidated => exact ⟨hcalls, hnext⟩

theorem wearLevelingConsolidateIfNeeded_within
    (hstart : p.logStart ≤ p.backingSize) (haligned : p.width ∣ s.writeAddress) :
    Within p s (wearLevelingConsolidateIfNeeded p s).2 ∧
      p.width ∣ (wearLevelingConsolidateIfNeeded p s).2.writeAddress := by
  rw [wearLevelingConsolidateIfNeeded]
  split
  · exact ⟨wearLevelingConsolidateForce_within hstart s,
      wearLevelingConsolidateForce_aligned haligned⟩
  · exact ⟨.refl, haligned⟩

theorem appendThenConsolidate_within (hstart : p.logStart ≤ p.backingSize)
    (words : List (List UInt8)) (haligned : p.width ∣ s.writeAddress)
    (hcursor : s.writeAddress < p.backingSize) :
    Within p s (appendThenConsolidate p words s).2 ∧
      p.width ∣ (appendThenConsolidate p words s).2.writeAddress := by
  have hall := appendAll_within hstart words haligned hcursor
  simp only [appendThenConsolidate]
  rcases hresult : appendAll p words s with ⟨status, final⟩
  rw [hresult] at hall
  cases status with
  | success =>
      have hlast := wearLevelingConsolidateIfNeeded_within hstart hall.2
      exact ⟨Extends.trans hall.1 hlast.1, hlast.2⟩
  | failed => exact hall
  | consolidated => exact hall

/-- The next unlock of the store fails. -/
def UnlockFails (p : Platform) (s : State) : Prop :=
  s.unlocked = false ∧ (p.answer s .unlock).ok = false

theorem wearLevelingWrite_within (haligned : p.width ∣ s.writeAddress)
    (h : (p.logStart ≤ p.backingSize ∧ s.writeAddress < p.backingSize) ∨
      UnlockFails p s) (address : Nat) (value : List UInt8) :
    Within p s (wearLevelingWrite p address value s).2 ∧
      p.width ∣ (wearLevelingWrite p address value s).2.writeAddress := by
  by_cases hbound : address + value.length ≤ p.logicalSize
  · by_cases hsame : value = readBlock s.cache address value.length
    · rw [wearLevelingWrite_repeated hbound hsame]
      exact ⟨.refl, haligned⟩
    · have hunlock := wearLevelingUnlock_within (p := p)
        { s with cache := overlay s.cache address value }
      obtain ⟨u, t, hframe⟩ := wearLevelingUnlock_frame p
        { s with cache := overlay s.cache address value }
      have hfails : UnlockFails p s → (wearLevelingUnlock p
          { s with cache := overlay s.cache address value }).1 = .failure := by
        rintro ⟨hflag, hok⟩
        have hanswer : (p.answer { s with
            cache := overlay s.cache address value } .unlock).ok = false := hok
        rw [wearLevelingUnlock, if_neg (by simp [hflag]), backingStoreUnlock,
          hanswer]
      rw [wearLevelingWrite_eq hbound hsame]
      rcases hresult : wearLevelingUnlock p
        { s with cache := overlay s.cache address value } with ⟨lockStatus, after⟩
      rw [hresult] at hunlock hframe hfails
      simp only at hframe
      have hcursor : after.writeAddress = s.writeAddress := by rw [hframe]
      have hbody : ∀ lockStatus, lockStatus ≠ .failure →
          p.logStart ≤ p.backingSize ∧ s.writeAddress < p.backingSize →
          Within p after (relock p lockStatus (appendThenConsolidate p
              (wordsFor p address value) after)).2 ∧
            p.width ∣ (relock p lockStatus (appendThenConsolidate p
              (wordsFor p address value) after)).2.writeAddress := by
        rintro lockStatus - ⟨hstart, hroom⟩
        rw [← hcursor] at hroom haligned
        have hall := appendThenConsolidate_within hstart
          (wordsFor p address value) haligned hroom
        have hlock := relock_within (p := p) lockStatus
          (appendThenConsolidate p (wordsFor p address value) after)
        obtain ⟨u, t, hrelock, -⟩ := relock_cases (p := p) lockStatus
          (appendThenConsolidate p (wordsFor p address value) after)
        refine ⟨Extends.trans hall.1 hlock, ?_⟩
        rw [hrelock]
        exact hall.2
      cases lockStatus with
      | failure =>
          obtain ⟨u, t, hlock⟩ := wearLevelingLock_frame p after
          refine ⟨Extends.trans hunlock (wearLevelingLock_within after), ?_⟩
          simp only [hlock, hcursor]
          exact haligned
      | success =>
          have hroom := h.resolve_right fun hfail =>
            absurd (hfails hfail) LockStatus.noConfusion
          have hfinal := hbody .success LockStatus.noConfusion hroom
          exact ⟨Extends.trans hunlock hfinal.1, hfinal.2⟩
      | unchanged =>
          have hroom := h.resolve_right fun hfail =>
            absurd (hfails hfail) LockStatus.noConfusion
          have hfinal := hbody .unchanged LockStatus.noConfusion hroom
          exact ⟨Extends.trans hunlock hfinal.1, hfinal.2⟩
  · rw [wearLevelingWrite_outside hbound]
    exact ⟨.refl, haligned⟩

theorem wearLevelingErase_within (haligned : p.width ∣ s.writeAddress) :
    Within p s (wearLevelingErase p s).2 ∧
      p.width ∣ (wearLevelingErase p s).2.writeAddress := by
  have hunlock := wearLevelingUnlock_within (p := p) s
  obtain ⟨u, t, hframe⟩ := wearLevelingUnlock_frame p s
  simp only [wearLevelingErase]
  rcases hresult : wearLevelingUnlock p s with ⟨lockStatus, after⟩
  rw [hresult] at hunlock hframe
  simp only at hframe
  have herase := backingStoreErase_within (p := p) after
  have hcleared : Within p after
      (wearLevelingClearCache p (backingStoreErase p after).2) := herase
  have hlock := wearLevelingLock_within (p := p)
    (wearLevelingClearCache p (backingStoreErase p after).2)
  obtain ⟨u', t', hrelock⟩ := wearLevelingLock_frame p
    (wearLevelingClearCache p (backingStoreErase p after).2)
  cases lockStatus with
  | failure =>
      obtain ⟨u, t, hlocked⟩ := wearLevelingLock_frame p after
      refine ⟨Extends.trans hunlock (wearLevelingLock_within after), ?_⟩
      simp only [hlocked]
      rw [hframe]
      exact haligned
  | success =>
      refine ⟨(Extends.trans hunlock hcleared).trans hlock, ?_⟩
      simp only [if_true, hrelock]
      exact p.width_dvd_start
  | unchanged =>
      exact ⟨Extends.trans hunlock hcleared, p.width_dvd_start⟩

/-! ## Reads -/

theorem backingStoreReadBulk_within (count address : Nat)
    (h : address + count * p.width ≤ p.backingSize) (s : State) :
    Within p s (backingStoreReadBulk p address count s).2.2 := by
  induction count generalizing address s with
  | zero => exact .refl
  | succ count ih =>
      rw [Nat.succ_mul] at h
      have hread := backingStoreRead_within (p := p) address (by omega) s
      simp only [backingStoreReadBulk]
      rcases hresult : backingStoreRead p address s with ⟨ok, value, final⟩
      rw [hresult] at hread
      cases ok with
      | true => exact Extends.trans hread (ih _ (by omega) final)
      | false => exact hread

theorem wearLevelingReadConsolidated_within (h : p.logStart ≤ p.backingSize)
    (s : State) : Within p s (wearLevelingReadConsolidated p s).2 := by
  simp only [Platform.logStart] at h
  have hdata := backingStoreReadBulk_within (p := p) (p.logicalSize / p.width)
    0 (by rw [p.logical_items]; omega) s
  simp only [wearLevelingReadConsolidated]
  rcases hresult : backingStoreReadBulk p 0 (p.logicalSize / p.width) s with
    ⟨ok, values, final⟩
  rw [hresult] at hdata
  cases ok with
  | false => exact hdata
  | true =>
      have hhash := backingStoreReadBulk_within (p := p) (8 / p.width)
        p.logicalSize (by rw [p.hash_items]; exact h)
        { final with cache := overlay final.cache 0 values }
      have hboth := Extends.trans hdata hhash
      simp only
      split
      · exact hboth
      · exact hboth

theorem playbackReadWord_within (wanted : Bool) (k : Nat) {address : Nat}
    (haligned : p.width ∣ address)
    (h : wanted = true → address < p.backingSize) (log : WriteLogEntry)
    (s : State) :
    Within p s (playbackReadWord p wanted k address log s).2.2.2 ∧
      p.width ∣ (playbackReadWord p wanted k address log s).2.1 := by
  cases wanted with
  | false => exact ⟨.refl, haligned⟩
  | true =>
      have hread := backingStoreRead_within _
        (p.word_le haligned p.width_dvd_backing (h rfl)) s
      simp only [playbackReadWord, if_true]
      rcases hresult : backingStoreRead p address s with ⟨ok, value, final⟩
      rw [hresult] at hread
      cases ok with
      | true => exact ⟨hread, Nat.dvd_add haligned (Nat.dvd_refl _)⟩
      | false => exact ⟨hread, haligned⟩

theorem playbackMultibyte_within {address : Nat} {log : WriteLogEntry}
    (haligned : p.width ∣ address) (h : ¬ multibyteRunsOver p address log s) :
    Within p s (playbackMultibyte p address log s).2.2 ∧
      p.width ∣ (playbackMultibyte p address log s).2.1 := by
  rw [multibyteRunsOver, not_or] at h
  obtain ⟨hfirst, hrest⟩ := h
  have h1 := playbackReadWord_within (p := p) (p.writeSize = .two) 1 haligned
    (fun hw => Nat.lt_of_not_le fun hle => hfirst ⟨by simpa using hw, hle⟩) log s
  simp only [playbackMultibyte]
  rcases hresult : playbackReadWord p (p.writeSize = .two) 1 address log s with
    ⟨ok, address1, log1, s1⟩
  rw [hresult] at h1 hrest
  cases ok with
  | false => exact h1
  | true =>
      simp only [not_and_or] at hrest
      simp only
      split
      · exact h1
      · next hbound =>
          have hrest := hrest.resolve_left fun hle => hle (Nat.le_of_not_lt hbound)
          rw [not_or] at hrest
          obtain ⟨hsecond, hthird⟩ := hrest
          have h2 := playbackReadWord_within (p := p)
            (p.writeSize ≠ .eight ∧ 1 < logEntryMultibyteGetLength log1)
            (if p.writeSize = .two then 2 else 1) h1.2
            (fun hw => Nat.lt_of_not_le fun hle => by
              have hw := of_decide_eq_true hw
              exact hsecond ⟨hw.1, hw.2, hle⟩) log1 s1
          rcases hresult : playbackReadWord p
            (p.writeSize ≠ .eight ∧ 1 < logEntryMultibyteGetLength log1)
            (if p.writeSize = .two then 2 else 1) address1 log1 s1 with
            ⟨ok, address2, log2, s2⟩
          rw [hresult] at h2 hthird
          cases ok with
          | false => exact ⟨Extends.trans h1.1 h2.1, h2.2⟩
          | true =>
              have hboth := Extends.trans h1.1 h2.1
              have h3 := playbackReadWord_within (p := p)
                (p.writeSize = .two ∧ 3 < logEntryMultibyteGetLength log1) 3 h2.2
                (fun hw => Nat.lt_of_not_le fun hle => by
                  have hw := of_decide_eq_true hw
                  exact hthird ⟨hw.1, hw.2, hle⟩) log2 s2
              simp only
              rcases hresult : playbackReadWord p
                (p.writeSize = .two ∧ 3 < logEntryMultibyteGetLength log1) 3
                address2 log2 s2 with ⟨ok, address3, log3, s3⟩
              rw [hresult] at h3
              cases ok <;> exact ⟨Extends.trans hboth h3.1, h3.2⟩

theorem playbackEntry_within {address : Nat} {log : WriteLogEntry}
    (haligned : p.width ∣ address)
    (h : ¬ (logEntryGetType log = logEntryTypeMultibyte ∧
      multibyteRunsOver p address log s)) :
    Within p s (playbackEntry p address log s).2.2 ∧
      p.width ∣ (playbackEntry p address log s).2.1 := by
  simp only [playbackEntry, playbackOptimized64, playbackWord01]
  split
  · next htype =>
      exact playbackMultibyte_within haligned fun hover => h ⟨htype, hover⟩
  · split
    · split <;> exact ⟨.refl, haligned⟩
    · split
      · split <;> exact ⟨.refl, haligned⟩
      · exact ⟨.refl, haligned⟩

theorem playbackLoop_within (fuel : Nat) {address : Nat}
    (haligned : p.width ∣ address) (h : ¬ playbackRunsOver p fuel address s) :
    Within p s (playbackLoop p fuel address s).2.2 ∧
      p.width ∣ (playbackLoop p fuel address s).2.1 := by
  induction fuel generalizing address s with
  | zero => exact ⟨.refl, haligned⟩
  | succ fuel ih =>
      rw [playbackRunsOver, not_and] at h
      simp only [playbackLoop]
      split
      · next hroom =>
          have h := h hroom
          have hread := backingStoreRead_within _
            (p.word_le haligned p.width_dvd_backing hroom) s
          rcases hresult : backingStoreRead p address s with ⟨ok, value, final⟩
          rw [hresult] at hread h
          cases ok with
          | false => exact ⟨hread, haligned⟩
          | true =>
              simp only [not_and] at h
              simp only
              split
              · exact ⟨hread, haligned⟩
              · next hvalue =>
                  have h := h hvalue
                  rw [not_or] at h
                  obtain ⟨hentry, hrest⟩ := h
                  have hnext := playbackEntry_within
                    (Nat.dvd_add haligned (Nat.dvd_refl p.width)) hentry
                  rcases hresult : playbackEntry p (address + p.width)
                    (overlay (fun _ => 0) 0 value) final with ⟨status, next, last⟩
                  rw [hresult] at hnext hrest
                  have hboth := Extends.trans hread hnext.1
                  cases status with
                  | success =>
                      have hloop := ih hnext.2 hrest
                      exact ⟨Extends.trans hboth hloop.1, hloop.2⟩
                  | failed => exact ⟨hboth, hnext.2⟩
                  | consolidated => exact ⟨hboth, hnext.2⟩
      · exact ⟨.refl, haligned⟩

theorem wearLevelingPlaybackLog_within (hstart : p.logStart ≤ p.backingSize)
    (h : ¬ playbackRunsOver p p.backingSize p.logStart s) :
    Within p s (wearLevelingPlaybackLog p s).2 ∧
      p.width ∣ (wearLevelingPlaybackLog p s).2.writeAddress := by
  have hloop := playbackLoop_within p.backingSize p.width_dvd_start h
  simp only [wearLevelingPlaybackLog]
  rcases hresult : playbackLoop p p.backingSize p.logStart s with
    ⟨status, address, final⟩
  rw [hresult] at hloop
  have hforce := wearLevelingConsolidateForce_within hstart
    { final with writeAddress := address }
  have hneeded := wearLevelingConsolidateIfNeeded_within hstart
    (s := { final with writeAddress := address }) hloop.2
  simp only
  split
  · exact ⟨Extends.trans hloop.1 hforce,
      wearLevelingConsolidateForce_aligned hloop.2⟩
  · exact ⟨Extends.trans hloop.1 hneeded.1, hneeded.2⟩

theorem wearLevelingInit_within (hstart : p.logStart ≤ p.backingSize)
    (h : ¬ InitRunsOver p s) :
    Within p s (wearLevelingInit p s).2 ∧
      p.width ∣ (wearLevelingInit p s).2.writeAddress := by
  have hinit : Within p s (backingStoreInit p (wearLevelingClearCache p s)).2 :=
    .one (.idle (by simp) (by simp) _)
  rw [InitRunsOver] at h
  simp only [wearLevelingInit]
  rcases hresult : backingStoreInit p (wearLevelingClearCache p s) with ⟨ok, s1⟩
  rw [hresult] at hinit h
  cases ok with
  | false => exact ⟨hinit, p.width_dvd_start⟩
  | true =>
      have hread := wearLevelingReadConsolidated_within hstart s1
      simp only at h ⊢
      rcases hresult : wearLevelingReadConsolidated p s1 with ⟨found, s2⟩
      rw [hresult] at hread h
      have hboth := Extends.trans hinit hread
      cases found with
      | failed => exact ⟨hboth, p.width_dvd_start⟩
      | success | consolidated =>
          have hplayback := wearLevelingPlaybackLog_within hstart h
          simp only
          rcases hresult : wearLevelingPlaybackLog p s2 with ⟨status, s3⟩
          rw [hresult] at hplayback
          have hall := Extends.trans hboth hplayback.1
          cases status with
          | failed => exact ⟨hall, p.width_dvd_start⟩
          | success | consolidated => exact ⟨hall, hplayback.2⟩

end Within

/-! ## Runs -/

/--
The call stays inside the store: an initialisation finds no entry that the end
of the store cuts off, and a write that reaches the log finds the cursor before
the end of the store.
-/
def BoundsSafe (p : Platform) (s : State) : Operation → Prop
  | .init => p.logicalSize + 8 ≤ p.backingSize ∧ ¬ InitRunsOver p s
  | .write address value =>
      (p.logicalSize + 8 ≤ p.backingSize ∧ s.writeAddress < p.backingSize) ∨
        UnlockFails p s ∨ p.logicalSize < address + value.length ∨
        value = readBlock s.cache address value.length
  | _ => True

theorem BoundsSafe.step {p : Platform} {s : State}
    (haligned : p.width ∣ s.writeAddress) (op : Operation)
    (hop : BoundsSafe p s op) :
    Within p s (perform p s op) ∧
      p.width ∣ (perform p s op).writeAddress := by
  cases op with
  | init => exact wearLevelingInit_within hop.1 hop.2
  | erase => exact wearLevelingErase_within haligned
  | write address value =>
      rcases hop with hroom | hfails | hbound | hsame
      · exact wearLevelingWrite_within haligned (.inl hroom) address value
      · exact wearLevelingWrite_within haligned (.inr hfails) address value
      · rw [perform, wearLevelingWrite_outside (Nat.not_le.mpr hbound)]
        exact ⟨.refl, haligned⟩
      · by_cases hbound : address + value.length ≤ p.logicalSize
        · rw [perform, wearLevelingWrite_repeated hbound hsame]
          exact ⟨.refl, haligned⟩
        · rw [perform, wearLevelingWrite_outside hbound]
          exact ⟨.refl, haligned⟩
  | read address length => exact ⟨.refl, haligned⟩

/-- In a run whose calls are safe, every access is inside the backing store. -/
theorem wearLeveling_in_bounds (p : Platform) (mem : Nat → UInt8)
    (ops : List Operation)
    (h : Meets (perform p) (BoundsSafe p) (boot mem) ops) :
    Always (InBounds p) (run (perform p) (boot mem) ops).trace := by
  have hstep : ∀ s op,
      Always (InBounds p) s.trace ∧ p.width ∣ s.writeAddress →
      BoundsSafe p s op →
      Always (InBounds p) (perform p s op).trace ∧
        p.width ∣ (perform p s op).writeAddress := by
    rintro s op ⟨halways, haligned⟩ hop
    have hop := BoundsSafe.step haligned op hop
    exact ⟨halways.extend hop.1, hop.2⟩
  exact (h.preserves
    (fun s => Always (InBounds p) s.trace ∧ p.width ∣ s.writeAddress)
    hstep ⟨.nil, Nat.dvd_zero _⟩).1

/-- Like `smallBoard`, but every erase fails. -/
def wornBoard : Platform :=
  { smallBoard with verdict := fun _ call => ⟨call != .erase, fun _ => 0⟩ }

/-- A log that is full, its last entry cut off after the first word. -/
def cutLog : Nat → UInt8 := fun i =>
  if i = 24 ∨ i = 26 ∨ i = 28 then 64 else if i = 30 then 8 else 0

/--
After the failed erase of a full log the next write goes behind the store, and
playback of the cut log reads behind it.
-/
theorem wornBoard_leaves_store :
    ¬ Always (InBounds wornBoard)
        (run (perform wornBoard) (boot fun _ => 0)
          [.init, .write 0 [2], .write 1 [2], .write 2 [2], .write 3 [2],
            .write 4 [2]]).trace ∧
      ¬ Always (InBounds smallBoard)
        (run (perform smallBoard) (boot cutLog) [.init]).trace := by
  constructor
  · intro halways
    have hwrite : (run (perform wornBoard) (boot fun _ => 0)
        [.init, .write 0 [2], .write 1 [2], .write 2 [2], .write 3 [2],
          .write 4 [2]]).trace.drop 2 =
        ⟨.write 32 [68, 2], true⟩ :: (run (perform wornBoard) (boot fun _ => 0)
          [.init, .write 0 [2], .write 1 [2], .write 2 [2], .write 3 [2],
            .write 4 [2]]).trace.drop 3 := by decide
    have hlast := halways.drop 2
    rw [hwrite, Always.cons_iff] at hlast
    exact absurd (hlast.2 32 (.inr ⟨_, rfl⟩)) (by decide)
  · intro halways
    have hread :
        (run (perform smallBoard) (boot cutLog) [.init]).trace.drop 15 =
          ⟨.read 32, true⟩ ::
            (run (perform smallBoard) (boot cutLog) [.init]).trace.drop 16 := by
      decide
    have hlast := halways.drop 15
    rw [hread, Always.cons_iff] at hlast
    exact absurd (hlast.2 32 (.inl rfl)) (by decide)

theorem wornBoard_in_bounds :
    Always (InBounds wornBoard)
      (run (perform wornBoard) (boot fun _ => 0)
        [.erase, .write 0 [2], .write 9 [3]]).trace :=
  wearLeveling_in_bounds wornBoard (fun _ => 0)
    [.erase, .write 0 [2], .write 9 [3]]
    ⟨trivial, .inl ⟨by decide, by decide⟩,
      .inl ⟨by decide, by decide⟩, trivial⟩

end Qmk.WearLeveling
