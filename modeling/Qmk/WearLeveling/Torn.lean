import Qmk.WearLeveling.Durability

/-!
# Power loss during a write

Power is lost after some of the calls of `backing_store_write` that a write
makes.  The words already written are those of some complete entries and of the
head of a multi-byte entry.  Playback reads the missing words as zeros, so it
takes that head for an entry of its own: `Entry.torn`.
-/

namespace Qmk.WearLeveling

open Qmk.Lib

/-! ## What a power loss leaves -/

/-- The calls made since `s`, in order. -/
def callsSince (s after : State) : List Event :=
  (after.trace.take (after.trace.length - s.trace.length)).reverse

def Event.written? (event : Event) : Option (Nat × List UInt8) :=
  match event.call with
  | .write address value => some (address, value)
  | _ => none

/-- The backing store when power is lost after `count` of the writes since `s`. -/
def tornStore (s after : State) (count : Nat) : Nat → UInt8 :=
  (((callsSince s after).filterMap Event.written?).take count).foldl
    (fun mem written => overlay mem written.1 written.2) s.mem

/-- The byte at `i` is that of `old`, or that of `value` copied to `address`. -/
def OldOrNew (old : Nat → UInt8) (address : Nat) (value : List UInt8)
    (i : Nat) (byte : UInt8) : Prop :=
  byte = old i ∨ (address ≤ i ∧ value[i - address]? = some byte)

/--
Initialising after power was lost in the middle of the write finds every byte
outside the write unchanged, and every byte inside either old or new.
-/
def TornSafe (p : Platform) (s : State) (address : Nat) (value : List UInt8)
    (count : Nat) : Prop :=
  ∀ i < p.logicalSize, OldOrNew s.cache address value i
    ((wearLevelingInit p
      (boot (tornStore s (wearLevelingWrite p address value s).2 count))).2.cache i)

/-! ## Torn entries -/

section Cut

variable (p : Platform)

/-- What playback finds when only the first `count` words were written. -/
def Entry.torn (count : Nat) : Entry → Entry
  | .multibyte address value =>
      .multibyte (if p.width * count < 3 then address / 256 * 256 else address)
        (value.take (p.width * count - 3) ++
          List.replicate (value.length - (p.width * count - 3)) 0)
  | entry => entry

/-- What playback finds of `entries` when only `count` words were written. -/
def cut : List Entry → Nat → List Entry
  | [], _ => []
  | entry :: entries, count =>
      if entry.wordCount p ≤ count then
        entry :: cut entries (count - entry.wordCount p)
      else if count = 0 then []
      else [entry.torn p count]

/-- A torn entry writes a zero at `i` although `i` may not be zero. -/
def Entry.zeroFills (count : Nat) (i : Nat) : Entry → Prop
  | .multibyte address value =>
      let start := if p.width * count < 3 then address / 256 * 256 else address
      start + (p.width * count - 3) ≤ i ∧ i < start + value.length
  | _ => False

/-- The positions that the power loss leaves zero, whatever the write puts there. -/
def zeroFilled : List Entry → Nat → Nat → Prop
  | [], _, _ => False
  | entry :: entries, count, i =>
      if entry.wordCount p ≤ count then
        zeroFilled entries (count - entry.wordCount p) i
      else count ≠ 0 ∧ entry.zeroFills p count i

end Cut

section Torn

variable {p : Platform}

theorem Entry.torn_multibyte {entry : Entry} {count : Nat} (hcount : count ≠ 0)
    (h : ¬ entry.wordCount p ≤ count) :
    ∃ address value, entry = .multibyte address value := by
  cases entry with
  | multibyte address value => exact ⟨address, value, rfl⟩
  | optimized64 address value => simp [Entry.wordCount] at h; omega
  | word01 address value => simp [Entry.wordCount] at h; omega

private theorem torn_value_length (value : List UInt8) (kept : Nat) :
    (value.take kept ++ List.replicate (value.length - kept) 0).length =
      value.length := by
  rw [List.length_append, List.length_take, List.length_replicate]
  omega

theorem Entry.torn_valid {entry : Entry} (h : entry.Valid p) (count : Nat) :
    (entry.torn p count).Valid p := by
  cases entry with
  | multibyte address value =>
      obtain ⟨hpos, hmax, haddress, hbound⟩ := h
      simp only [Entry.torn, Entry.Valid, torn_value_length]
      refine ⟨hpos, hmax, ?_, ?_⟩ <;> split <;> omega
  | optimized64 address value => exact h
  | word01 address value => exact h

theorem Entry.torn_size (entry : Entry) (count : Nat) :
    (entry.torn p count).size p = entry.size p := by
  cases entry with
  | multibyte address value =>
      simp only [Entry.size, Entry.wordCount, Entry.torn, torn_value_length]
  | optimized64 address value => rfl
  | word01 address value => rfl

theorem Entry.log_multibyte_value (address : Nat) (value : List UInt8)
    {i : Nat} (h : 3 ≤ i) :
    (Entry.multibyte address value).log i = (value[i - 3]?).getD 0 := by
  have hbeyond : logEntryMakeMultibyte address value.length i = 0 := by
    rw [logEntryMakeMultibyte, makeEntry]
    exact overlay_after _ _ (by simpa using h)
  simp [Entry.log, overlay, h, hbeyond]

/-- Without the third header byte the address loses its low byte. -/
private theorem makeMultibyte_page (address length : Nat) :
    ∀ i < 2, logEntryMakeMultibyte (address / 256 * 256) length i =
      logEntryMakeMultibyte address length i := by
  intro i hi
  apply UInt8.toNat_inj.mp
  match i, hi with
  | 0, _ => rw [makeMultibyte_zero, makeMultibyte_zero]; omega
  | 1, _ => rw [makeMultibyte_one, makeMultibyte_one]; omega

/-- A torn entry has the written bytes of the entry, and zeros behind them. -/
theorem Entry.torn_log {entry : Entry} {count : Nat} (hcount : count ≠ 0)
    (h : ¬ entry.wordCount p ≤ count) (i : Nat) :
    (entry.torn p count).log i =
      if i < p.width * count then entry.log i else 0 := by
  obtain ⟨address, value, rfl⟩ := Entry.torn_multibyte hcount h
  have htwo : 2 ≤ p.width * count := by
    have hwidth : 2 ≤ p.width := by
      cases hw : p.writeSize <;> simp [Platform.width, hw, WriteSize.bytes]
    exact Nat.le_trans hwidth (Nat.le_mul_of_pos_right _ (Nat.pos_of_ne_zero hcount))
  simp only [Entry.torn]
  generalize hkept : p.width * count = kept at *
  by_cases hi : i < 3
  · rw [Entry.log_multibyte_header _ _ hi, Entry.log_multibyte_header _ _ hi,
      torn_value_length]
    by_cases hshort : kept < 3
    · rw [if_pos hshort]
      by_cases hlow : i < 2
      · rw [makeMultibyte_page _ _ i hlow, if_pos (by omega)]
      · obtain rfl : i = 2 := by omega
        rw [if_neg (by omega)]
        apply UInt8.toNat_inj.mp
        rw [makeMultibyte_two]
        simp
    · rw [if_neg hshort, if_pos (by omega)]
  · rw [Entry.log_multibyte_value _ _ (by omega),
      Entry.log_multibyte_value _ _ (by omega)]
    by_cases hin : i < kept
    · have hlt : i - 3 < kept - 3 := by omega
      rw [if_pos hin]
      by_cases hlength : i - 3 < value.length
      · rw [List.getElem?_append_left (by rw [List.length_take]; omega),
          List.getElem?_take_of_lt hlt]
      · rw [List.getElem?_eq_none (by rw [torn_value_length]; omega),
          List.getElem?_eq_none (by omega)]
    · rw [if_neg hin]
      by_cases hlength : i - 3 < value.length
      · rw [List.getElem?_append_right (by rw [List.length_take]; omega),
          List.getElem?_replicate]
        split <;> rfl
      · rw [List.getElem?_eq_none (by rw [torn_value_length]; omega)]
        rfl

theorem cut_valid {entries : List Entry}
    (h : ∀ entry ∈ entries, entry.Valid p) (count : Nat) :
    ∀ entry ∈ cut p entries count, entry.Valid p := by
  induction entries generalizing count with
  | nil => simp [cut]
  | cons entry entries ih =>
      have hfirst := h entry (by simp)
      have hrest := ih (fun other hother => h other (by simp [hother]))
      simp only [cut]
      split_ifs with hwhole hnone
      · simpa using ⟨hfirst, hrest _⟩
      · simp
      · simpa using Entry.torn_valid hfirst count

theorem words_take_flatten (entry : Entry) {count : Nat}
    (h : count ≤ entry.wordCount p) :
    ((entry.words p).take count).flatten =
      readBlock entry.log 0 (p.width * count) := by
  rw [Entry.words, ← List.map_take, List.take_range, Nat.min_eq_left h]
  clear h
  induction count with
  | zero => simp
  | succ count ih =>
      rw [List.range_succ, List.map_append, List.flatten_append, ih,
        Nat.mul_succ, readBlock_add]
      simp [Platform.rawWord]

/-- The words written so far, in front of free cells, are the cut entries. -/
theorem overlay_words_take (entries : List Entry) (count : Nat)
    {mem : Nat → UInt8} {position : Nat} (hfree : ∀ i, position ≤ i → mem i = 0) :
    overlay mem position
        (((entries.flatMap fun entry => entry.words p).take count).flatten) =
      overlay mem position (logBytes p (cut p entries count)) := by
  induction entries generalizing count mem position with
  | nil => simp [cut]
  | cons entry entries ih =>
      have hlength : (entry.words p).length = entry.wordCount p := by
        simp [Entry.words]
      rw [List.flatMap_cons, List.take_append, hlength, List.flatten_append,
        overlay_append, cut]
      by_cases hwhole : entry.wordCount p ≤ count
      · rw [List.take_of_length_le (by omega), entry.words_flatten, if_pos hwhole,
          logBytes_cons, overlay_append]
        apply ih
        intro i hi
        rw [overlay_after _ _ hi]
        exact hfree i (by omega)
      · have hrest : count - entry.wordCount p = 0 := by omega
        rw [hrest, List.take_zero, List.flatten_nil, overlay_nil,
          words_take_flatten _ (by omega), if_neg hwhole]
        by_cases hnone : count = 0
        · simp [hnone]
        · rw [if_neg hnone, logBytes_cons, logBytes_nil, List.append_nil]
          have hsize : p.width * count ≤ entry.size p :=
            Nat.mul_le_mul_left _ (by omega)
          funext i
          simp only [overlay, Entry.bytes, Entry.torn_size]
          by_cases hi : position ≤ i
          · rw [if_pos hi, if_pos hi, hfree i hi]
            by_cases hin : i - position < p.width * count
            · rw [readBlock_getElem? _ _ _ _ hin,
                readBlock_getElem? _ _ _ _ (by omega),
                Entry.torn_log hnone hwhole, if_pos (by omega)]
            · rw [List.getElem?_eq_none (by simp; omega)]
              by_cases hout : i - position < entry.size p
              · rw [readBlock_getElem? _ _ _ _ hout,
                  Entry.torn_log hnone hwhole, if_neg (by omega)]
                rfl
              · rw [List.getElem?_eq_none (by simp; omega)]
          · rw [if_neg hi, if_neg hi]

/-! ## What playback restores -/

theorem zeroFills_apply {entry : Entry} {count : Nat} (hcount : count ≠ 0)
    (h : ¬ entry.wordCount p ≤ count) (cache : Nat → UInt8) (i : Nat) :
    (entry.zeroFills p count i → (entry.torn p count).apply cache i = 0) ∧
      (¬ entry.zeroFills p count i →
        OldOrNew cache entry.address entry.value i
          ((entry.torn p count).apply cache i)) := by
  obtain ⟨address, value, rfl⟩ := Entry.torn_multibyte hcount h
  simp only [Entry.torn, Entry.apply, Entry.address, Entry.value,
    Entry.zeroFills]
  generalize hstart : (if p.width * count < 3 then address / 256 * 256
    else address) = start
  generalize hkept : p.width * count - 3 = kept at *
  have hlength := torn_value_length value kept
  constructor
  · rintro ⟨hlow, hhigh⟩
    rw [overlay_inside' _ _ _ (by omega) (by omega),
      List.getElem_append_right (by rw [List.length_take]; omega),
      List.getElem_replicate]
  · intro hnot
    by_cases hin : start ≤ i ∧ i < start + value.length
    · have hlt : i - start < kept := by omega
      have haddress : start = address := by
        rw [← hstart, if_neg (by omega)]
      subst haddress
      right
      refine ⟨hin.1, ?_⟩
      rw [overlay_inside' _ _ _ hin.1 (by omega),
        List.getElem_append_left (by rw [List.length_take]; omega),
        List.getElem_take]
      exact List.getElem?_eq_getElem _
    · left
      exact overlay_outside _ _ (by omega)

theorem cut_apply {entries : List Entry} {address : Nat} {value : List UInt8}
    (h : Splits entries address value) (count : Nat) (cache : Nat → UInt8)
    (i : Nat) :
    (zeroFilled p entries count i →
        applyEntries (cut p entries count) cache i = 0) ∧
      (¬ zeroFilled p entries count i →
        OldOrNew cache address value i
          (applyEntries (cut p entries count) cache i)) := by
  induction h generalizing count cache with
  | nil address => exact ⟨False.elim, fun _ => .inl rfl⟩
  | @cons entry entries value rest ih =>
      simp only [cut, zeroFilled]
      by_cases hwhole : entry.wordCount p ≤ count
      · rw [if_pos hwhole, if_pos hwhole, applyEntries_cons]
        obtain ⟨hzero, hrest⟩ := ih (count - entry.wordCount p) (entry.apply cache)
        refine ⟨hzero, fun hnot => ?_⟩
        rcases hrest hnot with hold | ⟨hle, hnew⟩
        · by_cases hin : entry.address ≤ i ∧
            i - entry.address < entry.value.length
          · right
            refine ⟨hin.1, ?_⟩
            rw [hold, Entry.apply, overlay_inside' _ _ _ hin.1 hin.2,
              List.getElem?_append_left hin.2]
            exact List.getElem?_eq_getElem _
          · left
            rw [hold, Entry.apply]
            exact overlay_outside _ _ (by omega)
        · right
          refine ⟨by omega, ?_⟩
          rw [List.getElem?_append_right (by omega), ← hnew]
          congr 1
          omega
      · rw [if_neg hwhole, if_neg hwhole]
        by_cases hnone : count = 0
        · rw [if_pos hnone]
          exact ⟨fun hzero => absurd hnone hzero.1, fun _ => .inl rfl⟩
        · rw [if_neg hnone, applyEntries_cons, applyEntries_nil]
          obtain ⟨hzero, hrest⟩ := zeroFills_apply hnone hwhole cache i
          refine ⟨fun hfill => hzero hfill.2, fun hnot => ?_⟩
          rcases hrest fun hfill => hnot ⟨hnone, hfill⟩ with hold | ⟨hle, hnew⟩
          · exact .inl hold
          · right
            refine ⟨hle, ?_⟩
            have hlt : i - entry.address < entry.value.length := by
              by_contra hge
              rw [List.getElem?_eq_none (by omega)] at hnew
              exact absurd hnew (by simp)
            rw [List.getElem?_append_left hlt]
            exact hnew

/-! ## The calls a write makes -/

/-- `trace` continues `past` without writes. -/
def Idle (past trace : List Event) : Prop :=
  ∃ new, trace = new ++ past ∧ ∀ event ∈ new, event.written? = none

theorem Idle.none (past : List Event) : Idle past past :=
  ⟨[], rfl, by simp⟩

theorem Idle.one {event : Event} (past : List Event)
    (h : event.written? = .none) : Idle past (event :: past) :=
  ⟨[event], rfl, by simpa using h⟩

theorem wearLevelingUnlock_idle (s : State) :
    Idle s.trace (wearLevelingUnlock p s).2.trace := by
  by_cases hs : s.unlocked = true
  · rw [wearLevelingUnlock, if_pos hs]
    exact .none _
  · rw [wearLevelingUnlock, if_neg hs, backingStoreUnlock]
    cases (p.answer s .unlock).ok <;> exact .one _ rfl

theorem wearLevelingLock_idle (s : State) :
    Idle s.trace (wearLevelingLock p s).2.trace := by
  by_cases hs : (!s.unlocked) = true
  · rw [wearLevelingLock, if_pos hs]
    exact .none _
  · rw [wearLevelingLock, if_neg hs, backingStoreLock]
    cases (p.answer s .lock).ok <;> exact .one _ rfl

theorem relock_idle (lockStatus : LockStatus) (result : Status × State) :
    Idle result.2.trace (relock p lockStatus result).2.trace := by
  have hlock := wearLevelingLock_idle (p := p) result.2
  rw [relock]
  split
  · rcases hresult : wearLevelingLock p result.2 with ⟨status, after⟩
    rw [hresult] at hlock
    cases status <;> exact hlock
  · exact .none _

theorem tornStore_words {s after : State} {words : List (List UInt8)}
    (hwords : ∀ word ∈ words, word.length = p.width) {unlocked : List Event}
    (hunlock : Idle s.trace unlocked)
    (hlock : Idle (appendTrace p s.writeAddress words unlocked) after.trace)
    (count : Nat) :
    tornStore s after count =
      overlay s.mem s.writeAddress (words.take count).flatten := by
  have hfold : ∀ (words : List (List UInt8)) (address count : Nat)
      (past : List Event) (mem : Nat → UInt8),
      (∀ word ∈ words, word.length = p.width) →
      ∃ new, appendTrace p address words past = new ++ past ∧
        ((new.reverse.filterMap Event.written?).take count).foldl
            (fun mem written => overlay mem written.1 written.2) mem =
          overlay mem address (words.take count).flatten := by
    intro words
    induction words with
    | nil => exact fun address count past mem _ => ⟨[], rfl, by simp⟩
    | cons word words ih =>
        intro address count past mem hwords
        have hrest := fun other hother =>
          hwords other (List.mem_cons_of_mem word hother)
        obtain ⟨new, hnew, hmem⟩ := ih (address + p.width) (count - 1)
          (⟨.write address word, true⟩ :: past) (overlay mem address word) hrest
        refine ⟨new ++ [⟨.write address word, true⟩], by simp [appendTrace, hnew], ?_⟩
        cases count with
        | zero => simp
        | succ count =>
            have hlength := hwords word (by simp)
            rw [Nat.add_sub_cancel] at hmem
            simp only [List.reverse_append, List.reverse_singleton,
              List.singleton_append, List.filterMap_cons, Event.written?,
              List.take_succ_cons, List.foldl_cons, List.flatten_cons]
            rw [overlay_append, hlength]
            exact hmem
  obtain ⟨first, hfirst, hfirstIdle⟩ := hunlock
  obtain ⟨last, hlast, hlastIdle⟩ := hlock
  obtain ⟨new, hnew, hmem⟩ :=
    hfold words s.writeAddress count unlocked s.mem hwords
  have htrace : after.trace = (last ++ new ++ first) ++ s.trace := by
    rw [hlast, hnew, hfirst, List.append_assoc, List.append_assoc]
  have hnone : ∀ events : List Event, (∀ event ∈ events, event.written? = none) →
      events.reverse.filterMap Event.written? = [] := by
    intro events hidle
    rw [List.filterMap_eq_nil_iff]
    exact fun event hevent => hidle event (List.mem_reverse.mp hevent)
  have hcalls : callsSince s after = (last ++ new ++ first).reverse := by
    rw [callsSince, htrace, List.length_append, Nat.add_sub_cancel,
      List.take_left' rfl]
  rw [tornStore, hcalls, List.reverse_append, List.reverse_append,
    List.filterMap_append, List.filterMap_append, hnone _ hfirstIdle,
    hnone _ hlastIdle, List.nil_append, List.append_nil]
  exact hmem

/-- The entries that a write appends: none when the cache has the value already. -/
def writtenEntries (p : Platform) (s : State) (address : Nat)
    (value : List UInt8) : List Entry :=
  if value = readBlock s.cache address value.length then []
  else entriesFor p value.length address value

/-- The words a write that does not consolidate leaves after a power loss. -/
theorem tornStore_write {s : State} {address : Nat} {value : List UInt8}
    (hroom : s.writeAddress < p.backingSize)
    (hbound : address + value.length ≤ p.logicalSize)
    (hsuccess : (wearLevelingWrite p address value s).1 = .success)
    (count : Nat) :
    tornStore s (wearLevelingWrite p address value s).2 count =
      overlay s.mem s.writeAddress
        (((writtenEntries p s address value).flatMap fun entry =>
          entry.words p).take count).flatten ∧
      s.writeAddress + (logBytes p (writtenEntries p s address value)).length <
        p.backingSize := by
  by_cases hsame : value = readBlock s.cache address value.length
  · rw [wearLevelingWrite_repeated hbound hsame, writtenEntries, if_pos hsame]
    have hnone := @tornStore_words p s s [] (by simp) _ (.none _) (.none _) count
    exact ⟨hnone, hroom⟩
  · have hwords : ∀ word ∈ wordsFor p address value, word.length = p.width :=
      fun _ hword => wordsFor_length_of_mem hword
    rw [wearLevelingWrite_eq hbound hsame] at hsuccess ⊢
    rw [writtenEntries, if_neg hsame]
    have hidle := wearLevelingUnlock_idle (p := p)
      { s with cache := overlay s.cache address value }
    obtain ⟨u, t, hframe⟩ := wearLevelingUnlock_frame p
      { s with cache := overlay s.cache address value }
    rcases hlock : wearLevelingUnlock p
      { s with cache := overlay s.cache address value } with ⟨lockStatus, after⟩
    rw [hlock] at hframe hidle hsuccess
    simp only at hframe hidle
    have hcursor : after.writeAddress = s.writeAddress := by rw [hframe]
    have hbody : ∀ lockStatus,
        (relock p lockStatus
          (appendThenConsolidate p (wordsFor p address value) after)).1 = .success →
        tornStore s (relock p lockStatus
            (appendThenConsolidate p (wordsFor p address value) after)).2 count =
          overlay s.mem s.writeAddress
            ((wordsFor p address value).take count).flatten ∧
          s.writeAddress + (logBytes p
            (entriesFor p value.length address value)).length < p.backingSize := by
      intro lockStatus hsuccess
      rw [← hcursor] at hroom
      have happends := appendAll_appends _ hwords hroom
      rw [appendThenConsolidate_eq hwords hroom] at hsuccess ⊢
      generalize appendAll p (wordsFor p address value) after = result
        at happends hsuccess ⊢
      have hlast := relock_idle (p := p) lockStatus result
      obtain ⟨u, t, -, hstatus⟩ := relock_cases (p := p) lockStatus result
      rw [hsuccess] at hstatus
      have hresult : result.1 = .success := by
        rcases hstatus with hstatus | hstatus
        · exact hstatus.symm
        · exact absurd hstatus Status.noConfusion
      cases happends with
      | done hdone =>
          have hwritten : Idle (appendTrace p s.writeAddress
              (wordsFor p address value) after.trace)
              (relock p lockStatus (.success,
                after.appended p (wordsFor p address value))).2.trace := by
            rw [← hcursor]
            exact hlast
          refine ⟨tornStore_words hwords hidle hwritten count, ?_⟩
          rw [← wordsFor_flatten, words_length_flatten hwords, ← hcursor]
          exact hdone
      | failed before rest word hsplit hbefore hfail =>
          exact absurd hresult Status.noConfusion
      | full before rest word hsplit hbefore hfull =>
          exact absurd hresult (wearLevelingConsolidateForce_ne_success _)
    cases lockStatus with
    | failure => exact absurd hsuccess Status.noConfusion
    | success => exact hbody .success hsuccess
    | unchanged => exact hbody .unchanged hsuccess

end Torn

/-! ## When a torn write is safe -/

section Safe

variable {p : Platform}

theorem logBytes_cut_le (entries : List Entry) (count : Nat) :
    (logBytes p (cut p entries count)).length ≤ (logBytes p entries).length := by
  induction entries generalizing count with
  | nil => simp [cut]
  | cons entry entries ih =>
      have hrest := ih (count - entry.wordCount p)
      simp only [cut]
      split_ifs
      · simp only [logBytes_cons, List.length_append]
        omega
      · simp
      · simp [Entry.torn_size]

theorem zeroFilled_lt {entries : List Entry}
    (h : ∀ entry ∈ entries, entry.Valid p) {count i : Nat}
    (hi : zeroFilled p entries count i) : i < p.logicalSize := by
  induction entries generalizing count with
  | nil => exact hi.elim
  | cons entry entries ih =>
      simp only [zeroFilled] at hi
      split_ifs at hi with hwhole
      · exact ih (fun other hother => h other (by simp [hother])) hi
      · have hvalid := h entry (by simp)
        cases entry with
        | multibyte address value =>
            obtain ⟨-, -, -, hbound⟩ := hvalid
            obtain ⟨-, -, hlt⟩ := hi
            split at hlt <;> omega
        | optimized64 address value => exact hi.2.elim
        | word01 address value => exact hi.2.elim

/--
A torn write is safe exactly when each byte that playback takes from a word
that was not written was zero before, or is zero in the write.
-/
theorem Live.tornSafe_iff (hp : p.ReadsWork) {s : State} {base : Nat → UInt8}
    {entries : List Entry} (h : Live p s base entries)
    (hlogical : p.logicalSize ≤ 2 ^ 19) {address : Nat} {value : List UInt8}
    (hbound : address + value.length ≤ p.logicalSize)
    (hsuccess : (wearLevelingWrite p address value s).1 = .success)
    (count : Nat) :
    TornSafe p s address value count ↔
      ∀ i, zeroFilled p (writtenEntries p s address value) count i →
        OldOrNew s.cache address value i 0 := by
  obtain ⟨hstore, hroom⟩ := tornStore_write h.room hbound hsuccess count
  have hvalid : ∀ entry ∈ writtenEntries p s address value, entry.Valid p := by
    rw [writtenEntries]
    split
    · simp
    · exact entriesFor_valid hlogical _ hbound
  have hsplits : writtenEntries p s address value = [] ∨
      Splits (writtenEntries p s address value) address value := by
    rw [writtenEntries]
    split
    · exact .inl rfl
    · exact .inr (entriesFor_splits _ _ _ (Nat.le_refl _))
  generalize writtenEntries p s address value = written at *
  have hfree : ∀ i, s.writeAddress ≤ i → s.mem i = 0 := by
    rw [h.cursor]
    exact h.holds.free
  rw [overlay_words_take written count hfree, h.cursor] at hstore
  have hholds := h.holds.append (cut_valid hvalid count)
  have hlength := logBytes_cut_le (p := p) written count
  have hend : logEnd p (entries ++ cut p written count) < p.backingSize := by
    rw [h.cursor, logEnd] at hroom
    rw [logEnd, logBytes_append, List.length_append]
    omega
  have hreplay := hholds.replay (Nat.le_of_lt hend)
  rw [← hstore] at hreplay
  obtain ⟨trace, -, hinit⟩ := wearLevelingInit_works hp
    (s := boot (tornStore s (wearLevelingWrite p address value s).2 count))
    hreplay hend
  have hcache : (wearLevelingInit p
      (boot (tornStore s (wearLevelingWrite p address value s).2 count))).2.cache =
        applyEntries (cut p written count) s.cache := by
    rw [hinit, h.cache, applyEntries_append]
  have hbyte : ∀ i,
      (zeroFilled p written count i →
        applyEntries (cut p written count) s.cache i = 0) ∧
      (¬ zeroFilled p written count i → OldOrNew s.cache address value i
        (applyEntries (cut p written count) s.cache i)) := by
    intro i
    rcases hsplits with rfl | hsplits
    · exact ⟨False.elim, fun _ => .inl rfl⟩
    · exact cut_apply hsplits count s.cache i
  rw [TornSafe, hcache]
  constructor
  · intro hsafe i hi
    have hold := hsafe i (zeroFilled_lt hvalid hi)
    rwa [(hbyte i).1 hi] at hold
  · intro hzero i _
    by_cases hi : zeroFilled p written count i
    · rw [(hbyte i).1 hi]
      exact hzero i hi
    · exact (hbyte i).2 hi

/--
In every state that a run without failures reaches, a write that does not
consolidate survives the loss of power after `count` words exactly when each
byte it would leave zero-filled may be zero.
-/
theorem wearLeveling_torn_write_iff (hp : p.Reliable)
    (hstart : p.logicalSize + 8 < p.backingSize)
    (hlogical : p.logicalSize ≤ 2 ^ 19) {ops : List Operation}
    (hops : ∀ op ∈ ops, op.InBounds p) {s : State}
    (hs : s = run (perform p) (boot fun _ => 0) (.init :: ops))
    {address : Nat} {value : List UInt8}
    (hbound : address + value.length ≤ p.logicalSize)
    (hsuccess : (wearLevelingWrite p address value s).1 = .success)
    (count : Nat) :
    TornSafe p s address value count ↔
      ∀ i, zeroFilled p (writtenEntries p s address value) count i →
        OldOrNew s.cache address value i 0 := by
  obtain ⟨-, base, entries, hlive⟩ := Serves.run hp hstart hlogical hops
  rw [← hs] at hlive
  exact hlive.tornSafe_iff hp.readsWork hlogical hbound hsuccess count

end Safe

/-- The second word of the second write is missing, and byte 1 turns to zero. -/
theorem wordBoard_torn :
    wordBoard.Reliable ∧
      (wearLevelingWrite wordBoard 0 [3, 4]
        (run (perform wordBoard) (boot fun _ => 0)
          [.init, .write 0 [1, 2]])).1 = .success ∧
      ¬ TornSafe wordBoard
        (run (perform wordBoard) (boot fun _ => 0) [.init, .write 0 [1, 2]])
        0 [3, 4] 1 := by
  refine ⟨fun _ _ => rfl, by decide, ?_⟩
  intro hsafe
  rcases hsafe 1 (by decide) with hold | ⟨-, hnew⟩
  · exact absurd hold (by decide)
  · exact absurd hnew (by decide)

theorem wordBoard_torn_iff :
    TornSafe wordBoard
        (run (perform wordBoard) (boot fun _ => 0) [.init]) 0 [3, 0] 1 ↔
      ∀ i, zeroFilled wordBoard
          (writtenEntries wordBoard
            (run (perform wordBoard) (boot fun _ => 0) [.init]) 0 [3, 0]) 1 i →
        OldOrNew (run (perform wordBoard) (boot fun _ => 0) [.init]).cache
          0 [3, 0] i 0 :=
  @wearLeveling_torn_write_iff wordBoard (fun _ _ => rfl) (by decide) (by decide)
    [] (by simp) _ rfl 0 [3, 0] (by decide) (by decide) 1

end Qmk.WearLeveling
