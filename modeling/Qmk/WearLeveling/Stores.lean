import Mathlib.Logic.Function.Basic
import Qmk.WearLeveling.Engine

/-!
# What playback stores

Every byte that playback puts into the cache, with the byte of the entry that it comes
from.  An entry has eight bytes, of which the length field of a multi-byte entry can ask
for more than it has.
-/

namespace Qmk.WearLeveling

open Qmk.Lib

/-- A byte stored in the cache; `source` is the index into `raw8`, if it comes from there. -/
structure Stored where
  index : Nat
  source : Option Nat
  value : UInt8

def Stored.apply (cache : Nat → UInt8) (stored : Stored) : Nat → UInt8 :=
  Function.update cache stored.index stored.value

section Stores

variable (p : Platform)

/-- The address, the length and the bytes of a multi-byte entry that is accepted. -/
def multibyteLoaded (address : Nat) (log : WriteLogEntry) (s : State) :
    Option (Nat × Nat × WriteLogEntry) :=
  match playbackReadWord p (p.writeSize = .two) 1 address log s with
  | (false, _) => none
  | (true, address, log, s) =>
      let a := logEntryMultibyteGetAddress log
      let l := logEntryMultibyteGetLength log
      if p.logicalSize < a + l then none
      else
        match
          playbackReadWord p (p.writeSize ≠ .eight ∧ 1 < l)
            (if p.writeSize = .two then 2 else 1) address log s
        with
        | (false, _) => none
        | (true, address, log, s) =>
            match playbackReadWord p (p.writeSize = .two ∧ 3 < l) 3 address log s with
            | (false, _) => none
            | (true, _, log, _) => some (a, l, log)

def multibyteStores (address : Nat) (log : WriteLogEntry) (s : State) : List Stored :=
  match multibyteLoaded p address log s with
  | none => []
  | some (a, l, log) => (List.range l).map fun i => ⟨a + i, some (3 + i), log (3 + i)⟩

def optimized64Stores (log : WriteLogEntry) : List Stored :=
  let a := logEntryOptimized64GetAddress log
  if p.logicalSize ≤ a then [] else [⟨a, some 1, logEntryOptimized64GetValue log⟩]

def word01Stores (log : WriteLogEntry) : List Stored :=
  let a := logEntryWord01GetAddress log
  if p.logicalSize ≤ a + 1 then []
  else [⟨a, some 0, logEntryWord01GetValue log⟩, ⟨a + 1, none, 0⟩]

def entryStores (address : Nat) (log : WriteLogEntry) (s : State) : List Stored :=
  if logEntryGetType log = logEntryTypeMultibyte then
    multibyteStores p address log s
  else if p.writeSize = .two ∧ logEntryGetType log = logEntryTypeOptimized64 then
    optimized64Stores p log
  else if p.writeSize = .two ∧ logEntryGetType log = logEntryTypeWord01 then
    word01Stores p log
  else []

def playbackStores : Nat → Nat → State → List Stored
  | 0, _, _ => []
  | fuel + 1, address, s =>
      if address < p.backingSize then
        match backingStoreRead p address s with
        | (false, _, _) => []
        | (true, value, s) =>
            if value = List.replicate p.width 0 then []
            else
              let log := overlay (fun _ => 0) 0 value
              entryStores p (address + p.width) log s ++
                match playbackEntry p (address + p.width) log s with
                | (.success, address, s) => playbackStores fuel address s
                | _ => []
      else []

/-- A multi-byte entry is accepted whose length is more than an entry can hold. -/
def multibyteOverlong (address : Nat) (log : WriteLogEntry) (s : State) : Prop :=
  match multibyteLoaded p address log s with
  | none => False
  | some (_, l, _) => logEntryMultibyteMaxBytes < l

/-- Playback comes to such an entry. -/
def playbackOverlong : Nat → Nat → State → Prop
  | 0, _, _ => False
  | fuel + 1, address, s =>
      address < p.backingSize ∧
      match backingStoreRead p address s with
      | (false, _, _) => False
      | (true, value, s) =>
          let log := overlay (fun _ => 0) 0 value
          value ≠ List.replicate p.width 0 ∧
            ((logEntryGetType log = logEntryTypeMultibyte ∧
              multibyteOverlong p (address + p.width) log s) ∨
            match playbackEntry p (address + p.width) log s with
            | (.success, address, s) => playbackOverlong fuel address s
            | _ => False)

/-- The loop of `wear_leveling_playback_log` leaves with this result. -/
inductive Plays : Nat → State → Status × Nat × State → Prop
  | ended {address : Nat} {s : State} (h : p.backingSize ≤ address) :
      Plays address s (.success, address, s)
  | unread {address : Nat} {s : State} (h : address < p.backingSize)
      (hread : (backingStoreRead p address s).1 = false) :
      Plays address s (.failed, address, (backingStoreRead p address s).2.2)
  | empty {address : Nat} {s : State} (h : address < p.backingSize)
      (hread : (backingStoreRead p address s).1 = true)
      (hvalue : (backingStoreRead p address s).2.1 = List.replicate p.width 0) :
      Plays address s (.success, address, (backingStoreRead p address s).2.2)
  | cancelled {address : Nat} {s : State} (h : address < p.backingSize)
      (hread : (backingStoreRead p address s).1 = true)
      (hvalue : (backingStoreRead p address s).2.1 ≠ List.replicate p.width 0)
      {result : Status × Nat × State}
      (hentry : playbackEntry p (address + p.width)
        (overlay (fun _ => 0) 0 (backingStoreRead p address s).2.1)
        (backingStoreRead p address s).2.2 = result)
      (hstatus : result.1 ≠ .success) : Plays address s result
  | entry {address next : Nat} {s s' : State} (h : address < p.backingSize)
      (hread : (backingStoreRead p address s).1 = true)
      (hvalue : (backingStoreRead p address s).2.1 ≠ List.replicate p.width 0)
      (hentry : playbackEntry p (address + p.width)
        (overlay (fun _ => 0) 0 (backingStoreRead p address s).2.1)
        (backingStoreRead p address s).2.2 = (.success, next, s'))
      {result : Status × Nat × State} (hrest : Plays next s' result) :
      Plays address s result

end Stores

variable {p : Platform}

theorem multibyteLoaded_within {address a l : Nat} {log loaded : WriteLogEntry} {s : State}
    (h : multibyteLoaded p address log s = some (a, l, loaded)) : a + l ≤ p.logicalSize := by
  unfold multibyteLoaded at h
  split at h
  · cases h
  · dsimp only at h
    split at h
    · cases h
    · rename_i hbound
      split at h
      · cases h
      · split at h
        · cases h
        · cases h
          exact Nat.le_of_not_lt hbound

theorem playbackReadWord_cache (wanted : Bool) (k address : Nat) (log : WriteLogEntry)
    (s : State) : (playbackReadWord p wanted k address log s).2.2.2.cache = s.cache := by
  have hread : (backingStoreRead p address s).2.2.cache = s.cache := rfl
  unfold playbackReadWord
  split
  · rcases hresult : backingStoreRead p address s with ⟨ok, value, s1⟩
    rw [hresult] at hread
    cases ok with
    | true => exact hread
    | false => exact hread
  · rfl

theorem playbackReadWord_address (wanted : Bool) (k address : Nat) (log : WriteLogEntry)
    (s : State) : address ≤ (playbackReadWord p wanted k address log s).2.1 ∧
      (playbackReadWord p wanted k address log s).2.1 ≤ address + p.width := by
  unfold playbackReadWord
  split
  · split
    · exact ⟨Nat.le_add_right _ _, Nat.le_refl _⟩
    · exact ⟨Nat.le_refl _, Nat.le_add_right _ _⟩
  · exact ⟨Nat.le_refl _, Nat.le_add_right _ _⟩

theorem playbackMultibyte_loaded (address : Nat) (log : WriteLogEntry) (s : State) :
    match multibyteLoaded p address log s with
    | none => (playbackMultibyte p address log s).1 = .failed ∧
        (playbackMultibyte p address log s).2.2.cache = s.cache
    | some (a, l, loaded) => (playbackMultibyte p address log s).1 = .success ∧
        (playbackMultibyte p address log s).2.2.cache =
          overlay s.cache a (readBlock loaded 3 l) := by
  have hfirst := playbackReadWord_cache (p := p) (p.writeSize = .two) 1 address log s
  unfold multibyteLoaded playbackMultibyte
  rcases hresult : playbackReadWord p (p.writeSize = .two) 1 address log s with
    ⟨ok, address1, log1, s1⟩
  rw [hresult] at hfirst
  cases ok with
  | false => exact ⟨rfl, hfirst⟩
  | true =>
      dsimp only
      by_cases hbound : p.logicalSize <
          logEntryMultibyteGetAddress log1 + logEntryMultibyteGetLength log1
      · rw [if_pos hbound, if_pos hbound]
        exact ⟨rfl, hfirst⟩
      · rw [if_neg hbound, if_neg hbound]
        have hsecond := playbackReadWord_cache (p := p)
          (p.writeSize ≠ .eight ∧ 1 < logEntryMultibyteGetLength log1)
          (if p.writeSize = .two then 2 else 1) address1 log1 s1
        rcases hresult : playbackReadWord p
          (p.writeSize ≠ .eight ∧ 1 < logEntryMultibyteGetLength log1)
          (if p.writeSize = .two then 2 else 1) address1 log1 s1 with
          ⟨ok, address2, log2, s2⟩
        rw [hresult] at hsecond
        cases ok with
        | false => exact ⟨rfl, hsecond.trans hfirst⟩
        | true =>
            dsimp only
            have hthird := playbackReadWord_cache (p := p)
              (p.writeSize = .two ∧ 3 < logEntryMultibyteGetLength log1) 3 address2 log2 s2
            rcases hresult : playbackReadWord p
              (p.writeSize = .two ∧ 3 < logEntryMultibyteGetLength log1) 3
              address2 log2 s2 with ⟨ok, address3, log3, s3⟩
            rw [hresult] at hthird
            have hcache : s3.cache = s.cache := hthird.trans (hsecond.trans hfirst)
            cases ok with
            | false => exact ⟨rfl, hcache⟩
            | true => exact ⟨rfl, congrArg (overlay · _ _) hcache⟩

theorem playbackMultibyte_address (address : Nat) (log : WriteLogEntry) (s : State) :
    address ≤ (playbackMultibyte p address log s).2.1 := by
  have hfirst := playbackReadWord_address (p := p) (p.writeSize = .two) 1 address log s
  unfold playbackMultibyte
  rcases hresult : playbackReadWord p (p.writeSize = .two) 1 address log s with
    ⟨ok, address1, log1, s1⟩
  rw [hresult] at hfirst
  cases ok with
  | false => exact hfirst.1
  | true =>
      dsimp only
      split
      · exact hfirst.1
      · have hsecond := playbackReadWord_address (p := p)
          (p.writeSize ≠ .eight ∧ 1 < logEntryMultibyteGetLength log1)
          (if p.writeSize = .two then 2 else 1) address1 log1 s1
        rcases hresult : playbackReadWord p
          (p.writeSize ≠ .eight ∧ 1 < logEntryMultibyteGetLength log1)
          (if p.writeSize = .two then 2 else 1) address1 log1 s1 with
          ⟨ok, address2, log2, s2⟩
        rw [hresult] at hsecond
        cases ok with
        | false => exact Nat.le_trans hfirst.1 hsecond.1
        | true =>
            dsimp only
            have hthird := playbackReadWord_address (p := p)
              (p.writeSize = .two ∧ 3 < logEntryMultibyteGetLength log1) 3 address2 log2 s2
            rcases hresult : playbackReadWord p
              (p.writeSize = .two ∧ 3 < logEntryMultibyteGetLength log1) 3
              address2 log2 s2 with ⟨ok, address3, log3, s3⟩
            rw [hresult] at hthird
            have hall : address ≤ address3 :=
              Nat.le_trans hfirst.1 (Nat.le_trans hsecond.1 hthird.1)
            cases ok with
            | false => exact hall
            | true => exact hall

theorem playbackEntry_address (address : Nat) (log : WriteLogEntry) (s : State) :
    address ≤ (playbackEntry p address log s).2.1 := by
  unfold playbackEntry playbackOptimized64 playbackWord01
  split
  · exact playbackMultibyte_address address log s
  · split
    · dsimp only
      split <;> exact Nat.le_refl _
    · split
      · dsimp only
        split <;> exact Nat.le_refl _
      · exact Nat.le_refl _

/-! ## The cache -/

def applyStores (stores : List Stored) (cache : Nat → UInt8) : Nat → UInt8 :=
  stores.foldl Stored.apply cache

theorem applyStores_append (first second : List Stored) (cache : Nat → UInt8) :
    applyStores (first ++ second) cache = applyStores second (applyStores first cache) :=
  List.foldl_append

theorem overlay_concat (cache : Nat → UInt8) (a : Nat) (bytes : List UInt8) (byte : UInt8) :
    overlay cache a (bytes ++ [byte]) =
      Function.update (overlay cache a bytes) (a + bytes.length) byte := by
  funext i
  unfold overlay
  by_cases hindex : i = a + bytes.length
  · subst hindex
    rw [Function.update_self, if_pos (Nat.le_add_right _ _), Nat.add_sub_cancel_left,
      List.getElem?_append_right (Nat.le_refl _), Nat.sub_self]
    rfl
  · rw [Function.update_of_ne hindex]
    split
    · by_cases hlt : i - a < bytes.length
      · rw [List.getElem?_append_left hlt]
      · rw [List.getElem?_eq_none (by rw [List.length_append, List.length_singleton]; omega),
          List.getElem?_eq_none (by omega)]
    · rfl

theorem applyStores_block (cache : Nat → UInt8) (a : Nat) (log : WriteLogEntry) (l : Nat) :
    applyStores ((List.range l).map fun i => ⟨a + i, some (3 + i), log (3 + i)⟩) cache =
      overlay cache a (readBlock log 3 l) := by
  induction l with
  | zero => exact (overlay_nil cache a).symm
  | succ l ih =>
      have hblock : readBlock log 3 (l + 1) = readBlock log 3 l ++ [log (3 + l)] := by
        unfold readBlock
        rw [List.range_succ, List.map_append]
        rfl
      rw [List.range_succ, List.map_append, applyStores_append, ih, hblock, overlay_concat,
        readBlock_length]
      rfl

theorem overlay_singleton (cache : Nat → UInt8) (a : Nat) (byte : UInt8) :
    overlay cache a [byte] = Function.update cache a byte := by
  have h := overlay_concat cache a [] byte
  rw [overlay_nil] at h
  exact h

theorem overlay_pair (cache : Nat → UInt8) (a : Nat) (first second : UInt8) :
    overlay cache a [first, second] =
      Function.update (Function.update cache a first) (a + 1) second := by
  rw [← overlay_singleton cache a first]
  exact overlay_concat cache a [first] second

theorem playbackEntry_cache (address : Nat) (log : WriteLogEntry) (s : State) :
    (playbackEntry p address log s).2.2.cache =
      applyStores (entryStores p address log s) s.cache := by
  unfold playbackEntry entryStores
  split
  · have hloaded := playbackMultibyte_loaded (p := p) address log s
    unfold multibyteStores
    cases hresult : multibyteLoaded p address log s with
    | none =>
        rw [hresult] at hloaded
        exact hloaded.2
    | some entry =>
        obtain ⟨a, l, loaded⟩ := entry
        rw [hresult] at hloaded
        exact hloaded.2.trans (applyStores_block s.cache a loaded l).symm
  · split
    · unfold playbackOptimized64 optimized64Stores
      dsimp only
      split
      · rfl
      · exact overlay_singleton _ _ _
    · split
      · unfold playbackWord01 word01Stores
        dsimp only
        split
        · rfl
        · exact overlay_pair _ _ _ _
      · rfl

theorem playbackLoop_cache (fuel address : Nat) (s : State) :
    (playbackLoop p fuel address s).2.2.cache =
      applyStores (playbackStores p fuel address s) s.cache := by
  induction fuel generalizing address s with
  | zero => rfl
  | succ fuel ih =>
      unfold playbackLoop playbackStores
      split
      · have hread : (backingStoreRead p address s).2.2.cache = s.cache := rfl
        rcases hresult : backingStoreRead p address s with ⟨ok, value, s1⟩
        rw [hresult] at hread
        cases ok with
        | false => exact hread
        | true =>
            dsimp only
            split
            · exact hread
            · have hentry := playbackEntry_cache (p := p) (address + p.width)
                (overlay (fun _ => 0) 0 value) s1
              rcases hnext : playbackEntry p (address + p.width)
                (overlay (fun _ => 0) 0 value) s1 with ⟨status, next, s2⟩
              rw [hnext, hread] at hentry
              rw [applyStores_append, ← hentry]
              cases status with
              | success => exact ih next s2
              | failed => rfl
              | consolidated => rfl
      · rfl

/-! ## Safety -/

theorem playbackLoop_plays (fuel : Nat) {address : Nat} (s : State)
    (hfuel : p.backingSize - address ≤ fuel) : Plays p address s (playbackLoop p fuel address s) := by
  induction fuel generalizing address s with
  | zero => exact .ended (by omega)
  | succ fuel ih =>
      unfold playbackLoop
      split
      · rename_i hroom
        rcases hresult : backingStoreRead p address s with ⟨ok, value, s1⟩
        cases ok with
        | false =>
            have hstate : (backingStoreRead p address s).2.2 = s1 := by rw [hresult]
            rw [← hstate]
            exact .unread hroom (by rw [hresult])
        | true =>
            dsimp only
            split
            · rename_i hvalue
              have hstate : (backingStoreRead p address s).2.2 = s1 := by rw [hresult]
              rw [← hstate]
              exact .empty hroom (by rw [hresult]) (by rw [hresult]; exact hvalue)
            · rename_i hvalue
              have hadvance := playbackEntry_address (p := p) (address + p.width)
                (overlay (fun _ => 0) 0 value) s1
              rcases hnext : playbackEntry p (address + p.width)
                (overlay (fun _ => 0) 0 value) s1 with ⟨status, next, s2⟩
              rw [hnext] at hadvance
              have hentry : playbackEntry p (address + p.width)
                  (overlay (fun _ => 0) 0 (backingStoreRead p address s).2.1)
                  (backingStoreRead p address s).2.2 = (status, next, s2) := by
                rw [hresult]
                exact hnext
              have hread : (backingStoreRead p address s).1 = true := by rw [hresult]
              have hnonempty : (backingStoreRead p address s).2.1 ≠
                  List.replicate p.width 0 := by
                rw [hresult]
                exact hvalue
              have hwidth : 0 < p.width := by
                unfold Platform.width
                cases p.writeSize <;> decide
              cases status with
              | success =>
                  exact .entry hroom hread hnonempty hentry (ih s2 (by dsimp only at hadvance; omega))
              | failed => exact .cancelled hroom hread hnonempty hentry fun h => nomatch h
              | consolidated => exact .cancelled hroom hread hnonempty hentry fun h => nomatch h
      · rename_i hend
        exact .ended (Nat.le_of_not_lt hend)

theorem entryStores_index (address : Nat) (log : WriteLogEntry) (s : State) :
    ∀ stored ∈ entryStores p address log s, stored.index < p.logicalSize := by
  unfold entryStores
  split
  · unfold multibyteStores
    cases hloaded : multibyteLoaded p address log s with
    | none => exact fun _ h => nomatch h
    | some entry =>
        obtain ⟨a, l, loaded⟩ := entry
        intro stored hmem
        obtain ⟨i, hi, rfl⟩ := List.mem_map.mp hmem
        have hlt := List.mem_range.mp hi
        have hbound := multibyteLoaded_within hloaded
        show a + i < p.logicalSize
        omega
  · split
    · unfold optimized64Stores
      dsimp only
      split
      · exact fun _ h => nomatch h
      · rename_i hbound
        intro stored hmem
        rw [List.mem_singleton.mp hmem]
        exact Nat.lt_of_not_le hbound
    · split
      · unfold word01Stores
        dsimp only
        split
        · exact fun _ h => nomatch h
        · rename_i hbound
          have hlt := Nat.lt_of_not_le hbound
          intro stored hmem
          rcases List.mem_cons.mp hmem with rfl | hmem
          · exact Nat.lt_of_succ_lt hlt
          · rw [List.mem_singleton.mp hmem]
            exact hlt
      · exact fun _ h => nomatch h

theorem multibyteStores_source (address : Nat) (log : WriteLogEntry) (s : State) :
    (∀ stored ∈ multibyteStores p address log s, ∀ k, stored.source = some k → k < 8) ↔
      ¬ multibyteOverlong p address log s := by
  unfold multibyteStores multibyteOverlong logEntryMultibyteMaxBytes
  cases multibyteLoaded p address log s with
  | none => exact iff_of_true (fun _ h => nomatch h) id
  | some entry =>
      obtain ⟨a, l, loaded⟩ := entry
      constructor
      · intro h hlong
        have hmem : (⟨a + 5, some 8, loaded 8⟩ : Stored) ∈
            (List.range l).map fun i => ⟨a + i, some (3 + i), loaded (3 + i)⟩ :=
          List.mem_map.mpr ⟨5, List.mem_range.mpr hlong, rfl⟩
        exact absurd (h _ hmem 8 rfl) (by decide)
      · intro hshort stored hmem k hk
        obtain ⟨i, hi, rfl⟩ := List.mem_map.mp hmem
        have hlt := List.mem_range.mp hi
        obtain rfl := Option.some.inj hk
        omega

/-- The bytes of an entry lie in it just when its length is one that is encoded. -/
theorem entryStores_source (address : Nat) (log : WriteLogEntry) (s : State) :
    (∀ stored ∈ entryStores p address log s, ∀ k, stored.source = some k → k < 8) ↔
      ¬ (logEntryGetType log = logEntryTypeMultibyte ∧ multibyteOverlong p address log s) := by
  unfold entryStores
  split
  · rename_i htype
    rw [multibyteStores_source, not_and]
    exact ⟨fun h _ => h, fun h => h htype⟩
  · rename_i htype
    refine iff_of_true ?_ fun h => htype h.1
    split
    · unfold optimized64Stores
      dsimp only
      split
      · exact fun _ h => nomatch h
      · intro stored hmem k hk
        rw [List.mem_singleton.mp hmem] at hk
        obtain rfl := Option.some.inj hk
        decide
    · split
      · unfold word01Stores
        dsimp only
        split
        · exact fun _ h => nomatch h
        · intro stored hmem k hk
          rcases List.mem_cons.mp hmem with rfl | hmem
          · obtain rfl := Option.some.inj hk
            decide
          · rw [List.mem_singleton.mp hmem] at hk
            cases hk
      · exact fun _ h => nomatch h

theorem playbackStores_index (fuel address : Nat) (s : State) :
    ∀ stored ∈ playbackStores p fuel address s, stored.index < p.logicalSize := by
  induction fuel generalizing address s with
  | zero => exact fun _ h => nomatch h
  | succ fuel ih =>
      unfold playbackStores
      split
      · rcases backingStoreRead p address s with ⟨ok, value, s1⟩
        cases ok with
        | false => exact fun _ h => nomatch h
        | true =>
            dsimp only
            split
            · exact fun _ h => nomatch h
            · rcases playbackEntry p (address + p.width)
                (overlay (fun _ => 0) 0 value) s1 with ⟨status, next, s2⟩
              intro stored hmem
              rcases List.mem_append.mp hmem with hmem | hmem
              · exact entryStores_index _ _ _ stored hmem
              · cases status with
                | success => exact ih next s2 stored hmem
                | failed => exact nomatch hmem
                | consolidated => exact nomatch hmem
      · exact fun _ h => nomatch h

theorem playbackStores_source (fuel address : Nat) (s : State) :
    (∀ stored ∈ playbackStores p fuel address s, ∀ k, stored.source = some k → k < 8) ↔
      ¬ playbackOverlong p fuel address s := by
  induction fuel generalizing address s with
  | zero => exact iff_of_true (fun _ h => nomatch h) id
  | succ fuel ih =>
      unfold playbackStores playbackOverlong
      split
      · rename_i hroom
        rw [and_iff_right hroom]
        rcases backingStoreRead p address s with ⟨ok, value, s1⟩
        cases ok with
        | false => exact iff_of_true (fun _ h => nomatch h) id
        | true =>
            dsimp only
            split
            · rename_i hvalue
              exact iff_of_true (fun _ h => nomatch h) fun h => h.1 hvalue
            · rename_i hvalue
              rw [and_iff_right hvalue, not_or, ← entryStores_source]
              rcases playbackEntry p (address + p.width)
                (overlay (fun _ => 0) 0 value) s1 with ⟨status, next, s2⟩
              have hsplit : ∀ rest : List Stored,
                  (∀ stored ∈ entryStores p (address + p.width)
                    (overlay (fun _ => 0) 0 value) s1 ++ rest,
                    ∀ k, stored.source = some k → k < 8) ↔
                  (∀ stored ∈ entryStores p (address + p.width)
                    (overlay (fun _ => 0) 0 value) s1,
                    ∀ k, stored.source = some k → k < 8) ∧
                  ∀ stored ∈ rest, ∀ k, stored.source = some k → k < 8 :=
                fun rest => List.forall_mem_append
              rw [hsplit]
              refine and_congr_right fun _ => ?_
              cases status with
              | success => exact ih next s2
              | failed => exact iff_of_true (fun _ h => nomatch h) id
              | consolidated => exact iff_of_true (fun _ h => nomatch h) id
      · rename_i hend
        exact iff_of_true (fun _ h => nomatch h) fun h => hend h.1

/-- What playback may do to the cache, whatever the log holds. -/
structure PlaybackSafe (p : Platform) (s : State) : Prop where
  terminates : Plays p p.logStart s (playbackLoop p p.backingSize p.logStart s)
  index : ∀ stored ∈ playbackStores p p.backingSize p.logStart s,
    stored.index < p.logicalSize
  source : ∀ stored ∈ playbackStores p p.backingSize p.logStart s,
    ∀ k, stored.source = some k → k < 8

/-- Playback ends and stays inside the cache; it stays inside its entries as long as it
comes to none that is longer than an entry can be. -/
theorem playback_safe_iff (p : Platform) (s : State) :
    PlaybackSafe p s ↔ ¬ playbackOverlong p p.backingSize p.logStart s :=
  ⟨fun h => (playbackStores_source _ _ s).mp h.source, fun h =>
    ⟨playbackLoop_plays _ s (Nat.sub_le _ _), playbackStores_index _ _ s,
      (playbackStores_source _ _ s).mpr h⟩⟩

/-- A log whose first entry has the length 6 and the address 0. -/
def overlongLog : Nat → UInt8 := fun i =>
  if i = 24 then 0x30 else if i < 27 then 0 else 1

/-- Of the six bytes of its entry, the last comes from behind the entry. -/
theorem overlongLog_stores :
    ((playbackStores smallBoard 32 24 (boot overlongLog)).map
      fun stored => (stored.index, stored.source)).take 6 =
    [(0, some 3), (1, some 4), (2, some 5), (3, some 6), (4, some 7), (5, some 8)] := by
  decide

theorem overlongLog_reads_behind :
    ¬ ∀ mem : Nat → UInt8, PlaybackSafe smallBoard (boot mem) := by
  intro h
  have hmem : ((5, some 8) : Nat × Option Nat) ∈
      (playbackStores smallBoard 32 24 (boot overlongLog)).map
        fun stored => (stored.index, stored.source) := by
    refine List.mem_of_mem_take (i := 6) ?_
    rw [overlongLog_stores]
    decide
  obtain ⟨stored, hstored, heq⟩ := List.mem_map.mp hmem
  have hsource := (h overlongLog).source stored hstored 8 (congrArg Prod.snd heq)
  exact absurd hsource (Nat.lt_irrefl 8)

end Qmk.WearLeveling
