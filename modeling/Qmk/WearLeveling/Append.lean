import Qmk.WearLeveling.Log

/-!
# Appending words to the write log

`wear_leveling_write_raw` splits a write into entries and appends their words
one at a time.  `appendAll` is that sequence of calls; the rest of the module
says where it can end.
-/

namespace Qmk.WearLeveling

open Qmk.Lib

section Split

variable (p : Platform)

def appendAll : List (List UInt8) → State → Status × State
  | [], s => (.success, s)
  | word :: words, s =>
      match wearLevelingAppendRaw p word s with
      | (.success, s) => appendAll words s
      | result => result

/-- The entries that `wear_leveling_write_raw` makes, with its fuel. -/
def entriesFor : Nat → Nat → List UInt8 → List Entry
  | 0, _, _ => []
  | _ + 1, _, [] => []
  | fuel + 1, address, first :: rest =>
      if p.writeSize = .two ∧ rest ≠ [] ∧ address % 2 = 0 ∧ address < 16384 ∧
          (littleEndian16 first (rest.headD 0) = 0 ∨
            littleEndian16 first (rest.headD 0) = 1) then
        .word01 address (littleEndian16 first (rest.headD 0)) ::
          entriesFor fuel (address + 2) rest.tail
      else if p.writeSize = .two ∧ address < 64 then
        .optimized64 address first :: entriesFor fuel (address + 1) rest
      else
        .multibyte address ((first :: rest).take logEntryMultibyteMaxBytes) ::
          entriesFor fuel
            (address + ((first :: rest).take logEntryMultibyteMaxBytes).length)
            ((first :: rest).drop logEntryMultibyteMaxBytes)

/-- The words that a write of `value` at `address` appends. -/
def wordsFor (address : Nat) (value : List UInt8) : List (List UInt8) :=
  (entriesFor p value.length address value).flatMap fun entry => entry.words p

end Split

section Sequence

variable {p : Platform}

theorem appendAll_append (first second : List (List UInt8)) (s : State) :
    appendAll p (first ++ second) s =
      match appendAll p first s with
      | (.success, s) => appendAll p second s
      | result => result := by
  induction first generalizing s with
  | nil => rfl
  | cons word words ih =>
      simp only [List.cons_append, appendAll]
      rcases wearLevelingAppendRaw p word s with ⟨status, after⟩
      cases status with
      | success => exact ih after
      | failed => rfl
      | consolidated => rfl

theorem appendAll_singleton (word : List UInt8) (s : State) :
    appendAll p [word] s = wearLevelingAppendRaw p word s := by
  simp only [appendAll]
  rcases wearLevelingAppendRaw p word s with ⟨status, after⟩
  cases status <;> rfl

private theorem match_success (result : Status × State) :
    (match result with
      | (.success, s) => (.success, s)
      | result => result) = result := by
  rcases result with ⟨status, s⟩
  cases status <;> rfl

theorem wearLevelingWriteRawMultibyte_eq (address : Nat) (value : List UInt8)
    (s : State) :
    wearLevelingWriteRawMultibyte p address value s =
      appendAll p ((Entry.multibyte address value).words p) s := by
  have hwords : ∀ count, (Entry.multibyte address value).wordCount p = count →
      (Entry.multibyte address value).words p = (List.range count).map
        (p.rawWord (overlay (logEntryMakeMultibyte address value.length) 3 value)) := by
    rintro count rfl
    rfl
  cases hw : p.writeSize with
  | two =>
      by_cases h1 : 1 < value.length
      · by_cases h3 : 3 < value.length
        · rw [hwords 4 (by simp [Entry.wordCount, hw, WriteSize.multibyteWords, h1, h3])]
          simp only [wearLevelingWriteRawMultibyte, hw, h1, h3, if_true,
            List.range_succ, List.range_zero, List.nil_append, List.cons_append,
            List.map_cons, List.map_nil, appendAll, match_success]
          all_goals rfl
        · rw [hwords 3 (by simp [Entry.wordCount, hw, WriteSize.multibyteWords, h1, h3])]
          simp only [wearLevelingWriteRawMultibyte, hw, h1, h3, if_true, if_false,
            List.range_succ, List.range_zero, List.nil_append, List.cons_append,
            List.map_cons, List.map_nil, appendAll]
          all_goals rfl
      · have h3 : ¬ 3 < value.length := by omega
        rw [hwords 2 (by simp [Entry.wordCount, hw, WriteSize.multibyteWords, h1, h3])]
        simp only [wearLevelingWriteRawMultibyte, hw, h1, h3, if_false,
          List.range_succ, List.range_zero, List.nil_append, List.cons_append,
          List.map_cons, List.map_nil, appendAll]
        all_goals rfl
  | four =>
      by_cases h1 : 1 < value.length
      · rw [hwords 2 (by simp [Entry.wordCount, hw, WriteSize.multibyteWords, h1])]
        simp only [wearLevelingWriteRawMultibyte, hw, h1, if_true,
          List.range_succ, List.range_zero, List.nil_append, List.cons_append,
          List.map_cons, List.map_nil, appendAll, match_success]
        all_goals rfl
      · rw [hwords 1 (by simp [Entry.wordCount, hw, WriteSize.multibyteWords, h1])]
        simp only [wearLevelingWriteRawMultibyte, hw, h1, if_false,
          List.range_succ, List.range_zero, List.nil_append,
          List.map_cons, List.map_nil, appendAll]
        all_goals rfl
  | eight =>
      rw [hwords 1 (by simp [Entry.wordCount, hw, WriteSize.multibyteWords])]
      simp only [wearLevelingWriteRawMultibyte, hw,
        List.range_succ, List.range_zero, List.nil_append,
        List.map_cons, List.map_nil, appendAll, match_success]

/-- `wear_leveling_write_raw` appends the words of its entries. -/
theorem wearLevelingWriteRaw_eq (fuel address : Nat) (value : List UInt8)
    (s : State) :
    wearLevelingWriteRaw p fuel address value s =
      appendAll p
        ((entriesFor p fuel address value).flatMap fun entry => entry.words p)
        s := by
  induction fuel generalizing address value s with
  | zero => rfl
  | succ fuel ih =>
      cases value with
      | nil => rfl
      | cons first rest =>
          simp only [wearLevelingWriteRaw, entriesFor]
          split_ifs with h01 h64
          · rw [List.flatMap_cons, appendAll_append]
            have hword : (Entry.word01 address
                (littleEndian16 first (rest.headD 0))).words p =
                  [p.rawWord (logEntryMakeWord01 address
                    (littleEndian16 first (rest.headD 0))) 0] := rfl
            simp only [hword, appendAll_singleton, ih]
            all_goals rfl
          · rw [List.flatMap_cons, appendAll_append]
            have hword : (Entry.optimized64 address first).words p =
                [p.rawWord (logEntryMakeOptimized64 address first) 0] := rfl
            simp only [hword, appendAll_singleton, ih]
            all_goals rfl
          · rw [List.flatMap_cons, appendAll_append]
            simp only [wearLevelingWriteRawMultibyte_eq, ih]
            all_goals rfl

/-! ## The entries of a write -/

private theorem littleEndian16_le_one {low high : UInt8}
    (h : littleEndian16 low high = 0 ∨ littleEndian16 low high = 1) :
    littleEndian16 low high = low.toNat ∧ low.toNat ≤ 1 ∧ high = 0 := by
  have hlow := low.toNat_lt
  have heq : littleEndian16 low high = high.toNat * 256 + low.toNat := by
    rw [littleEndian16, ← Nat.shiftLeft_add_eq_or_of_lt (by omega),
      Nat.shiftLeft_eq]
  have hhigh : high.toNat = 0 := by omega
  refine ⟨by omega, by omega, ?_⟩
  exact UInt8.toNat_inj.mp (by simpa using hhigh)

theorem word01_value {low high : UInt8}
    (h : littleEndian16 low high = 0 ∨ littleEndian16 low high = 1) :
    [UInt8.ofNat (littleEndian16 low high), 0] = [low, high] := by
  obtain ⟨heq, -, hhigh⟩ := littleEndian16_le_one h
  rw [heq, hhigh, UInt8.ofNat_toNat]

theorem entriesFor_valid (hlogical : p.logicalSize ≤ 2 ^ 19) (fuel : Nat)
    {address : Nat} {value : List UInt8}
    (hbound : address + value.length ≤ p.logicalSize) :
    ∀ entry ∈ entriesFor p fuel address value, entry.Valid p := by
  induction fuel generalizing address value with
  | zero => simp [entriesFor]
  | succ fuel ih =>
      cases value with
      | nil => simp [entriesFor]
      | cons first rest =>
          rw [List.length_cons] at hbound
          simp only [entriesFor]
          split_ifs with h01 h64
          · obtain ⟨hw, hrest, heven, haddress, hvalue⟩ := h01
            have hlength := List.length_pos_iff.mpr hrest
            have htail : rest.tail.length = rest.length - 1 := by simp
            have hone : littleEndian16 first (rest.headD 0) ≤ 1 := by omega
            simp only [List.forall_mem_cons]
            exact ⟨⟨hw, heven, haddress, by omega, hone⟩, ih (by omega)⟩
          · simp only [List.forall_mem_cons]
            exact ⟨⟨h64.1, h64.2, by omega⟩, ih (by omega)⟩
          · have htake : ((first :: rest).take
                logEntryMultibyteMaxBytes).length = min 5 (rest.length + 1) := by
              simp only [List.length_take, logEntryMultibyteMaxBytes,
                List.length_cons]
            have hdrop : ((first :: rest).drop
                logEntryMultibyteMaxBytes).length = rest.length + 1 - 5 := by
              simp [logEntryMultibyteMaxBytes]
            simp only [List.forall_mem_cons]
            refine ⟨⟨by omega, ?_, by omega, by omega⟩, ih (by omega)⟩
            rw [htake]
            exact Nat.min_le_left _ _

/-- Consecutive entries that carry `value` from `address` on. -/
inductive Splits : List Entry → Nat → List UInt8 → Prop
  | nil (address : Nat) : Splits [] address []
  | cons (entry : Entry) {entries : List Entry} {value : List UInt8}
      (rest : Splits entries (entry.address + entry.value.length) value) :
      Splits (entry :: entries) entry.address (entry.value ++ value)

theorem entriesFor_splits (fuel address : Nat) (value : List UInt8)
    (hfuel : value.length ≤ fuel) :
    Splits (entriesFor p fuel address value) address value := by
  induction fuel generalizing address value with
  | zero =>
      have hnil := List.length_eq_zero_iff.mp (Nat.le_zero.mp hfuel)
      rw [hnil]
      exact .nil address
  | succ fuel ih =>
      cases value with
      | nil => exact .nil address
      | cons first rest =>
          rw [List.length_cons] at hfuel
          simp only [entriesFor]
          split_ifs with h01 h64
          · obtain ⟨-, hrest, -, -, hvalue⟩ := h01
            obtain ⟨second, rest, rfl⟩ := List.exists_cons_of_ne_nil hrest
            rw [List.length_cons] at hfuel
            rw [List.headD_cons] at hvalue ⊢
            have hbytes := word01_value hvalue
            have hsplit := Splits.cons (.word01 address (littleEndian16 first second))
              (ih (address + 2) rest (by omega))
            simp only [Entry.value, Entry.address, hbytes] at hsplit
            exact hsplit
          · exact .cons (.optimized64 address first)
              (ih (address + 1) rest (by omega))
          · have hsplit := Splits.cons
              (.multibyte address
                ((first :: rest).take logEntryMultibyteMaxBytes))
              (ih _ ((first :: rest).drop logEntryMultibyteMaxBytes) (by
                simp [logEntryMultibyteMaxBytes]; omega))
            have happend := List.take_append_drop logEntryMultibyteMaxBytes
              (first :: rest)
            simp only [Entry.value, Entry.address] at hsplit
            rwa [happend] at hsplit

theorem Splits.apply {entries : List Entry} {address : Nat}
    {value : List UInt8} (h : Splits entries address value)
    (cache : Nat → UInt8) :
    applyEntries entries cache = overlay cache address value := by
  induction h generalizing cache with
  | nil address => simp
  | cons entry rest ih => rw [applyEntries_cons, ih, overlay_append, Entry.apply]

theorem applyEntries_entriesFor (fuel address : Nat) (value : List UInt8)
    (hfuel : value.length ≤ fuel) (cache : Nat → UInt8) :
    applyEntries (entriesFor p fuel address value) cache =
      overlay cache address value :=
  (entriesFor_splits fuel address value hfuel).apply cache

theorem wordsFor_length_of_mem {address : Nat} {value word : List UInt8}
    (h : word ∈ wordsFor p address value) : word.length = p.width := by
  obtain ⟨entry, -, hword⟩ := List.mem_flatMap.mp h
  exact entry.words_length_of_mem p hword

theorem words_flatten_flatMap (entries : List Entry) :
    (entries.flatMap fun entry => entry.words p).flatten =
      logBytes p entries := by
  induction entries with
  | nil => rfl
  | cons entry entries ih =>
      rw [List.flatMap_cons, List.flatten_append, ih, entry.words_flatten,
        logBytes_cons]

theorem entriesFor_bytes_pos (address : Nat) {value : List UInt8}
    (hvalue : value ≠ []) :
    p.width ≤
      (logBytes p (entriesFor p value.length address value)).length := by
  obtain ⟨first, rest, rfl⟩ := List.exists_cons_of_ne_nil hvalue
  have hfirst : ∀ (entry : Entry) (entries : List Entry),
      p.width ≤ (logBytes p (entry :: entries)).length := by
    intro entry entries
    rw [logBytes_cons, List.length_append, Entry.bytes_length]
    exact Nat.le_trans (entry.width_le_size p) (Nat.le_add_right _ _)
  simp only [List.length_cons, entriesFor]
  split_ifs <;> exact hfirst _ _

theorem wordsFor_flatten (address : Nat) (value : List UInt8) :
    (wordsFor p address value).flatten =
      logBytes p (entriesFor p value.length address value) :=
  words_flatten_flatMap _

end Sequence

/-! ## Where a sequence of appends ends -/

section Ends

variable (p : Platform)

/-- The calls that append `words` from `address` on, over those of `trace`. -/
def appendTrace : Nat → List (List UInt8) → List Event → List Event
  | _, [], trace => trace
  | address, word :: words, trace =>
      appendTrace (address + p.width) words
        (⟨.write address word, true⟩ :: trace)

/-- The state after `words` were appended and the cursor never reached the end. -/
def State.appended (s : State) (words : List (List UInt8)) : State :=
  { s with
    mem := overlay s.mem s.writeAddress words.flatten
    writeAddress := s.writeAddress + p.width * words.length
    trace := appendTrace p s.writeAddress words s.trace }

/-- The state after the append of `word` failed. -/
def State.spoiled (s : State) (word : List UInt8) : State :=
  (backingStoreWrite p s.writeAddress word s).2

end Ends

section Ends

variable {p : Platform}

@[simp] theorem State.appended_cache (s : State) (words : List (List UInt8)) :
    (s.appended p words).cache = s.cache := rfl

@[simp] theorem State.appended_unlocked (s : State)
    (words : List (List UInt8)) :
    (s.appended p words).unlocked = s.unlocked := rfl

theorem State.appended_nil (s : State) : s.appended p [] = s := by
  simp [State.appended, appendTrace]

theorem State.appended_cons (s : State) {word : List UInt8}
    (hword : word.length = p.width) (words : List (List UInt8)) :
    s.appended p (word :: words) = (s.appended p [word]).appended p words := by
  have hcursor : s.writeAddress + p.width * (word :: words).length =
      s.writeAddress + p.width + p.width * words.length := by
    rw [List.length_cons, Nat.mul_succ]
    omega
  simp only [State.appended, hcursor]
  simp [appendTrace, overlay_append, hword]

theorem wearLevelingAppendRaw_cases {s : State}
    (haddress : s.writeAddress < p.backingSize) (word : List UInt8) :
    wearLevelingAppendRaw p word s =
      if (p.answer s (.write s.writeAddress word)).ok then
        wearLevelingConsolidateIfNeeded p (s.appended p [word])
      else (.failed, s.spoiled p word) := by
  have hwidth := p.width_le
  have hbacking := p.backingSize_u32
  have hcursor : (s.writeAddress + p.width) % 2 ^ 32 =
      s.writeAddress + p.width := Nat.mod_eq_of_lt (by omega)
  simp only [wearLevelingAppendRaw, State.spoiled, backingStoreWrite]
  cases hok : (p.answer s (.write s.writeAddress word)).ok with
  | true =>
      simp only [State.record, State.appended, appendTrace, hcursor, if_true,
        List.flatten_singleton, List.length_singleton, Nat.mul_one]
  | false => simp

/-- Either all words are appended, or a write fails, or the log is full. -/
inductive Appends (p : Platform) (s : State) (words : List (List UInt8)) :
    Status × State → Prop
  | done (hroom : (s.appended p words).writeAddress < p.backingSize) :
      Appends p s words (.success, s.appended p words)
  | failed (before after : List (List UInt8)) (word : List UInt8)
      (hwords : words = before ++ word :: after)
      (hroom : (s.appended p before).writeAddress < p.backingSize)
      (hfail : (p.answer (s.appended p before)
        (.write (s.appended p before).writeAddress word)).ok = false) :
      Appends p s words (.failed, (s.appended p before).spoiled p word)
  | full (before after : List (List UInt8)) (word : List UInt8)
      (hwords : words = before ++ word :: after)
      (hroom : (s.appended p before).writeAddress < p.backingSize)
      (hfull : p.backingSize ≤
        (s.appended p (before ++ [word])).writeAddress) :
      Appends p s words
        (wearLevelingConsolidateForce p (s.appended p (before ++ [word])))

theorem wearLevelingConsolidateForce_ne_success (s : State) :
    (wearLevelingConsolidateForce p s).1 ≠ .success := by
  simp only [wearLevelingConsolidateForce]
  split
  · simp
  · simp only [wearLevelingWriteConsolidated]
    split
    · simp
    · split <;> simp

theorem appendAll_appends (words : List (List UInt8)) {s : State}
    (hwords : ∀ word ∈ words, word.length = p.width)
    (haddress : s.writeAddress < p.backingSize) :
    Appends p s words (appendAll p words s) := by
  induction words generalizing s with
  | nil =>
      have hdone := @Appends.done p s []
      rw [State.appended_nil] at hdone
      exact hdone haddress
  | cons word words ih =>
      have hword := hwords word (by simp)
      have hrest := fun other hother => hwords other (List.mem_cons_of_mem word hother)
      simp only [appendAll, wearLevelingAppendRaw_cases haddress]
      cases hok : (p.answer s (.write s.writeAddress word)).ok with
      | false =>
          have hfailed := Appends.failed (p := p) (s := s) [] words word rfl
          rw [State.appended_nil] at hfailed
          exact hfailed haddress hok
      | true =>
          simp only [if_true, wearLevelingConsolidateIfNeeded]
          by_cases hfull : p.backingSize ≤ (s.appended p [word]).writeAddress
          · simp only [hfull, if_true]
            have hne := wearLevelingConsolidateForce_ne_success (p := p)
              (s.appended p [word])
            have hresult := Appends.full (p := p) (s := s) [] words word rfl
            rw [State.appended_nil, List.nil_append] at hresult
            have hresult := hresult haddress hfull
            rcases hforce : wearLevelingConsolidateForce p
              (s.appended p [word]) with ⟨status, after⟩
            rw [hforce] at hne hresult
            cases status with
            | success => exact absurd rfl hne
            | failed => exact hresult
            | consolidated => exact hresult
          · simp only [hfull, if_false]
            have hroom := Nat.lt_of_not_le hfull
            have happend := fun words => s.appended_cons hword words
            have hafter := ih hrest hroom
            generalize appendAll p words (s.appended p [word]) = result
              at hafter
            cases hafter with
            | done hdone =>
                rw [← happend] at hdone ⊢
                exact .done hdone
            | failed before after other hsplit hbefore hfail =>
                rw [← happend] at hbefore hfail ⊢
                exact .failed (word :: before) after other (by simp [hsplit])
                  hbefore hfail
            | full before after other hsplit hbefore hafter =>
                rw [← happend] at hbefore hafter ⊢
                exact .full (word :: before) after other (by simp [hsplit])
                  hbefore hafter

end Ends

end Qmk.WearLeveling
