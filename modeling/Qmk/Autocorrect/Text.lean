import Mathlib.Data.List.TakeWhile
import Qmk.Autocorrect.Process

/-!
# The text behind a correction

Over every run the typo buffer follows the end of the text, but for a word break before the first
key. So a correction replaces the typo in the text by its correction.
-/

namespace Qmk.Autocorrect

open Qmk.Lib

/-! ## Stripped typos -/

theorem commonLength_spec (as bs : List Char) :
    commonLength as bs ≤ as.length ∧
      as.take (commonLength as bs) ++ bs.drop (commonLength as bs) = bs := by
  induction as generalizing bs with
  | nil => exact ⟨Nat.le_refl 0, rfl⟩
  | cons a as ih =>
      cases bs with
      | nil => exact ⟨Nat.zero_le _, rfl⟩
      | cons b bs =>
          rw [commonLength]
          split
          · next heq =>
              obtain ⟨hle, hjoin⟩ := ih bs
              refine ⟨Nat.succ_le_succ hle, ?_⟩
              rw [List.take_succ_cons, List.drop_succ_cons, List.cons_append, hjoin, heq]
          · exact ⟨Nat.zero_le _, rfl⟩

theorem head_strip (typo : List Char) : (strip typo).head? ≠ some ':' := by
  intro hhead
  have hpre : strip typo <+: typo.dropWhile (· = ':') := by
    rw [← List.reverse_suffix, strip, List.reverse_reverse]
    exact List.dropWhile_suffix _
  obtain ⟨rest, hrest⟩ := hpre
  have hfirst := List.head?_dropWhile_not (· = ':') typo
  rw [← hrest] at hfirst
  cases hstrip : strip typo with
  | nil => simp [hstrip] at hhead
  | cons c typo =>
      rw [hstrip] at hhead hfirst
      cases hhead
      simp at hfirst

theorem strip_of_dropWhile {typo init : List Char} {c : Char}
    (h : typo.dropWhile (· = ':') = init ++ [c]) (hbreaks : ¬[':', ':'] <:+ typo) :
    strip typo = if c = ':' then init else init ++ [c] := by
  rw [strip, h, List.reverse_concat]
  by_cases hc : c = ':'
  · have hinit : init.reverse.dropWhile (· = ':') = init.reverse := by
      rcases List.eq_nil_or_concat' init with rfl | ⟨rest, d, rfl⟩
      · rfl
      · have hd : d ≠ ':' := by
          rintro rfl
          apply hbreaks
          have hsuffix := List.dropWhile_suffix (l := typo) (· = ':')
          rw [h, hc, List.append_assoc] at hsuffix
          exact (List.suffix_append rest [':', ':']).trans hsuffix
        rw [List.reverse_concat, List.dropWhile_cons_of_neg (by simpa using hd)]
    rw [if_pos hc, List.dropWhile_cons_of_pos (by simpa using hc), hinit, List.reverse_reverse]
  · rw [if_neg hc, List.dropWhile_cons_of_neg (by simpa using hc), List.reverse_cons,
      List.reverse_reverse]

/-- The word breaks around a typo that does not end with two of them. -/
theorem strip_spec {typo : List Char} (hne : typo ≠ []) (hbreaks : ¬[':', ':'] <:+ typo) :
    ∃ lead, typo = lead ++ strip typo ++ if typo.getLast? = some ':' then [':'] else [] := by
  have hsplit := List.takeWhile_append_dropWhile (p := (· = ':')) (l := typo)
  rcases List.eq_nil_or_concat' (typo.dropWhile (· = ':')) with hnil | ⟨init, c, hconcat⟩
  · have hstrip : strip typo = [] := by
      rw [strip, hnil]
      rfl
    obtain ⟨init, c, rfl⟩ := (List.eq_nil_or_concat' typo).resolve_left hne
    have hc : c = ':' := by
      have hall := List.dropWhile_eq_nil_iff.mp hnil c (by simp)
      simpa using hall
    refine ⟨init, ?_⟩
    rw [hstrip, List.append_nil, List.getLast?_concat, hc, if_pos rfl]
  · have hlast : typo.getLast? = some c := by
      rw [← hsplit, hconcat, ← List.append_assoc, List.getLast?_concat]
    refine ⟨typo.takeWhile (· = ':'), ?_⟩
    rw [strip_of_dropWhile hconcat hbreaks, hlast]
    by_cases hc : c = ':'
    · subst hc
      rw [if_pos rfl, if_pos rfl, List.append_assoc, ← hconcat, hsplit]
    · rw [if_neg hc, if_neg fun heq => hc (Option.some.inj heq), List.append_nil, ← hconcat, hsplit]

/-! ## The buffer follows the text -/

theorem isKey_of_classify {keycode key : Nat} {mods : BitVec 8}
    (h : classify keycode mods = .key key) : IsKey key := by
  unfold classify at h
  split at h
  · next hletter =>
      cases h
      exact .inl hletter
  · split at h
    · cases h
      exact .inr (.inl rfl)
    · split at h
      · cases h
      · split at h
        · cases h
        · split at h
          · cases h
            split
            · exact .inr (.inl rfl)
            · exact .inr (.inr rfl)
          · cases h

theorem isKey_of_cell {cell : Cell} {key : Nat} (h : cell.key = some key) : IsKey key := by
  cases cell with
  | sent c => cases h
  | typed keycode mods =>
      rw [Cell.key] at h
      cases hclass : classify keycode mods with
      | key found =>
          rw [hclass] at h
          cases h
          exact isKey_of_classify hclass
      | enter =>
          rw [hclass] at h
          cases h
          exact .inr (.inl rfl)
      | backspace =>
          rw [hclass] at h
          cases h
      | other =>
          rw [hclass] at h
          cases h

/-- The buffer has the keys of the last cells of the text, perhaps behind a word break. -/
def Follows (typoBuffer : List Nat) (text : List Cell) : Prop :=
  ∃ start before tail, text = before ++ tail ∧ typoBuffer = start ++ tail.filterMap Cell.key ∧
    (∀ cell ∈ tail, cell.key.isSome) ∧ (start = [] ∨ start = [kcSpc])

theorem Follows.nil (text : List Cell) : Follows [] text :=
  ⟨[], text, [], (List.append_nil text).symm, rfl, fun _ h => absurd h List.not_mem_nil, .inl rfl⟩

theorem Follows.initial (text : List Cell) : Follows [kcSpc] text :=
  ⟨[kcSpc], text, [], (List.append_nil text).symm, rfl, fun _ h => absurd h List.not_mem_nil,
    .inr rfl⟩

variable {typoBuffer : List Nat} {text : List Cell} {cell : Cell} {key : Nat}

theorem Follows.single (text : List Cell) (hkey : cell.key = some key) :
    Follows [key] (text ++ [cell]) :=
  ⟨[], text, [cell], rfl, by simp [hkey], by simp [hkey], .inl rfl⟩

theorem Follows.append (h : Follows typoBuffer text) (hkey : cell.key = some key) :
    Follows (typoBuffer ++ [key]) (text ++ [cell]) := by
  obtain ⟨start, before, tail, rfl, rfl, hall, hstart⟩ := h
  refine ⟨start, before, tail ++ [cell], by simp, by simp [hkey], ?_, hstart⟩
  intro other hother
  rcases List.mem_append.mp hother with hother | hother
  · exact hall other hother
  · rw [List.mem_singleton.mp hother, hkey]
    rfl

theorem Follows.drop (h : Follows typoBuffer text) : Follows (typoBuffer.drop 1) text := by
  obtain ⟨start, before, tail, rfl, rfl, hall, rfl | rfl⟩ := h
  · cases tail with
    | nil => exact .nil _
    | cons first tail =>
        obtain ⟨key, hkey⟩ := Option.isSome_iff_exists.mp (hall first List.mem_cons_self)
        refine ⟨[], before ++ [first], tail, by simp, by simp [hkey], ?_, .inl rfl⟩
        exact fun other hother => hall other (List.mem_cons_of_mem _ hother)
  · exact ⟨[], before, tail, rfl, rfl, hall, .inl rfl⟩

theorem Follows.dropLast (h : Follows typoBuffer text) :
    Follows typoBuffer.dropLast text.dropLast := by
  obtain ⟨start, before, tail, rfl, rfl, hall, hstart⟩ := h
  rcases List.eq_nil_or_concat' tail with rfl | ⟨init, last, rfl⟩
  · rcases hstart with rfl | rfl
    · exact .nil _
    · exact .nil _
  · obtain ⟨key, hkey⟩ := Option.isSome_iff_exists.mp (hall last (by simp))
    refine ⟨start, before, init, ?_, ?_, fun other hother => hall other (by simp [hother]), hstart⟩
    · rw [← List.append_assoc, List.dropLast_concat]
    · rw [List.filterMap_append, List.filterMap_cons_some hkey, List.filterMap_nil,
        ← List.append_assoc, List.dropLast_concat]

theorem Follows.isKey (h : Follows typoBuffer text) : ∀ key ∈ typoBuffer, IsKey key := by
  obtain ⟨start, before, tail, -, rfl, -, hstart⟩ := h
  intro key hkey
  rcases List.mem_append.mp hkey with hkey | hkey
  · rcases hstart with rfl | rfl
    · cases hkey
    · rw [List.mem_singleton.mp hkey]
      exact .inr (.inl rfl)
  · obtain ⟨cell, -, hcell⟩ := List.mem_filterMap.mp hkey
    exact isKey_of_cell hcell

/-! ## Typos in the text -/

variable {autocorrections : List Autocorrection} {entry : Autocorrection}

/-- The word break that is not stripped. -/
def Autocorrection.trail (entry : Autocorrection) : List Char := if entry.ending then [':'] else []

theorem keys_of_typo (h : Accepted autocorrections) (hentry : entry ∈ autocorrections) :
    entry.typo.map typoChars = entry.keys.map some := by
  have hspells := h.spells_keys hentry
  generalize entry.typo = typo, entry.keys = keys at hspells
  induction hspells with
  | nil => rfl
  | cons hkey _ ih => rw [List.map_cons, List.map_cons, hkey, ih]

theorem map_key_eq {tail : List Cell} (hall : ∀ cell ∈ tail, cell.key.isSome) :
    (tail.filterMap Cell.key).map some = tail.map Cell.key := by
  induction tail with
  | nil => rfl
  | cons first tail ih =>
      obtain ⟨key, hkey⟩ := Option.isSome_iff_exists.mp (hall first List.mem_cons_self)
      rw [List.filterMap_cons_some hkey, List.map_cons, List.map_cons, hkey,
        ih fun other hother => hall other (List.mem_cons_of_mem _ hother)]

/-- A break before the text is no part of a stripped typo. -/
theorem suffix_of_start {word : List Char} {cells start : List (Option Nat)} (hcells : cells ≠ [])
    (hstart : start = [] ∨ start = [some kcSpc]) (hhead : word.head? = some ':' → word = [':'])
    (h : word.map typoChars <:+ start ++ cells) : word.map typoChars <:+ cells := by
  rcases List.suffix_or_suffix_of_suffix h (List.suffix_append start cells) with hshort | ⟨x, hx⟩
  · exact hshort
  · obtain ⟨y, hy⟩ := h
    rw [← hx, ← List.append_assoc] at hy
    have hjoin := List.append_cancel_right hy
    rcases List.eq_nil_or_concat' x with rfl | ⟨init, last, rfl⟩
    · rw [← hx]
      exact List.suffix_rfl
    · -- The word begins with the break before the text, and so it is this break alone.
      rcases hstart with rfl | rfl
      · simp at hjoin
      · rw [← List.append_assoc, ← List.nil_append [some kcSpc]] at hjoin
        obtain ⟨hnil, hlast⟩ := List.append_inj' hjoin rfl
        obtain ⟨-, rfl⟩ := List.append_eq_nil_iff.mp hnil
        obtain rfl : last = some kcSpc := List.singleton_inj.mp hlast
        obtain ⟨c, rest, rfl, hc, hrest⟩ := List.map_eq_cons_iff.mp hx.symm
        obtain rfl : c = ':' := typoChars_inj hc rfl
        obtain rfl : rest = [] := List.tail_eq_of_cons_eq (hhead rfl)
        exact absurd hrest.symm hcells

theorem stripped_suffix (h : Accepted autocorrections) (hentry : entry ∈ autocorrections)
    (hbreaks : ¬[':', ':'] <:+ entry.typo) : strip entry.typo ++ entry.trail <:+ entry.typo := by
  obtain ⟨lead, htypo⟩ := strip_spec (h.nonempty entry hentry) hbreaks
  have htrail : entry.trail = if entry.typo.getLast? = some ':' then [':'] else [] := by
    simp [Autocorrection.trail, Autocorrection.ending]
  refine ⟨lead, ?_⟩
  rw [← List.append_assoc, htrail]
  exact htypo.symm

theorem head_stripped (entry : Autocorrection)
    (h : (strip entry.typo ++ entry.trail).head? = some ':') :
    strip entry.typo ++ entry.trail = [':'] := by
  have hhead := head_strip entry.typo
  cases hstrip : strip entry.typo with
  | nil =>
      rw [hstrip] at h
      rw [List.nil_append, Autocorrection.trail] at h ⊢
      split at h
      · rw [if_pos ‹_›]
      · cases h
  | cons c word =>
      rw [hstrip] at h hhead
      exact absurd h hhead

theorem Follows.word (h : Follows typoBuffer text) (hkey : cell.key = some key)
    (haccepted : Accepted autocorrections) (hentry : entry ∈ autocorrections)
    (hbreaks : ¬[':', ':'] <:+ entry.typo) (hsuffix : entry.keys <:+ typoBuffer ++ [key]) :
    ∃ before word ending, text ++ [cell] = before ++ word ++ ending ∧
      word.map Cell.key = (strip entry.typo).map typoChars ∧
      ending.map Cell.key = entry.trail.map typoChars := by
  obtain ⟨start, before, tail, rfl, rfl, hall, hstart⟩ := h
  have hall' : ∀ other ∈ tail ++ [cell], other.key.isSome := by
    intro other hother
    rcases List.mem_append.mp hother with hother | hother
    · exact hall other hother
    · rw [List.mem_singleton.mp hother, hkey]
      rfl
  have hcells : start ++ tail.filterMap Cell.key ++ [key] =
      start ++ (tail ++ [cell]).filterMap Cell.key := by
    simp [hkey]
  -- The stripped typo and its trailing break end the buffer.
  have hword : (strip entry.typo ++ entry.trail).map typoChars <:+
      start.map some ++ (tail ++ [cell]).map Cell.key := by
    rw [hcells] at hsuffix
    have hmap := hsuffix.map some
    rw [← keys_of_typo haccepted hentry, List.map_append, map_key_eq hall'] at hmap
    exact ((stripped_suffix haccepted hentry hbreaks).map typoChars).trans hmap
  have hstart' : start.map some = [] ∨ start.map some = [some kcSpc] := by
    rcases hstart with rfl | rfl
    · exact .inl rfl
    · exact .inr rfl
  obtain ⟨rest, hrest⟩ := suffix_of_start (by simp) hstart' (head_stripped entry) hword
  have hsplit : (strip entry.typo ++ entry.trail).map typoChars =
      (strip entry.typo).map typoChars ++ entry.trail.map typoChars := List.map_append
  rw [hsplit] at hrest
  obtain ⟨inner, others, htail, -, hothers⟩ := List.map_eq_append_iff.mp hrest.symm
  obtain ⟨word, ending, rfl, hword, hending⟩ := List.map_eq_append_iff.mp hothers
  refine ⟨before ++ inner, word, ending, ?_, hword, hending⟩
  rw [List.append_assoc, htail, List.append_assoc, List.append_assoc]

/-! ## Corrections -/

/-- The header of a dictionary, whose typos do not end with two word breaks. -/
structure Dictionary (autocorrections : List Autocorrection) (h : Header) : Prop where
  accepted : Accepted autocorrections
  generated : generateHeader autocorrections = some h
  nul : ∀ entry ∈ autocorrections, Char.ofNat 0 ∉ entry.correction
  breaks : ∀ entry ∈ autocorrections, ¬[':', ':'] <:+ entry.typo

/-- A text that ends with the typo becomes a text with its correction, and the key that ended the
typo stays where it is a word break. -/
structure Replaced (entry : Autocorrection) (text text' : List Cell) : Prop where
  replaced : ∃ before word ending : List Cell, text = before ++ word ++ ending ∧
    word.map Cell.key = (strip entry.typo).map typoChars ∧
    ending.map Cell.key = entry.trail.map typoChars ∧
    text' = before ++ word.take entry.kept ++ entry.changes.map (.sent ∘ Char.toNat) ++ ending
  correction : (strip entry.typo).take entry.kept ++ entry.changes = entry.correction

variable {h : Header} {s : State} {r : KeyRecord} {text' : List Cell}

theorem generateHeader_some (hgenerate : generateHeader autocorrections = some h) :
    generate autocorrections = some h.data ∧
      (∀ entry ∈ autocorrections, h.minLength ≤ entry.typo.length ∧ entry.typo.length ≤ h.maxLength) ∧
      ∃ entry ∈ autocorrections, entry.typo.length = h.maxLength := by
  simp only [generateHeader, Option.bind_eq_bind, Option.bind_eq_some_iff] at hgenerate
  obtain ⟨data, hdata, minLength, hmin, maxLength, hmax, heq⟩ := hgenerate
  cases heq
  obtain ⟨-, hmin⟩ := List.min?_eq_some_iff.mp hmin
  obtain ⟨hmem, hmax⟩ := List.max?_eq_some_iff.mp hmax
  refine ⟨hdata, fun entry hentry => ?_, List.mem_map.mp hmem⟩
  exact ⟨hmin _ (List.mem_map_of_mem hentry), hmax _ (List.mem_map_of_mem hentry)⟩

theorem Dictionary.maxLength_pos (hdict : Dictionary autocorrections h) : 0 < h.maxLength := by
  obtain ⟨-, -, entry, hentry, hlength⟩ := generateHeader_some hdict.generated
  rw [← hlength]
  exact List.length_pos_iff.mpr (hdict.accepted.nonempty entry hentry)

theorem length_keys (haccepted : Accepted autocorrections) (hentry : entry ∈ autocorrections) :
    entry.keys.length = entry.typo.length := (haccepted.spells_keys hentry).length_eq.symm

/-- What stays of a buffer of the right length before a new key. -/
theorem append_spec {maxLength : Nat} (hpos : 0 < maxLength) (hle : typoBuffer.length ≤ maxLength)
    (hfollows : Follows typoBuffer text) (key : Nat) :
    ∃ kept, Follows kept text ∧ append maxLength typoBuffer key = kept ++ [key] ∧
      kept.length + 1 ≤ maxLength := by
  unfold append
  split
  · refine ⟨typoBuffer.drop 1, hfollows.drop, ?_, ?_⟩
    · rw [List.take_of_length_le]
      rw [List.length_drop]
      omega
    · rw [List.length_drop]
      omega
  · exact ⟨typoBuffer, hfollows, rfl, by omega⟩

theorem ending_iff (haccepted : Accepted autocorrections) (hentry : entry ∈ autocorrections)
    (hsuffix : entry.keys <:+ typoBuffer ++ [key]) : entry.ending = true ↔ key = kcSpc := by
  obtain ⟨init, c, hinit⟩ := (List.eq_nil_or_concat' entry.typo).resolve_left
    (haccepted.nonempty entry hentry)
  have hkeys := keys_of_typo haccepted hentry
  have hc : typoChars c = some key := by
    obtain ⟨before, hbefore⟩ := hsuffix
    rcases List.eq_nil_or_concat' entry.keys with hnil | ⟨keys, last, hlast⟩
    · rw [hnil, hinit] at hkeys
      simp at hkeys
    · rw [hlast, ← List.append_assoc] at hbefore
      obtain ⟨-, hsame⟩ := List.append_inj' hbefore rfl
      rw [hinit, hlast, List.map_append, List.map_append] at hkeys
      obtain ⟨-, hc⟩ := List.append_inj' hkeys rfl
      rw [← List.singleton_inj.mp hsame]
      exact List.singleton_inj.mp hc
  unfold Autocorrection.ending
  rw [hinit, List.getLast?_concat, decide_eq_true_eq, Option.some_inj]
  constructor
  · rintro rfl
    exact (Option.some.inj hc).symm
  · rintro rfl
    exact typoChars_inj hc rfl

/-- One key of a run: no typo ends the buffer, or the outcome is the correction of one that does. -/
theorem processKey_spec (hdict : Dictionary autocorrections h) (hle : typoBuffer.length ≤ h.maxLength)
    (hfollows : Follows typoBuffer text) (hkey : IsKey key) :
    (processKey h s typoBuffer key =
        ⟨true, none, { s with typoBuffer := append h.maxLength typoBuffer key }⟩ ∧
      ∀ entry ∈ autocorrections, ¬entry.keys <:+ append h.maxLength typoBuffer key) ∨
    ∃ entry ∈ autocorrections, entry.keys <:+ append h.maxLength typoBuffer key ∧
      ∃ backspaces : Nat, backspaces = entry.backspaces ∧
        processKey h s typoBuffer key =
          if entry.ending then
            ⟨true, some ⟨backspaces, entry.changes.map Char.toNat⟩, { s with typoBuffer := [kcSpc] }⟩
          else ⟨false, some ⟨backspaces, entry.changes.map Char.toNat⟩, { s with typoBuffer := [] }⟩ := by
  obtain ⟨hdata, hlengths, -⟩ := generateHeader_some hdict.generated
  obtain ⟨kept, hkept, happend, -⟩ := append_spec hdict.maxLength_pos hle hfollows key
  unfold processKey
  rw [happend]
  dsimp only
  by_cases hshort : (kept ++ [key]).length < h.minLength
  · rw [if_pos hshort]
    refine .inl ⟨rfl, fun entry hentry hsuffix => ?_⟩
    have hlength := hsuffix.length_le
    rw [length_keys hdict.accepted hentry] at hlength
    have hmin := (hlengths entry hentry).1
    omega
  · rw [if_neg hshort]
    have hkeys : ∀ other ∈ kept ++ [key], IsKey other := by
      intro other hother
      rcases List.mem_append.mp hother with hother | hother
      · exact hkept.isKey other hother
      · rw [List.mem_singleton.mp hother]
        exact hkey
    rcases search_found hdict.accepted hdata hkeys with
      ⟨state, entry, hentry, hsearch, hsuffix, hmarks⟩ | ⟨hsearch, hnone⟩
    · refine .inr ⟨entry, hentry, hsuffix, backspacesAt h.data state, hmarks.backspacesAt.1, ?_⟩
      rw [hsearch, ← hmarks.changesAt (hdict.nul entry hentry)]
      have hending := ending_iff hdict.accepted hentry hsuffix
      by_cases hspace : key = kcSpc
      · rw [if_pos (hending.mpr hspace)]
        exact if_pos hspace
      · rw [if_neg fun heq => hspace (hending.mp heq)]
        exact if_neg hspace
    · rw [hsearch]
      exact .inl ⟨rfl, hnone⟩

/-! ## The text -/

/-- The backspaces leave the text up to where the typo and its correction differ. -/
theorem apply_correction {before word ending : List Cell} {backspaces : Nat}
    (htext : text ++ [cell] = before ++ word ++ ending)
    (hword : word.length = (strip entry.typo).length)
    (hending : ending.length = entry.trail.length) (hbackspaces : backspaces = entry.backspaces)
    (changes : List Nat) :
    Correction.apply text ⟨backspaces, changes⟩ =
      before ++ word.take entry.kept ++ changes.map .sent := by
  have hkept : entry.kept ≤ (strip entry.typo).length := (commonLength_spec _ _).1
  have htrail : (entry.trail.length : Int) = if entry.ending then 1 else 0 := by
    unfold Autocorrection.trail
    split <;> rfl
  have hlength := congrArg List.length htext
  rw [List.length_append, List.length_append, List.length_append, List.length_singleton] at hlength
  unfold Autocorrection.backspaces at hbackspaces
  have hleft : text.length - backspaces = before.length + entry.kept := by omega
  have hinside : before.length + entry.kept ≤ text.length := by omega
  have htake : text.take (before.length + entry.kept) = before ++ word.take entry.kept := by
    have hwhole := congrArg (List.take (before.length + entry.kept)) htext
    rw [List.take_append_of_le_length hinside, List.append_assoc, List.take_length_add_append,
      List.take_append_of_le_length (by omega)] at hwhole
    exact hwhole
  rw [Correction.apply, hleft, htake]

/-- What a run keeps: the buffer follows the text, and has room for a typo. -/
structure Keeps (h : Header) (s : State) (text : List Cell) : Prop where
  follows : Follows s.typoBuffer text
  length_le : s.typoBuffer.length ≤ h.maxLength

theorem Keeps.emptied (enabled : Bool) (text : List Cell) : Keeps h ⟨enabled, []⟩ text :=
  ⟨.nil text, Nat.zero_le _⟩

theorem shows_character {keycode : Nat} {mods : BitVec 8} (hdown : r.pressed = true)
    (hhandler : defaultHandler r = .accepted keycode mods)
    (hkey : (Cell.typed keycode mods).key = some key) (hshows : Shows r text text') :
    text' = text ++ [.typed keycode mods] := by
  cases hshows with
  | released h => simp [hdown] at h
  | excluded h => simp [hhandler] at h
  | cleared _ h => simp [hhandler] at h
  | character _ h _ =>
      rw [hhandler] at h
      cases h
      rfl
  | backspace _ h hclass =>
      rw [hhandler] at h
      cases h
      simp [Cell.key, hclass] at hkey
  | other _ h hclass =>
      rw [hhandler] at h
      cases h
      simp [Cell.key, hclass] at hkey

/-- The outcome for a key of the buffer: the text, and what the buffer keeps. -/
theorem key_outcome {keycode : Nat} {mods : BitVec 8} (hdict : Dictionary autocorrections h)
    (hle : typoBuffer.length ≤ h.maxLength) (hfollows : Follows typoBuffer text)
    (hdown : r.pressed = true) (hhandler : defaultHandler r = .accepted keycode mods)
    (hkey : (Cell.typed keycode mods).key = some key)
    (hprocess : processAutocorrect h s r = processKey h s typoBuffer key)
    (htypes : Types h s text r text') :
    Keeps h (processAutocorrect h s r).state text' ∧
      (((processAutocorrect h s r).correction = none ∧
          ∀ entry ∈ autocorrections, ¬entry.keys <:+ append h.maxLength typoBuffer key) ∨
        ∃ entry ∈ autocorrections, entry.keys <:+ append h.maxLength typoBuffer key ∧
          (processAutocorrect h s r).correction.isSome ∧
          Replaced entry (text ++ [.typed keycode mods]) text') := by
  obtain ⟨kept, hkept, happend, hlength⟩ := append_spec hdict.maxLength_pos hle hfollows key
  have hspec := processKey_spec (s := s) hdict hle hfollows (isKey_of_cell hkey)
  unfold Types at htypes
  rw [hprocess] at htypes ⊢
  rcases hspec with ⟨houtcome, hnone⟩ | ⟨entry, hentry, hsuffix, backspaces, hbackspaces, houtcome⟩
  · rw [houtcome] at htypes ⊢
    have htext' := shows_character hdown hhandler hkey htypes
    refine ⟨⟨?_, ?_⟩, .inl ⟨rfl, hnone⟩⟩
    · rw [htext', happend]
      exact hkept.append hkey
    · rw [happend, List.length_append]
      exact hlength
  · rw [happend] at hsuffix
    obtain ⟨before, word, ending, htext, hword, hending⟩ :=
      hkept.word hkey hdict.accepted hentry (hdict.breaks entry hentry) hsuffix
    have hwords := congrArg List.length hword
    have hendings := congrArg List.length hending
    rw [List.length_map, List.length_map] at hwords hendings
    have happly := apply_correction htext hwords hendings hbackspaces (entry.changes.map Char.toNat)
    have hjoin : (strip entry.typo).take entry.kept ++ entry.changes = entry.correction :=
      (commonLength_spec _ _).2
    rw [List.map_map] at happly
    rw [happend]
    by_cases hspace : entry.ending = true
    · rw [houtcome, if_pos hspace] at htypes ⊢
      have htext' := shows_character hdown hhandler hkey htypes
      rw [(ending_iff hdict.accepted hentry hsuffix).mp hspace] at hkey
      obtain ⟨last, rfl⟩ : ∃ last, ending = [last] := by
        rw [Autocorrection.trail, if_pos hspace] at hendings
        exact List.length_eq_one_iff.mp hendings
      obtain ⟨-, hlast⟩ := List.append_inj' htext rfl
      refine ⟨⟨?_, hdict.maxLength_pos⟩, .inr ⟨entry, hentry, hsuffix, rfl, ⟨before, word, [last], htext,
        hword, hending, ?_⟩, hjoin⟩⟩
      · rw [htext']
        exact .single _ hkey
      · rw [htext', hlast]
        exact congrArg (· ++ [last]) happly
    · rw [houtcome, if_neg hspace] at htypes ⊢
      obtain rfl : ending = [] := by
        rw [Autocorrection.trail, if_neg hspace] at hendings
        exact List.length_eq_zero_iff.mp hendings
      refine ⟨.emptied _ _, .inr ⟨entry, hentry, hsuffix, rfl, ⟨before, word, [], htext, hword, hending,
        ?_⟩, hjoin⟩⟩
      rw [List.append_nil]
      exact htypes.trans happly

/-- The keys that switch autocorrect on and off. -/
def isSwitch (r : KeyRecord) : Prop := 0x7C74 ≤ r.keycode ∧ r.keycode ≤ 0x7C76

theorem process_switch (hswitch : isSwitch r) (hdown : r.pressed = true) :
    ∃ enabled typoBuffer, processAutocorrect h s r = ⟨false, none, ⟨enabled, typoBuffer⟩⟩ ∧
      (typoBuffer = s.typoBuffer ∨ typoBuffer = []) := by
  unfold processAutocorrect
  rw [if_pos ⟨hswitch.1, hswitch.2, hdown⟩]
  split
  · exact ⟨true, s.typoBuffer, rfl, .inl rfl⟩
  · split
    · exact ⟨false, [], rfl, .inr rfl⟩
    · exact ⟨!s.enabled, [], rfl, .inr rfl⟩

theorem process_disabled (hswitch : ¬(isSwitch r ∧ r.pressed = true)) (hoff : s.enabled = false) :
    processAutocorrect h s r = ⟨true, none, { s with typoBuffer := [] }⟩ := by
  unfold processAutocorrect
  rw [if_neg fun heq => hswitch ⟨⟨heq.1, heq.2.1⟩, heq.2.2⟩, if_pos (by simp [hoff])]

theorem process_released (hon : s.enabled = true) (hup : r.pressed = false) :
    processAutocorrect h s r = ⟨true, none, s⟩ := by
  unfold processAutocorrect
  rw [if_neg (by simp [hup]), if_neg (by simp [hon]), if_pos (by simp [hup])]

theorem process_pressed (hswitch : ¬isSwitch r) (hon : s.enabled = true) (hdown : r.pressed = true) :
    processAutocorrect h s r =
      match defaultHandler r with
      | .excluded => ⟨true, none, s⟩
      | .cleared => ⟨true, none, { s with typoBuffer := [] }⟩
      | .accepted keycode mods =>
          match classify keycode mods with
          | .key key => processKey h s s.typoBuffer key
          | .enter => processKey h s [] kcSpc
          | .backspace => ⟨true, none, { s with typoBuffer := s.typoBuffer.dropLast }⟩
          | .other => ⟨true, none, { s with typoBuffer := [] }⟩ := by
  unfold processAutocorrect
  rw [if_neg fun heq => hswitch ⟨heq.1, heq.2.1⟩, if_neg (by simp [hon])]
  exact if_neg (by simp [hdown])

theorem typed_pressed (hswitch : ¬isSwitch r) (hon : s.enabled = true) (hdown : r.pressed = true) :
    typed h s r =
      match defaultHandler r with
      | .accepted keycode mods =>
          match classify keycode mods with
          | .key key => some (append h.maxLength s.typoBuffer key)
          | .enter => some (append h.maxLength [] kcSpc)
          | _ => none
      | _ => none := if_pos ⟨hon, hdown, hswitch⟩

/-- What an event does to the text. -/
structure Event (autocorrections : List Autocorrection) (h : Header) (s : State) (text : List Cell)
    (r : KeyRecord) (text' : List Cell) : Prop where
  keeps : Keeps h (processAutocorrect h s r).state text'
  text : (processAutocorrect h s r).correction = none ∧
      (∀ typoBuffer, typed h s r = some typoBuffer →
        ∀ entry ∈ autocorrections, ¬entry.keys <:+ typoBuffer) ∨
    ∃ typoBuffer, typed h s r = some typoBuffer ∧ ∃ entry ∈ autocorrections,
      entry.keys <:+ typoBuffer ∧ (processAutocorrect h s r).correction.isSome ∧
      ∃ keycode mods, defaultHandler r = .accepted keycode mods ∧
        Replaced entry (text ++ [.typed keycode mods]) text'

theorem Event.quiet (hkeeps : Keeps h (processAutocorrect h s r).state text')
    (hcorrection : (processAutocorrect h s r).correction = none) (htyped : typed h s r = none) :
    Event autocorrections h s text r text' :=
  ⟨hkeeps, .inl ⟨hcorrection, fun _ heq => by simp [htyped] at heq⟩⟩

theorem event_key {keycode : Nat} {mods : BitVec 8} (hdict : Dictionary autocorrections h)
    (hle : typoBuffer.length ≤ h.maxLength) (hfollows : Follows typoBuffer text)
    (hdown : r.pressed = true) (hhandler : defaultHandler r = .accepted keycode mods)
    (hkey : (Cell.typed keycode mods).key = some key)
    (hprocess : processAutocorrect h s r = processKey h s typoBuffer key)
    (htyped : typed h s r = some (append h.maxLength typoBuffer key))
    (htypes : Types h s text r text') : Event autocorrections h s text r text' := by
  obtain ⟨hkeeps, htext⟩ := key_outcome hdict hle hfollows hdown hhandler hkey hprocess htypes
  refine ⟨hkeeps, ?_⟩
  rcases htext with ⟨hnone, hall⟩ | ⟨entry, hentry, hsuffix, hsome, hreplaced⟩
  · refine .inl ⟨hnone, fun typoBuffer heq => ?_⟩
    obtain rfl := Option.some.inj (htyped.symm.trans heq)
    exact hall
  · exact .inr ⟨_, htyped, entry, hentry, hsuffix, hsome, keycode, mods, hhandler, hreplaced⟩

theorem shows_backspace {keycode : Nat} {mods : BitVec 8} (hdown : r.pressed = true)
    (hhandler : defaultHandler r = .accepted keycode mods)
    (hclass : classify keycode mods = .backspace) (hshows : Shows r text text') :
    text' = text.dropLast := by
  cases hshows with
  | released h => simp [hdown] at h
  | excluded h => simp [hhandler] at h
  | cleared _ h => simp [hhandler] at h
  | character _ h hkey =>
      rw [hhandler] at h
      cases h
      simp [Cell.key, hclass] at hkey
  | backspace => rfl
  | other _ h hother =>
      rw [hhandler] at h
      cases h
      simp [hclass] at hother

theorem shows_excluded (hhandler : defaultHandler r = .excluded) (hshows : Shows r text text') :
    text' = text := by
  cases hshows with
  | released => rfl
  | excluded => rfl
  | cleared _ h => simp [hhandler] at h
  | character _ h => simp [hhandler] at h
  | backspace _ h => simp [hhandler] at h
  | other _ h => simp [hhandler] at h

theorem shows_released (hup : r.pressed = false) (hshows : Shows r text text') : text' = text := by
  cases hshows with
  | released => rfl
  | excluded => rfl
  | cleared hdown => simp [hup] at hdown
  | character hdown => simp [hup] at hdown
  | backspace hdown => simp [hup] at hdown
  | other hdown => simp [hup] at hdown

theorem event_accepted {keycode : Nat} {mods : BitVec 8} (hdict : Dictionary autocorrections h)
    (hkeeps : Keeps h s text) (hswitch : ¬isSwitch r) (hon : s.enabled = true)
    (hdown : r.pressed = true) (hhandler : defaultHandler r = .accepted keycode mods)
    (htypes : Types h s text r text') : Event autocorrections h s text r text' := by
  have hprocess := process_pressed (h := h) hswitch hon hdown
  have htyped := typed_pressed (h := h) hswitch hon hdown
  rw [hhandler] at hprocess htyped
  dsimp only at hprocess htyped
  cases hclass : classify keycode mods with
  | key key =>
      rw [hclass] at hprocess htyped
      exact event_key hdict hkeeps.length_le hkeeps.follows hdown hhandler (by rw [Cell.key, hclass])
        hprocess htyped htypes
  | enter =>
      rw [hclass] at hprocess htyped
      exact event_key hdict (Nat.zero_le _) (.nil text) hdown hhandler (by rw [Cell.key, hclass])
        hprocess htyped htypes
  | backspace =>
      rw [hclass] at hprocess htyped
      refine .quiet ?_ (by rw [hprocess]) htyped
      unfold Types at htypes
      rw [hprocess] at htypes ⊢
      rw [shows_backspace hdown hhandler hclass htypes]
      refine ⟨hkeeps.follows.dropLast, ?_⟩
      have hle := hkeeps.length_le
      change s.typoBuffer.dropLast.length ≤ _
      rw [List.length_dropLast]
      omega
  | other =>
      rw [hclass] at hprocess htyped
      refine .quiet ?_ (by rw [hprocess]) htyped
      rw [hprocess]
      exact .emptied _ _

/-- Each event of a run. -/
theorem event (hdict : Dictionary autocorrections h) (hkeeps : Keeps h s text)
    (htypes : Types h s text r text') : Event autocorrections h s text r text' := by
  by_cases hswitch : isSwitch r ∧ r.pressed = true
  · have htyped : typed h s r = none := if_neg fun heq => heq.2.2 hswitch.1
    obtain ⟨enabled, typoBuffer, hprocess, hbuffer⟩ := process_switch (h := h) (s := s) hswitch.1 hswitch.2
    refine .quiet ?_ (by rw [hprocess]) htyped
    unfold Types at htypes
    rw [hprocess] at htypes ⊢
    obtain rfl : text' = text := htypes
    rcases hbuffer with rfl | rfl
    · exact ⟨hkeeps.follows, hkeeps.length_le⟩
    · exact .emptied _ _
  · cases hon : s.enabled with
    | false =>
        have hprocess := process_disabled (h := h) hswitch hon
        refine .quiet ?_ (by rw [hprocess]) (if_neg fun heq => by simp [hon] at heq)
        rw [hprocess]
        exact .emptied _ _
    | true =>
        cases hdown : r.pressed with
        | false =>
            have hprocess := process_released (h := h) hon hdown
            refine .quiet ?_ (by rw [hprocess]) (if_neg fun heq => by simp [hdown] at heq)
            unfold Types at htypes
            rw [hprocess] at htypes ⊢
            rw [shows_released hdown htypes]
            exact hkeeps
        | true =>
            have hkeycode : ¬isSwitch r := fun heq => hswitch ⟨heq, hdown⟩
            have hprocess := process_pressed (h := h) hkeycode hon hdown
            have htyped := typed_pressed (h := h) hkeycode hon hdown
            cases hhandler : defaultHandler r with
            | accepted keycode mods =>
                exact event_accepted hdict hkeeps hkeycode hon hdown hhandler htypes
            | excluded =>
                rw [hhandler] at hprocess htyped
                refine .quiet ?_ (by rw [hprocess]) htyped
                unfold Types at htypes
                rw [hprocess] at htypes ⊢
                rw [shows_excluded hhandler htypes]
                exact hkeeps
            | cleared =>
                rw [hhandler] at hprocess htyped
                refine .quiet ?_ (by rw [hprocess]) htyped
                rw [hprocess]
                exact .emptied _ _

theorem keeps_reachable (hdict : Dictionary autocorrections h) (hreach : Reachable h s text) :
    Keeps h s text := by
  induction hreach with
  | init enabled text => exact ⟨.initial text, hdict.maxLength_pos⟩
  | step _ htypes ih => exact (event hdict ih htypes).keeps

end Qmk.Autocorrect
