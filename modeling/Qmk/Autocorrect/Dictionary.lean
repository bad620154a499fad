import Qmk.Autocorrect.Table

/-!
# The firmware and the generator agree

The search of the data that is generated from a dictionary stops at the entry whose typo ends the
typo buffer.
-/

namespace Qmk.Autocorrect

open Qmk.Lib

/-! ## Dictionaries -/

/-- What the checks of `parse_file` leave. -/
structure Accepted (autocorrections : List Autocorrection) : Prop where
  nonempty : ∀ entry ∈ autocorrections, entry.typo ≠ []
  chars : ∀ entry ∈ autocorrections, ∀ c ∈ entry.typo, (typoChars c).isSome
  length_le : ∀ entry ∈ autocorrections, entry.typo.length ≤ 127
  apart : autocorrections.Pairwise fun entry other =>
    ¬entry.typo <:+: other.typo ∧ ¬other.typo <:+: entry.typo

variable {autocorrections : List Autocorrection} {line entry : Autocorrection}

theorem Accepted.append (h : Accepted autocorrections) (hline : acceptable autocorrections line) :
    Accepted (autocorrections ++ [line]) := by
  simp only [acceptable, Bool.and_eq_true, decide_eq_true_eq, List.all_eq_true, Bool.not_eq_true',
    decide_eq_false_iff_not] at hline
  obtain ⟨⟨⟨hne, hchars⟩, hapart⟩, hlength⟩ := hline
  have hall {P : Autocorrection → Prop} (hold : ∀ entry ∈ autocorrections, P entry) (hnew : P line) :
      ∀ entry ∈ autocorrections ++ [line], P entry := by
    intro entry hentry
    rcases List.mem_append.mp hentry with hentry | hentry
    · exact hold entry hentry
    · rw [List.mem_singleton.mp hentry]
      exact hnew
  refine ⟨hall h.nonempty hne, hall h.chars hchars, hall h.length_le hlength, ?_⟩
  rw [List.pairwise_append]
  refine ⟨h.apart, List.pairwise_singleton _ _, fun other hother new hnew => ?_⟩
  rw [List.mem_singleton.mp hnew]
  exact (hapart other hother).symm

theorem parseFile_accepted {before lines : List Autocorrection} (hbefore : Accepted before)
    (h : parseFile before lines = some autocorrections) : Accepted autocorrections := by
  induction lines generalizing before with
  | nil =>
      cases h
      exact hbefore
  | cons line lines ih =>
      rw [parseFile] at h
      split at h
      · exact ih hbefore h
      · split at h
        · next hline => exact ih (hbefore.append hline) h
        · cases h

theorem accepted_nil : Accepted [] :=
  ⟨fun _ h => absurd h List.not_mem_nil, fun _ h => absurd h List.not_mem_nil,
    fun _ h => absurd h List.not_mem_nil, .nil⟩

theorem Accepted.prefixFree (h : Accepted autocorrections) :
    Trie.PrefixFree (autocorrections.map fun entry => (entry.typo.reverse, entry)) := by
  rw [Trie.PrefixFree, List.pairwise_map]
  refine h.apart.imp fun hne => ?_
  exact ⟨fun hpre => hne.1 (List.reverse_prefix.mp hpre).isInfix,
    fun hpre => hne.2 (List.reverse_prefix.mp hpre).isInfix⟩

/-! ## The search -/

variable {data typoBuffer : List Nat} {word : List Char}

theorem find_makeTrie (h : Accepted autocorrections) (word : List Char) :
    Trie.find word.reverse (makeTrie autocorrections) =
      autocorrections.find? fun entry => entry.typo.isSuffixOf word := by
  rw [makeTrie, (Trie.has_ofList h.prefixFree).find h.prefixFree, List.find?_map, Option.map_map]
  exact Option.map_id'

theorem value_makeTrie (h : Accepted autocorrections) : (makeTrie autocorrections).value = none := by
  cases hvalue : (makeTrie autocorrections).value with
  | none => rfl
  | some entry =>
      have hmem := ((Trie.has_ofList h.prefixFree).lookup [] entry).mp hvalue
      obtain ⟨other, hother, heq⟩ := List.mem_map.mp hmem
      have hreverse := (Prod.mk.inj heq).1
      exact absurd (List.reverse_eq_nil_iff.mp hreverse) (h.nonempty other hother)

theorem serializeTrie_empty : serializeTrie .empty = none := rfl

theorem generate_some (h : generate autocorrections = some data) :
    makeTrie autocorrections ≠ .empty ∧ data.length ≤ 65535 ∧
      ∃ offset, offset 0 = 0 ∧
        Serialized (traverse (makeTrie autocorrections) [] 0) offset data := by
  unfold generate at h
  have hne : makeTrie autocorrections ≠ .empty := by
    intro hempty
    rw [hempty, serializeTrie_empty] at h
    cases h
  simp only [serializeTrie, Option.bind_eq_bind, Option.bind_eq_some_iff] at h
  obtain ⟨sizes, hsizes, h⟩ := h
  split at h
  · next hsmall =>
      obtain ⟨blocks, hblocks, h⟩ := Option.bind_eq_some_iff.mp h
      cases h
      refine ⟨hne, ?_, offsetOf sizes, rfl, serialized hsizes hblocks⟩
      rw [List.length_flatten, ← lengths_blocks hsizes hblocks]
      exact hsmall
  · cases h

/-- The search of generated data follows the dictionary. -/
theorem agrees_generated (h : Accepted autocorrections)
    (hgenerate : generate autocorrections = some data) (hspells : Spells word typoBuffer) :
    Agrees data (search data typoBuffer)
      (autocorrections.find? fun entry => entry.typo.isSuffixOf word) := by
  obtain ⟨hne, hsmall, offset, hzero, hser⟩ := generate_some hgenerate
  have hproper := (Trie.has_ofList h.prefixFree).proper.resolve_right hne
  have hlaid := laid_traverse hser hproper [] 0 List.prefix_rfl
  rw [hzero] at hlaid
  obtain ⟨code, hcode, -⟩ := hlaid.first
  rw [← find_makeTrie h, search]
  change data[0]? = some code at hcode
  rw [hcode]
  exact searchFrom_laid hsmall hlaid hproper (value_makeTrie h) hcode
    (List.forall₂_reverse_iff.mpr hspells)

/-! ## What is found -/

/-- The keycodes of the typo. -/
def Autocorrection.keys (entry : Autocorrection) : List Nat := entry.typo.filterMap typoChars

def backspacesAt (data : List Nat) (state : Nat) : Nat := data.getD state 0 &&& 63

/-- The string behind the byte of a leaf. -/
def changesAt (data : List Nat) (state : Nat) : List Nat :=
  (data.drop (state + 1)).takeWhile (· ≠ 0)

theorem Marks.backspacesAt {state : Nat} (h : Marks data state entry) :
    (backspacesAt data state : Int) = entry.backspaces ∧ entry.backspaces ≤ 63 := by
  obtain ⟨bytes, hbytes, hplace⟩ := h
  unfold leafData at hbytes
  split at hbytes
  · next hsmall =>
      cases hbytes
      obtain ⟨hnonneg, hle, -⟩ := hsmall
      have hfirst : data[state]? = some (entry.backspaces.toNat + 128) :=
        hplace.getElem? (i := 0) rfl
      have hmask := (flags entry.backspaces.toNat (by omega)).2.2.2.2.2.2
      refine ⟨?_, hle⟩
      rw [Autocorrect.backspacesAt, List.getD_eq_getElem?_getD, hfirst, Option.getD_some, hmask,
        Int.toNat_of_nonneg hnonneg]
  · cases hbytes

theorem Marks.changesAt {state : Nat} (h : Marks data state entry)
    (hnul : Char.ofNat 0 ∉ entry.correction) :
    changesAt data state = entry.changes.map Char.toNat := by
  obtain ⟨bytes, hbytes, rest, hrest⟩ := h
  unfold leafData at hbytes
  split at hbytes
  · cases hbytes
    have hbehind : data.drop (state + 1) = entry.changes.map Char.toNat ++ (0 :: rest) := by
      rw [← List.drop_drop, ← hrest]
      simp
    have hpos : ∀ b ∈ entry.changes.map Char.toNat, decide (b ≠ 0) = true := by
      intro b hb
      obtain ⟨c, hc, rfl⟩ := List.mem_map.mp hb
      apply decide_eq_true
      intro hzero
      have hmem := List.mem_of_mem_drop hc
      rw [← Char.ofNat_toNat c, hzero] at hmem
      exact hnul hmem
    rw [Autocorrect.changesAt, hbehind, List.takeWhile_append_of_pos hpos]
    simp
  · cases hbytes

theorem Spells.eq_filterMap {keys : List Nat} (h : Spells word keys) :
    keys = word.filterMap typoChars := by
  induction h with
  | nil => rfl
  | cons hkey _ ih => rw [List.filterMap_cons_some hkey, ← ih]

/-- A keycode that the typo buffer may have: a letter, a word break or an apostrophe. -/
def IsKey (key : Nat) : Prop := 4 ≤ key ∧ key ≤ 29 ∨ key = kcSpc ∨ key = kcQuot

instance : DecidablePred IsKey := fun _ => inferInstanceAs (Decidable (_ ∨ _))

theorem exists_typoChars {key : Nat} (h : IsKey key) : ∃ c, typoChars c = some key := by
  rcases h with ⟨hge, hle⟩ | rfl | rfl
  · have hletters : ∀ key < 30, 4 ≤ key → typoChars (Char.ofNat (key + 93)) = some key := by decide
    exact ⟨_, hletters key (by omega) hge⟩
  · exact ⟨':', rfl⟩
  · exact ⟨'\'', rfl⟩

theorem exists_spells (h : ∀ key ∈ typoBuffer, IsKey key) : ∃ word, Spells word typoBuffer := by
  induction typoBuffer with
  | nil => exact ⟨[], .nil⟩
  | cons key keys ih =>
      obtain ⟨c, hc⟩ := exists_typoChars (h key List.mem_cons_self)
      obtain ⟨word, hword⟩ := ih fun other hother => h other (List.mem_cons_of_mem _ hother)
      exact ⟨c :: word, .cons hc hword⟩

theorem Accepted.spells_keys (h : Accepted autocorrections) (hentry : entry ∈ autocorrections) :
    Spells entry.typo entry.keys := by
  have hchars := h.chars entry hentry
  unfold Autocorrection.keys
  generalize entry.typo = typo at hchars
  induction typo with
  | nil => exact .nil
  | cons c typo ih =>
      obtain ⟨code, hcode⟩ := Option.isSome_iff_exists.mp (hchars c List.mem_cons_self)
      rw [List.filterMap_cons_some hcode]
      exact .cons hcode (ih fun other hother => hchars other (List.mem_cons_of_mem _ hother))

/-- The keycodes of a typo end the buffer where the typo ends what the buffer spells. -/
theorem keys_suffix (h : Accepted autocorrections) (hentry : entry ∈ autocorrections)
    (hspells : Spells word typoBuffer) : entry.keys <:+ typoBuffer ↔ entry.typo <:+ word := by
  have hkeys := h.spells_keys hentry
  constructor
  · rintro ⟨before, rfl⟩
    have hbehind := List.forall₂_drop before.length hspells
    rw [List.drop_left] at hbehind
    have hunique : Relator.LeftUnique fun c key => typoChars c = some key := fun _ _ _ hc hother =>
      typoChars_inj hc hother
    have hsame := List.left_unique_forall₂' hunique hkeys hbehind
    rw [hsame]
    exact List.drop_suffix _ _
  · rintro ⟨before, rfl⟩
    rw [hspells.eq_filterMap, List.filterMap_append]
    exact List.suffix_append _ _

/-- The search finds the entry whose typo ends the typo buffer; it never reads beyond the data. -/
theorem search_found (h : Accepted autocorrections) (hgenerate : generate autocorrections = some data)
    (hkeys : ∀ key ∈ typoBuffer, IsKey key) :
    (∃ state, ∃ entry ∈ autocorrections, search data typoBuffer = .typo state ∧
        entry.keys <:+ typoBuffer ∧ Marks data state entry) ∨
      search data typoBuffer = .missed ∧ ∀ entry ∈ autocorrections, ¬entry.keys <:+ typoBuffer := by
  obtain ⟨word, hspells⟩ := exists_spells hkeys
  have hagrees := agrees_generated h hgenerate hspells
  cases hfound : autocorrections.find? fun entry => entry.typo.isSuffixOf word with
  | none =>
      rw [hfound] at hagrees
      refine .inr ⟨?_, fun entry hentry hsuffix => ?_⟩
      · cases hsearch : search data typoBuffer with
        | typo state => exact (hsearch ▸ hagrees : Agrees data (.typo state) none).elim
        | missed => rfl
        | outside => exact (hsearch ▸ hagrees : Agrees data .outside none).elim
      · have hnot := List.find?_eq_none.mp hfound entry hentry
        exact hnot (List.isSuffixOf_iff_suffix.mpr ((keys_suffix h hentry hspells).mp hsuffix))
  | some entry =>
      rw [hfound] at hagrees
      have hentry := List.mem_of_find?_eq_some hfound
      have hsuffix := List.isSuffixOf_iff_suffix.mp
        (List.find?_some (p := fun entry : Autocorrection => entry.typo.isSuffixOf word) hfound)
      cases hsearch : search data typoBuffer with
      | typo state =>
          exact .inl ⟨state, entry, hentry, rfl, (keys_suffix h hentry hspells).mpr hsuffix,
            (hsearch ▸ hagrees : Agrees data (.typo state) (some entry))⟩
      | missed => exact (hsearch ▸ hagrees : Agrees data .missed (some entry)).elim
      | outside => exact (hsearch ▸ hagrees : Agrees data .outside (some entry)).elim

/-- The search of the data that is generated from a dictionary stops exactly where a typo ends the
typo buffer, and reads the backspaces and the changes of this typo there. -/
theorem search_generated {lines : List Autocorrection}
    (hparse : parseFile [] lines = some autocorrections)
    (hgenerate : generate autocorrections = some data)
    (hnul : ∀ entry ∈ autocorrections, Char.ofNat 0 ∉ entry.correction)
    (hkeys : ∀ key ∈ typoBuffer, IsKey key) :
    (∃ state, ∃ entry ∈ autocorrections, search data typoBuffer = .typo state ∧
        entry.keys <:+ typoBuffer ∧ (backspacesAt data state : Int) = entry.backspaces ∧
        changesAt data state = entry.changes.map Char.toNat) ∨
      search data typoBuffer = .missed ∧ ∀ entry ∈ autocorrections, ¬entry.keys <:+ typoBuffer := by
  rcases search_found (parseFile_accepted accepted_nil hparse) hgenerate hkeys with
    ⟨state, entry, hentry, hsearch, hsuffix, hmarks⟩ | hmissed
  · exact .inl ⟨state, entry, hentry, hsearch, hsuffix, hmarks.backspacesAt.1,
      hmarks.changesAt (hnul entry hentry)⟩
  · exact .inr hmissed

/-- The typo `:ba`, with a chain below a branch, behind another word. -/
theorem twoTypos_generated :
    let autocorrections : List Autocorrection :=
      [⟨[':', 'b', 'a'], ['a', 'b']⟩, ⟨['c', 'a'], ['c', 'e']⟩]
    let data := [4, 0, 69, 9, 0, 6, 15, 0, 0, 44, 0, 129, 97, 98, 0, 128, 101, 0]
    let typoBuffer := [4, 44, 5, 4]
    (∃ state, ∃ entry ∈ autocorrections, search data typoBuffer = .typo state ∧
        entry.keys <:+ typoBuffer ∧ (backspacesAt data state : Int) = entry.backspaces ∧
        changesAt data state = entry.changes.map Char.toNat) ∨
      search data typoBuffer = .missed ∧ ∀ entry ∈ autocorrections, ¬entry.keys <:+ typoBuffer :=
  search_generated (by decide : parseFile [] [⟨[':', 'b', 'a'], ['a', 'b']⟩, ⟨['c', 'a'], ['c', 'e']⟩] = _)
    (by decide) (by decide) (by decide)

end Qmk.Autocorrect
