import Mathlib.Data.List.Forall2
import Qmk.Autocorrect.Search

/-!
# The search finds what is in the trie

`Laid data state node` says that the bytes from `state` on are those of a node, with its children
where the bytes say. The search of such data follows the trie.
-/

namespace Qmk.Autocorrect

open Qmk.Lib

variable {data : List Nat} {state : Nat}

/-! ## Codes -/

theorem typoChars_cases {c : Char} {code : Nat} (h : typoChars c = some code) :
    c = '\'' ∧ code = 52 ∨ c = ':' ∧ code = 44 ∨
      97 ≤ c.toNat ∧ c.toNat ≤ 122 ∧ code = c.toNat - 93 := by
  unfold typoChars at h
  split at h
  · next hquote => exact .inl ⟨hquote, (Option.some.inj h).symm⟩
  · split at h
    · next hbreak => exact .inr (.inl ⟨hbreak, (Option.some.inj h).symm⟩)
    · split at h
      · next hletter =>
          have hcode : c.toNat + 4 - 97 = code := Option.some.inj h
          have hge : 97 ≤ c.toNat := hletter.1
          exact .inr (.inr ⟨hge, hletter.2, by omega⟩)
      · cases h

theorem typoChars_range {c : Char} {code : Nat} (h : typoChars c = some code) :
    0 < code ∧ code < 64 := by
  rcases typoChars_cases h with ⟨-, rfl⟩ | ⟨-, rfl⟩ | ⟨hge, hle, rfl⟩
  · decide
  · decide
  · omega

theorem typoChars_inj {c other : Char} {code : Nat} (h : typoChars c = some code)
    (hother : typoChars other = some code) : c = other := by
  rcases typoChars_cases h with ⟨hc, hcode⟩ | ⟨hc, hcode⟩ | ⟨hge, hle, hcode⟩ <;>
    rcases typoChars_cases hother with ⟨ho, hcode'⟩ | ⟨ho, hcode'⟩ | ⟨hge', hle', hcode'⟩
  · rw [hc, ho]
  · omega
  · omega
  · omega
  · rw [hc, ho]
  · omega
  · omega
  · omega
  · exact Char.toNat_inj.mp (by omega)

/-- The keycodes of the characters. -/
abbrev Spells (word : List Char) (keys : List Nat) : Prop :=
  List.Forall₂ (fun c key => typoChars c = some key) word keys

theorem flags : ∀ code < 64, (code ||| 64) &&& 64 ≠ 0 ∧ (code ||| 64) &&& 63 = code ∧
    (code ||| 64) &&& 128 = 0 ∧ code &&& 64 = 0 ∧ code &&& 128 = 0 ∧
    (code + 128) &&& 128 ≠ 0 ∧ (code + 128) &&& 63 = code := by decide

theorem low_or_high (offset : Nat) : (offset &&& 255) ||| (offset >>> 8) <<< 8 = offset := by
  apply Nat.eq_of_testBit_eq
  intro i
  rw [Nat.testBit_or, Nat.testBit_and, Nat.testBit_shiftLeft, Nat.testBit_shiftRight]
  by_cases hi : i < 8
  · have hmask := (by decide : ∀ i < 8, Nat.testBit 255 i = true) i hi
    simp [hmask, Nat.not_le.mpr hi]
  · have hle : 8 ≤ i := Nat.not_lt.mp hi
    have hsmall : 255 < 2 ^ i :=
      Nat.lt_of_lt_of_le (by decide : 255 < 2 ^ 8) (Nat.pow_le_pow_right (by decide) hle)
    have hindex : 8 + (i - 8) = i := by omega
    simp [Nat.testBit_lt_two_pow hsmall, hle, hindex]

/-! ## Places -/

/-- The part stands in the list from a place on. -/
def At {α : Type} (whole : List α) (place : Nat) (part : List α) : Prop :=
  part <+: whole.drop place

section

variable {α : Type} {whole part : List α} {place : Nat}

theorem At.getElem? {i : Nat} {x : α} (h : At whole place part) (hx : part[i]? = some x) :
    whole[place + i]? = some x := by
  obtain ⟨rest, hrest⟩ := h
  obtain ⟨hlt, -⟩ := List.getElem?_eq_some_iff.mp hx
  rw [← List.getElem?_drop, ← hrest, List.getElem?_append_left hlt, hx]

theorem At.right (first : List α) {rest : List α} (h : At whole place (first ++ rest)) :
    At whole (place + first.length) rest := by
  obtain ⟨behind, hbehind⟩ := h
  refine ⟨behind, ?_⟩
  rw [← List.drop_drop, ← hbehind, List.append_assoc, List.drop_left]

theorem At.left {first rest : List α} (h : At whole place (first ++ rest)) :
    At whole place first := (List.prefix_append first rest).trans h

theorem At.length_le (h : At whole place part) (hne : part ≠ []) :
    place + part.length ≤ whole.length := by
  have hlength := List.IsPrefix.length_le h
  have hpos := List.length_pos_iff.mpr hne
  rw [List.length_drop] at hlength
  omega

end

/-- The bytes at a place are those of a leaf. -/
def Marks (data : List Nat) (state : Nat) (entry : Autocorrection) : Prop :=
  ∃ bytes, leafData entry = some bytes ∧ At data state bytes

inductive Laid (data : List Nat) : Nat → Node → Prop
  | leaf {state : Nat} {node : Node} {entry : Autocorrection} (value : node.value = some entry)
      (marks : Marks data state entry) : Laid data state node
  | single {state next code : Nat} {node child : Node} {c : Char} (value : node.value = none)
      (items : node.items = [(c, child)]) (here : typoChars c = some code)
      (place : data[state]? = some code)
      (step : (data[state + 1]? = some 0 ∧ next = state + 2) ∨
        ∃ b, b ≠ 0 ∧ data[state + 1]? = some b ∧ next = state + 1)
      (below : Laid data next child) : Laid data state node
  | branch {state : Nat} {node : Node} {kids : List (Char × Node)} {links : List (Nat × Nat)}
      (value : node.value = none) (perm : kids.Perm node.items) (nonempty : kids ≠ [])
      (length : kids.length = links.length)
      (codes : ∀ pair ∈ kids.zip links, typoChars pair.1.1 = some pair.2.1)
      (place : At data state (branchBytes links))
      (below : ∀ pair ∈ kids.zip links, Laid data pair.2.2 pair.1.2) : Laid data state node

/-! ## The children of a branch -/

theorem length_flatMap_linkBytes (links : List (Nat × Nat)) :
    (links.flatMap linkBytes).length = 3 * links.length := by
  induction links with
  | nil => rfl
  | cons link links ih =>
      rw [List.flatMap_cons, List.length_append, ih, List.length_cons]
      change 3 + _ = _
      omega

theorem scan_links {key code offset fuel : Nat} {links : List (Nat × Nat)}
    (hsmall : data.length ≤ 65535) (hkey : 0 < key)
    (hplace : At data (state + 1) (encodeLink offset ++ (links.flatMap linkBytes ++ [0])))
    (hcodes : ∀ link ∈ (code, offset) :: links, 0 < link.1) (hfuel : links.length + 2 ≤ fuel) :
    (∃ stop found, (key, found) ∈ (code, offset) :: links ∧
        scan data key fuel code state = some (some stop) ∧
        At data (stop + 1) (encodeLink found)) ∨
      (∀ link ∈ (code, offset) :: links, link.1 ≠ key) ∧
        scan data key fuel code state = some none := by
  induction links generalizing code offset fuel state with
  | nil =>
      obtain ⟨fuel, rfl⟩ : ∃ rest, fuel = rest + 2 := ⟨fuel - 2, by simp at hfuel; omega⟩
      by_cases hcode : code = key
      · subst hcode
        exact .inl ⟨state, offset, List.mem_cons_self, if_pos rfl, hplace.left⟩
      · have hend : data[state + 3]? = some 0 := hplace.getElem? (i := 2) rfl
        have hlt := (List.getElem?_eq_some_iff.mp hend).1
        have hpos := hcodes _ List.mem_cons_self
        refine .inr ⟨by simpa using hcode, ?_⟩
        rw [scan, if_neg hcode, if_neg (Nat.ne_of_gt hpos), Nat.mod_eq_of_lt (by omega), hend]
        dsimp only
        rw [scan, if_neg (Nat.ne_of_lt hkey), if_pos rfl]
  | cons link links ih =>
      obtain ⟨fuel, rfl⟩ : ∃ rest, fuel = rest + 1 := ⟨fuel - 1, by omega⟩
      by_cases hcode : code = key
      · subst hcode
        exact .inl ⟨state, offset, List.mem_cons_self, if_pos rfl, hplace.left⟩
      · have hnext : At data (state + 3) (linkBytes link ++ (links.flatMap linkBytes ++ [0])) := by
          have hright := hplace.right (encodeLink offset)
          rw [List.flatMap_cons, List.append_assoc] at hright
          exact hright
        have hfirst : data[state + 3]? = some link.1 := hnext.getElem? (i := 0) rfl
        have hlt := (List.getElem?_eq_some_iff.mp hfirst).1
        have hpos := hcodes _ List.mem_cons_self
        rw [scan, if_neg hcode, if_neg (Nat.ne_of_gt hpos), Nat.mod_eq_of_lt (by omega), hfirst]
        have hrest := ih (hnext.right [link.1])
          (fun other (hother : other ∈ (link.1, link.2) :: links) =>
            hcodes other (List.mem_cons_of_mem _ hother))
          (by simp at hfuel; omega : links.length + 2 ≤ fuel)
        rcases hrest with ⟨stop, found, hmem, hscan⟩ | ⟨hnone, hscan⟩
        · exact .inl ⟨stop, found, List.mem_cons_of_mem _ hmem, hscan⟩
        · refine .inr ⟨?_, hscan⟩
          rintro other (_ | ⟨_, hother⟩)
          · exact hcode
          · exact hnone other hother

/-- The search goes to the child of a key, and stops where there is none. -/
theorem follow_branch {key code : Nat} {links : List (Nat × Nat)} (hsmall : data.length ≤ 65535)
    (hkey : 0 < key) (hplace : At data state (branchBytes links)) (hne : links ≠ [])
    (hcodes : ∀ link ∈ links, 0 < link.1 ∧ link.1 < 64) (hcode : data[state]? = some code) :
    (∃ found, (key, found) ∈ links ∧ follow data key state code = some (some found)) ∨
      (∀ link ∈ links, link.1 ≠ key) ∧ follow data key state code = some none := by
  match links, hne with
  | (first, offset) :: links, _ =>
      have hfirst := hcodes _ List.mem_cons_self
      obtain ⟨hflag, hmask, -⟩ := flags first hfirst.2
      have hat : data[state]? = some (first ||| 64) := hplace.getElem? (i := 0) rfl
      obtain rfl : first ||| 64 = code := Option.some.inj (hat.symm.trans hcode)
      have hrest := hplace.right [first ||| 64]
      have hlength := hplace.length_le (List.cons_ne_nil _ _)
      have hfuel : links.length + 2 ≤ data.length := by
        change _ + (_ + 1) ≤ _ at hlength
        rw [List.length_append, List.length_append, length_flatMap_linkBytes] at hlength
        change _ + (2 + (_ + 1) + 1) ≤ _ at hlength
        omega
      have hscan := scan_links hsmall hkey hrest (fun link hlink => (hcodes link hlink).1) hfuel
      unfold follow
      rw [if_pos hflag, hmask]
      rcases hscan with ⟨stop, found, hmem, hscan, hlink⟩ | ⟨hnone, hscan⟩
      · refine .inl ⟨found, hmem, ?_⟩
        have hlow : data[stop + 1]? = some (found &&& 255) := hlink.getElem? (i := 0) rfl
        have hhigh : data[stop + 2]? = some (found >>> 8) := hlink.getElem? (i := 1) rfl
        rw [hscan]
        dsimp only
        rw [hlow, hhigh]
        dsimp only
        rw [low_or_high]
      · refine .inr ⟨hnone, ?_⟩
        rw [hscan]

theorem exists_zip_of_mem_left {α β : Type} {kids : List α} {links : List β}
    (hlength : kids.length = links.length) {kid : α} (h : kid ∈ kids) :
    ∃ link, (kid, link) ∈ kids.zip links := by
  rw [← List.map_fst_zip (Nat.le_of_eq hlength)] at h
  obtain ⟨⟨kid, link⟩, hpair, rfl⟩ := List.mem_map.mp h
  exact ⟨link, hpair⟩

theorem exists_zip_of_mem_right {α β : Type} {kids : List α} {links : List β}
    (hlength : kids.length = links.length) {link : β} (h : link ∈ links) :
    ∃ kid, (kid, link) ∈ kids.zip links := by
  rw [← List.map_snd_zip (Nat.le_of_eq hlength.symm)] at h
  obtain ⟨⟨kid, link⟩, hpair, rfl⟩ := List.mem_map.mp h
  exact ⟨kid, hpair⟩

/-! ## The search -/

/-- The search stops at the leaf of an entry, or misses where there is none. -/
def Agrees (data : List Nat) : Search → Option Autocorrection → Prop
  | .typo state, some entry => Marks data state entry
  | .missed, none => True
  | _, _ => False

theorem Laid.first {node : Node} (h : Laid data state node) :
    ∃ code, data[state]? = some code ∧ (code &&& 128 ≠ 0 ↔ node.value ≠ none) := by
  cases h with
  | @leaf _ _ entry value marks =>
      obtain ⟨bytes, hbytes, hplace⟩ := marks
      unfold leafData at hbytes
      split at hbytes
      · next hsmall =>
          cases hbytes
          obtain ⟨hnonneg, hle, -⟩ := hsmall
          have hlt : entry.backspaces.toNat < 64 := by omega
          refine ⟨_, hplace.getElem? (i := 0) rfl, ?_⟩
          simp [(flags _ hlt).2.2.2.2.2.1, value]
      · cases hbytes
  | single value items here place step below =>
      exact ⟨_, place, by simp [(flags _ (typoChars_range here).2).2.2.2.2.1, value]⟩
  | @branch _ _ kids links value perm nonempty length codes place below =>
      match kids, links, nonempty, length with
      | kid :: kids, (code, offset) :: links, _, _ =>
          have here := codes _ List.mem_cons_self
          refine ⟨_, place.getElem? (i := 0) rfl, ?_⟩
          simp [(flags _ (typoChars_range here).2).2.2.1, value]

theorem Laid.marks {node : Node} {entry : Autocorrection} (h : Laid data state node)
    (hvalue : node.value = some entry) : Marks data state entry := by
  cases h with
  | leaf value marks =>
      rw [hvalue] at value
      cases value
      exact marks
  | single value => simp [hvalue] at value
  | branch value => simp [hvalue] at value

/-- What the search does behind a step to a child. -/
theorem agrees_child {child : Node} {word : List Char} {keys : List Nat} (h : Laid data state child)
    (hrest : child.value = none → ∀ code, data[state]? = some code →
      Agrees data (searchFrom data state code keys) (Trie.find word child)) :
    Agrees data
      (match data[state]? with
        | none => .missed
        | some code => if code &&& 128 ≠ 0 then .typo state else searchFrom data state code keys)
      (Trie.find word child) := by
  obtain ⟨code, hcode, hflag⟩ := h.first
  rw [hcode]
  dsimp only
  cases hvalue : child.value with
  | none =>
      rw [if_neg (by simp [hflag, hvalue])]
      exact hrest hvalue code hcode
  | some entry =>
      have hfind : Trie.find word child = some entry := by
        cases word with
        | nil => exact hvalue
        | cons letter word => rw [Trie.find, hvalue]
      rw [if_pos (hflag.mpr (by simp [hvalue])), hfind]
      exact h.marks hvalue

theorem follow_single {key code : Nat} (hlt : code < 64) :
    follow data key state code =
      if code ≠ key then some none
      else
        match data[(state + 1) % 65536]? with
        | none => none
        | some 0 => some (some ((state + 2) % 65536))
        | some _ => some (some ((state + 1) % 65536)) := by
  unfold follow
  exact if_neg (not_not_intro (flags code hlt).2.2.2.1)

/-- A chain goes on with its next key, or ends. -/
theorem follow_key {next code : Nat} (hsmall : data.length ≤ 65535) (hlt : code < 64)
    (hstep : (data[state + 1]? = some 0 ∧ next = state + 2) ∨
      ∃ b, b ≠ 0 ∧ data[state + 1]? = some b ∧ next = state + 1) :
    follow data code state code = some (some next) := by
  rw [follow_single hlt, if_neg (not_not_intro rfl)]
  rcases hstep with ⟨hend, rfl⟩ | ⟨b, hb, hbyte, rfl⟩
  · have hinside := (List.getElem?_eq_some_iff.mp hend).1
    rw [Nat.mod_eq_of_lt (by omega : state + 1 < 65536), hend,
      Nat.mod_eq_of_lt (by omega : state + 2 < 65536)]
    rfl
  · have hinside := (List.getElem?_eq_some_iff.mp hbyte).1
    rw [Nat.mod_eq_of_lt (by omega : state + 1 < 65536), hbyte]
    obtain ⟨b, rfl⟩ := Nat.exists_eq_succ_of_ne_zero hb
    rfl

theorem searchFrom_laid {node : Node} {word : List Char} {keys : List Nat} {code : Nat}
    (hsmall : data.length ≤ 65535) (h : Laid data state node) (hproper : node.Proper)
    (hvalue : node.value = none) (hcode : data[state]? = some code) (hkeys : Spells word keys) :
    Agrees data (searchFrom data state code keys) (Trie.find word node) := by
  induction h generalizing word keys code with
  | leaf value => simp [hvalue] at value
  | @single state next first node child c value items here place step below ih =>
      obtain rfl : first = code := Option.some.inj (place.symm.trans hcode)
      cases hkeys with
      | nil =>
          rw [Trie.find, hvalue]
          trivial
      | @cons letter key word keys hletter hrest =>
          cases hproper with
          | leaf hsome => exact absurd hvalue hsome
          | node _ _ nodup children =>
              have hmem : (c, child) ∈ node.items := by
                rw [items]
                exact List.mem_singleton_self _
              rw [searchFrom, Trie.find, hvalue]
              by_cases hkey : first = key
              · subst hkey
                obtain rfl := typoChars_inj here hletter
                rw [follow_key hsmall (typoChars_range here).2 step, Trie.child_of_mem nodup hmem]
                exact agrees_child below fun hnone code hcode =>
                  ih (children _ hmem) hnone hcode hrest
              · have hmissing : letter ∉ node.letters := by
                  rw [Trie.letters, items]
                  rintro hsame
                  obtain rfl : letter = c := List.mem_singleton.mp hsame
                  exact hkey (Option.some.inj (here.symm.trans hletter))
                rw [follow_single (typoChars_range here).2, if_pos hkey,
                  Trie.child_of_not_mem hmissing]
                dsimp only
                rw [Trie.find_empty]
                trivial
  | @branch state node kids links value perm nonempty length codes place below ih =>
      cases hkeys with
      | nil =>
          rw [Trie.find, hvalue]
          trivial
      | @cons letter key word keys hletter hrest =>
          cases hproper with
          | leaf hsome => exact absurd hvalue hsome
          | node _ _ nodup children =>
              have hne : links ≠ [] := by
                rintro rfl
                exact nonempty (List.length_eq_zero_iff.mp length)
              have hcodes : ∀ link ∈ links, 0 < link.1 ∧ link.1 < 64 := by
                intro link hlink
                obtain ⟨kid, hpair⟩ := exists_zip_of_mem_right length hlink
                exact typoChars_range (codes _ hpair)
              have hfollow := follow_branch hsmall (typoChars_range hletter).1 place hne hcodes hcode
              rw [searchFrom, Trie.find, hvalue]
              rcases hfollow with ⟨found, hlink, hfollow⟩ | ⟨hnone, hfollow⟩
              · obtain ⟨⟨c, child⟩, hpair⟩ := exists_zip_of_mem_right length hlink
                obtain rfl := typoChars_inj (codes _ hpair) hletter
                have hmem := perm.mem_iff.mp (List.of_mem_zip hpair).1
                rw [hfollow, Trie.child_of_mem nodup hmem]
                exact agrees_child (below _ hpair) fun hnone code hcode =>
                  ih _ hpair (children _ hmem) hnone hcode hrest
              · have hmissing : letter ∉ node.letters := by
                  intro hmem
                  obtain ⟨⟨c, child⟩, hitem, rfl⟩ := List.mem_map.mp hmem
                  obtain ⟨link, hpair⟩ := exists_zip_of_mem_left length (perm.mem_iff.mpr hitem)
                  have hkey := Option.some.inj ((codes _ hpair).symm.trans hletter)
                  exact hnone link (List.of_mem_zip hpair).2 hkey
                rw [hfollow, Trie.child_of_not_mem hmissing]
                dsimp only
                rw [Trie.find_empty]
                trivial

end Qmk.Autocorrect
