import Mathlib.Data.List.Nodup

/-!
# Tries

A dictionary whose items are values and further dictionaries, in the order in which they came. A
key is looked up letter by letter, and `find` stops at the first value on the way.
-/

namespace Qmk.Lib

inductive Trie (α β : Type _)
  | empty
  | leaf (value : β) (rest : Trie α β)
  | item (letter : α) (child rest : Trie α β)

namespace Trie

variable {α β : Type _}

def value : Trie α β → Option β
  | empty => none
  | leaf value _ => some value
  | item _ _ rest => rest.value

def items : Trie α β → List (α × Trie α β)
  | empty => []
  | leaf _ rest => rest.items
  | item letter child rest => (letter, child) :: rest.items

def letters (t : Trie α β) : List α := t.items.map Prod.fst

def setLeaf (value : β) : Trie α β → Trie α β
  | empty => leaf value empty
  | leaf _ rest => leaf value rest
  | item letter child rest => item letter child (rest.setLeaf value)

variable [DecidableEq α]

/-- A letter that is missing has an empty child. -/
def child (letter : α) : Trie α β → Trie α β
  | empty => empty
  | leaf _ rest => rest.child letter
  | item other child rest => if other = letter then child else rest.child letter

def update (letter : α) (f : Trie α β → Trie α β) : Trie α β → Trie α β
  | empty => item letter (f empty) empty
  | leaf value rest => leaf value (rest.update letter f)
  | item other child rest =>
      if other = letter then item other (f child) rest
      else item other child (rest.update letter f)

def insert (value : β) : List α → Trie α β → Trie α β
  | [] => setLeaf value
  | letter :: key => update letter (insert value key)

def ofList (entries : List (List α × β)) : Trie α β :=
  entries.foldl (fun t entry => t.insert entry.2 entry.1) empty

def lookup : List α → Trie α β → Option β
  | [], t => t.value
  | letter :: key, t => lookup key (t.child letter)

/-- The first value on the way of a key. -/
def find : List α → Trie α β → Option β
  | [], t => t.value
  | letter :: key, t =>
      match t.value with
      | some value => some value
      | none => find key (t.child letter)

variable {t : Trie α β} {letter other : α} {key : List α} {value : β} {f : Trie α β → Trie α β}

/-! ## Items -/

omit [DecidableEq α] in
@[simp] theorem value_setLeaf (value : β) (t : Trie α β) : (t.setLeaf value).value = some value := by
  induction t with
  | empty => rfl
  | leaf _ _ _ => rfl
  | item _ _ _ _ ih => exact ih

@[simp] theorem child_setLeaf (letter : α) (value : β) (t : Trie α β) :
    (t.setLeaf value).child letter = t.child letter := by
  induction t with
  | empty => rfl
  | leaf _ _ _ => rfl
  | item other child rest _ ih =>
      change (if other = letter then child else (rest.setLeaf value).child letter) = _
      rw [ih]
      rfl

@[simp] theorem value_update (letter : α) (f : Trie α β → Trie α β) (t : Trie α β) :
    (t.update letter f).value = t.value := by
  induction t with
  | empty => rfl
  | leaf _ _ _ => rfl
  | item other child rest _ ih =>
      unfold update
      split
      · rfl
      · exact ih

theorem child_update (letter other : α) (f : Trie α β → Trie α β) (t : Trie α β) :
    (t.update letter f).child other =
      if letter = other then f (t.child letter) else t.child other := by
  induction t with
  | empty => rfl
  | leaf value rest ih => exact ih
  | item first child rest _ ih =>
      unfold update
      by_cases hfirst : first = letter
      · subst hfirst
        rw [if_pos rfl]
        by_cases hother : first = other
        · simp [Trie.child, hother]
        · simp [Trie.child, hother]
      · rw [if_neg hfirst]
        by_cases hother : first = other
        · subst hother
          simp [Trie.child, Ne.symm hfirst]
        · simp [Trie.child, hother, hfirst, ih]

theorem child_of_not_mem (h : letter ∉ t.letters) : t.child letter = empty := by
  induction t with
  | empty => rfl
  | leaf _ rest ih => exact ih h
  | item other child rest _ ih =>
      obtain ⟨hother, hrest⟩ := List.ne_and_not_mem_of_not_mem_cons h
      rw [Trie.child, if_neg hother.symm]
      exact ih hrest

theorem mem_items_child (h : letter ∈ t.letters) : (letter, t.child letter) ∈ t.items := by
  induction t with
  | empty => cases h
  | leaf _ rest ih => exact ih h
  | item other child rest _ ih =>
      by_cases hother : other = letter
      · subst hother
        rw [Trie.child, if_pos rfl]
        exact List.mem_cons_self
      · rw [Trie.child, if_neg hother]
        rcases List.mem_cons.mp h with heq | hrest
        · exact absurd heq.symm hother
        · exact List.mem_cons_of_mem _ (ih hrest)

theorem child_of_mem {child : Trie α β} (hnodup : t.letters.Nodup) (h : (letter, child) ∈ t.items) :
    t.child letter = child := by
  induction t with
  | empty => cases h
  | leaf _ rest ih => exact ih hnodup h
  | item other first rest _ ih =>
      obtain ⟨hfresh, hnodup⟩ := List.nodup_cons.mp hnodup
      rcases List.mem_cons.mp h with heq | hrest
      · cases heq
        exact if_pos rfl
      · have hne : other ≠ letter := by
          rintro rfl
          exact hfresh (List.mem_map.mpr ⟨_, hrest, rfl⟩)
        rw [Trie.child, if_neg hne]
        exact ih hnodup hrest

theorem mem_items_update {item : α × Trie α β} (h : item ∈ (t.update letter f).items) :
    item = (letter, f (t.child letter)) ∨ item ∈ t.items := by
  induction t with
  | empty => exact .inl (List.mem_singleton.mp h)
  | leaf _ rest ih => exact ih h
  | item other child rest _ ih =>
      unfold update at h
      unfold Trie.child
      by_cases hother : other = letter
      · rw [if_pos hother] at h ⊢
        rcases List.mem_cons.mp h with heq | hrest
        · rw [heq, hother]
          exact .inl rfl
        · exact .inr (List.mem_cons_of_mem _ hrest)
      · rw [if_neg hother] at h ⊢
        rcases List.mem_cons.mp h with heq | hrest
        · rw [heq]
          exact .inr List.mem_cons_self
        · exact (ih hrest).imp_right (List.mem_cons_of_mem _)

theorem letters_update (letter : α) (f : Trie α β → Trie α β) (t : Trie α β) :
    (t.update letter f).letters =
      if letter ∈ t.letters then t.letters else t.letters ++ [letter] := by
  induction t with
  | empty => rfl
  | leaf _ rest ih => exact ih
  | item other child rest _ ih =>
      unfold update
      by_cases hother : other = letter
      · subst hother
        rw [if_pos rfl]
        exact (if_pos List.mem_cons_self).symm
      · rw [if_neg hother]
        change other :: (rest.update letter f).letters =
          if letter ∈ other :: rest.letters then other :: rest.letters
          else other :: (rest.letters ++ [letter])
        rw [ih]
        by_cases hmem : letter ∈ rest.letters
        · rw [if_pos hmem, if_pos (List.mem_cons_of_mem _ hmem)]
        · have hcons : letter ∉ other :: rest.letters := fun h =>
            (List.mem_cons.mp h).elim (fun heq => hother heq.symm) hmem
          rw [if_neg hmem, if_neg hcons]

theorem nodup_letters_update (h : t.letters.Nodup) : (t.update letter f).letters.Nodup := by
  rw [letters_update]
  split
  · exact h
  · next hfresh =>
      rw [List.nodup_append]
      refine ⟨h, List.nodup_singleton letter, ?_⟩
      intro a ha b hb heq
      rw [List.mem_singleton.mp hb] at heq
      rw [heq] at ha
      exact hfresh ha

theorem items_update_ne_nil : (t.update letter f).items ≠ [] := by
  induction t with
  | empty => exact List.cons_ne_nil _ _
  | leaf _ rest ih => exact ih
  | item other child rest _ _ =>
      unfold update
      split <;> exact List.cons_ne_nil _ _

/-! ## Keys -/

@[simp] theorem lookup_empty (key : List α) : lookup key (empty : Trie α β) = none := by
  induction key with
  | nil => rfl
  | cons _ _ ih => exact ih

theorem lookup_insert (value : β) (key word : List α) (t : Trie α β) :
    lookup word (t.insert value key) = if word = key then some value else lookup word t := by
  induction key generalizing word t with
  | nil =>
      cases word with
      | nil => exact value_setLeaf value t
      | cons letter word =>
          rw [if_neg (List.cons_ne_nil _ _)]
          change lookup word ((t.setLeaf value).child letter) = lookup word (t.child letter)
          rw [child_setLeaf]
  | cons letter key ih =>
      cases word with
      | nil => exact value_update letter _ t
      | cons other word =>
          change lookup word ((t.update letter (insert value key)).child other) =
            if other :: word = letter :: key then some value else lookup word (t.child other)
          rw [child_update]
          by_cases hletter : letter = other
          · subst hletter
            rw [if_pos rfl, ih]
            simp
          · rw [if_neg hletter, if_neg]
            intro heq
            exact hletter (List.cons.inj heq).1.symm

theorem exists_prefix_of_find {word : List α} (h : find word t = some value) :
    ∃ key, key <+: word ∧ lookup key t = some value := by
  induction word generalizing t with
  | nil => exact ⟨[], List.prefix_rfl, h⟩
  | cons letter word ih =>
      unfold find at h
      split at h
      · next first hvalue => exact ⟨[], List.nil_prefix, by rw [lookup, hvalue, h]⟩
      · obtain ⟨key, hpre, hlookup⟩ := ih h
        exact ⟨letter :: key, List.cons_prefix_cons.mpr ⟨rfl, hpre⟩, hlookup⟩

theorem find_ne_none {word : List α} (hpre : key <+: word) (h : lookup key t ≠ none) :
    find word t ≠ none := by
  induction word generalizing key t with
  | nil =>
      rw [List.prefix_nil.mp hpre] at h
      exact h
  | cons letter word ih =>
      unfold find
      split
      · exact Option.some_ne_none _
      · next hvalue =>
          cases key with
          | nil => exact absurd hvalue h
          | cons other key =>
              obtain ⟨rfl, hrest⟩ := List.cons_prefix_cons.mp hpre
              exact ih hrest h

@[simp] theorem find_empty (word : List α) : find word (empty : Trie α β) = none := by
  induction word with
  | nil => rfl
  | cons _ _ ih => exact ih

/-! ## Tries without a key before another key -/

/-- A value has no further letters, and no child is empty. -/
inductive Proper : Trie α β → Prop
  | leaf {t : Trie α β} (value : t.value ≠ none) (items : t.items = []) : Proper t
  | node {t : Trie α β} (value : t.value = none) (items : t.items ≠ [])
      (nodup : t.letters.Nodup) (children : ∀ item ∈ t.items, Proper item.2) : Proper t

theorem Proper.exists_lookup (h : t.Proper) : ∃ key, lookup key t ≠ none := by
  induction h with
  | leaf value items => exact ⟨[], value⟩
  | @node t value items nodup children ih =>
      obtain ⟨⟨letter, child⟩, hmem⟩ := List.exists_mem_of_ne_nil _ items
      obtain ⟨key, hkey⟩ := ih _ hmem
      refine ⟨letter :: key, ?_⟩
      rw [lookup, child_of_mem nodup hmem]
      exact hkey

theorem proper_insert_empty (value : β) (key : List α) :
    ((empty : Trie α β).insert value key).Proper := by
  induction key with
  | nil => exact .leaf (Option.some_ne_none value) rfl
  | cons letter key ih =>
      refine .node rfl (List.cons_ne_nil _ _) (List.nodup_singleton letter) ?_
      intro item hmem
      rw [List.mem_singleton.mp hmem]
      exact ih

theorem Proper.insert (h : t.Proper) (hbefore : ∀ word, word <+: key → lookup word t = none)
    (hbehind : ∀ word, lookup (key ++ word) t = none) : (t.insert value key).Proper := by
  induction key generalizing t with
  | nil =>
      obtain ⟨word, hword⟩ := h.exists_lookup
      exact absurd (hbehind word) hword
  | cons letter key ih =>
      cases h with
      | leaf hvalue _ => exact absurd (hbefore [] List.nil_prefix) hvalue
      | node hvalue _ nodup children =>
          refine .node ((value_update _ _ t).trans hvalue) items_update_ne_nil (nodup_letters_update nodup) ?_
          intro item hmem
          rcases mem_items_update hmem with rfl | hmem
          · by_cases hletter : letter ∈ t.letters
            · exact ih (children _ (mem_items_child hletter))
                (fun word hword => hbefore _ (List.cons_prefix_cons.mpr ⟨rfl, hword⟩)) hbehind
            · rw [child_of_not_mem hletter]
              exact proper_insert_empty _ key
          · exact children item hmem

/-- No key of the entries is a prefix of another one. -/
def PrefixFree (entries : List (List α × β)) : Prop :=
  entries.Pairwise fun entry other => ¬entry.1 <+: other.1 ∧ ¬other.1 <+: entry.1

/-- The trie has the entries, and no others. -/
structure Has (t : Trie α β) (entries : List (List α × β)) : Prop where
  lookup : ∀ key value, lookup key t = some value ↔ (key, value) ∈ entries
  proper : t.Proper ∨ t = empty

theorem has_empty : Has (empty : Trie α β) [] :=
  ⟨fun key value => by simp, .inr rfl⟩

variable {entries : List (List α × β)}

theorem Has.lookup_eq_none (h : t.Has entries) (hmissing : ∀ entry ∈ entries, entry.1 ≠ key) :
    Trie.lookup key t = none := by
  cases hlookup : Trie.lookup key t with
  | none => rfl
  | some value => exact absurd rfl (hmissing _ ((h.lookup key value).mp hlookup))

theorem Has.insert (h : t.Has entries)
    (hfree : ∀ entry ∈ entries, ¬entry.1 <+: key ∧ ¬key <+: entry.1) (value : β) :
    (t.insert value key).Has (entries ++ [(key, value)]) := by
  constructor
  · intro word result
    rw [lookup_insert, List.mem_append, List.mem_singleton]
    by_cases hword : word = key
    · subst hword
      rw [if_pos rfl]
      constructor
      · intro heq
        exact .inr (congrArg (word, ·) (Option.some.inj heq).symm)
      · rintro (hmem | heq)
        · exact absurd List.prefix_rfl (hfree _ hmem).1
        · rw [(Prod.mk.inj heq).2]
    · rw [if_neg hword, h.lookup]
      constructor
      · exact .inl
      · rintro (hmem | heq)
        · exact hmem
        · exact absurd (Prod.mk.inj heq).1 hword
  · rcases h.proper with hproper | rfl
    · refine .inl (hproper.insert (fun word hword => ?_) fun word => ?_)
      · exact h.lookup_eq_none fun entry hmem heq => (hfree entry hmem).1 (heq ▸ hword)
      · exact h.lookup_eq_none fun entry hmem heq => (hfree entry hmem).2 (heq ▸ List.prefix_append _ _)
    · exact .inl (proper_insert_empty value key)

theorem has_foldl {before : List (List α × β)} (h : t.Has before)
    (hfree : PrefixFree (before ++ entries)) :
    (entries.foldl (fun t entry => t.insert entry.2 entry.1) t).Has (before ++ entries) := by
  induction entries generalizing t before with
  | nil =>
      rw [List.append_nil]
      exact h
  | cons entry entries ih =>
      have hentry : ∀ other ∈ before, ¬other.1 <+: entry.1 ∧ ¬entry.1 <+: other.1 := fun other hmem =>
        (List.pairwise_append.mp hfree).2.2 other hmem entry List.mem_cons_self
      have hnext := h.insert hentry entry.2
      have hrest := ih hnext (List.append_cons before entry entries ▸ hfree)
      rw [← List.append_cons] at hrest
      exact hrest

theorem has_ofList (hfree : PrefixFree entries) : (ofList entries).Has entries :=
  has_foldl has_empty hfree

omit [DecidableEq α] in
theorem PrefixFree.eq_of_prefix (h : PrefixFree entries) {entry other : List α × β}
    (hentry : entry ∈ entries) (hother : other ∈ entries)
    (hpre : entry.1 <+: other.1 ∨ other.1 <+: entry.1) : entry = other := by
  have hall : entries.Pairwise fun entry other =>
      entry.1 <+: other.1 ∨ other.1 <+: entry.1 → entry = other :=
    h.imp fun hne hor => absurd hor (not_or.mpr hne)
  exact List.Pairwise.forall_of_forall_of_flip (fun _ _ _ => rfl) hall
    (hall.imp fun heq hor => (heq hor.symm).symm) hentry hother hpre

/-- A key that goes on after an entry's key finds this entry, and other keys find none. -/
theorem Has.find (h : t.Has entries) (hfree : PrefixFree entries) (word : List α) :
    Trie.find word t =
      (entries.find? fun entry => entry.1.isPrefixOf word).map Prod.snd := by
  cases hfound : entries.find? fun entry => entry.1.isPrefixOf word with
  | none =>
      cases hfind : Trie.find word t with
      | none => rfl
      | some value =>
          obtain ⟨key, hpre, hlookup⟩ := exists_prefix_of_find hfind
          have hnot := List.find?_eq_none.mp hfound _ ((h.lookup key value).mp hlookup)
          exact absurd (List.isPrefixOf_iff_prefix.mpr hpre) hnot
  | some entry =>
      have hentry := List.mem_of_find?_eq_some hfound
      have hpre := List.isPrefixOf_iff_prefix.mp (List.find?_some (p := fun entry : List α × β => entry.1.isPrefixOf word) hfound)
      have hlookup := (h.lookup entry.1 entry.2).mpr hentry
      cases hfind : Trie.find word t with
      | none => exact absurd hfind (find_ne_none hpre (hlookup ▸ Option.some_ne_none _))
      | some value =>
          obtain ⟨key, hkey, hvalue⟩ := exists_prefix_of_find hfind
          have heq := hfree.eq_of_prefix hentry ((h.lookup key value).mp hvalue)
            (List.prefix_or_prefix_of_prefix hpre hkey)
          rw [heq]
          rfl

end Trie

end Qmk.Lib
