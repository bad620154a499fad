import Mathlib.Algebra.BigOperators.Group.List.Basic
import Qmk.Autocorrect.Layout

/-!
# The table is laid out

The bytes that `serialize_trie` makes of a trie are laid out as the search reads them.
-/

namespace Qmk.Autocorrect

open Qmk.Lib

/-! ## The traversal -/

theorem traverseItems_eq (node : Node) :
    traverseItems node = node.items.map fun item => (item.1, traverse item.2) := by
  induction node with
  | empty => rfl
  | leaf _ rest ih => exact ih
  | item c child rest _ ih =>
      rw [traverseItems, ih]
      rfl

variable {node : Node} {entry : Autocorrection} {c : Char} {chars : List Char} {index : Nat}

theorem traverse_leaf (hvalue : node.value = some entry) (chars : List Char) (index : Nat) :
    traverse node chars index = chain chars index ++ [.leaf entry] := by
  rw [traverse, hvalue, traverseNode]

theorem traverse_single {child : Node} (hvalue : node.value = none)
    (hitems : node.items = [(c, child)]) (chars : List Char) (index : Nat) :
    traverse node chars index = traverse child (chars ++ [c]) index := by
  rw [traverse, hvalue, traverseItems_eq, hitems]
  rfl

/-- The links of the children of a node, and the entries behind them. -/
def visited (kids : List (Char × Node)) (index : Nat) : List Nat × List Entry :=
  visit (kids.map fun item => (item.1, traverse item.2)) index

theorem traverse_branch (hvalue : node.value = none) (hitems : node.items.length ≠ 1)
    (chars : List Char) (index : Nat) :
    traverse node chars index = chain chars index ++
      .node ((sortKeys node.items).map Prod.fst)
        (visited (sortKeys node.items) (index + (chain chars index).length + 1)).1 ::
      (visited (sortKeys node.items) (index + (chain chars index).length + 1)).2 := by
  have hsort : sortKeys (node.items.map fun item => (item.1, traverse item.2)) =
      (sortKeys node.items).map fun item => (item.1, traverse item.2) :=
    (List.map_insertionSort _ _ (fun item : Char × Node => (item.1, traverse item.2)) _
      fun _ _ _ _ => Iff.rfl).symm
  rw [traverse, hvalue, traverseItems_eq, traverseNode, hsort, List.map_map]
  · rfl
  · intro c kid hkid
    have hlength := congrArg List.length hkid
    rw [List.length_map] at hlength
    exact hitems hlength

def isSingle (node : Node) : Bool := node.value.isNone && node.items.length == 1

/-- What a traversal appends behind a chain begins with the chain, with the letters that follow. -/
theorem traverse_chain (h : node.Proper) (chars : List Char) (hne : chars ≠ []) (index : Nat) :
    ∃ more, (traverse node chars index)[0]? = some (.node (chars ++ more) [index + 1]) ∧
      (more = [] ↔ isSingle node = false) := by
  induction h generalizing chars with
  | @leaf node value items =>
      obtain ⟨entry, hvalue⟩ := Option.ne_none_iff_exists'.mp value
      refine ⟨[], ?_, by simp [isSingle, hvalue]⟩
      rw [traverse_leaf hvalue, chain, if_neg hne, List.append_nil]
      rfl
  | @node node value items nodup children ih =>
      by_cases hlength : node.items.length = 1
      · obtain ⟨⟨c, child⟩, hitems⟩ := List.length_eq_one_iff.mp hlength
        have hmem : (c, child) ∈ node.items := by
          rw [hitems]
          exact List.mem_singleton_self _
        obtain ⟨more, hfirst, -⟩ := ih _ hmem (chars ++ [c]) (by simp)
        refine ⟨c :: more, ?_, by simp [isSingle, value, hlength]⟩
        rw [traverse_single value hitems, hfirst, List.append_assoc]
        rfl
      · refine ⟨[], ?_, by simp [isSingle, hlength]⟩
        rw [traverse_branch value hlength, chain, if_neg hne, List.append_nil]
        rfl

/-! ## Visiting the children -/

theorem visited_spec {kids : List (Char × Node)} {table : List Entry} {index : Nat}
    (h : At table index (visited kids index).2) :
    (visited kids index).1.length = kids.length ∧
      ∀ (i : Nat) (kid : Char × Node) (link : Nat), kids[i]? = some kid →
        (visited kids index).1[i]? = some link → At table link (traverse kid.2 [] link) := by
  induction kids generalizing index with
  | nil => exact ⟨rfl, fun i kid link hkid => by simp at hkid⟩
  | cons first kids ih =>
      obtain ⟨hlength, hall⟩ := ih (h.right (traverse first.2 [] index))
      refine ⟨congrArg (· + 1) hlength, fun i kid link hkid hlink => ?_⟩
      cases i with
      | zero =>
          obtain rfl : first = kid := Option.some.inj hkid
          obtain rfl : index = link := Option.some.inj hlink
          exact h.left
      | succ i => exact hall i kid link hkid hlink

/-! ## The bytes -/

theorem spells_of_mapM {word : List Char} {codes : List Nat} (h : word.mapM typoChars = some codes) :
    Spells word codes := by
  induction word generalizing codes with
  | nil =>
      cases h
      exact .nil
  | cons c word ih =>
      simp only [List.mapM_cons, Option.bind_eq_bind, Option.bind_eq_some_iff] at h
      obtain ⟨code, hcode, codes, hcodes, heq⟩ := h
      cases heq
      exact .cons hcode (ih hcodes)

theorem Spells.getElem? {word : List Char} {codes : List Nat} (h : Spells word codes) {i : Nat}
    (hc : word[i]? = some c) : ∃ code, codes[i]? = some code ∧ typoChars c = some code := by
  induction h generalizing i with
  | nil => simp at hc
  | cons hcode _ ih =>
      cases i with
      | zero =>
          cases hc
          exact ⟨_, rfl, hcode⟩
      | succ i => exact ih hc

/-- The bytes of each entry of a table stand at its offset. -/
structure Serialized (table : List Entry) (offset : Nat → Nat) (data : List Nat) : Prop where
  bytes : ∀ (index : Nat) (entry : Entry), table[index]? = some entry →
    ∃ bytes, serialize offset entry = some bytes ∧ At data (offset index) bytes ∧
      offset (index + 1) = offset index + bytes.length

variable {table : List Entry} {offset : Nat → Nat} {data : List Nat}

theorem Serialized.chain (h : Serialized table offset data) {more : List Char} {link : Nat}
    (hentry : table[index]? = some (.node more [link])) :
    ∃ codes, Spells more codes ∧ At data (offset index) (codes ++ [0]) ∧
      offset (index + 1) = offset index + more.length + 1 := by
  obtain ⟨bytes, hbytes, hplace, hnext⟩ := h.bytes index _ hentry
  obtain ⟨codes, hcodes, rfl⟩ := Option.map_eq_some_iff.mp hbytes
  have hspells := spells_of_mapM hcodes
  refine ⟨codes, hspells, hplace, ?_⟩
  rw [hnext, List.length_append, hspells.length_eq, List.length_singleton, Nat.add_assoc]

theorem Serialized.leaf (h : Serialized table offset data)
    (hentry : table[index]? = some (.leaf entry)) : Marks data (offset index) entry := by
  obtain ⟨bytes, hbytes, hplace, -⟩ := h.bytes index _ hentry
  exact ⟨bytes, hbytes, hplace⟩

theorem Serialized.branch (h : Serialized table offset data) {keys : List Char} {links : List Nat}
    (hentry : table[index]? = some (.node keys links)) (hlinks : links.length ≠ 1) :
    ∃ codes, Spells keys codes ∧ At data (offset index) (branchBytes (codes.zip (links.map offset))) := by
  obtain ⟨bytes, hbytes, hplace, -⟩ := h.bytes index _ hentry
  match links, hlinks with
  | [], _ => cases hbytes
  | first :: second :: links, _ =>
      obtain ⟨codes, hcodes, rfl⟩ := Option.map_eq_some_iff.mp hbytes
      exact ⟨codes, spells_of_mapM hcodes, hplace⟩

/-! ## The layout -/

/-- How far behind the offset of its first entry the bytes of a node begin. -/
def start (node : Node) (chars : List Char) : Nat :=
  if chars = [] then 0 else if isSingle node then chars.length else chars.length + 1

theorem behind_chain (h : Serialized table offset data) (hsingle : isSingle node = false)
    {rest : List Entry} (hplace : At table index (chain chars index ++ rest)) :
    offset (index + (chain chars index).length) = offset index + start node chars := by
  unfold chain at hplace ⊢
  unfold start
  by_cases hchars : chars = []
  · rw [if_pos hchars, if_pos hchars]
    rfl
  · rw [if_neg hchars] at hplace
    obtain ⟨codes, -, -, hnext⟩ := h.chain (hplace.getElem? (i := 0) rfl)
    rw [if_neg hchars, if_neg hchars, hsingle, if_neg (by decide)]
    exact hnext

/-- The bytes of a chain at the letter behind `chars`. -/
theorem chain_step (h : Serialized table offset data) {more : List Char} {link : Nat}
    (hentry : table[index]? = some (.node (chars ++ c :: more) [link])) :
    ∃ code, typoChars c = some code ∧ data[offset index + chars.length]? = some code ∧
      if more = [] then data[offset index + chars.length + 1]? = some 0
      else ∃ b, b ≠ 0 ∧ data[offset index + chars.length + 1]? = some b := by
  obtain ⟨codes, hspells, hplace, -⟩ := h.chain hentry
  have hlength := hspells.length_eq
  rw [List.length_append, List.length_cons] at hlength
  obtain ⟨code, hcode, hc⟩ := hspells.getElem? (i := chars.length) (c := c) (by simp)
  have hbyte {i b : Nat} (hb : codes[i]? = some b) : data[offset index + i]? = some b := by
    apply hplace.getElem?
    rw [List.getElem?_append_left (List.getElem?_eq_some_iff.mp hb).1, hb]
  refine ⟨code, hc, hbyte hcode, ?_⟩
  cases more with
  | nil =>
      have hend : (codes ++ [0])[chars.length + 1]? = some 0 := by
        rw [List.length_nil, Nat.zero_add] at hlength
        rw [hlength, List.getElem?_concat_length]
      rw [if_pos rfl]
      exact hplace.getElem? hend
  | cons d more =>
      obtain ⟨b, hb, hd⟩ := hspells.getElem? (i := chars.length + 1) (c := d) (by simp)
      rw [if_neg (List.cons_ne_nil _ _)]
      exact ⟨b, Nat.ne_of_gt (typoChars_range hd).1, hbyte hb⟩

theorem laid_traverse (hser : Serialized table offset data) (h : node.Proper) (chars : List Char)
    (index : Nat) (hplace : At table index (traverse node chars index)) :
    Laid data (offset index + start node chars) node := by
  induction h generalizing chars index with
  | @leaf node value items =>
      obtain ⟨entry, hvalue⟩ := Option.ne_none_iff_exists'.mp value
      have hsingle : isSingle node = false := by simp [isSingle, hvalue]
      rw [traverse_leaf hvalue] at hplace
      rw [← behind_chain hser hsingle hplace]
      exact .leaf hvalue (hser.leaf ((hplace.right _).getElem? (i := 0) rfl))
  | @node node value items nodup children ih =>
      by_cases hlength : node.items.length = 1
      · obtain ⟨⟨c, child⟩, hitems⟩ := List.length_eq_one_iff.mp hlength
        have hmem : (c, child) ∈ node.items := by
          rw [hitems]
          exact List.mem_singleton_self _
        have hne : chars ++ [c] ≠ [] := by simp
        have hstart : start node chars = chars.length := by
          unfold start
          split
          · next hnil =>
              rw [hnil]
              rfl
          · rw [if_pos (by simp [isSingle, value, hlength])]
        rw [traverse_single value hitems] at hplace
        obtain ⟨more, hfirst, hmore⟩ := traverse_chain (children _ hmem) (chars ++ [c]) hne index
        have hbelow := ih _ hmem (chars ++ [c]) index hplace
        have hentry : table[index]? = some (.node (chars ++ c :: more) [index + 1]) := by
          rw [List.append_assoc] at hfirst
          exact hplace.getElem? hfirst
        obtain ⟨code, hc, hcode, hstep⟩ := chain_step hser hentry
        rw [hstart]
        refine .single value hitems hc hcode ?_ hbelow
        rw [start, if_neg hne, List.length_append, List.length_singleton]
        by_cases hnil : more = []
        · rw [if_pos hnil] at hstep
          rw [hmore.mp hnil]
          exact .inl ⟨hstep, rfl⟩
        · rw [if_neg hnil] at hstep
          obtain ⟨b, hb, hbyte⟩ := hstep
          have hsingle : isSingle child = true :=
            Bool.not_eq_false _ ▸ fun heq => hnil (hmore.mpr heq)
          rw [hsingle]
          exact .inr ⟨b, hb, hbyte, rfl⟩
      · have hsingle : isSingle node = false := by simp [isSingle, hlength]
        have hperm : (sortKeys node.items).Perm node.items := List.perm_insertionSort _ _
        rw [traverse_branch value hlength] at hplace
        rw [← behind_chain hser hsingle hplace]
        have hnode := hplace.right (chain chars index)
        obtain ⟨hlinks, hkids⟩ := visited_spec (hnode.right [_])
        generalize (visited (sortKeys node.items) _).1 = links at *
        have hcount : (sortKeys node.items).length ≠ 1 := by
          rw [hperm.length_eq]
          exact hlength
        obtain ⟨codes, hspells, hbytes⟩ := hser.branch (hnode.getElem? (i := 0) rfl) (hlinks ▸ hcount)
        have hcodes := hspells.length_eq
        rw [List.length_map] at hcodes
        -- The i-th child with the i-th code and the i-th link.
        have hpair {pair : (Char × Node) × Nat × Nat}
            (h : pair ∈ (sortKeys node.items).zip (codes.zip (links.map offset))) :
            typoChars pair.1.1 = some pair.2.1 ∧ ∃ link, pair.2.2 = offset link ∧
              pair.1 ∈ node.items ∧ At table link (traverse pair.1.2 [] link) := by
          obtain ⟨i, hi⟩ := List.mem_iff_getElem?.mp h
          obtain ⟨hkid, hi⟩ := List.getElem?_zip_eq_some.mp hi
          obtain ⟨hcode, hlink⟩ := List.getElem?_zip_eq_some.mp hi
          rw [List.getElem?_map] at hlink
          obtain ⟨link, hlink, hoffset⟩ := Option.map_eq_some_iff.mp hlink
          obtain ⟨code, hcode', hkey⟩ := hspells.getElem? (i := i) (c := pair.1.1) (by
            rw [List.getElem?_map, hkid]
            rfl)
          obtain rfl : code = pair.2.1 := Option.some.inj (hcode'.symm.trans hcode)
          exact ⟨hkey, link, hoffset.symm, hperm.mem_iff.mp (List.mem_of_getElem? hkid),
            hkids i pair.1 link hkid hlink⟩
        refine .branch value hperm ?_ ?_ (fun pair h => (hpair h).1) hbytes fun pair h => ?_
        · intro hnil
          rw [hnil] at hperm
          exact items (List.perm_nil.mp hperm.symm)
        · rw [List.length_zip, List.length_map, hlinks, ← hcodes, Nat.min_self]
        · obtain ⟨-, link, hlink, hmem, hbelow⟩ := hpair h
          rw [hlink]
          exact ih _ hmem [] link hbelow

/-! ## The offsets -/

theorem length_branchBytes (links : List (Nat × Nat)) :
    (branchBytes links).length = 3 * links.length + 1 := by
  cases links with
  | nil => rfl
  | cons link links =>
      change (_ ++ (_ ++ [0])).length + 1 = _
      rw [List.length_append, List.length_append, length_flatMap_linkBytes]
      change 2 + (_ + 1) + 1 = 3 * (links.length + 1) + 1
      omega

/-- The size of an entry does not depend on the offsets. -/
theorem length_serialize {offset other : Nat → Nat} {entry : Entry} {bytes otherBytes : List Nat}
    (h : serialize offset entry = some bytes) (hother : serialize other entry = some otherBytes) :
    bytes.length = otherBytes.length := by
  match entry with
  | .leaf entry =>
      rw [serialize] at h hother
      rw [Option.some.inj (h.symm.trans hother)]
  | .node chars [_] =>
      rw [serialize] at h hother
      rw [Option.some.inj (h.symm.trans hother)]
  | .node chars [] => cases h
  | .node chars (_ :: _ :: _) =>
      obtain ⟨codes, hcodes, rfl⟩ := Option.map_eq_some_iff.mp h
      obtain ⟨codes', hcodes', rfl⟩ := Option.map_eq_some_iff.mp hother
      rw [hcodes] at hcodes'
      cases hcodes'
      rw [length_branchBytes, length_branchBytes]
      simp

theorem mapM_getElem? {α β : Type} {f : α → Option β} {xs : List α} {ys : List β}
    (h : xs.mapM f = some ys) : ys.length = xs.length ∧
      ∀ (i : Nat) (x : α), xs[i]? = some x → ∃ y, ys[i]? = some y ∧ f x = some y := by
  induction xs generalizing ys with
  | nil =>
      cases h
      exact ⟨rfl, fun i x hx => by simp at hx⟩
  | cons first xs ih =>
      simp only [List.mapM_cons, Option.bind_eq_bind, Option.bind_eq_some_iff] at h
      obtain ⟨y, hy, ys, hys, heq⟩ := h
      cases heq
      obtain ⟨hlength, hall⟩ := ih hys
      refine ⟨congrArg (· + 1) hlength, fun i x hx => ?_⟩
      cases i with
      | zero =>
          cases hx
          exact ⟨y, rfl, hy⟩
      | succ i => exact hall i x hx

theorem lengths_blocks {table : List Entry} {sizes : List Nat} {blocks : List (List Nat)}
    {offset : Nat → Nat}
    (hsizes : table.mapM (fun entry => (serialize (fun _ => 0) entry).map List.length) = some sizes)
    (hblocks : table.mapM (serialize offset) = some blocks) : sizes = blocks.map List.length := by
  obtain ⟨hsizesLength, hsize⟩ := mapM_getElem? hsizes
  obtain ⟨hblocksLength, hblock⟩ := mapM_getElem? hblocks
  apply List.ext_getElem
  · rw [List.length_map, hsizesLength, hblocksLength]
  · intro i hi hi'
    rw [hsizesLength] at hi
    obtain ⟨size, hat, hsized⟩ := hsize i _ (List.getElem?_eq_getElem hi)
    obtain ⟨bytes, hbytes, hserialize⟩ := hblock i _ (List.getElem?_eq_getElem hi)
    obtain ⟨zeroBytes, hzero, rfl⟩ := Option.map_eq_some_iff.mp hsized
    rw [List.getElem_map, (List.getElem?_eq_some_iff.mp hat).2,
      (List.getElem?_eq_some_iff.mp hbytes).2, length_serialize hserialize hzero]

theorem serialized {table : List Entry} {sizes : List Nat} {blocks : List (List Nat)}
    (hsizes : table.mapM (fun entry => (serialize (fun _ => 0) entry).map List.length) = some sizes)
    (hblocks : table.mapM (serialize (offsetOf sizes)) = some blocks) :
    Serialized table (offsetOf sizes) blocks.flatten := by
  have hlengths := lengths_blocks hsizes hblocks
  obtain ⟨-, hblock⟩ := mapM_getElem? hblocks
  constructor
  intro index entry hentry
  obtain ⟨bytes, hbytes, hserialize⟩ := hblock index entry hentry
  obtain ⟨hlt, hat⟩ := List.getElem?_eq_some_iff.mp hbytes
  refine ⟨bytes, hserialize, ?_, ?_⟩
  · rw [At, offsetOf, hlengths, List.drop_sum_flatten, List.drop_eq_getElem_cons hlt, hat]
    exact List.prefix_append _ _
  · have hmap : index < (blocks.map List.length).length := by
      rw [List.length_map]
      exact hlt
    rw [offsetOf, offsetOf, hlengths, List.sum_take_succ _ _ hmap, List.getElem_map, hat]

end Qmk.Autocorrect
