import Qmk.JsonSchema.MergeDicts

/-!
# Merging key by key

What the merge does to the value of a key depends on the history of the key alone.  A run of it that
leaves the dictionaries as they are is a run for each key.
-/

namespace Qmk.JsonSchema

open Qmk.Lib

/-! ## Copies -/

/-- The entries of two dictionaries. -/
def extend : Dict → Dict → Dict
  | .nil, other => other
  | .cons k v rest, other => .cons k v (extend rest other)

theorem set_eq_extend {dict : Dict} {k : String} (h : dict.get k = none) (v : Json) :
    dict.set k v = extend dict (.cons k v .nil) := by
  induction dict with
  | nil => rfl
  | cons key value rest ih =>
      by_cases hkey : key = k
      · simp [Dict.get, hkey] at h
      · rw [Dict.get, if_neg hkey] at h
        rw [Dict.set, if_neg hkey, ih h]
        rfl

theorem extend_assoc (dict other another : Dict) :
    extend (extend dict other) another = extend dict (extend other another) := by
  induction dict with
  | nil => rfl
  | cons key value rest ih => rw [extend, extend, extend, ih]

theorem copyEntries_eq {a : Dict} (ha : a.wellFormed = true)
    (hplain : ∀ k v, a.get k = some v → isMark deleteMark v = false) {result : Dict}
    (hnew : ∀ k, (a.get k).isSome = true → result.get k = none) :
    copyEntries result a = .ok (extend result a) := by
  induction a generalizing result with
  | nil =>
      have hend : extend result .nil = result := by
        induction result with
        | nil => rfl
        | cons key value rest ih => rw [extend, ih fun k h => nomatch h]
      rw [hend]
      rfl
  | cons key value rest ih =>
      obtain ⟨hfresh, -, hrest⟩ := Dict.wellFormed_cons.mp ha
      have hvalue := hplain key value (by simp [Dict.get])
      have habsent := hnew key (by simp [Dict.get])
      have hother {k : String} (h : (rest.get k).isSome = true) : key ≠ k := fun heq => by
        rw [← heq, hfresh] at h
        cases h
      have hrestPlain : ∀ k v, rest.get k = some v → isMark deleteMark v = false :=
        fun k v hv => hplain k v (by rw [Dict.get, if_neg (hother (by simp [hv])), hv])
      have hrestNew : ∀ k, (rest.get k).isSome = true → (result.set key value).get k = none :=
        fun k hk => by
          rw [Dict.get_set_of_ne (hother hk)]
          exact hnew k (by rwa [Dict.get, if_neg (hother hk)])
      rw [copyEntries, if_neg (by simp [hvalue]), ih hrest hrestPlain hrestNew,
        set_eq_extend habsent, extend_assoc]
      rfl

theorem copyEntries_nil {a : Dict} (ha : a.wellFormed = true)
    (hplain : ∀ k v, a.get k = some v → isMark deleteMark v = false) :
    copyEntries .nil a = .ok a :=
  copyEntries_eq ha hplain fun _ _ => rfl

theorem plain_of_copyEntries {a result t : Dict} (h : copyEntries result a = .ok t) :
    ∀ k v, a.get k = some v → isMark deleteMark v = false := by
  induction a generalizing result with
  | nil => exact fun _ _ hv => nomatch hv
  | cons key value rest ih =>
      rw [copyEntries] at h
      split at h
      · cases h
      · intro k v hv
        rw [Dict.get] at hv
        split at hv
        · rw [← Option.some.inj hv]
          exact Bool.eq_false_iff.mpr ‹_›
        · exact ih h k v hv

/-! ## One value -/

def store (target : Dict) (k : String) : Option Json → Dict
  | none => target.erase k
  | some v => target.set k v

/-- What `add_entry` makes of the value of the key, and what is left behind. -/
def newValue (old : Option Json) : Json → Except MergeError (Option Json × Json)
  | .obj d =>
      match old with
      | none => .ok (some (.obj d), .obj d)
      | some old =>
          if hasReset d then .ok (some (.obj (d.erase resetMark)), .obj (d.erase resetMark))
          else
            match old with
            | .obj a => do
                let result ← copyEntries .nil a
                let (result, d) ← addEntries result d
                .ok (some (.obj (result.erase resetMark)), .obj d)
            | _ => .error .attributeError
  | .arr items =>
      match old with
      | none => .ok (some (.arr items), .arr items)
      | some old =>
          match items with
          | .nil => .error .indexError
          | .cons head rest =>
              if isMark resetMark head then .ok (some (.arr rest), .arr (.cons head rest))
              else
                match old with
                | .arr earlier =>
                    .ok (some (.arr (concat earlier (.cons head rest))), .arr (.cons head rest))
                | _ => .error .typeError
  | v =>
      if isMark deleteMark v then
        match old with
        | none => .error .keyError
        | some _ => .ok (none, v)
      else .ok (some v, v)

theorem addEntry_eq (target : Dict) (k : String) (v : Json) :
    addEntry target k v =
      (newValue (target.get k) v).map fun new => (store target k new.1, new.2) := by
  cases v with
  | obj d =>
      simp only [addEntry, newValue]
      cases target.get k with
      | none => rfl
      | some old =>
          by_cases hreset : hasReset d = true
          · simp [hreset, Except.map, store]
          · cases old with
            | obj a =>
                simp only [hreset]
                cases copyEntries .nil a with
                | error e => rfl
                | ok result =>
                    cases hentries : addEntries result d <;>
                      simp [hentries, bind, Except.bind, Except.map, store]
            | _ => simp [hreset, Except.map]
  | arr items =>
      simp only [addEntry, newValue]
      cases target.get k with
      | none => rfl
      | some old =>
          cases items with
          | nil => rfl
          | cons head rest =>
              by_cases hreset : isMark resetMark head = true
              · simp [hreset, Except.map, store]
              · cases old <;> simp [hreset, Except.map, store]
  | str text =>
      simp only [addEntry, newValue]
      by_cases hdelete : isMark deleteMark (.str text) = true
      · cases target.get k <;> simp [hdelete, Except.map, store]
      · simp [hdelete, Except.map, store]
  | null => rfl
  | bool value => rfl
  | num text => rfl

theorem get_store_self {target : Dict} (h : target.wellFormed = true) (k : String)
    (value : Option Json) : (store target k value).get k = value := by
  cases value with
  | none => exact Dict.get_erase_self h
  | some v => exact Dict.get_set_self

theorem get_store_of_ne {target : Dict} {k k' : String} (h : k ≠ k') (value : Option Json) :
    (store target k value).get k' = target.get k' := by
  cases value with
  | none => exact Dict.get_erase_of_ne h
  | some v => exact Dict.get_set_of_ne h

/-! ## Dictionaries with unique keys -/

theorem wellFormed_ofList {items : List Json} (h : ∀ v ∈ items, v.wellFormed = true) :
    (Items.ofList items).wellFormed = true := by
  induction items with
  | nil => rfl
  | cons head rest ih =>
      rw [Items.ofList, Items.wellFormed, h head List.mem_cons_self,
        ih fun v hv => h v (List.mem_cons_of_mem _ hv)]
      rfl

theorem wellFormed_toList : ∀ {items : Items}, items.wellFormed = true →
    ∀ v ∈ items.toList, v.wellFormed = true
  | .nil, _ => fun _ hv => absurd hv List.not_mem_nil
  | .cons head rest, h => by
      rw [Items.wellFormed, Bool.and_eq_true] at h
      exact List.forall_mem_cons.mpr ⟨h.1, wellFormed_toList h.2⟩

theorem wellFormed_concat {items others : Items} (h : items.wellFormed = true)
    (hothers : others.wellFormed = true) : (concat items others).wellFormed = true := by
  refine wellFormed_ofList fun v hv => ?_
  rcases List.mem_append.mp hv with hv | hv
  · exact wellFormed_toList h v hv
  · exact wellFormed_toList hothers v hv

def WellFormed (value : Option Json) : Prop := ∀ v ∈ value, v.wellFormed = true

theorem wellFormed_get {dict : Dict} (h : dict.wellFormed = true) (k : String) :
    WellFormed (dict.get k) := fun _ hv => Dict.wellFormed_get h hv

theorem wellFormed_store {target : Dict} (h : target.wellFormed = true) (k : String)
    {value : Option Json} (hvalue : WellFormed value) : (store target k value).wellFormed = true := by
  cases value with
  | none => exact Dict.wellFormed_erase h
  | some v => exact Dict.wellFormed_set h (hvalue v rfl)

/-- Induction along the values that are merged. -/
theorem valueInduction {P : Json → Prop}
    (h : ∀ v, (∀ d, v = .obj d → ∀ k w, d.get k = some w → P w) → P v) (v : Json) : P v :=
  h v fun _ hd _ w hw =>
    have _hlt : sizeOf w < sizeOf v := hd ▸ Dict.sizeOf_get_lt hw
    valueInduction h w
termination_by sizeOf v

/-- The values that are made of `v` have unique keys again. -/
def Keeps (v : Json) : Prop :=
  ∀ old new v', WellFormed old → v.wellFormed = true → newValue old v = .ok (new, v') →
    WellFormed new

theorem addEntries_wellFormed {d : Dict} (hkeeps : ∀ k w, d.get k = some w → Keeps w)
    (hd : d.wellFormed = true) {target t d' : Dict} (htarget : target.wellFormed = true)
    (h : addEntries target d = .ok (t, d')) : t.wellFormed = true := by
  induction d generalizing target d' with
  | nil =>
      obtain ⟨rfl, -⟩ := Prod.mk.inj (Except.ok.inj h)
      exact htarget
  | cons key value rest ih =>
      obtain ⟨hfresh, hvalue, hrest⟩ := Dict.wellFormed_cons.mp hd
      have hlater : ∀ k w, rest.get k = some w → Keeps w := by
        intro k w hw
        have hne : key ≠ k := fun heq => by
          rw [← heq, hfresh] at hw
          cases hw
        exact hkeeps k w (by rw [Dict.get, if_neg hne, hw])
      simp only [addEntries, addEntry_eq, bind, Except.bind] at h
      cases hnew : newValue (target.get key) value with
      | error e => simp [hnew, Except.map] at h
      | ok new =>
          have hwell : WellFormed new.1 := hkeeps key value (by simp [Dict.get]) _ new.1 new.2
            (wellFormed_get htarget key) hvalue hnew
          simp only [hnew, Except.map] at h
          cases hentries : addEntries (store target key new.1) rest with
          | error e => simp [hentries] at h
          | ok result =>
              simp only [hentries] at h
              obtain ⟨rfl, -⟩ := Prod.mk.inj (Except.ok.inj h)
              exact ih hlater hrest (wellFormed_store htarget key hwell) hentries

theorem newValue_wellFormed (v : Json) : Keeps v := by
  induction v using valueInduction with
  | h v ih =>
      intro old new v' hold hv hnew
      cases v with
      | obj d =>
          simp only [newValue] at hnew
          cases old with
          | none =>
              obtain ⟨rfl, -⟩ := Prod.mk.inj (Except.ok.inj hnew)
              exact fun w hw => by rwa [← Option.some.inj hw]
          | some old =>
              simp only at hnew
              split at hnew
              · obtain ⟨rfl, -⟩ := Prod.mk.inj (Except.ok.inj hnew)
                intro w hw
                rw [← Option.some.inj hw]
                have hd : d.wellFormed = true := hv
                exact Dict.wellFormed_erase hd
              · cases old with
                | obj a =>
                    have ha : a.wellFormed = true := hold (.obj a) rfl
                    simp only [bind, Except.bind] at hnew
                    cases hcopy : copyEntries .nil a with
                    | error e => simp [hcopy] at hnew
                    | ok copied =>
                        obtain rfl : a = copied := Except.ok.inj
                          ((copyEntries_nil ha (plain_of_copyEntries hcopy)).symm.trans hcopy)
                        simp only [hcopy] at hnew
                        cases hentries : addEntries a d with
                        | error e => simp [hentries] at hnew
                        | ok result =>
                            simp only [hentries] at hnew
                            obtain ⟨rfl, -⟩ := Prod.mk.inj (Except.ok.inj hnew)
                            have hresult : result.1.wellFormed = true :=
                              addEntries_wellFormed (ih d rfl) hv ha hentries
                            intro w hw
                            rw [← Option.some.inj hw]
                            exact Dict.wellFormed_erase hresult
                | _ => cases hnew
      | arr items =>
          simp only [newValue] at hnew
          cases old with
          | none =>
              obtain ⟨rfl, -⟩ := Prod.mk.inj (Except.ok.inj hnew)
              exact fun w hw => by rwa [← Option.some.inj hw]
          | some old =>
              cases items with
              | nil => cases hnew
              | cons head rest =>
                  have hrest : rest.wellFormed = true := by
                    rw [Json.wellFormed, Items.wellFormed, Bool.and_eq_true] at hv
                    exact hv.2
                  simp only at hnew
                  split at hnew
                  · obtain ⟨rfl, -⟩ := Prod.mk.inj (Except.ok.inj hnew)
                    exact fun w hw => by rwa [← Option.some.inj hw]
                  · cases old with
                    | arr earlier =>
                        obtain ⟨rfl, -⟩ := Prod.mk.inj (Except.ok.inj hnew)
                        intro w hw
                        rw [← Option.some.inj hw]
                        exact wellFormed_concat (hold (.arr earlier) rfl) hv
                    | _ => cases hnew
      | str text =>
          simp only [newValue] at hnew
          split at hnew
          · cases old with
            | none => cases hnew
            | some old =>
                obtain ⟨rfl, -⟩ := Prod.mk.inj (Except.ok.inj hnew)
                exact fun w hw => nomatch hw
          · obtain ⟨rfl, -⟩ := Prod.mk.inj (Except.ok.inj hnew)
            exact fun w hw => by rwa [← Option.some.inj hw]
      | null =>
          obtain ⟨rfl, -⟩ := Prod.mk.inj (Except.ok.inj hnew)
          exact fun w hw => by rwa [← Option.some.inj hw]
      | bool value =>
          obtain ⟨rfl, -⟩ := Prod.mk.inj (Except.ok.inj hnew)
          exact fun w hw => by rwa [← Option.some.inj hw]
      | num text =>
          obtain ⟨rfl, -⟩ := Prod.mk.inj (Except.ok.inj hnew)
          exact fun w hw => by rwa [← Option.some.inj hw]

/-! ## One dictionary -/

/-- The key gets this value, and `v` is left as it is. -/
def Becomes (old : Option Json) (v : Json) (new : Option Json) : Prop :=
  newValue old v = .ok (new, v)

theorem Becomes.wellFormed {old new : Option Json} {v : Json} (h : Becomes old v new)
    (hold : WellFormed old) (hv : v.wellFormed = true) : WellFormed new :=
  newValue_wellFormed v old new v hold hv h

theorem addEntries_becomes {d : Dict} (hd : d.wellFormed = true) {target t : Dict}
    (htarget : target.wellFormed = true) (h : addEntries target d = .ok (t, d)) (k : String) :
    match d.get k with
    | none => t.get k = target.get k
    | some v => Becomes (target.get k) v (t.get k) := by
  induction d generalizing target with
  | nil =>
      obtain ⟨rfl, -⟩ := Prod.mk.inj (Except.ok.inj h)
      rfl
  | cons key value rest ih =>
      obtain ⟨hfresh, hvalue, hrest⟩ := Dict.wellFormed_cons.mp hd
      simp only [addEntries, addEntry_eq, bind, Except.bind] at h
      cases hnew : newValue (target.get key) value with
      | error e => simp [hnew, Except.map] at h
      | ok new =>
          simp only [hnew, Except.map] at h
          cases hentries : addEntries (store target key new.1) rest with
          | error e => simp [hentries] at h
          | ok result =>
              simp only [hentries] at h
              obtain ⟨rfl, hsame⟩ := Prod.mk.inj (Except.ok.inj h)
              obtain ⟨-, hvalueSame, hrestSame⟩ := Dict.cons.inj hsame
              have hbecomes : Becomes (target.get key) value new.1 := by
                rw [Becomes, hnew, ← hvalueSame]
              have hrest' := ih hrest (wellFormed_store htarget key
                (hbecomes.wellFormed (wellFormed_get htarget key) hvalue))
                (by rw [hentries, ← hrestSame])
              by_cases hkey : key = k
              · subst hkey
                rw [hfresh] at hrest'
                simp only [Dict.get, if_true]
                have hget : result.1.get key = new.1 :=
                  hrest'.trans (get_store_self htarget key new.1)
                rwa [hget]
              · rw [get_store_of_ne hkey] at hrest'
                simpa only [Dict.get, if_neg hkey] using hrest'

theorem addEntries_of_becomes {d : Dict} (hd : d.wellFormed = true) {target : Dict}
    (htarget : target.wellFormed = true)
    (h : ∀ k v, d.get k = some v → ∃ new, Becomes (target.get k) v new) :
    ∃ t, addEntries target d = .ok (t, d) := by
  induction d generalizing target with
  | nil => exact ⟨target, rfl⟩
  | cons key value rest ih =>
      obtain ⟨hfresh, hvalue, hrest⟩ := Dict.wellFormed_cons.mp hd
      obtain ⟨new, hnew⟩ := h key value (by simp [Dict.get])
      have hstore := wellFormed_store htarget key
        (hnew.wellFormed (wellFormed_get htarget key) hvalue)
      obtain ⟨t, ht⟩ := ih hrest hstore fun k v hv => by
        have hne : key ≠ k := fun heq => by
          rw [← heq, hfresh] at hv
          cases hv
        rw [get_store_of_ne hne]
        exact h k v (by rw [Dict.get, if_neg hne, hv])
      refine ⟨t, ?_⟩
      rw [Becomes] at hnew
      simp only [addEntries, addEntry_eq, hnew, Except.map, ht, bind, Except.bind]

/-! ## Runs -/

/-- The values of the history, the latest one first, leave this value and are left as they are. -/
inductive Runs : List Json → Option Json → Prop where
  | nil : Runs [] none
  | cons {v : Json} {earlier : List Json} {old new : Option Json} (h : Runs earlier old)
      (hnew : Becomes old v new) : Runs (v :: earlier) new

/-- The same for dictionaries. -/
inductive Merges : List Dict → Dict → Prop where
  | nil : Merges [] .nil
  | cons {d t t' : Dict} {earlier : List Dict} (h : Merges earlier t)
      (hnew : addEntries t d = .ok (t', d)) : Merges (d :: earlier) t'

theorem Runs.functional {h : List Json} {value value' : Option Json} (hrun : Runs h value)
    (hrun' : Runs h value') : value = value' := by
  induction hrun generalizing value' with
  | nil => cases hrun' with
    | nil => rfl
  | cons _ hnew ih => cases hrun' with
    | cons hearlier hnew' =>
        rw [ih hearlier] at hnew
        exact (Prod.mk.inj (Except.ok.inj (hnew.symm.trans hnew'))).1

theorem Runs.wellFormed {h : List Json} {value : Option Json} (hrun : Runs h value)
    (hwell : ∀ v ∈ h, v.wellFormed = true) : WellFormed value := by
  induction hrun with
  | nil => exact fun _ hw => nomatch hw
  | cons _ hnew ih =>
      exact hnew.wellFormed (ih fun w hw => hwell w (List.mem_cons_of_mem _ hw))
        (hwell _ List.mem_cons_self)

theorem history_cons (key : String) (d : Dict) (earlier : List Dict) :
    history key (d :: earlier) =
      match d.get key with
      | none => history key earlier
      | some v => v :: history key earlier := by
  rw [history, List.filterMap_cons]
  cases d.get key <;> rfl

theorem merges_wellFormed {dicts : List Dict} {t : Dict} (h : Merges dicts t)
    (hdicts : ∀ d ∈ dicts, d.wellFormed = true) : t.wellFormed = true := by
  induction h with
  | nil => rfl
  | cons _ hnew ih =>
      have htarget := ih fun d hd => hdicts d (List.mem_cons_of_mem _ hd)
      exact addEntries_wellFormed (fun _ w _ => newValue_wellFormed w)
        (hdicts _ List.mem_cons_self) htarget hnew

/-- A merge is a run for every key. -/
theorem Merges.runs {dicts : List Dict} {t : Dict} (h : Merges dicts t)
    (hdicts : ∀ d ∈ dicts, d.wellFormed = true) (key : String) :
    Runs (history key dicts) (t.get key) := by
  induction h with
  | nil => exact .nil
  | @cons d t t' earlier hearlier hnew ih =>
      have hrest : ∀ d ∈ earlier, d.wellFormed = true := fun d hd =>
        hdicts d (List.mem_cons_of_mem _ hd)
      have hbecomes := addEntries_becomes (hdicts d List.mem_cons_self)
        (merges_wellFormed hearlier hrest) hnew key
      rw [history_cons]
      cases hget : d.get key with
      | none =>
          rw [hget] at hbecomes
          rw [show t'.get key = t.get key from hbecomes]
          exact ih hrest
      | some v =>
          rw [hget] at hbecomes
          exact .cons (ih hrest) hbecomes

theorem merges_of_runs {dicts : List Dict} (hdicts : ∀ d ∈ dicts, d.wellFormed = true)
    (h : ∀ key, ∃ value, Runs (history key dicts) value) : ∃ t, Merges dicts t := by
  induction dicts with
  | nil => exact ⟨.nil, .nil⟩
  | cons d earlier ih =>
      have hrest : ∀ d ∈ earlier, d.wellFormed = true := fun d hd =>
        hdicts d (List.mem_cons_of_mem _ hd)
      obtain ⟨t, ht⟩ := ih hrest fun key => by
        obtain ⟨value, hvalue⟩ := h key
        rw [history_cons] at hvalue
        cases hget : d.get key with
        | none =>
            rw [hget] at hvalue
            exact ⟨value, hvalue⟩
        | some v =>
            rw [hget] at hvalue
            cases hvalue with
            | cons hearlier _ => exact ⟨_, hearlier⟩
      obtain ⟨t', ht'⟩ := addEntries_of_becomes (hdicts d List.mem_cons_self)
        (merges_wellFormed ht hrest) fun key v hv => by
          obtain ⟨value, hvalue⟩ := h key
          rw [history_cons, hv] at hvalue
          cases hvalue with
          | cons hearlier hnew => exact ⟨value, (ht.runs hrest key).functional hearlier ▸ hnew⟩
      exact ⟨t', .cons ht ht'⟩

/-! ## The whole list -/

theorem mergeInto_cons {t r : Dict} {d : Dict} {dicts : List Dict} :
    mergeInto t (d :: dicts) = .ok (r, d :: dicts) ↔
      ∃ t', addEntries t d = .ok (t', d) ∧ mergeInto t' dicts = .ok (r, dicts) := by
  simp only [mergeInto, bind, Except.bind]
  cases hentries : addEntries t d with
  | error e => simp
  | ok first =>
      obtain ⟨t', d'⟩ := first
      simp only [Except.ok.injEq, Prod.mk.injEq]
      cases hrest : mergeInto t' dicts with
      | error e =>
          constructor
          · intro h
            cases h
          · rintro ⟨_, ⟨rfl, rfl⟩, h⟩
            rw [hrest] at h
            cases h
      | ok others =>
          obtain ⟨r', dicts'⟩ := others
          simp only [Except.ok.injEq, Prod.mk.injEq, List.cons.injEq]
          constructor
          · rintro ⟨rfl, rfl, rfl⟩
            exact ⟨t', ⟨rfl, rfl⟩, hrest⟩
          · rintro ⟨_, ⟨rfl, rfl⟩, h⟩
            rw [hrest] at h
            obtain ⟨rfl, rfl⟩ := Prod.mk.inj (Except.ok.inj h)
            exact ⟨rfl, rfl, rfl⟩

theorem merges_of_mergeInto {earlier dicts : List Dict} {t r : Dict} (h : Merges earlier t)
    (hrun : mergeInto t dicts = .ok (r, dicts)) : Merges (dicts.reverse ++ earlier) r := by
  induction dicts generalizing earlier t with
  | nil =>
      obtain ⟨rfl, -⟩ := Prod.mk.inj (Except.ok.inj hrun)
      exact h
  | cons d dicts ih =>
      obtain ⟨t', hfirst, hrest⟩ := mergeInto_cons.mp hrun
      rw [List.reverse_cons, List.append_assoc]
      exact ih (.cons h hfirst) hrest

theorem mergeInto_of_merges {earlier dicts : List Dict} {r : Dict}
    (h : Merges (dicts.reverse ++ earlier) r) :
    ∃ t, Merges earlier t ∧ mergeInto t dicts = .ok (r, dicts) := by
  induction dicts generalizing earlier with
  | nil => exact ⟨r, h, rfl⟩
  | cons d dicts ih =>
      rw [List.reverse_cons, List.append_assoc] at h
      obtain ⟨t', hmerges, hrest⟩ := ih h
      cases hmerges with
      | cons hearlier hfirst => exact ⟨_, hearlier, mergeInto_cons.mpr ⟨t', hfirst, hrest⟩⟩

theorem mergeOrderedDicts_iff {dicts : List Dict} {r : Dict} :
    mergeOrderedDicts dicts = .ok (r, dicts) ↔ Merges dicts.reverse r := by
  constructor
  · intro h
    have hmerges := merges_of_mergeInto .nil h
    rwa [List.append_nil] at hmerges
  · intro h
    rw [← List.append_nil dicts.reverse] at h
    obtain ⟨t, hnil, hrun⟩ := mergeInto_of_merges h
    cases hnil
    exact hrun

/-! ## The inner call -/

theorem addEntry_absent {target : Dict} {k : String} (h : target.get k = none) (v : Json) :
    addEntry target k v =
      if isMark deleteMark v then .error .keyError else .ok (target.set k v, v) := by
  cases v with
  | str text => by_cases hdelete : isMark deleteMark (.str text) = true <;> simp [addEntry, h, hdelete]
  | arr items => simp [addEntry, h, isMark]
  | obj d => simp [addEntry, h, isMark]
  | null => rfl
  | bool value => rfl
  | num text => rfl

theorem addEntries_absent {a : Dict} (ha : a.wellFormed = true) {target : Dict}
    (hnew : ∀ k, (a.get k).isSome = true → target.get k = none) :
    addEntries target a = (copyEntries target a).map fun copied => (copied, a) := by
  induction a generalizing target with
  | nil => rfl
  | cons key value rest ih =>
      obtain ⟨hfresh, -, hrest⟩ := Dict.wellFormed_cons.mp ha
      have hentry := addEntry_absent (hnew key (by simp [Dict.get])) value
      by_cases hdelete : isMark deleteMark value = true
      · simp [addEntries, copyEntries, hentry, hdelete, bind, Except.bind, Except.map]
      · have hrestNew : ∀ k, (rest.get k).isSome = true → (target.set key value).get k = none := by
          intro k hk
          have hne : key ≠ k := fun heq => by
            rw [← heq, hfresh] at hk
            cases hk
          rw [Dict.get_set_of_ne hne]
          exact hnew k (by rwa [Dict.get, if_neg hne])
        have hentries := ih hrest hrestNew
        simp only [addEntries, copyEntries, hentry, if_neg hdelete, hentries, bind, Except.bind]
        cases copyEntries (target.set key value) rest <;> rfl

/-- What `add_entry` does with two dictionaries is a call of `merge_ordered_dicts`. -/
theorem mergeOrderedDicts_pair {a : Dict} (ha : a.wellFormed = true) (d : Dict) :
    mergeOrderedDicts [a, d] =
      (copyEntries .nil a).bind fun result => (addEntries result d).map fun (result, d) =>
        (result, [a, d]) := by
  have hfirst : addEntries .nil a = (copyEntries .nil a).map fun copied => (copied, a) :=
    addEntries_absent ha fun _ _ => rfl
  simp only [mergeOrderedDicts, mergeInto, hfirst, bind, Except.bind]
  cases copyEntries .nil a with
  | error e => rfl
  | ok copied =>
      simp only [Except.map]
      cases addEntries copied d <;> rfl

end Qmk.JsonSchema
