import Qmk.JsonSchema.Histories

/-!
# Which dictionaries are merged as the docstring says

A run of the values of a key holds what `heldOf` says.  Within merged dictionaries the same is said of
the histories of their keys, and the proofs go down into them.
-/

namespace Qmk.JsonSchema

open Qmk.Lib

/-! ## What a run holds -/

/-- What is held, and the value of the key. -/
inductive Shape : Kept → Option Json → Prop where
  | absent : Shape .absent none
  | plain {v : Json} (hscalar : isScalar v = true) (hdelete : isMark deleteMark v = false) :
      Shape (.plain v) (some v)
  | array (items : Items) : Shape (.array items) (some (.arr items))
  | first (d : Dict) : Shape (.dicts [d]) (some (.obj d))
  | merged {run : List Dict} {a : Dict} (hlength : 2 ≤ run.length)
      (hreset : a.get resetMark = none)
      (hkeys : ∀ key, key ≠ resetMark → Runs (history key run) (a.get key))
      (hmark : ∃ value, Runs (history resetMark run) value) : Shape (.dicts run) (some (.obj a))

/-- The dictionary that is held before the next one is merged. -/
theorem Shape.obj {held : Kept} {a : Dict} (h : Shape held (some (.obj a))) :
    ∃ run, held = .dicts run ∧ run ≠ [] ∧
      (copyEntries .nil a = .ok a → (∀ key, key ≠ resetMark → Runs (history key run) (a.get key)) ∧
        ∃ value, Runs (history resetMark run) value) := by
  cases h with
  | plain hscalar _ => cases hscalar
  | first =>
      refine ⟨[a], rfl, List.cons_ne_nil _ _, fun hcopy => ?_⟩
      have hruns (key : String) : Runs (history key [a]) (a.get key) := by
        rw [history_cons]
        cases hget : a.get key with
        | none => exact .nil
        | some v =>
            have hdelete := plain_of_copyEntries hcopy key v hget
            have hnew : Becomes none v (some v) := by
              cases v <;> simp_all [Becomes, newValue]
            exact .cons .nil hnew
      exact ⟨fun key _ => hruns key, _, hruns resetMark⟩
  | @merged run a hlength _ hkeys hmark =>
      refine ⟨run, rfl, fun hnil => ?_, fun _ => ⟨hkeys, hmark⟩⟩
      rw [hnil] at hlength
      cases hlength

theorem Shape.none {held : Kept} (h : Shape held none) : held = .absent := by
  cases h
  rfl

theorem Shape.arr {held : Kept} {items : Items} (h : Shape held (some (.arr items))) :
    held = .array items := by
  cases h with
  | plain hscalar _ => cases hscalar
  | array => rfl

theorem not_erase_of_hasReset {d : Dict} (hd : d.wellFormed = true) (h : hasReset d = true) :
    d.erase resetMark ≠ d := fun heq => by
  rw [hasReset, ← heq, Dict.get_erase_self hd] at h
  cases h

/-- A merge of one more dictionary. -/
theorem becomes_obj {a d : Dict} {new : Option Json} (ha : a.wellFormed = true)
    (hd : d.wellFormed = true) (h : Becomes (some (.obj a)) (.obj d) new) :
    d.get resetMark = none ∧ copyEntries .nil a = .ok a ∧
      ∃ t, addEntries a d = .ok (t, d) ∧ new = some (.obj (t.erase resetMark)) := by
  simp only [Becomes, newValue] at h
  split at h
  · obtain ⟨-, hsame⟩ := Prod.mk.inj (Except.ok.inj h)
    exact absurd (Json.obj.inj hsame) (not_erase_of_hasReset hd ‹_›)
  · rename_i hreset
    have hnone : d.get resetMark = none := by simpa [hasReset] using hreset
    simp only [bind, Except.bind] at h
    cases hcopy : copyEntries .nil a with
    | error e => simp [hcopy] at h
    | ok copied =>
        obtain rfl : a = copied := Except.ok.inj
          ((copyEntries_nil ha (plain_of_copyEntries hcopy)).symm.trans hcopy)
        simp only [hcopy] at h
        cases hentries : addEntries a d with
        | error e => simp [hentries] at h
        | ok result =>
            simp only [hentries] at h
            obtain ⟨rfl, hsame⟩ := Prod.mk.inj (Except.ok.inj h)
            exact ⟨hnone, rfl, result.1, by rw [← Json.obj.inj hsame], rfl⟩

/-- A dictionary can only be merged with a dictionary. -/
theorem exists_obj_of_becomes {old : Json} {d : Dict} {new : Option Json}
    (hd : d.wellFormed = true) (h : Becomes (some old) (.obj d) new) : ∃ a, old = .obj a := by
  cases old with
  | obj a => exact ⟨a, rfl⟩
  | _ =>
      simp only [Becomes, newValue] at h
      split at h
      · obtain ⟨-, hsame⟩ := Prod.mk.inj (Except.ok.inj h)
        exact absurd (Json.obj.inj hsame) (not_erase_of_hasReset hd ‹_›)
      · cases h

theorem becomes_obj_of {a d t : Dict} (hreset : d.get resetMark = none)
    (hcopy : copyEntries .nil a = .ok a) (hentries : addEntries a d = .ok (t, d)) :
    Becomes (some (.obj a)) (.obj d) (some (.obj (t.erase resetMark))) := by
  have hnot : hasReset d = false := by simp [hasReset, hreset]
  simp [Becomes, newValue, hnot, hcopy, hentries, bind, Except.bind]

theorem newValue_scalar {v : Json} (h : isScalar v = true) (old : Option Json) :
    newValue old v =
      if isMark deleteMark v then
        match old with
        | none => .error .keyError
        | some _ => .ok (none, v)
      else .ok (some v, v) := by
  cases v with
  | arr items => cases h
  | obj d => cases h
  | _ => rfl

theorem hold_scalar {v : Json} (h : isScalar v = true) (held : Kept) :
    hold held v = if isMark deleteMark v then .absent else .plain v := by
  cases v with
  | arr items => cases h
  | obj d => cases h
  | _ => rfl

theorem shape_scalar {v : Json} (hscalar : isScalar v = true) {held : Kept}
    {old new : Option Json} (hnew : Becomes old v new) : Shape (hold held v) new := by
  rw [Becomes, newValue_scalar hscalar] at hnew
  rw [hold_scalar hscalar]
  cases hdelete : isMark deleteMark v with
  | true =>
      rw [hdelete] at hnew
      cases old with
      | none => cases hnew
      | some old =>
          obtain ⟨rfl, -⟩ := Prod.mk.inj (Except.ok.inj hnew)
          exact .absent
  | false =>
      rw [hdelete] at hnew
      obtain ⟨rfl, -⟩ := Prod.mk.inj (Except.ok.inj hnew)
      exact .plain hscalar hdelete

theorem shape_arr {items : Items} {held : Kept} {old new : Option Json} (hshape : Shape held old)
    (hnew : Becomes old (.arr items) new) : Shape (hold held (.arr items)) new := by
  cases old with
  | none =>
      obtain ⟨rfl, -⟩ := Prod.mk.inj (Except.ok.inj hnew)
      cases hshape
      exact .array items
  | some old =>
      cases items with
      | nil => cases hnew
      | cons head rest =>
          simp only [Becomes, newValue] at hnew
          cases hreset : isMark resetMark head with
          | true =>
              rw [hreset] at hnew
              obtain ⟨rfl, -⟩ := Prod.mk.inj (Except.ok.inj hnew)
              cases hshape with
              | array before =>
                  simp only [hold, startsWithReset, hreset, if_true]
                  exact .array rest
              | _ => exact .array rest
          | false =>
              rw [hreset] at hnew
              cases old with
              | arr before =>
                  obtain ⟨rfl, -⟩ := Prod.mk.inj (Except.ok.inj hnew)
                  cases hshape with
                  | array =>
                      simp only [hold, startsWithReset, hreset]
                      exact .array _
                  | plain hscalar _ => cases hscalar
              | _ => cases hnew

theorem shape_obj {d : Dict} {held : Kept} {old new : Option Json} (hshape : Shape held old)
    (hold' : WellFormed old) (hd : d.wellFormed = true) (hnew : Becomes old (.obj d) new) :
    Shape (hold held (.obj d)) new := by
  cases old with
  | none =>
      obtain ⟨rfl, -⟩ := Prod.mk.inj (Except.ok.inj hnew)
      cases hshape
      exact .first d
  | some old =>
      obtain ⟨a, rfl⟩ := exists_obj_of_becomes hd hnew
      have ha : a.wellFormed = true := hold' (.obj a) rfl
      obtain ⟨hreset, hcopy, t, hentries, rfl⟩ := becomes_obj ha hd hnew
      obtain ⟨run, rfl, hne, hkeys⟩ := hshape.obj
      obtain ⟨hkeys, hmark⟩ := hkeys hcopy
      have ht : t.wellFormed = true :=
        addEntries_wellFormed (fun _ w _ => newValue_wellFormed w) hd ha hentries
      refine .merged ?_ (Dict.get_erase_self ht) (fun key hkey => ?_) ?_
      · have hpos := List.length_pos_iff.mpr hne
        rw [List.length_cons]
        omega
      · rw [Dict.get_erase_of_ne (Ne.symm hkey), history_cons]
        have hbecomes := addEntries_becomes hd ha hentries key
        cases hget : d.get key with
        | none =>
            rw [hget] at hbecomes
            rw [show t.get key = a.get key from hbecomes]
            exact hkeys key hkey
        | some w =>
            rw [hget] at hbecomes
            exact .cons (hkeys key hkey) hbecomes
      · rw [history_cons, hreset]
        exact hmark

theorem shape_of_runs {h : List Json} {value : Option Json} (hrun : Runs h value)
    (hwell : ∀ v ∈ h, v.wellFormed = true) : Shape (heldOf h) value := by
  induction hrun with
  | nil => exact .absent
  | @cons v earlier old new hearlier hnew ih =>
      have hrest : ∀ w ∈ earlier, w.wellFormed = true := fun w hw =>
        hwell w (List.mem_cons_of_mem _ hw)
      have hshape := ih hrest
      cases v with
      | obj d =>
          exact shape_obj hshape (hearlier.wellFormed hrest) (hwell _ List.mem_cons_self) hnew
      | arr items => exact shape_arr hshape hnew
      | _ => exact shape_scalar rfl hnew

/-! ## Safe histories -/

/-- The dictionaries that are held stand in the history. -/
theorem mem_of_heldOf {h : List Json} {run : List Dict} (hheld : heldOf h = .dicts run) :
    ∀ d ∈ run, .obj d ∈ h := by
  induction h generalizing run with
  | nil => cases hheld
  | cons v earlier ih =>
      rw [heldOf] at hheld
      cases v with
      | obj d =>
          cases hearlier : heldOf earlier with
          | dicts others =>
              rw [hearlier] at hheld
              obtain rfl := Kept.dicts.inj hheld
              exact List.forall_mem_cons.mpr ⟨List.mem_cons_self, fun e he =>
                List.mem_cons_of_mem _ (ih hearlier e he)⟩
          | _ =>
              rw [hearlier] at hheld
              obtain rfl := Kept.dicts.inj hheld
              intro e he
              rw [List.mem_singleton.mp he]
              exact List.mem_cons_self
      | arr items =>
          cases hearlier : heldOf earlier with
          | array before =>
              rw [hearlier] at hheld
              simp only [hold] at hheld
              split at hheld <;> cases hheld
          | _ => rw [hearlier] at hheld; cases hheld
      | str text =>
          rw [hold_scalar rfl] at hheld
          split at hheld <;> cases hheld
      | _ => cases hheld

theorem wellFormed_history {dicts : List Dict} (h : ∀ d ∈ dicts, d.wellFormed = true)
    (key : String) : ∀ v ∈ history key dicts, v.wellFormed = true := by
  intro v hv
  obtain ⟨d, hd, hget⟩ := List.mem_filterMap.mp hv
  exact Dict.wellFormed_get (h d hd) hget

theorem runs_earlier {key : String} {d : Dict} {run : List Dict} {value : Option Json}
    (h : Runs (history key (d :: run)) value) : ∃ old, Runs (history key run) old := by
  rw [history_cons] at h
  cases hget : d.get key with
  | none =>
      rw [hget] at h
      exact ⟨value, h⟩
  | some v =>
      rw [hget] at h
      cases h with
      | cons hearlier _ => exact ⟨_, hearlier⟩

/-- A marker is never a value. -/
theorem plain_of_runs {h : List Json} {v : Json} (hrun : Runs h (some v))
    (hwell : ∀ w ∈ h, w.wellFormed = true) : isMark deleteMark v = false := by
  have hshape := shape_of_runs hrun hwell
  generalize heldOf h = held at hshape
  cases hshape with
  | plain _ hdelete => exact hdelete
  | _ => rfl

/-- Merged dictionaries can be copied. -/
theorem copyEntries_held {run : List Dict} {a : Dict} (hshape : Shape (.dicts run) (some (.obj a)))
    (ha : a.wellFormed = true) (hrun : ∀ d ∈ run, d.wellFormed = true)
    (hkeys : ∀ key, ∃ old, Runs (history key run) old) : copyEntries .nil a = .ok a := by
  refine copyEntries_nil ha fun k v hv => ?_
  cases hshape with
  | first =>
      obtain ⟨old, hold⟩ := hkeys k
      rw [history_cons, hv] at hold
      cases hold with
      | cons hnil hnew =>
          cases hnil
          by_contra hdelete
          rw [Bool.not_eq_false] at hdelete
          have hscalar : isScalar v = true := by cases v <;> first | rfl | cases hdelete
          rw [Becomes, newValue_scalar hscalar, hdelete] at hnew
          cases hnew
  | merged _ hreset hruns _ =>
      have hne : k ≠ resetMark := fun heq => by
        rw [heq, hreset] at hv
        cases hv
      have hvalue := hruns k hne
      rw [hv] at hvalue
      exact plain_of_runs hvalue (wellFormed_history hrun k)

theorem runs_of_safe {h : List Json} (hsafe : Safe h) (hwell : ∀ v ∈ h, v.wellFormed = true) :
    ∃ value, Runs h value := by
  induction hsafe with
  | nil => exact ⟨none, .nil⟩
  | @scalar v earlier _ hscalar hdelete ih =>
      obtain ⟨old, hold⟩ := ih fun w hw => hwell w (List.mem_cons_of_mem _ hw)
      refine ⟨some v, .cons hold ?_⟩
      rw [Becomes, newValue_scalar hscalar, hdelete]
      rfl
  | @delete v earlier _ hdelete hpresent ih =>
      have hrest : ∀ w ∈ earlier, w.wellFormed = true := fun w hw =>
        hwell w (List.mem_cons_of_mem _ hw)
      obtain ⟨old, hold⟩ := ih hrest
      have hshape := shape_of_runs hold hrest
      have hscalar : isScalar v = true := by cases v <;> first | rfl | cases hdelete
      cases old with
      | none => exact absurd hshape.none hpresent
      | some old =>
          refine ⟨none, .cons hold ?_⟩
          rw [Becomes, newValue_scalar hscalar, hdelete]
          rfl
  | @first v earlier _ habsent hdelete ih =>
      have hrest : ∀ w ∈ earlier, w.wellFormed = true := fun w hw =>
        hwell w (List.mem_cons_of_mem _ hw)
      obtain ⟨old, hold⟩ := ih hrest
      have hshape := shape_of_runs hold hrest
      rw [habsent] at hshape
      cases hshape
      refine ⟨some v, .cons hold ?_⟩
      cases v with
      | str text => 
          rw [Becomes, newValue_scalar rfl, hdelete]
          rfl
      | _ => rfl
  | @reset items earlier _ hreset ih =>
      obtain ⟨old, hold⟩ := ih fun w hw => hwell w (List.mem_cons_of_mem _ hw)
      cases items with
      | nil => cases hreset
      | cons head rest =>
          cases old with
          | none => exact ⟨_, .cons hold rfl⟩
          | some old =>
              refine ⟨some (.arr rest), .cons hold ?_⟩
              have hmark : isMark resetMark head = true := hreset
              simp [Becomes, newValue, hmark]
  | @append items before earlier _ harray hne ih =>
      have hrest : ∀ w ∈ earlier, w.wellFormed = true := fun w hw =>
        hwell w (List.mem_cons_of_mem _ hw)
      obtain ⟨old, hold⟩ := ih hrest
      have hshape := shape_of_runs hold hrest
      rw [harray] at hshape
      cases hshape
      cases items with
      | nil => exact absurd rfl hne
      | cons head rest =>
          cases hmark : isMark resetMark head with
          | true => exact ⟨some (.arr rest), .cons hold (by simp [Becomes, newValue, hmark])⟩
          | false =>
              exact ⟨some (.arr (concat before (.cons head rest))), .cons hold
                (by simp [Becomes, newValue, hmark])⟩
  | @merge d run earlier _ hdicts hreset _ ih ihkeys =>
      have hrest : ∀ w ∈ earlier, w.wellFormed = true := fun w hw =>
        hwell w (List.mem_cons_of_mem _ hw)
      obtain ⟨old, hold⟩ := ih hrest
      have hshape := shape_of_runs hold hrest
      have hrun : ∀ e ∈ run, e.wellFormed = true := fun e he =>
        hrest (.obj e) (mem_of_heldOf hdicts e he)
      have hd : d.wellFormed = true := hwell (.obj d) List.mem_cons_self
      have hkeys (key : String) : ∃ value, Runs (history key (d :: run)) value :=
        ihkeys key (wellFormed_history (List.forall_mem_cons.mpr ⟨hd, hrun⟩) key)
      have hearlier (key : String) : ∃ value, Runs (history key run) value := by
        obtain ⟨value, hvalue⟩ := hkeys key
        exact runs_earlier hvalue
      rw [hdicts] at hshape
      obtain ⟨a, rfl⟩ : ∃ a, old = some (.obj a) := by cases hshape <;> exact ⟨_, rfl⟩
      have ha : a.wellFormed = true := hold.wellFormed hrest (.obj a) rfl
      have hcopy := copyEntries_held hshape ha hrun hearlier
      obtain ⟨_, hsame, -, hruns⟩ := hshape.obj
      obtain rfl := Kept.dicts.inj hsame
      obtain ⟨t, ht⟩ := addEntries_of_becomes hd ha fun k v hv => by
        have hne : k ≠ resetMark := fun heq => by
          rw [heq, hreset] at hv
          cases hv
        obtain ⟨value, hvalue⟩ := hkeys k
        rw [history_cons, hv] at hvalue
        cases hvalue with
        | cons hbefore hnew => exact ⟨value, ((hruns hcopy).1 k hne).functional hbefore ▸ hnew⟩
      exact ⟨_, .cons hold (becomes_obj_of hreset hcopy ht)⟩

/-- The values of the history are smaller than this. -/
def Within (n : Nat) (h : List Json) : Prop := ∀ v ∈ h, sizeOf v < n

theorem within_history {n : Nat} {h : List Json} {run : List Dict} (hwithin : Within (n + 1) h)
    (hrun : ∀ d ∈ run, .obj d ∈ h) (key : String) : Within n (history key run) := by
  intro v hv
  obtain ⟨d, hd, hget⟩ := List.mem_filterMap.mp hv
  have hsmall := Dict.sizeOf_get_lt hget
  have hbound := hwithin (.obj d) (hrun d hd)
  omega

theorem exists_within (h : List Json) : ∃ n, Within n h := by
  induction h with
  | nil => exact ⟨0, fun _ hv => absurd hv List.not_mem_nil⟩
  | cons v earlier ih =>
      obtain ⟨n, hn⟩ := ih
      refine ⟨max n (sizeOf v + 1), List.forall_mem_cons.mpr ⟨by omega, fun w hw => ?_⟩⟩
      have := hn w hw
      omega

theorem safe_scalar {v : Json} {earlier : List Json} {old new : Option Json}
    (hscalar : isScalar v = true) (hsafe : Safe earlier) (hshape : Shape (heldOf earlier) old)
    (hnew : Becomes old v new) : Safe (v :: earlier) := by
  rw [Becomes, newValue_scalar hscalar] at hnew
  cases hdelete : isMark deleteMark v with
  | false => exact .scalar hsafe hscalar hdelete
  | true =>
      rw [hdelete] at hnew
      cases old with
      | none => cases hnew
      | some old =>
          refine .delete hsafe hdelete fun habsent => ?_
          rw [habsent] at hshape
          cases hshape

theorem safe_arr {items : Items} {earlier : List Json} {old new : Option Json}
    (hsafe : Safe earlier) (hshape : Shape (heldOf earlier) old)
    (hnew : Becomes old (.arr items) new) : Safe (.arr items :: earlier) := by
  cases old with
  | none => exact .first hsafe hshape.none rfl
  | some old =>
      cases items with
      | nil => cases hnew
      | cons head rest =>
          cases hmark : isMark resetMark head with
          | true => exact .reset hsafe hmark
          | false =>
              simp only [Becomes, newValue] at hnew
              rw [hmark] at hnew
              cases old with
              | arr before => exact .append hsafe hshape.arr fun h => Items.noConfusion h
              | _ => cases hnew

theorem safe_of_runs_within {n : Nat} {h : List Json} {value : Option Json} (hrun : Runs h value)
    (hwell : ∀ v ∈ h, v.wellFormed = true) (hwithin : Within n h) : Safe h := by
  induction n generalizing h value with
  | zero =>
      cases h with
      | nil => exact .nil
      | cons v earlier => exact absurd (hwithin v List.mem_cons_self) (Nat.not_lt_zero _)
  | succ n ihn =>
      induction hrun with
      | nil => exact .nil
      | @cons v earlier old new hearlier hnew ih =>
          have hrest : ∀ w ∈ earlier, w.wellFormed = true := fun w hw =>
            hwell w (List.mem_cons_of_mem _ hw)
          have hsafe := ih hrest fun w hw => hwithin w (List.mem_cons_of_mem _ hw)
          have hshape := shape_of_runs hearlier hrest
          cases v with
          | obj d =>
              cases old with
              | none => exact .first hsafe hshape.none rfl
              | some old =>
                  have hd : d.wellFormed = true := hwell (.obj d) List.mem_cons_self
                  have hnext := shape_of_runs (.cons hearlier hnew) hwell
                  obtain ⟨a, rfl⟩ := exists_obj_of_becomes hd hnew
                  have ha : a.wellFormed = true := hearlier.wellFormed hrest (.obj a) rfl
                  obtain ⟨hreset, hcopy, t, hentries, rfl⟩ := becomes_obj ha hd hnew
                  obtain ⟨run, hheld, hne, -⟩ := hshape.obj
                  rw [heldOf, hheld] at hnext
                  have hmem : ∀ e ∈ d :: run, .obj e ∈ Json.obj d :: earlier :=
                    List.forall_mem_cons.mpr ⟨List.mem_cons_self, fun e he =>
                      List.mem_cons_of_mem _ (mem_of_heldOf hheld e he)⟩
                  refine .merge hsafe hheld hreset fun key => ?_
                  have hkey : ∃ value, Runs (history key (d :: run)) value := by
                    cases hnext with
                    | first => exact absurd rfl hne
                    | merged _ _ hkeys hmark =>
                        by_cases hmarked : key = resetMark
                        · rw [hmarked]
                          exact hmark
                        · exact ⟨_, hkeys key hmarked⟩
                  obtain ⟨value, hvalue⟩ := hkey
                  exact ihn hvalue (wellFormed_history (fun e he => hwell _ (hmem e he)) key)
                    (within_history hwithin hmem key)
          | arr items => exact safe_arr hsafe hshape hnew
          | _ => exact safe_scalar rfl hsafe hshape hnew

theorem safe_of_runs {h : List Json} {value : Option Json} (hrun : Runs h value)
    (hwell : ∀ v ∈ h, v.wellFormed = true) : Safe h := by
  obtain ⟨n, hwithin⟩ := exists_within h
  exact safe_of_runs_within hrun hwell hwithin

/-! ## Markers -/

theorem unmarkedDict_iff {dict : Dict} (h : dict.wellFormed = true) :
    unmarkedDict dict = true ↔
      dict.get resetMark = none ∧ ∀ k v, dict.get k = some v → unmarked v = true := by
  induction dict with
  | nil => simp [unmarkedDict, Dict.get]
  | cons key value rest ih =>
      obtain ⟨hfresh, -, hrest⟩ := Dict.wellFormed_cons.mp h
      rw [unmarkedDict, Bool.and_eq_true, Bool.and_eq_true, decide_eq_true_eq, ih hrest]
      constructor
      · rintro ⟨⟨hkey, hvalue⟩, hreset, hothers⟩
        refine ⟨by rw [Dict.get, if_neg hkey, hreset], fun k v hv => ?_⟩
        rw [Dict.get] at hv
        split at hv
        · rwa [← Option.some.inj hv]
        · exact hothers k v hv
      · rintro ⟨hreset, hothers⟩
        have hkey : key ≠ resetMark := fun heq => by simp [Dict.get, heq] at hreset
        rw [Dict.get, if_neg hkey] at hreset
        refine ⟨⟨hkey, hothers key value (by simp [Dict.get])⟩, hreset, fun k v hv => ?_⟩
        have hne : key ≠ k := fun heq => by
          rw [← heq, hfresh] at hv
          cases hv
        exact hothers k v (by rw [Dict.get, if_neg hne, hv])

theorem unmarked_of_clean {held : Kept} (hclean : Clean held) {h : List Json}
    (hheld : heldOf h = held) {v : Json} (hrun : Runs h (some v))
    (hwell : ∀ w ∈ h, w.wellFormed = true) : unmarked v = true := by
  induction hclean generalizing h v with
  | absent =>
      have hshape := shape_of_runs hrun hwell
      rw [hheld] at hshape
      cases hshape
  | plain hvalue =>
      have hshape := shape_of_runs hrun hwell
      rw [hheld] at hshape
      cases hshape
      exact hvalue
  | array hitems =>
      have hshape := shape_of_runs hrun hwell
      rw [hheld] at hshape
      cases hshape
      exact hitems
  | first hd =>
      have hshape := shape_of_runs hrun hwell
      rw [hheld] at hshape
      cases hshape with
      | first => exact hd
      | merged hlength => exact absurd hlength (by simp)
  | @merged run hlength _ ih =>
      have hshape := shape_of_runs hrun hwell
      rw [hheld] at hshape
      have hrunWell : ∀ d ∈ run, d.wellFormed = true := fun d hd =>
        hwell (.obj d) (mem_of_heldOf hheld d hd)
      have hvalue := hrun.wellFormed hwell
      cases hshape with
      | first => exact absurd hlength (by simp)
      | @merged _ a _ hreset hkeys _ =>
          refine (unmarkedDict_iff (hvalue (.obj a) rfl)).mpr ⟨hreset, fun k w hw => ?_⟩
          have hne : k ≠ resetMark := fun heq => by
            rw [heq, hreset] at hw
            cases hw
          exact ih k hne rfl (hw ▸ hkeys k hne) (wellFormed_history hrunWell k)

theorem clean_of_unmarked_within {n : Nat} {h : List Json} {value : Option Json}
    (hrun : Runs h value) (hvalue : ∀ v ∈ value, unmarked v = true)
    (hwell : ∀ w ∈ h, w.wellFormed = true) (hwithin : Within n h) : Clean (heldOf h) := by
  induction n generalizing h value with
  | zero =>
      cases h with
      | nil => exact .absent
      | cons v earlier => exact absurd (hwithin v List.mem_cons_self) (Nat.not_lt_zero _)
  | succ n ih =>
      have hshape := shape_of_runs hrun hwell
      have hmem := @mem_of_heldOf h
      generalize heldOf h = held at hshape hmem
      cases hshape with
      | absent => exact .absent
      | @plain v => exact .plain (hvalue v rfl)
      | array items => exact .array (hvalue (.arr items) rfl)
      | first d => exact .first (hvalue (.obj d) rfl)
      | @merged run a hlength hreset hkeys _ =>
          have ha := (unmarkedDict_iff (hrun.wellFormed hwell (.obj a) rfl)).mp
            (hvalue (.obj a) rfl)
          refine .merged hlength fun key hkey => ?_
          exact ih (hkeys key hkey) (fun w hw => ha.2 key w hw)
            (wellFormed_history (fun d hd => hwell (.obj d) (hmem rfl d hd)) key)
            (within_history hwithin (hmem rfl) key)

theorem clean_iff {h : List Json} {value : Option Json} (hrun : Runs h value)
    (hwell : ∀ w ∈ h, w.wellFormed = true) :
    Clean (heldOf h) ↔ ∀ v ∈ value, unmarked v = true := by
  constructor
  · rintro hclean v rfl
    exact unmarked_of_clean hclean rfl hrun hwell
  · intro hvalue
    obtain ⟨n, hwithin⟩ := exists_within h
    exact clean_of_unmarked_within hrun hvalue hwell hwithin

/-! ## What the docstring asks for -/

/-- What counts is what is held, but for markers. -/
inductive Alike : Kept → Kept → Prop where
  | absent : Alike .absent .absent
  | plain (value : Json) : Alike (.plain value) (.plain value)
  | array (items : Items) : Alike (.array items) (.array items)
  | marked (items : Items) {held : Items} (h : startsWithReset held = true) :
      Alike (.array items) (.array held)
  | dicts (run : List Dict) : Alike (.dicts run) (.dicts run)

theorem startsWithReset_concat {items : Items} (h : startsWithReset items = true)
    (others : Items) : startsWithReset (concat items others) = true := by
  cases items with
  | nil => cases h
  | cons head rest => exact h

theorem unmarked_not_startsWithReset {items : Items} (h : unmarkedItems items = true) :
    startsWithReset items = false := by
  cases items with
  | nil => rfl
  | cons head rest =>
      rw [unmarkedItems, Bool.and_eq_true] at h
      cases head with
      | str text =>
          have htext := h.1
          simp only [unmarked, Bool.and_eq_true, decide_eq_true_eq] at htext
          simpa [startsWithReset, isMark] using htext.1
      | _ => rfl

theorem keep_scalar {v : Json} (h : isScalar v = true) (kept : Kept) :
    keep kept v = if isMark deleteMark v then .absent else .plain v := by
  cases v with
  | arr items => cases h
  | obj d => cases h
  | _ => rfl

theorem alike_scalar {v : Json} (h : isScalar v = true) (kept held : Kept) :
    Alike (keep kept v) (hold held v) := by
  rw [keep_scalar h, hold_scalar h]
  split
  · exact .absent
  · exact .plain v

/-- An array can only be appended to an array. -/
theorem reset_or_arr_of_becomes {old : Json} {items : Items} {new : Option Json}
    (h : Becomes (some old) (.arr items) new) :
    startsWithReset items = true ∨ ∃ before, old = .arr before := by
  cases items with
  | nil => cases h
  | cons head rest =>
      cases hmark : isMark resetMark head with
      | true => exact .inl hmark
      | false =>
          simp only [Becomes, newValue] at h
          rw [hmark] at h
          cases old with
          | arr before => exact .inr ⟨before, rfl⟩
          | _ => cases h

theorem alike_arr {items : Items} {kept held : Kept} (halike : Alike kept held)
    {old new : Option Json} (hshape : Shape held old) (hnew : Becomes old (.arr items) new) :
    Alike (keep kept (.arr items)) (hold held (.arr items)) := by
  cases hreset : startsWithReset items with
  | true =>
      cases halike with
      | absent =>
          simp only [keep, hold, hreset, if_true]
          exact .marked _ hreset
      | _ =>
          simp only [keep, hold, hreset, if_true]
          exact .array _
  | false =>
      cases halike with
      | absent =>
          simp only [keep, hold, hreset]
          exact .array items
      | array before =>
          simp only [keep, hold, hreset]
          exact .array _
      | marked before hmarked =>
          simp only [keep, hold, hreset]
          exact .marked _ (startsWithReset_concat hmarked items)
      | plain value =>
          cases hshape with
          | plain hscalar _ =>
              rcases reset_or_arr_of_becomes hnew with htrue | ⟨before, rfl⟩
              · rw [hreset] at htrue
                cases htrue
              · cases hscalar
      | dicts run =>
          obtain ⟨a, rfl⟩ : ∃ a, old = some (.obj a) := by cases hshape <;> exact ⟨_, rfl⟩
          rcases reset_or_arr_of_becomes hnew with htrue | ⟨before, hbefore⟩
          · rw [hreset] at htrue
            cases htrue
          · cases hbefore

theorem alike_obj {d : Dict} {kept held : Kept} (halike : Alike kept held)
    {old new : Option Json} (hshape : Shape held old) (hold' : WellFormed old)
    (hd : d.wellFormed = true) (hnew : Becomes old (.obj d) new) :
    Alike (keep kept (.obj d)) (hold held (.obj d)) := by
  cases old with
  | none =>
      obtain rfl := hshape.none
      cases halike
      exact .dicts [d]
  | some old =>
      obtain ⟨a, rfl⟩ := exists_obj_of_becomes hd hnew
      obtain ⟨hreset, -⟩ := becomes_obj (hold' (.obj a) rfl) hd hnew
      obtain ⟨run, rfl, -⟩ := hshape.obj
      cases halike
      have hnot : hasReset d = false := by simp [hasReset, hreset]
      simp only [keep, hold, hnot]
      exact .dicts (d :: run)

theorem alike_of_runs {h : List Json} {value : Option Json} (hrun : Runs h value)
    (hwell : ∀ w ∈ h, w.wellFormed = true) : Alike (keptOf h) (heldOf h) := by
  induction hrun with
  | nil => exact .absent
  | @cons v earlier old new hearlier hnew ih =>
      have hrest : ∀ w ∈ earlier, w.wellFormed = true := fun w hw =>
        hwell w (List.mem_cons_of_mem _ hw)
      have halike := ih hrest
      have hshape := shape_of_runs hearlier hrest
      cases v with
      | obj d =>
          exact alike_obj halike hshape (hearlier.wellFormed hrest) (hwell _ List.mem_cons_self) hnew
      | arr items => exact alike_arr halike hshape hnew
      | _ => exact alike_scalar rfl _ _

theorem not_delete_of_unmarked {v : Json} (h : unmarked v = true) : isMark deleteMark v = false := by
  cases v with
  | str text =>
      simp only [unmarked, Bool.and_eq_true, decide_eq_true_eq] at h
      simpa [isMark] using h.2
  | _ => rfl

theorem meets_of_runs_within {n : Nat} {h : List Json} {value : Option Json} (hrun : Runs h value)
    (hvalue : ∀ v ∈ value, unmarked v = true) (hwell : ∀ w ∈ h, w.wellFormed = true)
    (hwithin : Within n h) : Meets (keptOf h) value := by
  induction n generalizing h value with
  | zero =>
      cases h with
      | nil =>
          cases hrun
          exact .absent
      | cons v earlier => exact absurd (hwithin v List.mem_cons_self) (Nat.not_lt_zero _)
  | succ n ih =>
      have hshape := shape_of_runs hrun hwell
      have halike := alike_of_runs hrun hwell
      have hmem := @mem_of_heldOf h
      have hobj (a : Dict) (ha : value = some (.obj a)) : Meets (keptOf h) (some (.obj a)) := by
        subst ha
        have hawell : a.wellFormed = true := hrun.wellFormed hwell (.obj a) rfl
        obtain ⟨hreset, hkeys⟩ := (unmarkedDict_iff hawell).mp (hvalue (.obj a) rfl)
        have hcopy := copyEntries_nil hawell fun k v hv => not_delete_of_unmarked (hkeys k v hv)
        obtain ⟨run, hheld, -, hruns⟩ := hshape.obj
        rw [hheld] at halike
        generalize keptOf h = kept at halike
        cases halike
        refine .dicts hreset fun key hkey => ?_
        exact ih ((hruns hcopy).1 key hkey) (fun w hw => hkeys key w hw)
          (wellFormed_history (fun d hd => hwell (.obj d) (hmem hheld d hd)) key)
          (within_history hwithin (hmem hheld) key)
      generalize heldOf h = held at hshape halike
      cases hshape with
      | absent =>
          generalize keptOf h = kept at halike
          cases halike
          exact .absent
      | plain =>
          generalize keptOf h = kept at halike
          cases halike
          exact .plain _
      | array items =>
          have hitems : unmarkedItems items = true := hvalue (.arr items) rfl
          generalize keptOf h = kept at halike
          cases halike with
          | array => exact .array items
          | marked _ hmarked =>
              rw [unmarked_not_startsWithReset hitems] at hmarked
              cases hmarked
      | first d => exact hobj d rfl
      | @merged run a => exact hobj a rfl

/-! ## The whole merge -/

/-- The merge meets its docstring exactly for these lists. -/
theorem meetsDocstring_iff {dicts : List Dict} (hwell : ∀ d ∈ dicts, d.wellFormed = true) :
    MeetsDocstring dicts ↔ Orderly dicts := by
  have hreversed : ∀ d ∈ dicts.reverse, d.wellFormed = true := fun d hd =>
    hwell d (List.mem_reverse.mp hd)
  have hhistory (key : String) := wellFormed_history hreversed key
  constructor
  · rintro ⟨result, hmerge, -, hunmarked⟩
    have hmerges := mergeOrderedDicts_iff.mp hmerge
    have hruns (key : String) := hmerges.runs hreversed key
    have hresult := (unmarkedDict_iff (merges_wellFormed hmerges hreversed)).mp hunmarked
    refine ⟨fun key => safe_of_runs (hruns key) (hhistory key), fun key => ?_, ?_⟩
    · exact (clean_iff (hruns key) (hhistory key)).mpr fun v hv => hresult.2 key v hv
    · have hshape := shape_of_runs (hruns resetMark) (hhistory resetMark)
      rw [hresult.1] at hshape
      exact hshape.none
  · intro horderly
    obtain ⟨result, hmerges⟩ := merges_of_runs hreversed fun key =>
      runs_of_safe (horderly.safe key) (hhistory key)
    have hruns (key : String) := hmerges.runs hreversed key
    have hvalues (key : String) : ∀ v ∈ result.get key, unmarked v = true :=
      (clean_iff (hruns key) (hhistory key)).mp (horderly.clean key)
    have hreset : result.get resetMark = none := by
      have hshape := shape_of_runs (hruns resetMark) (hhistory resetMark)
      rw [horderly.noReset] at hshape
      generalize result.get resetMark = value at hshape
      cases hshape
      rfl
    refine ⟨result, mergeOrderedDicts_iff.mpr hmerges, fun key => ?_, ?_⟩
    · obtain ⟨n, hwithin⟩ := exists_within (history key dicts.reverse)
      exact meets_of_runs_within (hruns key) (hvalues key) (hhistory key) hwithin
    · exact (unmarkedDict_iff (merges_wellFormed hmerges hreversed)).mpr
        ⟨hreset, fun key v hv => hvalues key v hv⟩

/-- The second file removes a keycode of the first one. -/
def twoFiles : List Dict :=
  [.cons "keycodes" (.obj (.cons "0x7E00" (.str "SW_0") (.cons "0x7F00" (.str "SW_1") .nil))) .nil,
    .cons "keycodes" (.obj (.cons "0x7F00" (.str deleteMark) .nil)) .nil]

theorem twoFiles_iff : (∀ d ∈ twoFiles, d.wellFormed = true) ∧
    (MeetsDocstring twoFiles ↔ Orderly twoFiles) :=
  have hwell : ∀ d ∈ twoFiles, d.wellFormed = true := by decide
  ⟨hwell, meetsDocstring_iff hwell⟩

/-- A key is deleted from no dictionary. -/
def deletedKey : Dict := .cons "aliases" (.str deleteMark) .nil

theorem deletedKey_raises :
    mergeOrderedDicts [deletedKey] = .error .keyError ∧ ¬ MeetsDocstring [deletedKey] := by
  have herror : mergeOrderedDicts [deletedKey] = .error .keyError := rfl
  refine ⟨herror, fun ⟨result, hmerge, _⟩ => ?_⟩
  rw [herror] at hmerge
  cases hmerge

end Qmk.JsonSchema
