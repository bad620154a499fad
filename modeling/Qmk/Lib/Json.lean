import Mathlib.Data.List.Basic

/-!
# JSON values with dictionaries addressed by key paths

A dictionary keeps its entries in insertion order.  A number keeps its text, because nothing
here computes with it.
-/

namespace Qmk.Lib

mutual

inductive Json where
  | null
  | bool (value : Bool)
  | num (text : String)
  | str (text : String)
  | arr (items : Items)
  | obj (dict : Dict)

inductive Items where
  | nil
  | cons (head : Json) (tail : Items)

inductive Dict where
  | nil
  | cons (key : String) (value : Json) (rest : Dict)

end

namespace Items

def toList : Items → List Json
  | nil => []
  | cons head tail => head :: tail.toList

def ofList : List Json → Items
  | [] => nil
  | head :: tail => cons head (ofList tail)

def append (items : Items) (last : Json) : Items :=
  ofList (items.toList ++ [last])

end Items

/-- A value that is not a dictionary. -/
def Json.Plain : Json → Prop
  | .obj _ => False
  | _ => True

namespace Dict

/-- Induction along the entries of a dictionary, which ignores what the values are. -/
@[induction_eliminator]
theorem entriesInduction {P : Dict → Prop} (nil : P nil)
    (cons : ∀ key value rest, P rest → P (cons key value rest)) : ∀ dict, P dict
  | .nil => nil
  | .cons key value rest => cons key value rest (entriesInduction nil cons rest)

def get : Dict → String → Option Json
  | nil, _ => none
  | cons key value rest, k => if key = k then some value else rest.get k

/-- Overwrites in place, or appends a new entry. -/
def set : Dict → String → Json → Dict
  | nil, k, v => cons k v nil
  | cons key value rest, k, v =>
      if key = k then cons key v rest else cons key value (rest.set k v)

def erase : Dict → String → Dict
  | nil, _ => nil
  | cons key value rest, k => if key = k then rest else cons key value (rest.erase k)

def entries : Dict → List (String × Json)
  | nil => []
  | cons key value rest => (key, value) :: rest.entries

def update (dict new : Dict) : Dict :=
  new.entries.foldl (fun dict entry => dict.set entry.1 entry.2) dict

variable {dict : Dict} {k k' : String} {v : Json}

@[simp] theorem get_nil (k : String) : nil.get k = none := rfl

@[simp] theorem get_set_self : (dict.set k v).get k = some v := by
  induction dict with
  | nil => simp [set, get]
  | cons key value rest ih =>
      by_cases found : key = k
      · simp [set, get, found]
      · simp [set, get, found, ih]

theorem get_set_of_ne (other : k ≠ k') : (dict.set k v).get k' = dict.get k' := by
  induction dict with
  | nil => simp [set, get, other]
  | cons key value rest ih =>
      by_cases found : key = k
      · simp [set, get, found, other]
      · simp [set, get, found, ih]

theorem get_erase_of_ne (other : k ≠ k') : (dict.erase k).get k' = dict.get k' := by
  induction dict with
  | nil => rfl
  | cons key value rest ih =>
      by_cases found : key = k
      · simp [erase, get, found, other]
      · simp [erase, get, found, ih]

end Dict

mutual

/-- No dictionary inside has two entries with one key. -/
def Json.wellFormed : Json → Bool
  | .arr items => items.wellFormed
  | .obj dict => dict.wellFormed
  | _ => true

def Items.wellFormed : Items → Bool
  | .nil => true
  | .cons head tail => head.wellFormed && tail.wellFormed

def Dict.wellFormed : Dict → Bool
  | .nil => true
  | .cons key value rest => (rest.get key).isNone && value.wellFormed && rest.wellFormed

end

namespace Dict

variable {dict : Dict} {k k' : String} {v : Json}

theorem wellFormed_cons {rest : Dict} :
    (cons k v rest).wellFormed = true ↔
      rest.get k = none ∧ v.wellFormed = true ∧ rest.wellFormed = true := by
  simp [wellFormed, and_assoc]

theorem wellFormed_get (unique : dict.wellFormed = true) (found : dict.get k = some v) :
    v.wellFormed = true := by
  induction dict with
  | nil => simp [get] at found
  | cons key value rest ih =>
      obtain ⟨-, valueUnique, restUnique⟩ := wellFormed_cons.mp unique
      by_cases here : key = k
      · simp only [get, if_pos here, Option.some.injEq] at found
        exact found ▸ valueUnique
      · simp only [get, if_neg here] at found
        exact ih restUnique found

theorem wellFormed_erase (unique : dict.wellFormed = true) :
    (dict.erase k).wellFormed = true := by
  induction dict with
  | nil => rfl
  | cons key value rest ih =>
      obtain ⟨fresh, valueUnique, restUnique⟩ := wellFormed_cons.mp unique
      by_cases here : key = k
      · simpa [erase, here] using restUnique
      · rw [erase, if_neg here, wellFormed_cons]
        exact ⟨by rw [get_erase_of_ne (Ne.symm here), fresh], valueUnique, ih restUnique⟩

theorem get_erase_self (unique : dict.wellFormed = true) : (dict.erase k).get k = none := by
  induction dict with
  | nil => rfl
  | cons key value rest ih =>
      obtain ⟨fresh, -, restUnique⟩ := wellFormed_cons.mp unique
      by_cases here : key = k
      · subst here
        simpa [erase] using fresh
      · simp [erase, get, here, ih restUnique]

theorem wellFormed_set (unique : dict.wellFormed = true) (valueUnique : v.wellFormed = true) :
    (dict.set k v).wellFormed = true := by
  induction dict with
  | nil => simpa [set, wellFormed] using valueUnique
  | cons key value rest ih =>
      obtain ⟨fresh, restValue, restUnique⟩ := wellFormed_cons.mp unique
      by_cases here : key = k
      · subst here
        rw [set, if_pos rfl]
        exact wellFormed_cons.mpr ⟨fresh, valueUnique, restUnique⟩
      · rw [set, if_neg here]
        exact wellFormed_cons.mpr
          ⟨by rw [get_set_of_ne (Ne.symm here), fresh], restValue, ih restUnique⟩

theorem sizeOf_get_lt (found : dict.get k = some v) : sizeOf v < sizeOf (Json.obj dict) := by
  induction dict with
  | nil => cases found
  | cons key value rest ih =>
      rw [get] at found
      split at found
      · obtain rfl := Option.some.inj found
        simp only [Json.obj.sizeOf_spec, Dict.cons.sizeOf_spec]
        omega
      · have hrest := ih found
        simp only [Json.obj.sizeOf_spec, Dict.cons.sizeOf_spec] at hrest ⊢
        omega

end Dict

/-! ## Key paths -/

def Json.lookup : Json → List String → Option Json
  | value, [] => some value
  | .obj dict, key :: path => (dict.get key).bind fun value => value.lookup path
  | _, _ :: _ => none

/-- Some prefix of the path leads to a plain value. -/
def Json.Covers : Json → List String → Prop
  | .obj _, [] => False
  | .obj dict, key :: path => ∃ value, dict.get key = some value ∧ value.Covers path
  | _, _ => True

def Dict.lookup (dict : Dict) (path : List String) : Option Json :=
  (Json.obj dict).lookup path

def Dict.Covers (dict : Dict) (path : List String) : Prop :=
  (Json.obj dict).Covers path

namespace Dict

variable {dict : Dict} {key : String} {path : List String} {value : Json}

theorem lookup_cons :
    dict.lookup (key :: path) = (dict.get key).bind fun value => value.lookup path := rfl

theorem covers_cons :
    dict.Covers (key :: path) ↔ ∃ value, dict.get key = some value ∧ value.Covers path := Iff.rfl

theorem not_covers_nil (dict : Dict) : ¬ dict.Covers [] := by
  simp [Covers, Json.Covers]

theorem lookup_nil_ne_plain (dict : Dict) (plain : value.Plain) : dict.lookup [] ≠ some value := by
  intro found
  simp only [lookup, Json.lookup, Option.some.injEq] at found
  subst found
  exact plain

theorem lookup_congr {dict' : Dict} (same : dict.get key = dict'.get key) :
    dict.lookup (key :: path) = dict'.lookup (key :: path) := by
  rw [lookup_cons, lookup_cons, same]

end Dict

namespace Json.Plain

variable {value : Json}

theorem lookup_cons (plain : value.Plain) (key : String) (path : List String) :
    value.lookup (key :: path) = none := by
  cases value with
  | obj dict => exact False.elim plain
  | _ => rfl

theorem covers (plain : value.Plain) (path : List String) : value.Covers path := by
  cases value with
  | obj dict => exact False.elim plain
  | _ => cases path <;> exact True.intro

end Json.Plain

end Qmk.Lib
