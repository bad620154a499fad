import Qmk.Lib.Json

/-!
# `merge_ordered_dicts`

The merge of `json_schema.py`, with the dictionaries that it leaves behind, and what its docstring
promises.  The values that the dictionaries give to a key are its history, the latest one first.
-/

namespace Qmk.JsonSchema

open Qmk.Lib

def resetMark : String := "!reset!"

def deleteMark : String := "!delete!"

inductive MergeError where
  | keyError
  | indexError
  | typeError
  | attributeError
  deriving DecidableEq

def isMark (mark : String) : Json → Bool
  | .str text => text = mark
  | _ => false

def hasReset (dict : Dict) : Bool := (dict.get resetMark).isSome

def startsWithReset : Items → Bool
  | .nil => false
  | .cons head _ => isMark resetMark head

def tail : Items → Items
  | .nil => .nil
  | .cons _ rest => rest

def concat (items others : Items) : Items := Items.ofList (items.toList ++ others.toList)

/-! ## The merge -/

/-- The entries of a dictionary, added to `result`; none of their keys is in it. -/
def copyEntries (result : Dict) : Dict → Except MergeError Dict
  | .nil => .ok result
  | .cons k v rest =>
      if isMark deleteMark v then .error .keyError else copyEntries (result.set k v) rest

mutual

/-- `add_entry`; with the target comes the value as it is left behind. -/
def addEntry (target : Dict) (k : String) : Json → Except MergeError (Dict × Json)
  | .obj d =>
      match target.get k with
      | none => .ok (target.set k (.obj d), .obj d)
      | some old =>
          if hasReset d then
            -- `target[k]` is `v`, from which the mark is deleted
            .ok (target.set k (.obj (d.erase resetMark)), .obj (d.erase resetMark))
          else
            match old with
            | .obj a => do
                let result ← copyEntries .nil a
                let (result, d) ← addEntries result d
                .ok (target.set k (.obj (result.erase resetMark)), .obj d)
            | _ => .error .attributeError
  | .arr items =>
      match target.get k with
      | none => .ok (target.set k (.arr items), .arr items)
      | some old =>
          match items with
          | .nil => .error .indexError
          | .cons head rest =>
              if isMark resetMark head then .ok (target.set k (.arr rest), .arr (.cons head rest))
              else
                match old with
                | .arr earlier =>
                    .ok (target.set k (.arr (concat earlier (.cons head rest))),
                      .arr (.cons head rest))
                | _ => .error .typeError
  | v =>
      if isMark deleteMark v then
        match target.get k with
        | none => .error .keyError
        | some _ => .ok (target.erase k, v)
      else .ok (target.set k v, v)

/-- The loop over `d.items()`; with the target comes the dictionary as it is left behind. -/
def addEntries (target : Dict) : Dict → Except MergeError (Dict × Dict)
  | .nil => .ok (target, .nil)
  | .cons k v rest => do
      let (target, v) ← addEntry target k v
      let (target, rest) ← addEntries target rest
      .ok (target, .cons k v rest)

end

def mergeInto (result : Dict) : List Dict → Except MergeError (Dict × List Dict)
  | [] => .ok (result, [])
  | d :: dicts => do
      let (result, d) ← addEntries result d
      let (result, dicts) ← mergeInto result dicts
      .ok (result, d :: dicts)

/-- The result, and the dictionaries as they are left behind. -/
def mergeOrderedDicts (dicts : List Dict) : Except MergeError (Dict × List Dict) :=
  mergeInto .nil dicts

/-! ## What the docstring promises -/

/-- The values of a key, in the order of the dictionaries. -/
def history (key : String) (dicts : List Dict) : List Json := dicts.filterMap fun d => d.get key

/-- The part of a history that counts; of dictionaries, those that are merged. -/
inductive Kept where
  | absent
  | plain (value : Json)
  | array (items : Items)
  | dicts (run : List Dict)

def keep (kept : Kept) : Json → Kept
  | .obj d =>
      match kept with
      | .dicts run => if hasReset d then .dicts [d] else .dicts (d :: run)
      | _ => .dicts [d]
  | .arr items =>
      if startsWithReset items then .array (tail items)
      else
        match kept with
        | .array earlier => .array (concat earlier items)
        | _ => .array items
  | v => if isMark deleteMark v then .absent else .plain v

/-- What counts of a history, the latest value first. -/
def keptOf : List Json → Kept
  | [] => .absent
  | v :: earlier => keep (keptOf earlier) v

/-- The value of a key is the one that its history asks for. -/
inductive Meets : Kept → Option Json → Prop where
  | absent : Meets .absent none
  | plain (value : Json) : Meets (.plain value) (some value)
  | array (items : Items) : Meets (.array items) (some (.arr items))
  | dicts {run : List Dict} {result : Dict} (hreset : result.get resetMark = none)
      (hkeys : ∀ key, key ≠ resetMark → Meets (keptOf (history key run)) (result.get key)) :
      Meets (.dicts run) (some (.obj result))

mutual

/-- No marker is left. -/
def unmarked : Json → Bool
  | .str text => text ≠ resetMark && text ≠ deleteMark
  | .arr items => unmarkedItems items
  | .obj dict => unmarkedDict dict
  | _ => true

def unmarkedItems : Items → Bool
  | .nil => true
  | .cons head rest => unmarked head && unmarkedItems rest

def unmarkedDict : Dict → Bool
  | .nil => true
  | .cons key value rest => key ≠ resetMark && unmarked value && unmarkedDict rest

end

/-- The merge does not raise, changes none of the dictionaries, and meets its docstring. -/
def MeetsDocstring (dicts : List Dict) : Prop :=
  ∃ result, mergeOrderedDicts dicts = .ok (result, dicts) ∧
    (∀ key, Meets (keptOf (history key dicts.reverse)) (result.get key)) ∧
    unmarkedDict result = true

/-! ## Where the markers may stand -/

/-- A marker in the first value of a key has no effect and stays. -/
def hold (held : Kept) : Json → Kept
  | .obj d =>
      match held with
      | .dicts run => .dicts (d :: run)
      | _ => .dicts [d]
  | .arr items =>
      match held with
      | .absent => .array items
      | .array earlier =>
          if startsWithReset items then .array (tail items) else .array (concat earlier items)
      | _ => .array (tail items)
  | v => if isMark deleteMark v then .absent else .plain v

def heldOf : List Json → Kept
  | [] => .absent
  | v :: earlier => hold (heldOf earlier) v

/-- A value that is neither an array nor a dictionary. -/
def isScalar : Json → Bool
  | .arr _ | .obj _ => false
  | _ => true

/-- Every value of the history may come after the earlier ones. -/
inductive Safe : List Json → Prop where
  | nil : Safe []
  | scalar {v : Json} {earlier : List Json} (h : Safe earlier) (hscalar : isScalar v = true)
      (hdelete : isMark deleteMark v = false) : Safe (v :: earlier)
  | delete {v : Json} {earlier : List Json} (h : Safe earlier)
      (hdelete : isMark deleteMark v = true) (hpresent : heldOf earlier ≠ .absent) :
      Safe (v :: earlier)
  | first {v : Json} {earlier : List Json} (h : Safe earlier) (habsent : heldOf earlier = .absent)
      (hdelete : isMark deleteMark v = false) : Safe (v :: earlier)
  | reset {items : Items} {earlier : List Json} (h : Safe earlier)
      (hreset : startsWithReset items = true) : Safe (.arr items :: earlier)
  | append {items before : Items} {earlier : List Json} (h : Safe earlier)
      (harray : heldOf earlier = .array before) (hne : items ≠ .nil) :
      Safe (.arr items :: earlier)
  | merge {d : Dict} {run : List Dict} {earlier : List Json} (h : Safe earlier)
      (hdicts : heldOf earlier = .dicts run) (hreset : d.get resetMark = none)
      (hkeys : ∀ key, Safe (history key (d :: run))) : Safe (.obj d :: earlier)

/-- What is held has no markers, but for those that a merge removes. -/
inductive Clean : Kept → Prop where
  | absent : Clean .absent
  | plain {value : Json} (h : unmarked value = true) : Clean (.plain value)
  | array {items : Items} (h : unmarkedItems items = true) : Clean (.array items)
  | first {d : Dict} (h : unmarkedDict d = true) : Clean (.dicts [d])
  | merged {run : List Dict} (hlength : 2 ≤ run.length)
      (hkeys : ∀ key, key ≠ resetMark → Clean (heldOf (history key run))) : Clean (.dicts run)

/-- The lists of dictionaries that are merged as the docstring says. -/
structure Orderly (dicts : List Dict) : Prop where
  safe : ∀ key, Safe (history key dicts.reverse)
  clean : ∀ key, Clean (heldOf (history key dicts.reverse))
  noReset : heldOf (history resetMark dicts.reverse) = .absent

end Qmk.JsonSchema
