import Qmk.Lib.Json

/-!
# Merging the `info.json` files of a keyboard

`mergeInfoJsons` reads the files of the keyboard's folder and of its parent folders and merges
them into the data of the keyboard.  A run that raises is `none`.
-/

namespace Qmk.InfoJson

open Qmk.Lib

abbrev Path := List String

/-- `json_load` rejects a file in which a dictionary has one key twice. -/
structure File where
  content : Json
  unique : content.wellFormed = true

/-- `valid` is the schema check `validate(_, 'qmk.keyboard.v1')`. -/
structure Checkout where
  file : Path → Option File
  skipSchemaValidation : Bool
  valid : Json → Bool

/-! ## The files of a keyboard -/

def basePath : Path := ["keyboards"]

def parents : Nat → Path → List Path
  | 0, _ => []
  | levels + 1, folder =>
      if folder = basePath then [] else folder :: parents levels folder.dropLast

/-- The folders whose files are read, the most specific first. -/
def folders (keyboard : Path) : List Path :=
  (basePath ++ keyboard) :: parents 5 (basePath ++ keyboard).dropLast

def infoFiles (folder : Path) : List Path :=
  [folder ++ ["info.json"], folder ++ ["keyboard.json"]]

def findInfoJson (checkout : Checkout) (keyboard : Path) : List Path :=
  ((folders keyboard).flatMap infoFiles).filter fun path => (checkout.file path).isSome

/-! ## `deep_update` -/

/-- A value that is not a dictionary takes no entries, so only the empty update leaves it. -/
def deepUpdate (origdict : Json) : Dict → Option Json
  | .nil => some origdict
  | .cons key (.obj value) rest =>
      match origdict with
      | .obj orig =>
          (deepUpdate ((orig.get key).getD (.obj .nil)) value).bind fun merged =>
            deepUpdate (.obj (orig.set key merged)) rest
      | _ => none
  | .cons key value rest =>
      match origdict with
      | .obj orig => deepUpdate (.obj (orig.set key value)) rest
      | _ => none

/-! ## Layouts and messages -/

def logMessage (key message : String) (info : Dict) : Option Dict :=
  match info.get key with
  | some (.arr messages) => some (info.set key (.arr (messages.append (.str message))))
  | _ => none

def logError (message : String) (info : Dict) : Option Dict :=
  logMessage "parse_errors" message info

def logWarning (message : String) (info : Dict) : Option Dict :=
  logMessage "parse_warnings" message info

/-- `dict[key]`, where the code goes on to use it as a dictionary. -/
def dictAt (dict : Dict) (key : String) : Option Dict :=
  match dict.get key with
  | some (.obj value) => some value
  | _ => none

/-- `dict.get(key, {})`, where the code goes on to use it as a dictionary. -/
def dictAtOrEmpty (dict : Dict) (key : String) : Option Dict :=
  match dict.get key with
  | none => some .nil
  | some (.obj value) => some value
  | some _ => none

def mergeAliases (info new : Dict) : Option (Dict × Dict) :=
  match new.get "layout_aliases" with
  | none => some (info, new)
  | some (.obj aliases) =>
      (dictAtOrEmpty info "layout_aliases").map fun known =>
        (info.set "layout_aliases" (.obj (known.update aliases)), new.erase "layout_aliases")
  | some _ => none

/-- `layout['layout']` -/
def layoutKeys (layout : Dict) : Option (List Json) :=
  match layout.get "layout" with
  | some (.arr items) => some items.toList
  | _ => none

def updateKeys : List Json → List Json → Option (List Json)
  | .obj newKey :: newKeys, .obj existingKey :: existingKeys =>
      (updateKeys newKeys existingKeys).map fun keys =>
        .obj (existingKey.update newKey) :: keys
  | [], existingKeys => some existingKeys
  | _, [] => some []
  | _, _ => none

def allHaveMatrix : List Json → Option Bool
  | [] => some true
  | .obj key :: keys => if (key.get "matrix").isSome then allHaveMatrix keys else some false
  | _ => none

def resolveAlias (info : Dict) (layoutName : String) : Option (Dict × String) :=
  (dictAtOrEmpty info "layout_aliases").bind fun aliases =>
    match aliases.get layoutName with
    | none => some (info, layoutName)
    | some (.str target) =>
        (logWarning s!"info.json uses alias name {layoutName} instead of {target}" info).map
          fun info => (info, target)
    | some _ => none

def mergeLayoutAs (info : Dict) (layoutName : String) (layout : Dict) : Option Dict := do
  let layouts ← dictAt info "layouts"
  let keys ← layoutKeys layout
  match layouts.get layoutName with
  | some (.obj known) =>
      let existing ← layoutKeys known
      if existing.length ≠ keys.length then
        logError ("Number of keys for " ++ layoutName ++ " does not match! info.json specifies " ++
          toString keys.length ++ " keys, C macro specifies " ++ toString existing.length) info
      else
        let updated ← updateKeys keys existing
        let known := (known.set "json_layout" (.bool true)).set "layout" (.arr (.ofList updated))
        some (info.set "layouts" (.obj (layouts.set layoutName (.obj known))))
  | some _ => none
  | none =>
      if ← allHaveMatrix keys then
        let layout := (layout.set "c_macro" (.bool false)).set "json_layout" (.bool true)
        some (info.set "layouts" (.obj (layouts.set layoutName (.obj layout))))
      else
        logError ("Layout \"" ++ layoutName ++
          "\" has no \"matrix\" definition in either \"info.json\" or \"<keyboard>.h\"!") info

def mergeLayouts : Dict → List (String × Json) → Option Dict
  | info, [] => some info
  | info, (layoutName, .obj layout) :: rest =>
      (resolveAlias info layoutName).bind fun (info, layoutName) =>
        (mergeLayoutAs info layoutName layout).bind fun info => mergeLayouts info rest
  | _, _ => none

/-! ## `merge_info_jsons` -/

/-- The dictionary of a file whose data is included. -/
def accepted (checkout : Checkout) : Json → Option Dict
  | .obj new =>
      if checkout.skipSchemaValidation || checkout.valid (.obj new) then some new else none
  | _ => none

def updateInfo (info new : Dict) : Option Dict :=
  match deepUpdate (.obj info) new with
  | some (.obj merged) => some merged
  | _ => none

def mergeData (info new : Dict) : Option Dict :=
  (mergeAliases info new).bind fun (info, new) =>
    (dictAtOrEmpty new "layouts").bind fun layouts =>
      (mergeLayouts info layouts.entries).bind fun info =>
        updateInfo info (new.erase "layouts")

def mergeFile (checkout : Checkout) (info : Dict) (path : Path) : Option Dict :=
  match checkout.file path with
  | none => some info
  | some file =>
      match file.content with
      | .obj new =>
          match accepted checkout (.obj new) with
          | some new => mergeData info new
          | none => some info
      | _ =>
          logError ("Invalid file " ++ String.intercalate "/" path ++
            ", root object should be a dictionary.") info

def mergeInfoJsons (checkout : Checkout) (keyboard : Path) (info : Dict) : Option Dict :=
  (findInfoJson checkout keyboard).foldlM (mergeFile checkout) info

end Qmk.InfoJson
