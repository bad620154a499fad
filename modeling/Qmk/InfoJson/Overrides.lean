import Qmk.InfoJson.Merge

/-!
# Which file a merged value comes from

The files of the more specific folder are merged first, and each later file overrides what is
there.  So a plain value of the merged data is the one given by the last file that gives a plain
value at its path or above it, which is a file of the least specific folder.
-/

namespace Qmk.InfoJson

open Qmk.Lib

/-! ## `deep_update` on key paths -/

theorem deepUpdate_plain {value : Json} {new : Dict} {merged : Json} (plain : value.Plain)
    (run : deepUpdate value new = some merged) : new = .nil ∧ merged = value := by
  cases new with
  | nil => exact ⟨rfl, (Option.some.inj run).symm⟩
  | cons key given rest =>
      cases value with
      | obj dict => exact False.elim plain
      | _ => cases given <;> simp [deepUpdate] at run

theorem deepUpdate_cons_plain {orig rest : Dict} {key : String} {value : Json}
    (plain : value.Plain) : deepUpdate (.obj orig) (.cons key value rest) =
      deepUpdate (.obj (orig.set key value)) rest := by
  cases value with
  | obj dict => exact False.elim plain
  | _ => rfl

/-- What becomes of the value at one key. -/
def MergedAt (orig new : Dict) (key : String) (merged : Option Json) : Prop :=
  match new.get key with
  | none => merged = orig.get key
  | some (.obj value) =>
      ∃ inner, deepUpdate ((orig.get key).getD (.obj .nil)) value = some inner ∧
        merged = some inner
  | some value => merged = some value

theorem mergedAt_of_none {orig new : Dict} {key : String} {merged : Option Json}
    (fresh : new.get key = none) : MergedAt orig new key merged ↔ merged = orig.get key := by
  rw [MergedAt, fresh]

theorem mergedAt_of_plain {orig new : Dict} {key : String} {merged : Option Json} {value : Json}
    (found : new.get key = some value) (plain : value.Plain) :
    MergedAt orig new key merged ↔ merged = some value := by
  rw [MergedAt, found]
  cases value with
  | obj dict => exact False.elim plain
  | _ => rfl

theorem mergedAt_congr {orig orig' new new' : Dict} {key : String} {merged : Option Json}
    (sameOrig : orig.get key = orig'.get key) (sameNew : new.get key = new'.get key) :
    MergedAt orig new key merged ↔ MergedAt orig' new' key merged := by
  rw [MergedAt, MergedAt, sameOrig, sameNew]

theorem plain_or_obj (value : Json) : value.Plain ∨ ∃ dict, value = .obj dict := by
  cases value with
  | obj dict => exact .inr ⟨dict, rfl⟩
  | _ => exact .inl True.intro

theorem deepUpdate_keys {new : Dict} {orig : Dict} {merged : Json}
    (unique : new.wellFormed = true) (run : deepUpdate (.obj orig) new = some merged) :
    ∃ dict, merged = .obj dict ∧ ∀ key, MergedAt orig new key (dict.get key) := by
  induction new generalizing orig with
  | nil =>
      refine ⟨orig, (Option.some.inj run).symm, fun key => ?_⟩
      exact (mergedAt_of_none rfl).mpr rfl
  | cons key value rest ih =>
      obtain ⟨fresh, -, restUnique⟩ := Dict.wellFormed_cons.mp unique
      -- the entry at `key` is settled here, since `rest` does not have the key again
      rcases plain_or_obj value with plain | ⟨inner, rfl⟩
      · rw [deepUpdate_cons_plain plain] at run
        obtain ⟨dict, rfl, keys⟩ := ih restUnique run
        refine ⟨dict, rfl, fun k => ?_⟩
        by_cases here : key = k
        · subst here
          have settled := (mergedAt_of_none fresh).mp (keys key)
          rw [Dict.get_set_self] at settled
          exact (mergedAt_of_plain (by simp [Dict.get]) plain).mpr settled
        · exact (mergedAt_congr (Dict.get_set_of_ne here) (by simp [Dict.get, here])).mp (keys k)
      · obtain ⟨deeper, inside, run⟩ := Option.bind_eq_some_iff.mp run
        obtain ⟨dict, rfl, keys⟩ := ih restUnique run
        refine ⟨dict, rfl, fun k => ?_⟩
        by_cases here : key = k
        · subst here
          have settled := (mergedAt_of_none fresh).mp (keys key)
          rw [Dict.get_set_self] at settled
          have found : (Dict.cons key (.obj inner) rest).get key = some (.obj inner) := by
            simp [Dict.get]
          rw [MergedAt, found]
          exact ⟨deeper, inside, settled⟩
        · exact (mergedAt_congr (Dict.get_set_of_ne here) (by simp [Dict.get, here])).mp (keys k)

/-- A plain value of the updated dictionary is one of the update, or one that the update leaves
uncovered. -/
theorem deepUpdate_lookup {path : Path} {orig : Json} {new : Dict} {merged w : Json}
    (unique : new.wellFormed = true) (run : deepUpdate orig new = some merged)
    (plain : w.Plain) :
    merged.lookup path = some w ↔
      new.lookup path = some w ∨ (orig.lookup path = some w ∧ ¬ new.Covers path) := by
  induction path generalizing orig new merged with
  | nil =>
      have newNot := Dict.lookup_nil_ne_plain new plain
      have uncovered := Dict.not_covers_nil new
      rcases plain_or_obj orig with origPlain | ⟨dict, rfl⟩
      · obtain ⟨-, rfl⟩ := deepUpdate_plain origPlain run
        simp [newNot, uncovered]
      · obtain ⟨dict', rfl, -⟩ := deepUpdate_keys unique run
        have left := Dict.lookup_nil_ne_plain dict' plain
        have right := Dict.lookup_nil_ne_plain dict plain
        rw [Dict.lookup] at left right
        simp [newNot, left, right]
  | cons key path ih =>
      rcases plain_or_obj orig with origPlain | ⟨dict, rfl⟩
      · obtain ⟨rfl, rfl⟩ := deepUpdate_plain origPlain run
        simp [origPlain.lookup_cons, Dict.lookup_cons, Dict.covers_cons]
      · obtain ⟨dict', rfl, keys⟩ := deepUpdate_keys unique run
        have here := keys key
        change dict'.lookup (key :: path) = some w ↔ new.lookup (key :: path) = some w ∨
          (dict.lookup (key :: path) = some w ∧ ¬ new.Covers (key :: path))
        rw [Dict.lookup_cons, Dict.lookup_cons, Dict.lookup_cons, Dict.covers_cons]
        cases found : new.get key with
        | none =>
            rw [(mergedAt_of_none found).mp here]
            simp
        | some value =>
            have valueUnique := Dict.wellFormed_get unique found
            rcases plain_or_obj value with valuePlain | ⟨inner, rfl⟩
            · rw [(mergedAt_of_plain found valuePlain).mp here]
              simp [valuePlain.covers]
            · rw [MergedAt, found] at here
              obtain ⟨deeper, inside, settled⟩ := here
              have below := ih (by simpa [Json.wellFormed] using valueUnique) inside
              rw [settled]
              simp only [Option.bind_some, Option.some.injEq, exists_eq_left']
              rw [below]
              -- where the key is new the inner update starts from an empty dictionary
              cases dict.get key with
              | none =>
                  have empty : (Json.obj .nil).lookup path ≠ some w := by
                    cases path with
                    | nil => exact Dict.lookup_nil_ne_plain _ plain
                    | cons => simp [Json.lookup, Dict.get]
                  simp [empty, Dict.lookup]
              | some old => simp [Dict.lookup, Dict.Covers]

/-! ## What the layouts and the messages leave alone -/

/-- The keys that the merge writes by itself. -/
def mergeOwned : List String :=
  ["layouts", "layout_aliases", "parse_errors", "parse_warnings"]

def SameElsewhere (info info' : Dict) : Prop :=
  ∀ key, key ∉ mergeOwned → info'.get key = info.get key

namespace SameElsewhere

variable {info info' info'' : Dict}

theorem refl (info : Dict) : SameElsewhere info info := fun _ _ => rfl

theorem trans (first : SameElsewhere info info') (second : SameElsewhere info' info'') :
    SameElsewhere info info'' :=
  fun key foreign => (second key foreign).trans (first key foreign)

theorem set {owned : String} (known : owned ∈ mergeOwned) (value : Json) :
    SameElsewhere info (info.set owned value) :=
  fun _ foreign => Dict.get_set_of_ne fun same => foreign (same ▸ known)

theorem lookup (same : SameElsewhere info info') {key : String} (foreign : key ∉ mergeOwned)
    (path : Path) : info'.lookup (key :: path) = info.lookup (key :: path) :=
  Dict.lookup_congr (same key foreign)

end SameElsewhere

theorem logMessage_same {key message : String} {info info' : Dict} (known : key ∈ mergeOwned)
    (run : logMessage key message info = some info') : SameElsewhere info info' := by
  unfold logMessage at run
  split at run
  · cases run
    exact .set known _
  · cases run

theorem logError_same {message : String} {info info' : Dict}
    (run : logError message info = some info') : SameElsewhere info info' :=
  logMessage_same (by simp [mergeOwned]) run

theorem mergeAliases_same {info new info' new' : Dict}
    (run : mergeAliases info new = some (info', new')) :
    SameElsewhere info info' ∧ (new' = new ∨ new' = new.erase "layout_aliases") := by
  unfold mergeAliases at run
  split at run
  · cases run
    exact ⟨.refl info, .inl rfl⟩
  · obtain ⟨known, -, same⟩ := Option.map_eq_some_iff.mp run
    cases same
    exact ⟨.set (by simp [mergeOwned]) _, .inr rfl⟩
  · cases run

theorem resolveAlias_same {info info' : Dict} {name name' : String}
    (run : resolveAlias info name = some (info', name')) : SameElsewhere info info' := by
  obtain ⟨aliases, -, run⟩ := Option.bind_eq_some_iff.mp run
  split at run
  · cases run
    exact .refl info
  · obtain ⟨warned, logged, same⟩ := Option.map_eq_some_iff.mp run
    cases same
    exact logMessage_same (by simp [mergeOwned]) logged
  · cases run

theorem mergeLayoutAs_same {info info' layout : Dict} {name : String}
    (run : mergeLayoutAs info name layout = some info') : SameElsewhere info info' := by
  obtain ⟨layouts, -, run⟩ := Option.bind_eq_some_iff.mp run
  obtain ⟨keys, -, run⟩ := Option.bind_eq_some_iff.mp run
  split at run
  · obtain ⟨existing, -, run⟩ := Option.bind_eq_some_iff.mp run
    split at run
    · exact logError_same run
    · obtain ⟨updated, -, run⟩ := Option.bind_eq_some_iff.mp run
      cases run
      exact .set (by simp [mergeOwned]) _
  · cases run
  · obtain ⟨complete, -, run⟩ := Option.bind_eq_some_iff.mp run
    split at run
    · cases run
      exact .set (by simp [mergeOwned]) _
    · exact logError_same run

theorem mergeLayouts_same {entries : List (String × Json)} {info info' : Dict}
    (run : mergeLayouts info entries = some info') : SameElsewhere info info' := by
  induction entries generalizing info with
  | nil => exact Option.some.inj run ▸ .refl info
  | cons entry rest ih =>
      obtain ⟨name, layout⟩ := entry
      cases layout with
      | obj layout =>
          obtain ⟨⟨resolved, target⟩, aliased, run⟩ := Option.bind_eq_some_iff.mp run
          obtain ⟨added, run, restRun⟩ := Option.bind_eq_some_iff.mp run
          exact ((resolveAlias_same aliased).trans (mergeLayoutAs_same run)).trans (ih restRun)
      | _ => cases run

/-! ## One file -/

theorem updateInfo_lookup {info new merged : Dict} {path : Path} {w : Json}
    (unique : new.wellFormed = true) (run : updateInfo info new = some merged)
    (plain : w.Plain) :
    merged.lookup path = some w ↔
      new.lookup path = some w ∨ (info.lookup path = some w ∧ ¬ new.Covers path) := by
  unfold updateInfo at run
  split at run
  · rename_i dict updated
    cases run
    exact deepUpdate_lookup unique updated plain
  · cases run

theorem mergeData_lookup {info new merged : Dict} {key : String} {path : Path} {w : Json}
    (unique : new.wellFormed = true) (run : mergeData info new = some merged)
    (plain : w.Plain) (foreign : key ∉ mergeOwned) :
    merged.lookup (key :: path) = some w ↔
      new.lookup (key :: path) = some w ∨
        (info.lookup (key :: path) = some w ∧ ¬ new.Covers (key :: path)) := by
  obtain ⟨⟨info₁, new₁⟩, aliases, run⟩ := Option.bind_eq_some_iff.mp run
  obtain ⟨layouts, -, run⟩ := Option.bind_eq_some_iff.mp run
  obtain ⟨info₂, layoutRun, run⟩ := Option.bind_eq_some_iff.mp run
  obtain ⟨sameInfo, newOr⟩ := mergeAliases_same aliases
  have same : SameElsewhere info info₂ := sameInfo.trans (mergeLayouts_same layoutRun)
  have notLayouts : "layouts" ≠ key := fun h => foreign (by simp [mergeOwned, ← h])
  have notAliases : "layout_aliases" ≠ key := fun h => foreign (by simp [mergeOwned, ← h])
  have unique₁ : new₁.wellFormed = true := by
    rcases newOr with rfl | rfl
    · exact unique
    · exact Dict.wellFormed_erase unique
  have kept : (new₁.erase "layouts").get key = new.get key := by
    rw [Dict.get_erase_of_ne notLayouts]
    rcases newOr with rfl | rfl
    · rfl
    · exact Dict.get_erase_of_ne notAliases
  rw [updateInfo_lookup (Dict.wellFormed_erase unique₁) run plain,
    Dict.lookup_congr kept, same.lookup foreign, Dict.covers_cons, Dict.covers_cons, kept]

/-- The data a file gives, if it is there and included. -/
def included (checkout : Checkout) (path : Path) : Option Dict :=
  (checkout.file path).bind fun file => accepted checkout file.content

theorem accepted_eq {checkout : Checkout} {content : Json} {new : Dict}
    (taken : accepted checkout content = some new) : content = .obj new := by
  cases content with
  | obj dict =>
      simp only [accepted] at taken
      split at taken
      · rw [Option.some.inj taken]
      · cases taken
  | _ => cases taken

theorem included_unique {checkout : Checkout} {path : Path} {new : Dict}
    (taken : included checkout path = some new) : new.wellFormed = true := by
  obtain ⟨file, -, taken⟩ := Option.bind_eq_some_iff.mp taken
  have unique := file.unique
  rw [accepted_eq taken] at unique
  exact unique

theorem mergeFile_included {checkout : Checkout} {info : Dict} {path : Path} {new : Dict}
    (taken : included checkout path = some new) :
    mergeFile checkout info path = mergeData info new := by
  obtain ⟨file, present, taken⟩ := Option.bind_eq_some_iff.mp taken
  have content := accepted_eq taken
  rw [content] at taken
  simp only [mergeFile, present, content, taken]

theorem mergeFile_skipped {checkout : Checkout} {info info' : Dict} {path : Path}
    (skipped : included checkout path = none) (run : mergeFile checkout info path = some info') :
    SameElsewhere info info' := by
  unfold mergeFile at run
  split at run
  · exact Option.some.inj run ▸ .refl info
  · rename_i file present
    rw [included, present, Option.bind_some] at skipped
    split at run
    · rename_i new content
      rw [content] at skipped
      rw [skipped] at run
      exact Option.some.inj run ▸ .refl info
    · exact logError_same run

/-! ## All files -/

/-- `w` is given at the path by one of the sources, and no source merged after that one gives a
plain value at the path or above it. -/
def Survives (path : Path) (w : Json) : List Dict → Prop
  | [] => False
  | source :: later =>
      (source.lookup path = some w ∧ ∀ other ∈ later, ¬ other.Covers path) ∨
        Survives path w later

theorem survives_merge {path : Path} {w : Json} {first second merged : Dict} {later : List Dict}
    (lookup : merged.lookup path = some w ↔
      second.lookup path = some w ∨ (first.lookup path = some w ∧ ¬ second.Covers path)) :
    Survives path w (merged :: later) ↔ Survives path w (first :: second :: later) := by
  simp only [Survives, lookup, List.forall_mem_cons]
  tauto

theorem survives_congr {path : Path} {w : Json} {info info' : Dict} {later : List Dict}
    (same : info'.lookup path = info.lookup path) :
    Survives path w (info' :: later) ↔ Survives path w (info :: later) := by
  simp only [Survives, same]

theorem foldlM_mergeFile_lookup {checkout : Checkout} {paths : List Path} {info merged : Dict}
    {key : String} {path : Path} {w : Json}
    (run : paths.foldlM (mergeFile checkout) info = some merged) (plain : w.Plain)
    (foreign : key ∉ mergeOwned) :
    merged.lookup (key :: path) = some w ↔
      Survives (key :: path) w (info :: paths.filterMap (included checkout)) := by
  induction paths generalizing info with
  | nil =>
      rw [← Option.some.inj run]
      simp [Survives]
  | cons file paths ih =>
      obtain ⟨info₁, fileRun, run⟩ := Option.bind_eq_some_iff.mp run
      rw [ih run, List.filterMap_cons]
      cases taken : included checkout file with
      | none => exact survives_congr ((mergeFile_skipped taken fileRun).lookup foreign path)
      | some new =>
          rw [mergeFile_included taken] at fileRun
          exact survives_merge (mergeData_lookup (included_unique taken) fileRun plain foreign)

/-- The data of the files of a keyboard, in the order in which they are merged. -/
def includedFiles (checkout : Checkout) (keyboard : Path) : List Dict :=
  (findInfoJson checkout keyboard).filterMap (included checkout)

theorem mergeInfoJsons_lookup {checkout : Checkout} {keyboard : Path} {info merged : Dict}
    {key : String} {path : Path} {w : Json}
    (run : mergeInfoJsons checkout keyboard info = some merged) (plain : w.Plain)
    (foreign : key ∉ mergeOwned) :
    merged.lookup (key :: path) = some w ↔
      Survives (key :: path) w (info :: includedFiles checkout keyboard) :=
  foldlM_mergeFile_lookup run plain foreign

/-! ## The most specific folder -/

/-- Of the two files of a folder, `keyboard.json` is merged last. -/
def folderValue (checkout : Checkout) (path : Path) (folder : Path) : Option Json :=
  ((included checkout (folder ++ ["keyboard.json"])).bind fun new => new.lookup path) <|>
    ((included checkout (folder ++ ["info.json"])).bind fun new => new.lookup path)

/-- What the deepest folder that defines the path gives there. -/
def specificValue (checkout : Checkout) (keyboard path : Path) : Option Json :=
  (folders keyboard).findSome? (folderValue checkout path)

def OutsideLayouts (path : Path) : Prop :=
  path.head? ≠ some "layouts" ∧ path.head? ≠ some "layout_aliases"

/-- Every plain value that `Holds` at the path is the one of the deepest folder that defines the
path. -/
def SpecificAt (checkout : Checkout) (keyboard path : Path) (Holds : Json → Prop) : Prop :=
  ∀ w, w.Plain → Holds w → ∀ v, specificValue checkout keyboard path = some v → w = v

def MergedIsSpecific (checkout : Checkout) (keyboard : Path) (merged : Dict) : Prop :=
  ∀ path, OutsideLayouts path →
    SpecificAt checkout keyboard path fun w => merged.lookup path = some w

def SurvivorIsSpecific (checkout : Checkout) (keyboard : Path) (info : Dict) : Prop :=
  ∀ path, OutsideLayouts path →
    SpecificAt checkout keyboard path fun w =>
      Survives path w (info :: includedFiles checkout keyboard)

/-- No included file writes to the lists of messages that the merge keeps in the data. -/
def LeavesMessages (checkout : Checkout) (keyboard : Path) : Prop :=
  ∀ new ∈ includedFiles checkout keyboard,
    new.get "parse_errors" = none ∧ new.get "parse_warnings" = none

theorem specificAt_congr {checkout : Checkout} {keyboard path : Path} {Holds Holds' : Json → Prop}
    (same : ∀ w, w.Plain → (Holds w ↔ Holds' w)) :
    SpecificAt checkout keyboard path Holds ↔ SpecificAt checkout keyboard path Holds' :=
  forall₂_congr fun w plain => imp_congr (same w plain) Iff.rfl

theorem specificAt_of_undefined {checkout : Checkout} {keyboard path : Path}
    (undefined : specificValue checkout keyboard path = none) (Holds : Json → Prop) :
    SpecificAt checkout keyboard path Holds := by
  intro w _ _ v defined
  rw [undefined] at defined
  cases defined

theorem folderValue_eq_none {checkout : Checkout} {path folder : Path}
    (undefined : ∀ file ∈ infoFiles folder, ∀ new, included checkout file = some new →
      new.lookup path = none) : folderValue checkout path folder = none := by
  have each : ∀ file ∈ infoFiles folder,
      ((included checkout file).bind fun new => new.lookup path) = none := by
    intro file listed
    cases taken : included checkout file with
    | none => rfl
    | some new => exact undefined file listed new taken
  rw [folderValue, each _ (by simp [infoFiles]), each _ (by simp [infoFiles])]
  rfl

theorem mem_includedFiles {checkout : Checkout} {keyboard folder file : Path} {new : Dict}
    (searched : folder ∈ folders keyboard) (listed : file ∈ infoFiles folder)
    (taken : included checkout file = some new) : new ∈ includedFiles checkout keyboard := by
  have present : (checkout.file file).isSome := by
    obtain ⟨content, found, -⟩ := Option.bind_eq_some_iff.mp taken
    rw [found]
    rfl
  exact List.mem_filterMap.mpr
    ⟨file, List.mem_filter.mpr ⟨List.mem_flatMap.mpr ⟨folder, searched, listed⟩, present⟩, taken⟩

theorem specificValue_eq_none {checkout : Checkout} {keyboard path : Path}
    (undefined : ∀ new ∈ includedFiles checkout keyboard, new.lookup path = none) :
    specificValue checkout keyboard path = none :=
  List.findSome?_eq_none_iff.mpr fun _ searched =>
    folderValue_eq_none fun _ listed new taken =>
      undefined new (mem_includedFiles searched listed taken)

/-- The merged data follows the most specific folder exactly where the values of the less
specific files, which override it, agree with it. -/
theorem mergeInfoJsons_specific (checkout : Checkout) (keyboard : Path) (info merged : Dict)
    (run : mergeInfoJsons checkout keyboard info = some merged) :
    (∀ key path, key ∉ mergeOwned →
      (SpecificAt checkout keyboard (key :: path) (fun w => merged.lookup (key :: path) = some w) ↔
        SpecificAt checkout keyboard (key :: path) fun w =>
          Survives (key :: path) w (info :: includedFiles checkout keyboard))) ∧
    (LeavesMessages checkout keyboard →
      (MergedIsSpecific checkout keyboard merged ↔ SurvivorIsSpecific checkout keyboard info)) := by
  have each : ∀ key path, key ∉ mergeOwned →
      (SpecificAt checkout keyboard (key :: path) (fun w => merged.lookup (key :: path) = some w) ↔
        SpecificAt checkout keyboard (key :: path) fun w =>
          Survives (key :: path) w (info :: includedFiles checkout keyboard)) :=
    fun key path foreign =>
      specificAt_congr fun w plain => mergeInfoJsons_lookup run plain foreign
  refine ⟨each, fun leaves => forall₂_congr fun path outside => ?_⟩
  cases path with
  | nil =>
      -- the root is a dictionary in the merged data and in every source
      refine specificAt_congr fun w plain => ⟨fun found => ?_, fun survives => ?_⟩
      · exact absurd found (Dict.lookup_nil_ne_plain _ plain)
      · have none : ∀ sources, ¬ Survives [] w sources := by
          intro sources
          induction sources with
          | nil => exact id
          | cons source later ih =>
              rintro (⟨found, -⟩ | later)
              · exact Dict.lookup_nil_ne_plain _ plain found
              · exact ih later
        exact absurd survives (none _)
  | cons key path =>
      by_cases foreign : key ∉ mergeOwned
      · exact each key path foreign
      · have undefined : specificValue checkout keyboard (key :: path) = none := by
          apply specificValue_eq_none
          intro new listed
          have message : new.get key = none := by
            simp only [mergeOwned, List.mem_cons, not_not, List.not_mem_nil, or_false] at foreign
            rcases foreign with rfl | rfl | rfl | rfl
            · exact absurd rfl outside.1
            · exact absurd rfl outside.2
            · exact (leaves new listed).1
            · exact (leaves new listed).2
          rw [Dict.lookup_cons, message, Option.bind_none]
        exact iff_of_true (specificAt_of_undefined undefined _)
          (specificAt_of_undefined undefined _)

/-- Two levels that give one key, as in `clueboard` and its folder `66`. -/
def twoLevels : Checkout where
  file path :=
    if path = ["keyboards", "clueboard", "66", "keyboard.json"] then
      some ⟨.obj (.cons "manufacturer" (.str "Specific") .nil), by decide⟩
    else if path = ["keyboards", "clueboard", "info.json"] then
      some ⟨.obj (.cons "manufacturer" (.str "Common") .nil), by decide⟩
    else none
  skipSchemaValidation := false
  valid _ := true

def emptyInfo : Dict :=
  .cons "layouts" (.obj .nil) (.cons "parse_errors" (.arr .nil) (.cons "parse_warnings" (.arr .nil)
    .nil))

def twoLevelsMerged : Dict :=
  .cons "layouts" (.obj .nil) (.cons "parse_errors" (.arr .nil) (.cons "parse_warnings" (.arr .nil)
    (.cons "manufacturer" (.str "Common") .nil)))

theorem twoLevels_run :
    mergeInfoJsons twoLevels ["clueboard", "66"] emptyInfo = some twoLevelsMerged :=
  rfl

theorem twoLevels_leavesMessages : LeavesMessages twoLevels ["clueboard", "66"] := by
  have sources : includedFiles twoLevels ["clueboard", "66"] =
      [.cons "manufacturer" (.str "Specific") .nil, .cons "manufacturer" (.str "Common") .nil] :=
    rfl
  rw [LeavesMessages, sources]
  simp [Dict.get]

theorem twoLevels_specific :
    MergedIsSpecific twoLevels ["clueboard", "66"] twoLevelsMerged ↔
      SurvivorIsSpecific twoLevels ["clueboard", "66"] emptyInfo :=
  (mergeInfoJsons_specific twoLevels ["clueboard", "66"] emptyInfo twoLevelsMerged
    twoLevels_run).2 twoLevels_leavesMessages

/-- The merged manufacturer is the one of the parent folder. -/
theorem twoLevels_parent_wins :
    ¬ ∀ (checkout : Checkout) (keyboard : Path) (info merged : Dict),
      mergeInfoJsons checkout keyboard info = some merged →
        MergedIsSpecific checkout keyboard merged := by
  intro claim
  have specific := claim twoLevels ["clueboard", "66"] emptyInfo twoLevelsMerged twoLevels_run
    ["manufacturer"] (by simp [OutsideLayouts]) (.str "Common") True.intro rfl (.str "Specific") rfl
  simp at specific

end Qmk.InfoJson
