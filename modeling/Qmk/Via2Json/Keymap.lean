import Mathlib.Data.List.Nodup
import Mathlib.Data.Prod.Lex
import Mathlib.Data.String.Basic

/-!
# VIA backups

`_via_to_keymap` of `via2json.py` picks the keycodes of a layout out of layers that have one for
each place of the matrix.  The list `sorting_hat` gets a slot for each place, in the order of the
matrix, and further ones behind them that are not looked at.
-/

namespace Qmk.Via2Json

/-! ## The code -/

/-- A row and a column of the matrix. -/
abbrev Position := Nat × Nat

instance : LawfulBEq Position := inferInstance

/-- An entry of `sorting_hat`: the index in the layout, and the place in the matrix. -/
structure Slot where
  index : Option Nat
  matrix : Position
  deriving DecidableEq

structure KeyboardData where
  layouts : String → Option (List Position)
  rows : Nat
  cols : Nat

inductive Failure where
  | indexError
  deriving DecidableEq

def matrixLe (a b : Slot) : Bool :=
  a.matrix.1 < b.matrix.1 || a.matrix.1 = b.matrix.1 && a.matrix.2 ≤ b.matrix.2

/-- The body of the two loops over the matrix. -/
def fillSlot (state : List Slot × Nat) (place : Position) : List Slot × Nat :=
  let (sortingHat, pos) := state
  let sortingHat :=
    if (sortingHat[pos]?).map Slot.matrix = some place then
      sortingHat ++ [⟨none, place⟩]
    else
      sortingHat.take pos ++ ⟨none, place⟩ :: sortingHat.drop pos
  (sortingHat, pos + 1)

def sortingHat (keyboardData : KeyboardData) (layoutData : List Position) : List Slot :=
  let sorted := (layoutData.zipIdx.map fun data => ⟨some data.2, data.1⟩).mergeSort matrixLe
  ((List.range keyboardData.rows).foldl (fun state rowNum =>
    (List.range keyboardData.cols).foldl (fun state colNum => fillSlot state (rowNum, colNum))
      state) (sorted, 0)).1

/-- The keys of a layer from a position on, with their indices in the layout. -/
def layerData (sortingHat : List Slot) : Nat → List String → Except Failure (List (Nat × String))
  | _, [] => .ok []
  | pos, key :: keys =>
      match sortingHat[pos]? with
      | none => .error .indexError
      | some slot => do
          let rest ← layerData sortingHat (pos + 1) keys
          match slot.index with
          | some index => .ok ((index, key) :: rest)
          | none => .ok rest

/-- The order of the pairs, as lists are compared. -/
def entryLe (a b : Nat × String) : Bool := a.1 < b.1 || a.1 = b.1 && decide (a.2 ≤ b.2)

/-- `_via_to_keymap`; without a layout of that name it logs an error and returns `None`. -/
def viaToKeymap (viaLayers : List (List String)) (keyboardData : KeyboardData)
    (keymapLayout : String) : Except Failure (Option (List (List String))) :=
  match keyboardData.layouts keymapLayout with
  | none => .ok none
  | some layoutData => do
      let hat := sortingHat keyboardData layoutData
      let keymapData ← viaLayers.mapM fun layer => do
        let data ← layerData hat 0 layer
        .ok ((data.mergeSort entryLe).map Prod.snd)
      .ok (some keymapData)

/-! ## The places of the matrix -/

def places (rows cols : Nat) : List Position :=
  (List.range rows).flatMap fun rowNum => (List.range cols).map fun colNum => (rowNum, colNum)

theorem places_eq (rows cols : Nat) :
    places rows cols = (List.range (rows * cols)).map fun n => (n / cols, n % cols) := by
  induction rows with
  | zero => simp [places]
  | succ rows ih =>
      have hlast : places (rows + 1) cols =
          places rows cols ++ (List.range cols).map fun colNum => (rows, colNum) := by
        simp [places, List.range_succ]
      rw [hlast, ih, Nat.succ_mul, List.range_add, List.map_append, List.map_map]
      congr 1
      refine List.map_congr_left fun colNum hcol => ?_
      have hlt := List.mem_range.mp hcol
      have hcols : 0 < cols := by omega
      rw [Function.comp_apply, Nat.mul_comm, Nat.mul_add_div hcols, Nat.mul_add_mod,
        Nat.div_eq_of_lt hlt, Nat.mod_eq_of_lt hlt, Nat.add_zero]

theorem length_places (rows cols : Nat) : (places rows cols).length = rows * cols := by
  rw [places_eq, List.length_map, List.length_range]

theorem mem_places {rows cols : Nat} {place : Position} :
    place ∈ places rows cols ↔ place.1 < rows ∧ place.2 < cols := by
  simp only [places, List.mem_flatMap, List.mem_map, List.mem_range]
  constructor
  · rintro ⟨rowNum, hrow, colNum, hcol, rfl⟩
    exact ⟨hrow, hcol⟩
  · exact fun h => ⟨place.1, h.1, place.2, h.2, rfl⟩

theorem places_nodup (rows cols : Nat) : (places rows cols).Nodup := by
  rw [places_eq]
  refine List.Nodup.map (fun n m h => ?_) List.nodup_range
  rw [Prod.mk.injEq] at h
  rw [← Nat.div_add_mod n cols, ← Nat.div_add_mod m cols, h.1, h.2]

theorem places_sorted (rows cols : Nat) :
    (places rows cols).Pairwise fun p q => p.1 < q.1 ∨ p.1 = q.1 ∧ p.2 ≤ q.2 := by
  rw [places_eq, List.pairwise_map]
  refine List.pairwise_lt_range.imp fun {n m} hlt => ?_
  rcases Nat.lt_or_ge (n / cols) (m / cols) with hrow | hrow
  · exact .inl hrow
  · have heq : n / cols = m / cols :=
      Nat.le_antisymm (Nat.div_le_div_right (Nat.le_of_lt hlt)) hrow
    have hn := Nat.div_add_mod n cols
    have hm := Nat.div_add_mod m cols
    rw [heq] at hn
    exact .inr ⟨heq, by omega⟩

/-! ## Layouts in the order of the matrix -/

/-- The slot that a place of the matrix gets. -/
def slotOf (layoutData : List Position) (place : Position) : Slot :=
  ⟨if place ∈ layoutData then some (layoutData.idxOf place) else none, place⟩

theorem slotOf_of_mem {layoutData : List Position} {place : Position} (h : place ∈ layoutData) :
    slotOf layoutData place = ⟨some (layoutData.idxOf place), place⟩ := by
  rw [slotOf, if_pos h]

theorem slotOf_of_not_mem {layoutData : List Position} {place : Position}
    (h : place ∉ layoutData) : slotOf layoutData place = ⟨none, place⟩ := by
  rw [slotOf, if_neg h]

/-- What is made of the keys of a layout, in the order of the matrix and in that of the layout. -/
theorem filterMap_places_perm {α : Type} {layoutData : List Position} {rows cols : Nat}
    (hnodup : layoutData.Nodup)
    (hrange : ∀ place ∈ layoutData, place.1 < rows ∧ place.2 < cols) (f : Position → Nat → α) :
    ((places rows cols).filterMap fun place => (slotOf layoutData place).index.map (f place)).Perm
      (layoutData.zipIdx.map fun data => f data.1 data.2) := by
  have hkeys : ((places rows cols).filter fun place => place ∈ layoutData).Perm layoutData := by
    refine (List.perm_ext_iff_of_nodup ((places_nodup rows cols).filter _) hnodup).mpr
      fun place => ?_
    simp only [List.mem_filter, decide_eq_true_eq]
    exact ⟨fun h => h.2, fun h => ⟨mem_places.mpr (hrange place h), h⟩⟩
  have hfilter : ((places rows cols).filterMap fun place =>
      (slotOf layoutData place).index.map (f place)) =
      ((places rows cols).filter fun place => place ∈ layoutData).map
        fun place => f place (layoutData.idxOf place) := by
    induction places rows cols with
    | nil => rfl
    | cons place rest ih =>
        by_cases hmem : place ∈ layoutData
        · simp [slotOf_of_mem hmem, hmem, ih]
        · simp [slotOf_of_not_mem hmem, hmem, ih]
  have hzip : (layoutData.zipIdx.map fun data => f data.1 data.2) =
      layoutData.map fun place => f place (layoutData.idxOf place) := by
    apply List.ext_getElem
    · simp
    · intro i hi _
      simp [hnodup.idxOf_getElem]
  rw [hfilter, hzip]
  exact hkeys.map _

/-! ## The sorting hat -/

/-- The slots of the layout's keys among some places. -/
def keySlots (layoutData places : List Position) : List Slot :=
  (places.filter fun place => place ∈ layoutData).map (slotOf layoutData)

theorem keySlots_eq_filterMap (layoutData places : List Position) :
    keySlots layoutData places =
      places.filterMap fun place =>
        (slotOf layoutData place).index.map fun index => ⟨some index, place⟩ := by
  induction places with
  | nil => rfl
  | cons place rest ih =>
      rw [keySlots] at ih
      by_cases hmem : place ∈ layoutData
      · simp [keySlots, slotOf_of_mem hmem, hmem, ih]
      · simp [keySlots, slotOf_of_not_mem hmem, hmem, ih]

theorem matrixLe_iff (a b : Slot) : matrixLe a b = true ↔
    a.matrix.1 < b.matrix.1 ∨ a.matrix.1 = b.matrix.1 ∧ a.matrix.2 ≤ b.matrix.2 := by
  simp [matrixLe]

theorem mergeSort_slots {layoutData : List Position} {rows cols : Nat}
    (hnodup : layoutData.Nodup)
    (hrange : ∀ place ∈ layoutData, place.1 < rows ∧ place.2 < cols) :
    (layoutData.zipIdx.map fun data => (⟨some data.2, data.1⟩ : Slot)).mergeSort matrixLe =
      keySlots layoutData (places rows cols) := by
  have hperm := filterMap_places_perm hnodup hrange fun place index => (⟨some index, place⟩ : Slot)
  rw [← keySlots_eq_filterMap] at hperm
  have hsorted : (keySlots layoutData (places rows cols)).Pairwise
      fun a b => matrixLe a b = true := by
    refine List.pairwise_map.mpr (((places_sorted rows cols).filter _).imp fun {p q} h => ?_)
    exact (matrixLe_iff _ _).mpr h
  refine @List.Perm.eq_of_pairwise _ (fun a b => matrixLe a b = true) _ _ ?_
    (List.pairwise_mergeSort ?_ ?_ _) hsorted ((List.mergeSort_perm _ _).trans hperm.symm)
  · -- slots of the layout with the same place are the same
    intro a b ha hb hab hba
    rw [matrixLe_iff] at hab hba
    have hplace : a.matrix = b.matrix := Prod.ext (by omega) (by omega)
    have hslot {slot : Slot} (h : slot ∈ keySlots layoutData (places rows cols)) :
        slot = slotOf layoutData slot.matrix := by
      obtain ⟨place, -, rfl⟩ := List.mem_map.mp h
      rfl
    have ha' := hperm.mem_iff.mpr ((List.mergeSort_perm _ _).mem_iff.mp ha)
    rw [hslot ha', hslot hb, hplace]
  · intro a b d hab hbd
    rw [matrixLe_iff] at hab hbd ⊢
    omega
  · intro a b
    rw [Bool.or_eq_true, matrixLe_iff, matrixLe_iff]
    omega

/-- The loops leave a slot for each place that is still to come, behind those for the places that
have been taken, and more slots for places that have been taken at the end. -/
theorem foldl_fillSlot (layoutData : List Position) {todo : List Position} (htodo : todo.Nodup)
    (done extra : List Slot) (hextra : ∀ slot ∈ extra, slot.matrix ∉ todo) :
    ∃ more, todo.foldl fillSlot (done ++ keySlots layoutData todo ++ extra, done.length) =
      (done ++ todo.map (slotOf layoutData) ++ more, done.length + todo.length) := by
  induction todo generalizing done extra with
  | nil => exact ⟨extra, rfl⟩
  | cons place todo ih =>
      obtain ⟨hplace, hrest⟩ := List.nodup_cons.mp htodo
      have hlength : (done ++ [slotOf layoutData place]).length = done.length + 1 := by simp
      by_cases hmem : place ∈ layoutData
      · have hslots : keySlots layoutData (place :: todo) =
            slotOf layoutData place :: keySlots layoutData todo := by
          simp [keySlots, hmem]
        have hstep : fillSlot (done ++ keySlots layoutData (place :: todo) ++ extra, done.length)
            place = (done ++ [slotOf layoutData place] ++ keySlots layoutData todo ++
              (extra ++ [⟨none, place⟩]), (done ++ [slotOf layoutData place]).length) := by
          simp [fillSlot, hslots, slotOf]
        obtain ⟨more, hmore⟩ := ih hrest (done ++ [slotOf layoutData place])
          (extra ++ [⟨none, place⟩]) fun slot hslot => by
            rcases List.mem_append.mp hslot with h | h
            · exact fun hin => hextra slot h (List.mem_cons_of_mem place hin)
            · rw [List.mem_singleton.mp h]
              exact hplace
        refine ⟨more, ?_⟩
        rw [List.foldl_cons, hstep, hmore, hlength]
        simp [Nat.add_comm, Nat.add_left_comm]
      · have hslots : keySlots layoutData (place :: todo) = keySlots layoutData todo := by
          simp [keySlots, hmem]
        have hnext : ((done ++ keySlots layoutData (place :: todo) ++ extra)[done.length]?).map
            Slot.matrix ≠ some place := by
          rw [hslots, List.append_assoc, List.getElem?_append_right (Nat.le_refl _), Nat.sub_self]
          intro hsome
          obtain ⟨slot, hslot, heq⟩ := Option.map_eq_some_iff.mp hsome
          rcases List.mem_append.mp (List.mem_of_getElem? hslot) with h | h
          · obtain ⟨other, hother, rfl⟩ := List.mem_map.mp h
            have hin := (List.mem_filter.mp hother).1
            exact hplace (heq ▸ hin)
          · exact hextra slot h (heq ▸ List.mem_cons_self)
        have hstep : fillSlot (done ++ keySlots layoutData (place :: todo) ++ extra, done.length)
            place = (done ++ [slotOf layoutData place] ++ keySlots layoutData todo ++ extra,
              (done ++ [slotOf layoutData place]).length) := by
          rw [fillSlot, if_neg hnext, hslots, slotOf_of_not_mem hmem]
          simp
        obtain ⟨more, hmore⟩ := ih hrest (done ++ [slotOf layoutData place]) extra
          fun slot hslot hin => hextra slot hslot (List.mem_cons_of_mem place hin)
        refine ⟨more, ?_⟩
        rw [List.foldl_cons, hstep, hmore, hlength]
        simp [Nat.add_comm, Nat.add_left_comm]

theorem sortingHat_eq (keyboardData : KeyboardData) {layoutData : List Position}
    (hnodup : layoutData.Nodup)
    (hrange : ∀ place ∈ layoutData, place.1 < keyboardData.rows ∧ place.2 < keyboardData.cols) :
    ∃ more, sortingHat keyboardData layoutData =
      (places keyboardData.rows keyboardData.cols).map (slotOf layoutData) ++ more := by
  obtain ⟨more, hmore⟩ := foldl_fillSlot layoutData
    (places_nodup keyboardData.rows keyboardData.cols) [] [] fun slot hslot =>
      absurd hslot List.not_mem_nil
  refine ⟨more, ?_⟩
  have hloops := congrArg Prod.fst hmore
  rw [places, List.foldl_flatMap] at hloops
  simp only [List.foldl_map, List.nil_append, List.append_nil, List.length_nil] at hloops
  rw [sortingHat, mergeSort_slots hnodup hrange]
  exact hloops

/-! ## The layers -/

theorem layerData_eq (slots more : List Slot) (before : List Slot) {layer : List String}
    (hlength : layer.length = slots.length) :
    layerData (before ++ slots ++ more) before.length layer =
      .ok ((slots.zip layer).filterMap fun entry => entry.1.index.map fun index =>
        (index, entry.2)) := by
  induction slots generalizing before layer with
  | nil =>
      rw [List.length_eq_zero_iff.mp hlength]
      rfl
  | cons slot slots ih =>
      cases layer with
      | nil => exact absurd hlength.symm (Nat.succ_ne_zero _)
      | cons key keys =>
          have hrest := ih (before ++ [slot]) (Nat.succ.inj hlength)
          rw [List.length_append, List.length_singleton, List.append_assoc before [slot],
            List.singleton_append] at hrest
          have hslot : (before ++ slot :: slots ++ more)[before.length]? = some slot := by simp
          rw [layerData]
          simp only [hslot, hrest]
          cases hindex : slot.index <;> simp [bind, Except.bind, hindex]

theorem zip_places {rows cols : Nat} {layer : List String} (hlength : layer.length = rows * cols) :
    (places rows cols).zip layer =
      (places rows cols).map fun place => (place, layer.getD (place.1 * cols + place.2) "") := by
  apply List.ext_getElem
  · simp [length_places, hlength]
  · intro n hn _
    have hlt : n < layer.length := by
      rw [List.length_zip, length_places, hlength, Nat.min_self] at hn
      omega
    have hindex : n / cols * cols + n % cols = n := by
      rw [Nat.mul_comm]
      exact Nat.div_add_mod n cols
    simp [places_eq, hindex, List.getElem?_eq_getElem hlt]

theorem entryLe_iff (a b : Nat × String) :
    entryLe a b = true ↔ a.1 < b.1 ∨ a.1 = b.1 ∧ a.2 ≤ b.2 := by
  simp [entryLe]

theorem mergeSort_entries {layoutData : List Position} {rows cols : Nat}
    (hnodup : layoutData.Nodup)
    (hrange : ∀ place ∈ layoutData, place.1 < rows ∧ place.2 < cols) (key : Position → String) :
    ((places rows cols).filterMap fun place => (slotOf layoutData place).index.map fun index =>
      (index, key place)).mergeSort entryLe =
      layoutData.zipIdx.map fun data => (data.2, key data.1) := by
  have hperm := filterMap_places_perm hnodup hrange fun place index => (index, key place)
  have hsorted : (layoutData.zipIdx.map fun data => (data.2, key data.1)).Pairwise
      fun a b => entryLe a b = true := by
    refine List.pairwise_iff_getElem.mpr fun i j hi hj hij => (entryLe_iff _ _).mpr (.inl ?_)
    simpa using hij
  refine @List.Perm.eq_of_pairwise _ (fun a b => entryLe a b = true) _ _ ?_
    (List.pairwise_mergeSort ?_ ?_ _) hsorted ((List.mergeSort_perm _ _).trans hperm)
  · intro a b _ _ hab hba
    rw [entryLe_iff] at hab hba
    rcases hab with hlt | ⟨hindex, hle⟩
    · omega
    · rcases hba with hlt | ⟨-, hge⟩
      · omega
      · exact Prod.ext hindex (le_antisymm hle hge)
  · intro a b d hab hbd
    rw [entryLe_iff] at hab hbd ⊢
    rcases hab with hlt | ⟨hindex, hle⟩
    · exact .inl (by omega)
    · rcases hbd with hlt | ⟨hindex', hle'⟩
      · exact .inl (by omega)
      · exact .inr ⟨hindex.trans hindex', hle.trans hle'⟩
  · intro a b
    rw [Bool.or_eq_true, entryLe_iff, entryLe_iff]
    rcases Nat.lt_trichotomy a.1 b.1 with hlt | heq | hgt
    · exact .inl (.inl hlt)
    · exact (le_total a.2 b.2).imp (fun h => .inr ⟨heq, h⟩) fun h => .inr ⟨heq.symm, h⟩
    · exact .inr (.inl hgt)

/-- A layer of the backup gives the keycodes of the layout's places. -/
theorem layer_converts (keyboardData : KeyboardData) {layoutData : List Position}
    (hnodup : layoutData.Nodup)
    (hrange : ∀ place ∈ layoutData, place.1 < keyboardData.rows ∧ place.2 < keyboardData.cols)
    {layer : List String} (hlength : layer.length = keyboardData.rows * keyboardData.cols) :
    ((layerData (sortingHat keyboardData layoutData) 0 layer).map fun data =>
      (data.mergeSort entryLe).map Prod.snd) =
      .ok (layoutData.map fun place =>
        layer.getD (place.1 * keyboardData.cols + place.2) "") := by
  obtain ⟨more, hhat⟩ := sortingHat_eq keyboardData hnodup hrange
  have hslots : layer.length =
      ((places keyboardData.rows keyboardData.cols).map (slotOf layoutData)).length := by
    rw [List.length_map, length_places, hlength]
  have hdata := layerData_eq ((places keyboardData.rows keyboardData.cols).map (slotOf layoutData))
    more [] hslots
  rw [List.nil_append, List.length_nil, List.zip_map_left, zip_places hlength, List.map_map,
    List.filterMap_map] at hdata
  rw [hhat, hdata, Except.map]
  congr 1
  have hsort := mergeSort_entries hnodup hrange fun place =>
    layer.getD (place.1 * keyboardData.cols + place.2) ""
  have hkeys : (layoutData.zipIdx.map fun data => (data.2,
      layer.getD (data.1.1 * keyboardData.cols + data.1.2) "")).map Prod.snd =
      layoutData.map fun place => layer.getD (place.1 * keyboardData.cols + place.2) "" := by
    apply List.ext_getElem
    · simp
    · intro i hi _
      simp
  rw [← hkeys, ← hsort]
  rfl

theorem viaToKeymap_eq {viaLayers : List (List String)} {keyboardData : KeyboardData}
    {keymapLayout : String} {layoutData : List Position}
    (hlayout : keyboardData.layouts keymapLayout = some layoutData) (hnodup : layoutData.Nodup)
    (hrange : ∀ place ∈ layoutData, place.1 < keyboardData.rows ∧ place.2 < keyboardData.cols)
    (hlengths : ∀ layer ∈ viaLayers, layer.length = keyboardData.rows * keyboardData.cols) :
    viaToKeymap viaLayers keyboardData keymapLayout =
      .ok (some (viaLayers.map fun layer => layoutData.map fun place =>
        layer.getD (place.1 * keyboardData.cols + place.2) "")) := by
  have hlayers : (viaLayers.mapM fun layer => do
      let data ← layerData (sortingHat keyboardData layoutData) 0 layer
      (.ok ((data.mergeSort entryLe).map Prod.snd) : Except Failure (List String))) =
      .ok (viaLayers.map fun layer => layoutData.map fun place =>
        layer.getD (place.1 * keyboardData.cols + place.2) "") := by
    induction viaLayers with
    | nil => rfl
    | cons layer layers ih =>
        have hlayer := layer_converts keyboardData hnodup hrange
          (hlengths layer List.mem_cons_self)
        rw [List.mapM_cons, ih fun other hother => hlengths other (List.mem_cons_of_mem _ hother)]
        cases hdata : layerData (sortingHat keyboardData layoutData) 0 layer with
        | error failure =>
            rw [hdata] at hlayer
            cases hlayer
        | ok data =>
            rw [hdata] at hlayer
            injection hlayer with hlayer
            rw [List.map_cons, ← hlayer]
            rfl
  rw [viaToKeymap, hlayout]
  simp only [hlayers]
  rfl

/-- The keymap has each keycode of the backup at the index of the key with its place. -/
theorem viaToKeymap_places (viaLayers : List (List String)) (keyboardData : KeyboardData)
    (keymapLayout : String) (layoutData : List Position)
    (hlayout : keyboardData.layouts keymapLayout = some layoutData) (hnodup : layoutData.Nodup)
    (hrange : ∀ place ∈ layoutData, place.1 < keyboardData.rows ∧ place.2 < keyboardData.cols)
    (hlengths : ∀ layer ∈ viaLayers, layer.length = keyboardData.rows * keyboardData.cols) :
    ∃ keymapData, viaToKeymap viaLayers keyboardData keymapLayout = .ok (some keymapData) ∧
      keymapData.length = viaLayers.length ∧
      ∀ (n : Nat) (layer converted : List String),
        viaLayers[n]? = some layer → keymapData[n]? = some converted →
          converted.length = layoutData.length ∧
          ∀ (i row col : Nat), layoutData[i]? = some (row, col) →
            ∃ key, layer[row * keyboardData.cols + col]? = some key ∧ converted[i]? = some key := by
  refine ⟨_, viaToKeymap_eq hlayout hnodup hrange hlengths, List.length_map _,
    fun n layer converted hlayer hconverted => ?_⟩
  rw [List.getElem?_map, hlayer, Option.map_some, Option.some.injEq] at hconverted
  subst hconverted
  refine ⟨List.length_map _, fun i row col hplace => ?_⟩
  obtain ⟨hrow, hcol⟩ := hrange _ (List.mem_of_getElem? hplace)
  have hlt : row * keyboardData.cols + col < layer.length := by
    rw [hlengths layer (List.mem_of_getElem? hlayer)]
    have hle : (row + 1) * keyboardData.cols ≤ keyboardData.rows * keyboardData.cols :=
      Nat.mul_le_mul_right _ hrow
    rw [Nat.succ_mul] at hle
    simp only at hcol
    omega
  refine ⟨_, List.getElem?_eq_getElem hlt, ?_⟩
  rw [List.getElem?_map, hplace, Option.map_some]
  simp [List.getD_eq_getElem?_getD, List.getElem?_eq_getElem hlt]

/-- Two keys in a matrix of four places, the lower one first. -/
def twoKeys : KeyboardData where
  layouts name := if name = "LAYOUT" then some [(1, 0), (0, 1)] else none
  rows := 2
  cols := 2

theorem viaToKeymap_places_twoKeys :
    ∃ keymapData, viaToKeymap [["KC_A", "KC_B", "KC_C", "KC_D"]] twoKeys "LAYOUT" =
      .ok (some keymapData) ∧ keymapData.length = 1 := by
  obtain ⟨keymapData, hkeymap, hlength, -⟩ :=
    viaToKeymap_places [["KC_A", "KC_B", "KC_C", "KC_D"]] twoKeys "LAYOUT" [(1, 0), (0, 1)] rfl
      (by decide) (by decide) (by decide)
  exact ⟨keymapData, hkeymap, hlength⟩

end Qmk.Via2Json
