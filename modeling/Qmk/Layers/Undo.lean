import Qmk.Layers.Keyboard
import Qmk.Tapping.Effects

/-!
# A release undoes its press

The cache holds the layer on which the last press of a key was processed until the
release of that press is.  The next press of the key writes the cache when it
arrives, and the release may still be waiting then.
-/

namespace Qmk.Layers

open Qmk.Lib
open Qmk.Tapping

variable {cfg : Config} {ρ : Type} {fw : Firmware cfg ρ}

/-! ## The cache, key by key -/

theorem entryNumber_eq (cfg : Config) {key : KeyPos} (hkey : cfg.InMatrix key) :
    entryNumber cfg key = key.row.toNat * cfg.cols + key.col.toNat := by
  have hrow := key.row.toNat_lt
  have hcols := cfg.cols_le
  have hmul : key.row.toNat * cfg.cols ≤ 255 * cfg.cols :=
    Nat.mul_le_mul_right _ (Nat.le_of_lt_succ hrow)
  have hcol := hkey.2
  rw [entryNumber, Nat.mod_eq_of_lt (by omega), Nat.mod_eq_of_lt (by omega)]

theorem entryNumber_inj {key other : KeyPos} (hkey : cfg.InMatrix key)
    (hother : cfg.InMatrix other) (h : entryNumber cfg key = entryNumber cfg other) :
    key = other := by
  rw [entryNumber_eq cfg hkey, entryNumber_eq cfg hother] at h
  have hpos : 0 < cfg.cols := Nat.zero_lt_of_lt hkey.2
  have hrow := congrArg (· / cfg.cols) h
  have hcol := congrArg (· % cfg.cols) h
  simp only [Nat.mul_add_mod_self_right, Nat.mod_eq_of_lt hkey.2,
    Nat.mod_eq_of_lt hother.2] at hcol
  simp only [Nat.mul_comm _ cfg.cols, Nat.mul_add_div hpos, Nat.div_eq_of_lt hkey.2,
    Nat.div_eq_of_lt hother.2, Nat.add_zero] at hrow
  cases key
  cases other
  simp only [KeyPos.mk.injEq]
  exact ⟨UInt8.toNat_inj.mp hcol, UInt8.toNat_inj.mp hrow⟩

theorem layerBits_le_eight (cfg : Config) : cfg.layerBits ≤ 8 :=
  Nat.le_trans cfg.layerBits_le (by decide)

theorem readSourceLayersCache_self {key : KeyPos} (hkey : cfg.InMatrix key)
    {layer : BitVec 8} (hlayer : layer.toNat < 2 ^ cfg.layerBits) (cache : Cache) :
    readSourceLayersCache cfg key (updateSourceLayersCache cfg key layer cache) =
      layer := by
  rw [readSourceLayersCache, if_pos hkey, updateSourceLayersCache, if_pos hkey]
  exact read_update_self (layerBits_le_eight cfg) hlayer _ _

theorem readSourceLayersCache_of_ne {key other : KeyPos} (h : other ≠ key)
    (layer : BitVec 8) (cache : Cache) :
    readSourceLayersCache cfg other (updateSourceLayersCache cfg key layer cache) =
      readSourceLayersCache cfg other cache := by
  unfold readSourceLayersCache updateSourceLayersCache
  split_ifs with hother hkey
  · exact read_update_of_ne (layerBits_le_eight cfg) layer
      (fun hentry => h (entryNumber_inj hother hkey hentry)) cache
  · rfl
  · rfl

theorem topLayer_lt (fw : Firmware cfg ρ) (board : Board cfg ρ) (key : KeyPos)
    {i : Nat} (hi : i ≤ cfg.maxLayer) :
    (topLayer fw board key i).toNat < 2 ^ cfg.layerBits := by
  induction i with
  | zero => exact Nat.two_pow_pos _
  | succ i ih =>
      rw [topLayer]
      split_ifs
      · have hmax := cfg.maxLayer_le
        exact Nat.lt_of_le_of_lt (Nat.mod_le _ _) (by omega)
      · exact ih (by omega)

theorem lookUp_processed (fw : Firmware cfg ρ) (pressed : Bool) (key : KeyPos)
    (host : Host cfg ρ) :
    (lookUp fw pressed key host).2.processed = host.processed := by
  unfold lookUp
  split_ifs <;> rfl

theorem read_lookUp_self {key : KeyPos} (hkey : cfg.InMatrix key) (host : Host cfg ρ) :
    readSourceLayersCache cfg key (lookUp fw true key host).2.sourceLayersCache =
      (lookUp fw true key host).1 :=
  readSourceLayersCache_self hkey (topLayer_lt fw host.board key Nat.le.refl) _

theorem read_lookUp_of_ne (pressed : Bool) {key other : KeyPos} (h : other ≠ key)
    (host : Host cfg ρ) :
    readSourceLayersCache cfg other (lookUp fw pressed key host).2.sourceLayersCache =
      readSourceLayersCache cfg other host.sourceLayersCache := by
  cases pressed with
  | false => rfl
  | true => exact readSourceLayersCache_of_ne h _ _

/-! ## One record -/

/-- What processing a record does to the cache and the trace. -/
structure Processes (host : Host cfg ρ) (event : KeyEvent) (host' : Host cfg ρ)
    (layer : BitVec 8) : Prop where
  processed : host'.processed = host.processed ++ [⟨event, layer⟩]
  others : ∀ key, key ≠ event.key →
    readSourceLayersCache cfg key host'.sourceLayersCache =
      readSourceLayersCache cfg key host.sourceLayersCache
  press : event.pressed = true → cfg.InMatrix event.key →
    readSourceLayersCache cfg event.key host'.sourceLayersCache = layer
  release : event.pressed = false →
    layer = readSourceLayersCache cfg event.key host.sourceLayersCache ∧
      host'.sourceLayersCache = host.sourceLayersCache

theorem lookUp_processes (fw : Firmware cfg ρ) (event : KeyEvent) {host host' : Host cfg ρ}
    (hcache : host'.sourceLayersCache =
      (lookUp fw event.pressed event.key host).2.sourceLayersCache)
    (hprocessed : host'.processed =
      host.processed ++ [⟨event, (lookUp fw event.pressed event.key host).1⟩]) :
    Processes host event host' (lookUp fw event.pressed event.key host).1 := by
  refine ⟨hprocessed, fun key hne => ?_, fun hpressed hkey => ?_, fun hreleased => ?_⟩
  · rw [hcache]
    exact read_lookUp_of_ne _ hne host
  · rw [hcache, hpressed]
    exact read_lookUp_self hkey host
  · rw [hcache, hreleased]
    exact ⟨rfl, rfl⟩

theorem Processes.of_lookUp (fw : Firmware cfg ρ) {host host' host'' : Host cfg ρ} {event : KeyEvent}
    {layer : BitVec 8}
    (hcache : host'.sourceLayersCache =
      (lookUp fw event.pressed event.key host).2.sourceLayersCache)
    (hprocessed : host'.processed = host.processed)
    (h : Processes host' event host'' layer) : Processes host event host'' layer where
  processed := by rw [← hprocessed, h.processed]
  others key hne := by
    rw [h.others key hne, hcache]
    exact read_lookUp_of_ne _ hne host
  press := h.press
  release hreleased := by
    have hsame : host'.sourceLayersCache = host.sourceLayersCache := by
      rw [hcache, hreleased]
      rfl
    rw [← hsame]
    exact h.release hreleased

theorem Processes.congr {host host' host'' : Host cfg ρ} {event : KeyEvent}
    {layer : BitVec 8} (h : Processes host event host' layer)
    (hcache : host''.sourceLayersCache = host'.sourceLayersCache)
    (hprocessed : host''.processed = host'.processed) :
    Processes host event host'' layer where
  processed := hprocessed.trans h.processed
  others key hne := by
    rw [hcache]
    exact h.others key hne
  press hpressed hkey := by
    rw [hcache]
    exact h.press hpressed hkey
  release hreleased := by
    rw [hcache]
    exact h.release hreleased

theorem postProcessRecordQuantum_cache (fw : Firmware cfg ρ) (record : KeyRecord)
    (host : Host cfg ρ) :
    (postProcessRecordQuantum fw record host).sourceLayersCache =
        host.sourceLayersCache ∧
      (postProcessRecordQuantum fw record host).processed = host.processed := by
  unfold postProcessRecordQuantum getEventKeycode
  rw [Bool.and_false]
  exact ⟨rfl, rfl⟩

theorem processRecordHandler_processes (fw : Firmware cfg ρ) (record : KeyRecord)
    (host : Host cfg ρ) :
    Processes host record.event (processRecordHandler fw record host).1
      (lookUp fw record.event.pressed record.event.key host).1 := by
  refine lookUp_processes fw record.event rfl ?_
  rw [← lookUp_processed fw record.event.pressed record.event.key host]
  rfl

theorem processRecord_processes (fw : Firmware cfg ρ) (host : Host cfg ρ)
    {record : KeyRecord} (hevent : record.event.isEvent = true) :
    ∃ layer, Processes host record.event (processRecord fw host record).1 layer := by
  have hkeycode : (getEventKeycode fw record.event true host).2 =
      (lookUp fw record.event.pressed record.event.key host).2 := by
    simp only [getEventKeycode, Bool.and_true]
  have hprocessed := lookUp_processed fw record.event.pressed record.event.key host
  -- the handler looks the record up again, on the board left by `process_record_quantum`
  have hhandled : ∀ board, ∃ layer, Processes host record.event
      (postProcessRecordQuantum fw
        (processRecordHandler fw record
          { (lookUp fw record.event.pressed record.event.key host).2 with
            board := board }).2
        (processRecordHandler fw record
          { (lookUp fw record.event.pressed record.event.key host).2 with
            board := board }).1) layer := by
    intro board
    have hagain := processRecordHandler_processes fw record
      { (lookUp fw record.event.pressed record.event.key host).2 with board := board }
    obtain ⟨hcache, hsame⟩ := postProcessRecordQuantum_cache fw
      (processRecordHandler fw record
        { (lookUp fw record.event.pressed record.event.key host).2 with
          board := board }).2 _
    refine ⟨_, (hagain.congr hcache hsame).of_lookUp fw ?_ ?_⟩
    · rfl
    · exact hprocessed
  unfold processRecord
  rw [if_neg (by simp [hevent])]
  dsimp only
  rw [hkeycode]
  split_ifs
  · refine ⟨_, lookUp_processes fw record.event rfl ?_⟩
    rw [← hprocessed]
    rfl
  · exact hhandled _

/-! ## The trace -/

/-- The presses of a key in the trace. -/
def pressesOf (key : KeyPos) (trace : List Processed) : List Processed :=
  trace.filter fun entry => entry.event.key = key && entry.event.pressed

/-- Each release of a matrix key is looked up on the layer of the press before it. -/
def Undoes (cfg : Config) (trace : List Processed) : Prop :=
  ∀ before entry, before ++ [entry] <+: trace → cfg.InMatrix entry.event.key →
    entry.event.pressed = false →
      ∀ press, (pressesOf entry.event.key before).getLast? = some press →
        entry.layer = press.layer

/-- The event of a call. -/
def callEvent : Call → Option KeyEvent
  | .record record => some record.event
  | .releaseLastTap record => some record.event
  | .overflow => none

/-- The cache holds the layers of the keys that are down, as they were handed over. -/
structure CacheHolds (host : Host cfg ρ) (calls : List Call) : Prop where
  undoes : Undoes cfg host.processed
  cached : ∀ key, cfg.InMatrix key → Down calls key →
    ∀ press, (pressesOf key host.processed).getLast? = some press →
      readSourceLayersCache cfg key host.sourceLayersCache = press.layer
  presses : ∀ key, (pressesOf key host.processed).map (·.event) =
    (handedTo key calls).filter (·.pressed)
  events : host.processed.map (·.event) = calls.filterMap callEvent

theorem Undoes.snoc {trace : List Processed} {entry : Processed} (h : Undoes cfg trace)
    (hentry : cfg.InMatrix entry.event.key → entry.event.pressed = false →
      ∀ press, (pressesOf entry.event.key trace).getLast? = some press →
        entry.layer = press.layer) : Undoes cfg (trace ++ [entry]) := by
  intro before other hstart
  rcases List.prefix_concat_iff.mp hstart with heq | hstart
  · obtain ⟨rfl, hsame⟩ := List.append_inj' heq rfl
    obtain rfl := List.singleton_inj.mp hsame
    exact hentry
  · exact h before other hstart

theorem pressesOf_snoc (key : KeyPos) (trace : List Processed) (entry : Processed) :
    pressesOf key (trace ++ [entry]) = pressesOf key trace ++
      if entry.event.key = key ∧ entry.event.pressed = true then [entry] else [] := by
  by_cases h : entry.event.key = key ∧ entry.event.pressed = true
  · simp [pressesOf, h]
  · rw [if_neg h]
    simp only [pressesOf, List.filter_append, List.append_cancel_left_eq]
    exact List.filter_cons_of_neg (by simpa using h)

theorem CacheHolds.down {host : Host cfg ρ} {calls : List Call} {record : KeyRecord}
    {press : Processed} (h : CacheHolds host calls)
    (halt : HandsAlternately (calls ++ [.record record]))
    (hreleased : record.event.pressed = false)
    (hpress : (pressesOf record.event.key host.processed).getLast? = some press) :
    Down calls record.event.key := by
  have hown := halt record.event.key
  rw [handedTo_record, if_pos rfl] at hown
  cases hlast : (handedTo record.event.key calls).getLast? with
  | none =>
      have hnone := h.presses record.event.key
      rw [List.getLast?_eq_none_iff.mp hlast, List.filter_nil, List.map_eq_nil_iff]
        at hnone
      rw [hnone] at hpress
      simp at hpress
  | some last =>
      refine ⟨last, hlast, ?_⟩
      have hne := hown.last_ne hlast
      rw [hreleased] at hne
      simpa using hne

theorem CacheHolds.of_cache {host host' : Host cfg ρ} {calls : List Call}
    (h : CacheHolds host calls) (hprocessed : host'.processed = host.processed)
    (hcache : ∀ key, cfg.InMatrix key → Down calls key →
      readSourceLayersCache cfg key host'.sourceLayersCache =
        readSourceLayersCache cfg key host.sourceLayersCache) :
    CacheHolds host' calls where
  undoes := by rw [hprocessed]; exact h.undoes
  cached key hkey hdown press hpress := by
    rw [hprocessed] at hpress
    rw [hcache key hkey hdown]
    exact h.cached key hkey hdown press hpress
  presses := by rw [hprocessed]; exact h.presses
  events := by rw [hprocessed]; exact h.events

theorem CacheHolds.record {host host' : Host cfg ρ} {calls : List Call}
    {record : KeyRecord} {layer : BitVec 8} (h : CacheHolds host calls)
    (hprocesses : Processes host record.event host' layer)
    (halt : HandsAlternately (calls ++ [.record record])) :
    CacheHolds host' (calls ++ [.record record]) where
  undoes := by
    rw [hprocesses.processed]
    refine h.undoes.snoc fun hkey hreleased press hpress => ?_
    have hdown := h.down halt hreleased hpress
    exact (hprocesses.release hreleased).1.trans (h.cached _ hkey hdown press hpress)
  cached key hkey hdown press hpress := by
    obtain ⟨last, hlast, hpressed⟩ := hdown
    rw [handedTo_record] at hlast
    rw [hprocesses.processed, pressesOf_snoc] at hpress
    by_cases hown : record.event.key = key
    · subst hown
      rw [if_pos rfl, List.getLast?_concat] at hlast
      obtain rfl := Option.some.inj hlast
      rw [if_pos ⟨rfl, hpressed⟩, List.getLast?_concat] at hpress
      obtain rfl := Option.some.inj hpress
      exact hprocesses.press hpressed hkey
    · rw [if_neg hown, List.append_nil] at hlast
      rw [if_neg fun hboth => hown hboth.1, List.append_nil] at hpress
      rw [hprocesses.others key (Ne.symm hown)]
      exact h.cached key hkey ⟨last, hlast, hpressed⟩ press hpress
  presses key := by
    rw [hprocesses.processed, pressesOf_snoc, List.map_append, h.presses, handedTo_record,
      List.filter_append]
    congr 1
    by_cases hown : record.event.key = key
    · by_cases hpressed : record.event.pressed = true
      · simp [hown, hpressed]
      · simp [hown, hpressed]
    · simp [hown]
  events := by
    rw [hprocesses.processed, List.map_append, h.events, List.filterMap_append]
    rfl

theorem down_releaseLastTap {calls : List Call} {record : KeyRecord} {key : KeyPos} :
    Down (calls ++ [.releaseLastTap record]) key ↔ Down calls key := by
  rw [Down, handedTo, recordsTo_releaseLastTap]
  rfl

theorem CacheHolds.releaseLastTap {host host' : Host cfg ρ} {calls : List Call}
    {record : KeyRecord} {layer : BitVec 8} (h : CacheHolds host calls)
    (hprocesses : Processes host record.event host' layer)
    (hreleased : record.event.pressed = false) (hdown : Down calls record.event.key) :
    CacheHolds host' (calls ++ [.releaseLastTap record]) where
  undoes := by
    rw [hprocesses.processed]
    exact h.undoes.snoc fun hkey _ press hpress =>
      (hprocesses.release hreleased).1.trans (h.cached _ hkey hdown press hpress)
  cached key hkey hstill press hpress := by
    rw [hprocesses.processed, pressesOf_snoc, if_neg (by simp [hreleased]),
      List.append_nil] at hpress
    rw [(hprocesses.release hreleased).2]
    exact h.cached key hkey (down_releaseLastTap.mp hstill) press hpress
  presses key := by
    rw [hprocesses.processed, pressesOf_snoc, if_neg (by simp [hreleased]),
      List.append_nil, h.presses, handedTo, handedTo, recordsTo_releaseLastTap]
  events := by
    rw [hprocesses.processed, List.map_append, h.events, List.filterMap_append]
    rfl

theorem cacheHolds_keeps (fw : Firmware cfg ρ) :
    Keeps (callbacks fw) (@CacheHolds cfg ρ) := by
  intro host calls host' calls' heffects halt h
  induction heffects with
  | refl => exact h
  | hint record _ ih => exact (ih halt).of_cache rfl fun _ _ _ => rfl
  | record _ hevent ih =>
      have hbefore := ih (halt.of_prefix (List.prefix_append _ _))
      obtain ⟨layer, hprocesses⟩ := processRecord_processes fw _ hevent
      exact hbefore.record hprocesses halt
  | releaseLastTap _ hevent hreleased hdown ih =>
      have hbefore := ih (halt.of_prefix (List.prefix_append _ _))
      obtain ⟨layer, hprocesses⟩ := processRecord_processes fw _ hevent
      exact hbefore.releaseLastTap hprocesses hreleased hdown

theorem callbacks_keepsRecords (fw : Firmware cfg ρ) : (callbacks fw).KeepsRecords := by
  intro host record
  have hrecord : (processRecord fw host record).2 = record ∨
      ∃ board action, (processRecord fw host record).2 =
        (fw.processAction board record action).2 := by
    unfold processRecord
    dsimp only
    split_ifs
    · exact .inl rfl
    · exact .inl rfl
    · exact .inr ⟨_, _, rfl⟩
  rcases hrecord with hsame | ⟨board, action, hsame⟩
  · exact .inl hsame
  · have hhandler := fw.processAction_record board record action
    rw [← hsame] at hhandler
    exact hhandler

/-! ## Arrivals -/

/--
A press arrives on another layer than the last press of its key was processed on,
and the release of that press has not been processed.
-/
def Overwrites (fw : Firmware cfg ρ) (s : State (Host cfg ρ)) (event : KeyEvent) :
    Prop :=
  event.isEvent = true ∧ event.pressed = true ∧ cfg.InMatrix event.key ∧
    Down s.calls event.key ∧
    layerSwitchGetLayer fw (fw.prepare s.host.board event) event.key ≠
      readSourceLayersCache cfg event.key s.host.sourceLayersCache

/-- A step that can part a release from its press. -/
def Astray (fw : Firmware cfg ρ) (s : State (Host cfg ρ)) : Input cfg → Prop
  | .event event =>
      Overtakes (callbacks fw) { s with host := arrive fw event s.host } event ∨
        Overwrites fw s event
  | .layers _ _ => False

instance (calls : List Call) (key : KeyPos) : Decidable (Down calls key) :=
  decidable_of_iff ((handedTo key calls).getLast?.any (·.pressed) = true) (by
    simp [Down, Option.any_eq_true])

instance (fw : Firmware cfg ρ) (s : State (Host cfg ρ)) (event : KeyEvent) :
    Decidable (Overwrites fw s event) :=
  inferInstanceAs (Decidable (_ ∧ _ ∧ _ ∧ _ ∧ _))

instance (fw : Firmware cfg ρ) (s : State (Host cfg ρ)) :
    (input : Input cfg) → Decidable (Astray fw s input)
  | .event _ => inferInstanceAs (Decidable (_ ∨ _))
  | .layers _ _ => inferInstanceAs (Decidable False)

def eventsOf (inputs : List (Input cfg)) : List KeyEvent :=
  inputs.filterMap fun
    | .event event => some event
    | .layers _ _ => none

theorem arrive_processed (fw : Firmware cfg ρ) (event : KeyEvent) (host : Host cfg ρ) :
    (arrive fw event host).processed = host.processed := by
  unfold arrive preProcessRecordQuantum getEventKeycode
  dsimp only
  split_ifs
  · rw [lookUp_processed, lookUp_processed]
  · rfl

theorem arrive_released (fw : Firmware cfg ρ) {event : KeyEvent}
    (h : ¬ (event.isEvent = true ∧ event.pressed = true)) (host : Host cfg ρ) :
    (arrive fw event host).sourceLayersCache = host.sourceLayersCache := by
  unfold arrive preProcessRecordQuantum getEventKeycode
  dsimp only
  split_ifs with hevent
  · have hreleased : event.pressed = false := by
      simpa [hevent] using h
    rw [hreleased]
    rfl
  · rfl

theorem arrive_other (fw : Firmware cfg ρ) {event : KeyEvent} {key : KeyPos}
    (h : key ≠ event.key) (host : Host cfg ρ) :
    readSourceLayersCache cfg key (arrive fw event host).sourceLayersCache =
      readSourceLayersCache cfg key host.sourceLayersCache := by
  unfold arrive preProcessRecordQuantum getEventKeycode
  dsimp only
  split_ifs
  · rw [read_lookUp_of_ne _ h, read_lookUp_of_ne _ h]
  · rfl

theorem arrive_own (fw : Firmware cfg ρ) {event : KeyEvent}
    (hevent : event.isEvent = true) (hpressed : event.pressed = true)
    (hkey : cfg.InMatrix event.key) (host : Host cfg ρ) :
    readSourceLayersCache cfg event.key (arrive fw event host).sourceLayersCache =
      layerSwitchGetLayer fw (fw.prepare host.board event) event.key := by
  unfold arrive preProcessRecordQuantum getEventKeycode
  dsimp only
  rw [if_pos hevent, hpressed, Bool.and_true, read_lookUp_self hkey]
  unfold lookUp
  simp only [if_true]

theorem CacheHolds.arrive {s : State (Host cfg ρ)} {event : KeyEvent}
    (h : CacheHolds s.host s.calls) (hoverwrites : ¬ Overwrites fw s event) :
    CacheHolds (arrive fw event s.host) s.calls := by
  refine h.of_cache (arrive_processed fw event s.host) fun key hkey hdown => ?_
  by_cases hpress : event.isEvent = true ∧ event.pressed = true
  · obtain ⟨hevent, hpressed⟩ := hpress
    by_cases hown : key = event.key
    · subst hown
      rw [arrive_own fw hevent hpressed hkey]
      by_contra hne
      exact hoverwrites ⟨hevent, hpressed, hkey, hdown, hne⟩
    · exact arrive_other fw hown s.host
  · rw [arrive_released fw hpress]

/-! ## Runs -/

/-- The invariant between two inputs. -/
structure Sound (fed : KeyPos → List KeyEvent) (s : State (Host cfg ρ)) : Prop where
  conserves : Conserves fed s
  hosts : Hosts CacheHolds s

theorem Sound.event {fed : KeyPos → List KeyEvent} {s : State (Host cfg ρ)}
    {event : KeyEvent} (h : Sound fed s)
    (halt : ∀ key, Alternates (fed key ++ arrival event key))
    (hastray : ¬ Astray fw s (.event event))
    (hoverflow : .overflow ∉ (exec fw s (.event event)).calls) :
    Sound (fun key => fed key ++ arrival event key) (exec fw s (.event event)) := by
  have hcb := callbacks_keepsRecords fw
  have hfed : Conserves fed { s with host := arrive fw event s.host } :=
    ⟨h.conserves.conserve, h.conserves.waiting, h.conserves.length_lt⟩
  have hhosts : Hosts CacheHolds { s with host := arrive fw event s.host } :=
    ⟨h.hosts.inv.arrive fun hover => hastray (.inr hover), h.hosts.tapDown,
      h.hosts.waiting⟩
  have hafter := hfed.exec hcb (fun hevent => by
      have hown := halt event.key
      rwa [arrival_own hevent] at hown)
    (fun hovertakes => hastray (.inl hovertakes)) hoverflow
  exact ⟨hafter, hhosts.exec hcb (cacheHolds_keeps fw) (hafter.handsAlternately halt)
    hoverflow⟩

theorem Sound.layers {fed : KeyPos → List KeyEvent} {s : State (Host cfg ρ)}
    (h : Sound fed s) (layerState defaultLayerState : LayerState cfg) :
    Sound fed (exec fw s (.layers layerState defaultLayerState)) :=
  ⟨⟨h.conserves.conserve, h.conserves.waiting, h.conserves.length_lt⟩,
    ⟨h.hosts.inv.of_cache rfl fun _ _ _ => rfl, h.hosts.tapDown, h.hosts.waiting⟩⟩

theorem exec_calls (fw : Firmware cfg ρ) (s : State (Host cfg ρ)) (input : Input cfg) :
    s.calls <+: (exec fw s input).calls := by
  cases input with
  | event event =>
      exact (processFresh_calls (callbacks fw) (.fresh event)
        { s with host := arrive fw event s.host }).trans (actionExec_calls _ _ event)
  | layers layerState defaultLayerState => exact List.prefix_rfl

theorem exec_run_calls (fw : Firmware cfg ρ) (s : State (Host cfg ρ))
    (inputs : List (Input cfg)) : s.calls <+: (run (exec fw) s inputs).calls := by
  induction inputs generalizing s with
  | nil => exact List.prefix_rfl
  | cons input inputs ih => exact (exec_calls fw s input).trans (ih _)

theorem Sound.exec_run {fed : KeyPos → List KeyEvent} {s : State (Host cfg ρ)}
    {inputs : List (Input cfg)} (h : Sound fed s)
    (halt : ∀ key, Alternates (fed key ++ fedTo key (eventsOf inputs)))
    (hmeets : Meets (exec fw) (fun s input => ¬ Astray fw s input) s inputs)
    (hoverflow : .overflow ∉ (run (exec fw) s inputs).calls) :
    Sound (fun key => fed key ++ fedTo key (eventsOf inputs))
      (run (exec fw) s inputs) := by
  induction inputs generalizing s fed with
  | nil => simpa [eventsOf, fedTo] using h
  | cons input inputs ih =>
      cases input with
      | event event =>
          have hevents : eventsOf (.event event :: inputs) =
              event :: eventsOf inputs := rfl
          rw [hevents] at halt ⊢
          have hsplit : ∀ key, Alternates (fed key ++ arrival event key ++
              fedTo key (eventsOf inputs)) := by
            intro key
            have hkey := halt key
            rwa [fedTo_cons, ← List.append_assoc] at hkey
          have hstep := h.event (fun key => (hsplit key).of_append) hmeets.1
            fun hmem => hoverflow ((exec_run_calls fw _ inputs).subset hmem)
          have hrest := ih hstep hsplit hmeets.2 hoverflow
          simpa only [fedTo_cons, List.append_assoc, run_cons] using hrest
      | layers layerState defaultLayerState =>
          exact ih (h.layers layerState defaultLayerState) halt hmeets.2 hoverflow

def Host.init (board : Board cfg ρ) : Host cfg ρ := ⟨board, fun _ _ => 0#8, []⟩

theorem init_sound (board : Board cfg ρ) :
    Sound (fun _ => []) (State.init (Host.init board)) where
  conserves := init_conserves _
  hosts :=
    { inv :=
        { undoes := fun before entry hstart => by
            have hnil := List.prefix_nil.mp hstart
            simp at hnil
          cached := fun _ _ _ _ hpress => by simp [State.init, Host.init, pressesOf] at hpress
          presses := fun _ => rfl
          events := rfl }
      tapDown := .of_not_tapped KeyRecord.zero_not_tapped
      waiting := (init_conserves (Host.init board)).waiting }

/--
In a run whose steps go not astray and do not overflow the buffer, each release of
a matrix key is looked up on the layer on which its own press was processed: the
records of a key are processed in the order in which they came in, and the last
press before a release has its layer.
-/
theorem release_undoes_press (fw : Firmware cfg ρ) (board : Board cfg ρ)
    (inputs : List (Input cfg))
    (halt : ∀ key, Alternates (fedTo key (eventsOf inputs)))
    (hmeets : Meets (exec fw) (fun s input => ¬ Astray fw s input)
      (.init (.init board)) inputs)
    (hoverflow : .overflow ∉ (run (exec fw) (.init (.init board)) inputs).calls) :
    (∀ key, handedTo key (run (exec fw) (.init (.init board)) inputs).calls <+:
      fedTo key (eventsOf inputs)) ∧
    (run (exec fw) (.init (.init board)) inputs).host.processed.map (·.event) =
      (run (exec fw) (.init (.init board)) inputs).calls.filterMap callEvent ∧
    Undoes cfg (run (exec fw) (.init (.init board)) inputs).host.processed := by
  have hrun := (init_sound board).exec_run halt hmeets hoverflow
  simp only [List.nil_append] at hrun
  refine ⟨fun key => ?_, hrun.hosts.inv.events, hrun.hosts.inv.undoes⟩
  rw [← hrun.conserves.conserve key, taken, List.append_assoc]
  exact List.prefix_append _ _

/-! ## Releases that undo another action -/

def oneRow : Config where
  rows := 1
  cols := 16
  cols_le := by decide
  layerBits := 4
  maxLayer := 16
  layerBits_le := by decide
  maxLayer_le := by decide

/--
Keys 0 and 1 are mod-taps, and key 5 is `MO(1)` with a shift on layer 1.  Keycodes
are actions here.
-/
def momentary : Firmware oneRow Unit where
  keycodeAt layer key :=
    if key.col < 2 then 0x2104
    else if key.col = 5 then if layer = 0#8 then 0xA1F1 else 0x00E1
    else 0x0004
  actionForKeycode _ keycode := keycode
  prepare board _ := board
  processRecordQuantum board _ _ := (true, board)
  processAction board record action :=
    (if action = 0xA1F1 then
      { board with layerState := if record.event.pressed then 2#_ else 0#_ }
    else board, record)
  processAction_record _ _ _ := .inl rfl
  postProcessRecord board _ _ := board
  processRecordTapHint board _ := board
  getTappingTerm _ _ := 200
  getQuickTapTerm _ _ := 200
  getPermissiveHold _ _ := false
  clearKeyboard board := board

def noLayers : Board oneRow Unit := ⟨0#_, 0#_, ()⟩

/-- The layer key is released while a mod-tap is held; another layer is set before. -/
def heldOver : List (Input oneRow) :=
  [.event (keyEvent 5 0 true), .event (keyEvent 0 10 true), .layers 4#_ 0#_,
    .event (keyEvent 5 20 false), .event (keyEvent 6 30 true),
    .event (tickEvent 210), .event (keyEvent 6 220 false)]

theorem heldOver_undoes :
    (run (exec momentary) (.init (.init noLayers)) heldOver).host.processed.map
        (·.layer) = [0#8, 2#8, 0#8, 0#8, 0#8] ∧
      Undoes oneRow (run (exec momentary) (.init (.init noLayers)) heldOver).host.processed :=
  ⟨by decide, (release_undoes_press momentary noLayers heldOver
    (alternates_of_mem (by decide))
    ⟨by decide, by decide, by decide, by decide, by decide, by decide, by decide, trivial⟩
    (by decide)).2.2⟩

/-- The layer key is released and pressed again while a mod-tap is held. -/
def pressedAgain : List (Input oneRow) :=
  [.event (keyEvent 5 0 true), .event (keyEvent 0 10 true),
    .event (keyEvent 5 20 false), .event (keyEvent 5 30 true), .event (tickEvent 210)]

/-- A press that ends the terms of two keys waits, and its release does not. -/
def leftWaiting : List (Input oneRow) :=
  [.event (keyEvent 0 0 true), .event (keyEvent 1 10 true),
    .event (keyEvent 6 215 true), .event (keyEvent 6 216 false)]

/-- Eight presses behind a mod-tap overflow the buffer. -/
def eightBehind : List (Input oneRow) :=
  [.event (keyEvent 0 0 true), .event (keyEvent 2 10 true),
    .event (keyEvent 3 20 true), .event (keyEvent 4 30 true),
    .event (keyEvent 6 40 true), .event (keyEvent 7 50 true),
    .event (keyEvent 8 60 true), .event (keyEvent 9 70 true),
    .event (keyEvent 10 80 true), .event (keyEvent 0 90 false)]

theorem pressedAgain_trace :
    (run (exec momentary) (.init (.init noLayers)) pressedAgain).host.processed =
      [⟨keyEvent 5 0 true, 0#8⟩, ⟨keyEvent 0 10 true, 1#8⟩,
        ⟨keyEvent 5 20 false, 1#8⟩, ⟨keyEvent 5 30 true, 1#8⟩] := by
  decide

/--
The release of the layer key is looked up on layer 1, its press was processed on
layer 0; a release is processed before its press; and one after its press is lost.
-/
theorem release_parts_from_press :
    ((∀ key, Alternates (fedTo key (eventsOf pressedAgain))) ∧
      .overflow ∉ (run (exec momentary) (.init (.init noLayers)) pressedAgain).calls ∧
      ¬ Undoes oneRow
        (run (exec momentary) (.init (.init noLayers)) pressedAgain).host.processed) ∧
    ((∀ key, Alternates (fedTo key (eventsOf leftWaiting))) ∧
      ¬ handedTo ⟨6, 0⟩ (run (exec momentary) (.init (.init noLayers)) leftWaiting).calls <+:
        fedTo ⟨6, 0⟩ (eventsOf leftWaiting)) ∧
    (∀ key, Alternates (fedTo key (eventsOf eightBehind))) ∧
      ¬ handedTo ⟨0, 0⟩ (run (exec momentary) (.init (.init noLayers)) eightBehind).calls <+:
        fedTo ⟨0, 0⟩ (eventsOf eightBehind) := by
  refine ⟨⟨alternates_of_mem (by decide), by decide, fun h => ?_⟩,
    ⟨alternates_of_mem (by decide), by decide⟩, alternates_of_mem (by decide), by decide⟩
  rw [pressedAgain_trace] at h
  have hlayer := h [⟨keyEvent 5 0 true, 0#8⟩, ⟨keyEvent 0 10 true, 1#8⟩]
    ⟨keyEvent 5 20 false, 1#8⟩ ⟨[⟨keyEvent 5 30 true, 1#8⟩], rfl⟩ (by decide) rfl
    ⟨keyEvent 5 0 true, 0#8⟩ (by decide)
  exact absurd hlayer (by decide)

end Qmk.Layers
