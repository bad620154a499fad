import Qmk.Layers.SourceCache
import Qmk.Tapping.Engine

/-!
# Key look-up and record processing

`action_layer.c`, and the parts of `quantum.c` and `action.c` that look a key up
on its layer, in the default configuration.  What the rest of the firmware does
with a record is a parameter (`Firmware`): it may change the layers, and has no
access to the source-layer cache.
-/

namespace Qmk.Layers

open Qmk.Tapping (KeyPos KeyEvent KeyRecord Callbacks State)

structure Config where
  /-- `MATRIX_ROWS` and `MATRIX_COLS`: a position has eight bits for each. -/
  rows : Nat
  cols : Nat
  cols_le : cols ≤ 256
  /-- `MAX_LAYER_BITS` and `MAX_LAYER`. -/
  layerBits : Nat
  maxLayer : Nat
  layerBits_le : layerBits ≤ 5
  maxLayer_le : maxLayer ≤ 2 ^ layerBits

/-- `layer_state_t`. -/
abbrev LayerState (cfg : Config) := BitVec (2 ^ cfg.layerBits)

/-- The layer states, and all that is not modelled. -/
structure Board (cfg : Config) (ρ : Type) where
  layerState : LayerState cfg
  defaultLayerState : LayerState cfg
  rest : ρ

/-- A record that was processed, and the layer that it was looked up on last. -/
structure Processed where
  event : KeyEvent
  layer : BitVec 8
  deriving DecidableEq

structure Host (cfg : Config) (ρ : Type) where
  board : Board cfg ρ
  sourceLayersCache : Cache
  processed : List Processed

/-- The rest of the firmware. -/
structure Firmware (cfg : Config) (ρ : Type) where
  /-- `keycode_at_keymap_location`. -/
  keycodeAt : BitVec 8 → KeyPos → UInt16
  actionForKeycode : ρ → UInt16 → UInt16
  /-- What `action_exec` does before the tapping engine: weak mods, one-shots. -/
  prepare : Board cfg ρ → KeyEvent → Board cfg ρ
  /-- `process_record_quantum` behind its look-up, and the end of one-shots. -/
  processRecordQuantum : Board cfg ρ → UInt16 → KeyRecord → Bool × Board cfg ρ
  processAction : Board cfg ρ → KeyRecord → UInt16 → Board cfg ρ × KeyRecord
  /-- `process_action` turns at most a press that ends a one-shot into its release. -/
  processAction_record : ∀ board record action,
    (processAction board record action).2 = record ∨
      (processAction board record action).2 =
        { record with event := { record.event with pressed := false } }
  /-- `post_process_record_quantum` behind its look-up. -/
  postProcessRecord : Board cfg ρ → UInt16 → KeyRecord → Board cfg ρ
  processRecordTapHint : Board cfg ρ → KeyRecord → Board cfg ρ
  getTappingTerm : Host cfg ρ → KeyRecord → UInt16
  getQuickTapTerm : Host cfg ρ → KeyRecord → UInt16
  getPermissiveHold : Host cfg ρ → KeyRecord → Bool
  clearKeyboard : Board cfg ρ → Board cfg ρ

variable {cfg : Config} {ρ : Type}

def Config.InMatrix (cfg : Config) (key : KeyPos) : Prop :=
  key.row.toNat < cfg.rows ∧ key.col.toNat < cfg.cols

instance (cfg : Config) (key : KeyPos) : Decidable (cfg.InMatrix key) :=
  inferInstanceAs (Decidable (_ ∧ _))

/-- `(uint16_t)(key.row * MATRIX_COLS) + key.col`, in a `uint16_t`. -/
def entryNumber (cfg : Config) (key : KeyPos) : Nat :=
  (key.row.toNat * cfg.cols % 2 ^ 16 + key.col.toNat) % 2 ^ 16

def updateSourceLayersCache (cfg : Config) (key : KeyPos) (layer : BitVec 8)
    (cache : Cache) : Cache :=
  if cfg.InMatrix key then
    updateSourceLayersCacheImpl cfg.layerBits layer (entryNumber cfg key) cache
  else cache

def readSourceLayersCache (cfg : Config) (key : KeyPos) (cache : Cache) : BitVec 8 :=
  if cfg.InMatrix key then
    readSourceLayersCacheImpl cfg.layerBits (entryNumber cfg key) cache
  else 0#8

/-! ## Look-up -/

def actionTransparent : UInt16 := 1

/-- `action.kind.id` of a tap-hold action, with a code that can be tapped. -/
def isTapAction (action : UInt16) : Bool :=
  let code := Tapping.actionKeyCode action
  -- ACT_LMODS_TAP, ACT_RMODS_TAP, ACT_LAYER_TAP, ACT_LAYER_TAP_EXT
  if Tapping.actionKindId action = 2 ∨ Tapping.actionKindId action = 3 ∨
      Tapping.actionKindId action = 10 ∨ Tapping.actionKindId action = 11 then
    code ≤ 0xE7 || code = 0xF0 || code = 0xF4
  -- ACT_SWAP_HANDS
  else if Tapping.actionKindId action = 6 then code ≤ 0xE7 || code = 0xF1
  else false

section Lookup

variable (fw : Firmware cfg ρ)

/-- `KC_NO` outside the matrix. -/
def keymapKeyToKeycode (layer : BitVec 8) (key : KeyPos) : UInt16 :=
  if cfg.InMatrix key then fw.keycodeAt layer key else 0

def actionForKey (board : Board cfg ρ) (layer : BitVec 8) (key : KeyPos) : UInt16 :=
  fw.actionForKeycode board.rest (keymapKeyToKeycode fw layer key)

/-- The loop of `layer_switch_get_layer`, from the layer below `i`. -/
def topLayer (board : Board cfg ρ) (key : KeyPos) : Nat → BitVec 8
  | 0 => 0#8
  | i + 1 =>
      let layers := board.layerState ||| board.defaultLayerState
      if layers.getLsbD i ∧
          actionForKey fw board (BitVec.ofNat 8 i) key ≠ actionTransparent then
        BitVec.ofNat 8 i
      else topLayer board key i

def layerSwitchGetLayer (board : Board cfg ρ) (key : KeyPos) : BitVec 8 :=
  topLayer fw board key cfg.maxLayer

def layerSwitchGetAction (board : Board cfg ρ) (key : KeyPos) : UInt16 :=
  actionForKey fw board (layerSwitchGetLayer fw board key) key

/--
The look-up of `get_event_keycode` and `store_or_get_action`: a press is looked up
in the layers and stored, a release is read from the cache.
-/
def lookUp (pressed : Bool) (key : KeyPos) (host : Host cfg ρ) :
    BitVec 8 × Host cfg ρ :=
  if pressed then
    let layer := layerSwitchGetLayer fw host.board key
    (layer, { host with
      sourceLayersCache := updateSourceLayersCache cfg key layer host.sourceLayersCache })
  else (readSourceLayersCache cfg key host.sourceLayersCache, host)

def getEventKeycode (event : KeyEvent) (updateLayerCache : Bool) (host : Host cfg ρ) :
    UInt16 × Host cfg ρ :=
  let (layer, host) := lookUp fw (event.pressed && updateLayerCache) event.key host
  (keymapKeyToKeycode fw layer event.key, host)

def storeOrGetAction (pressed : Bool) (key : KeyPos) (host : Host cfg ρ) :
    UInt16 × Host cfg ρ :=
  let (layer, host) := lookUp fw pressed key host
  (actionForKey fw host.board layer key, host)

/-! ## Records -/

/-- The trace of what is processed: nothing reads it. -/
def Host.note (event : KeyEvent) (layer : BitVec 8) (host : Host cfg ρ) : Host cfg ρ :=
  { host with processed := host.processed ++ [⟨event, layer⟩] }

def processRecordHandler (record : KeyRecord) (host : Host cfg ρ) :
    Host cfg ρ × KeyRecord :=
  let layer := (lookUp fw record.event.pressed record.event.key host).1
  let (action, host) := storeOrGetAction fw record.event.pressed record.event.key host
  let host := host.note record.event layer
  let (board, record) := fw.processAction host.board record action
  ({ host with board := board }, record)

def postProcessRecordQuantum (record : KeyRecord) (host : Host cfg ρ) : Host cfg ρ :=
  let (keycode, host) := getEventKeycode fw record.event false host
  { host with board := fw.postProcessRecord host.board keycode record }

def processRecord (host : Host cfg ρ) (record : KeyRecord) : Host cfg ρ × KeyRecord :=
  if !record.event.isEvent then (host, record)
  else
    let layer := (lookUp fw record.event.pressed record.event.key host).1
    let (keycode, host) := getEventKeycode fw record.event true host
    let (proceed, board) := fw.processRecordQuantum host.board keycode record
    let host := { host with board := board }
    if !proceed then (host.note record.event layer, record)
    else
      let (host, record) := processRecordHandler fw record host
      (postProcessRecordQuantum fw record host, record)

def callbacks : Callbacks (Host cfg ρ) where
  processRecord := processRecord fw
  processRecordTapHint host record :=
    { host with board := fw.processRecordTapHint host.board record }
  isTapRecord host record :=
    record.event.isEvent &&
      isTapAction (layerSwitchGetAction fw host.board record.event.key)
  getTappingTerm := fw.getTappingTerm
  getQuickTapTerm := fw.getQuickTapTerm
  getPermissiveHold := fw.getPermissiveHold
  layerSwitchGetAction host key := layerSwitchGetAction fw host.board key
  clearKeyboard host := { host with board := fw.clearKeyboard host.board }

/-- `pre_process_record_quantum`: its two look-ups, for hooks that do nothing. -/
def preProcessRecordQuantum (event : KeyEvent) (host : Host cfg ρ) : Host cfg ρ :=
  (getEventKeycode fw event true (getEventKeycode fw event true host).2).2

/-- What `action_exec` does to the host before the tapping engine. -/
def arrive (event : KeyEvent) (host : Host cfg ρ) : Host cfg ρ :=
  let host := { host with board := fw.prepare host.board event }
  if event.isEvent then preProcessRecordQuantum fw event host else host

end Lookup

/-- A key event or a tick, or a call that sets the layers. -/
inductive Input (cfg : Config) where
  | event (event : KeyEvent)
  | layers (layerState defaultLayerState : LayerState cfg)

def exec (fw : Firmware cfg ρ) (s : State (Host cfg ρ)) : Input cfg → State (Host cfg ρ)
  | .event event =>
      Tapping.actionExec (callbacks fw) { s with host := arrive fw event s.host } event
  | .layers layerState defaultLayerState =>
      { s with host := { s.host with
          board := { s.host.board with
            layerState := layerState
            defaultLayerState := defaultLayerState } } }

end Qmk.Layers
