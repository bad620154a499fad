import Qmk.Tapping.Engine

/-!
# Actions

`process_record` and `process_action` of `action.c`, with the one-shot layers and the swapping of
hands of `action_util.c`.  What they call in the rest of the firmware is a parameter (`Firmware`).
-/

namespace Qmk.Action

open Tapping (KeyRecord actionKindId actionKeyMods actionKeyCode isModifierKeycode)

/-- A call that leaves the layers, the one-shot layer and the hands alone. -/
inductive Call
  | addMods (mods : UInt16)
  | addWeakMods (mods : UInt16)
  | delMods (mods : UInt16)
  | delWeakMods (mods : UInt16)
  | sendKeyboardReport
  | registerCode (code : UInt16)
  | unregisterCode (code : UInt16)
  | registerMods (mods : UInt16)
  | unregisterMods (mods : UInt16)
  | addOneshotMods (mods : UInt16)
  | delOneshotMods (mods : UInt16)
  | addOneshotLockedMods (mods : UInt16)
  | delOneshotLockedMods (mods : UInt16)
  | hostSystemSend (usage : UInt16)
  | hostConsumerSend (usage : UInt16)
  | registerMouse (code : UInt16) (pressed : Bool)
  | ledSet
  /-- The release of keys at a change of the layers, in the configurations that have it. -/
  | layersChanged
  | oneshotLayerChanged (layer : BitVec 8)
  | clearKeyboard
  /-- The block of `RETRO_TAPPING`. -/
  | retroTapping (record : KeyRecord) (action : UInt16)

inductive SwapHandsOneshot
  | off
  | active
  | pressed
  | used
  deriving DecidableEq

structure Board (w : Nat) (ρ : Type) where
  layerState : BitVec w
  defaultLayerState : BitVec w
  oneshotLayerData : BitVec 8
  /-- `keymap_config.oneshot_enable`. -/
  oneshotEnable : Bool
  swapHands : Bool
  swapHeld : Bool
  swapHandsOneshot : SwapHandsOneshot
  rest : ρ

structure Options where
  noActionLayer : Bool
  noActionTapping : Bool
  noActionOneshot : Bool
  swapHandsEnable : Bool
  extrakeyEnable : Bool
  holdOnOtherKeyPress : Bool
  /-- 0 where it is not defined. -/
  oneshotTapToggle : Nat
  tappingToggle : Nat

/-- The build, and the rest of the firmware. -/
structure Firmware (w : Nat) (ρ : Type) extends Options where
  perform : Call → ρ → ρ
  getMods : ρ → UInt16
  /-- Constantly true without `HOLD_ON_OTHER_KEY_PRESS_PER_KEY`. -/
  getHoldOnOtherKeyPress : ρ → KeyRecord → Bool
  /-- `layer_state_set_modules` and `layer_state_set_kb`. -/
  layerStateSetHooks : BitVec w → BitVec w
  /-- `default_layer_state_set_modules` and `default_layer_state_set_kb`. -/
  defaultLayerStateSetHooks : BitVec w → BitVec w
  /-- `process_record_quantum`, with what is done ahead of it.  It reads the record, and writes
  none that is played. -/
  processRecordQuantum : Board w ρ → KeyRecord → Bool × Board w ρ
  /-- The cache that it stores in is not modelled. -/
  storeOrGetAction : Board w ρ → KeyRecord → UInt16 × ρ
  postProcessRecordQuantum : Board w ρ → KeyRecord → Board w ρ

variable {w : Nat} {ρ : Type}

/-! ## Actions -/

/-- `action.layer_tap.val`. -/
def layerTapVal (action : UInt16) : Nat := ((action >>> 8) &&& 0x1F).toNat

/-- `action.layer_mods.layer`. -/
def layerModsLayer (action : UInt16) : Nat := ((action >>> 8) &&& 0xF).toNat

/-- `action.layer_bitop`. -/
def layerBitopBits (action : UInt16) : Nat := (action &&& 0xF).toNat

def layerBitopXbit (action : UInt16) : Bool := (action >>> 4) &&& 1 ≠ 0

def layerBitopPart (action : UInt16) : Nat := ((action >>> 5) &&& 7).toNat

def layerBitopOn (action : UInt16) : UInt16 := (action >>> 8) &&& 3

def layerBitopOp (action : UInt16) : UInt16 := (action >>> 10) &&& 3

def usageCode (action : UInt16) : UInt16 := action &&& 0x3FF

def usagePage (action : UInt16) : UInt16 := (action >>> 10) &&& 3

def isActMods (action : UInt16) : Bool := actionKindId action = 0 || actionKindId action = 1

def isActModsTap (action : UInt16) : Bool := actionKindId action = 2 || actionKindId action = 3

def isActUsage (action : UInt16) : Bool := actionKindId action = 4

def isActMousekey (action : UInt16) : Bool := actionKindId action = 5

def isActSwapHands (action : UInt16) : Bool := actionKindId action = 6

def isActLayer (action : UInt16) : Bool := actionKindId action = 8

def isActLayerMods (action : UInt16) : Bool := actionKindId action = 9

/-- `ACT_LAYER_TAP` and `ACT_LAYER_TAP_EXT`. -/
def isActLayerTap (action : UInt16) : Bool :=
  actionKindId action = 10 || actionKindId action = 11

/-- The modifiers of a right-hand kind are in the upper half. -/
def actionMods (action : UInt16) : UInt16 :=
  if actionKindId action &&& 1 = 0 then actionKeyMods action else actionKeyMods action <<< 4

def opShOneshot : UInt16 := 0xF6

def isShOneshot (action : UInt16) : Bool :=
  isActSwapHands action && actionKeyCode action = opShOneshot

/-- What most of `process_action` comes to. -/
structure Body (w : Nat) (ρ : Type) where
  board : Board w ρ
  record : KeyRecord
  release : Bool

section Functions

variable (fw : Firmware w ρ)

def Board.perform (call : Call) (board : Board w ρ) : Board w ρ :=
  { board with rest := fw.perform call board.rest }

/-! ## Layers -/

def layerStateSet (state : BitVec w) (board : Board w ρ) : Board w ρ :=
  if fw.noActionLayer then board
  else { board with layerState := fw.layerStateSetHooks state }.perform fw .layersChanged

def defaultLayerStateSet (state : BitVec w) (board : Board w ρ) : Board w ρ :=
  { board with defaultLayerState := fw.defaultLayerStateSetHooks state }.perform fw .layersChanged

def layerOn (layer : Nat) (board : Board w ρ) : Board w ρ :=
  layerStateSet fw (board.layerState ||| BitVec.twoPow w layer) board

def layerOff (layer : Nat) (board : Board w ρ) : Board w ρ :=
  layerStateSet fw (board.layerState &&& ~~~BitVec.twoPow w layer) board

def layerInvert (layer : Nat) (board : Board w ρ) : Board w ρ :=
  layerStateSet fw (board.layerState ^^^ BitVec.twoPow w layer) board

def layerMove (layer : Nat) (board : Board w ρ) : Board w ρ :=
  layerStateSet fw (BitVec.twoPow w layer) board

def layerClear (board : Board w ρ) : Board w ρ := layerStateSet fw 0 board

/-! ## One-shot layers -/

def oneshotPressed : BitVec 8 := 0b01

def oneshotOtherKeyPressed : BitVec 8 := 0b10

def oneshotStart : BitVec 8 := 0b11

def oneshotToggled : BitVec 8 := 0b100

def getOneshotLayer (board : Board w ρ) : Nat := (board.oneshotLayerData >>> 3).toNat

def getOneshotLayerState (board : Board w ρ) : BitVec 8 := board.oneshotLayerData &&& 0b111

def isOneshotLayerActive (board : Board w ρ) : Bool := getOneshotLayerState board ≠ 0

def setOneshotLayer (layer : Nat) (state : BitVec 8) (board : Board w ρ) : Board w ρ :=
  if board.oneshotEnable then
    let board := { board with oneshotLayerData := BitVec.ofNat 8 layer <<< 3 ||| state }
    let board := layerOn fw layer board
    board.perform fw (.oneshotLayerChanged (board.oneshotLayerData >>> 3))
  else layerOn fw layer board

def resetOneshotLayer (board : Board w ρ) : Board w ρ :=
  { board with oneshotLayerData := 0 }.perform fw (.oneshotLayerChanged 0)

def clearOneshotLayerState (state : BitVec 8) (board : Board w ρ) : Board w ρ :=
  let startState := board.oneshotLayerData
  let board := { board with oneshotLayerData := board.oneshotLayerData &&& ~~~state }
  if getOneshotLayerState board = 0 ∧ startState ≠ board.oneshotLayerData ∧
      board.oneshotEnable = true then
    resetOneshotLayer fw (layerOff fw (getOneshotLayer board) board)
  else board

/-! ## Hands -/

def setOneshotSwaphands (board : Board w ρ) : Board w ρ :=
  { board with swapHandsOneshot := .pressed, swapHands := true }

def clearOneshotSwaphands (board : Board w ρ) : Board w ρ :=
  { board with swapHandsOneshot := .off, swapHands := false }

def releaseOneshotSwaphands (board : Board w ρ) : Board w ρ :=
  match board.swapHandsOneshot with
  | .pressed => { board with swapHandsOneshot := .active }
  | .used => clearOneshotSwaphands board
  | _ => board

def useOneshotSwaphands (board : Board w ρ) : Board w ρ :=
  match board.swapHandsOneshot with
  | .pressed => { board with swapHandsOneshot := .used }
  | .active => clearOneshotSwaphands board
  | _ => board

/-! ## `process_action` -/

/-- Modifiers with a key: those of a key that is a modifier or none are not weak. -/
def processModsKey (pressed : Bool) (action : UInt16) (board : Board w ρ) : Board w ρ :=
  let mods := actionMods action
  let code := actionKeyCode action
  let strong := isModifierKeycode code || code = 0
  if pressed then
    let board :=
      if mods ≠ 0 then
        (board.perform fw (if strong then .addMods mods else .addWeakMods mods)).perform fw
          .sendKeyboardReport
      else board
    board.perform fw (.registerCode code)
  else
    let board := board.perform fw (.unregisterCode code)
    if mods ≠ 0 then
      (board.perform fw (if strong then .delMods mods else .delWeakMods mods)).perform fw
        .sendKeyboardReport
    else board

/-- `MODS_ONESHOT` with one-shots enabled. -/
def processModsOneshot (pressed : Bool) (tapCount : Nat) (mods : UInt16) (board : Board w ρ) :
    Board w ρ :=
  if pressed then
    if tapCount = 0 then board.perform fw (.registerMods mods)
    else if tapCount = 1 then board.perform fw (.addOneshotMods mods)
    else if 1 < fw.oneshotTapToggle ∧ tapCount = fw.oneshotTapToggle then
      ((board.perform fw (.registerMods mods)).perform fw (.delOneshotMods mods)).perform fw
        (.addOneshotLockedMods mods)
    else board
  else
    if tapCount = 0 ∨
        1 < fw.oneshotTapToggle ∧ tapCount = 1 ∧ mods &&& fw.getMods board.rest ≠ 0 then
      ((board.perform fw (.unregisterMods mods)).perform fw (.delOneshotMods mods)).perform fw
        (.delOneshotLockedMods mods)
    else board

/-- A tap that was interrupted is taken for a hold. -/
def cancelsTap (record : KeyRecord) (board : Board w ρ) : Bool :=
  fw.holdOnOtherKeyPress && fw.getHoldOnOtherKeyPress board.rest record && record.tap.interrupted

/-- `ACT_LMODS_TAP` and `ACT_RMODS_TAP`, of which `tap.count` is written. -/
def processModsTap (record : KeyRecord) (action : UInt16) (board : Board w ρ) :
    Board w ρ × KeyRecord :=
  let pressed := record.event.pressed
  let tapCount := record.tap.count
  let mods := actionMods action
  let code := actionKeyCode action
  if fw.noActionTapping then (board, record)
  -- MODS_ONESHOT
  else if code = 0 ∧ fw.noActionOneshot = false then
    (if board.oneshotEnable then processModsOneshot fw pressed tapCount mods board
      else processModsKey fw pressed action board, record)
  -- MODS_TAP_TOGGLE
  else if code = 1 then
    (if pressed then
        if tapCount ≤ fw.tappingToggle then board.perform fw (.registerMods mods) else board
      else
        if tapCount < fw.tappingToggle then board.perform fw (.unregisterMods mods) else board,
      record)
  else if pressed then
    if 0 < tapCount then
      if cancelsTap fw record board then
        (board.perform fw (.registerMods mods), record.setCount 0)
      else (board.perform fw (.registerCode code), record)
    else (board.perform fw (.registerMods mods), record)
  else if 0 < tapCount then (board.perform fw (.unregisterCode code), record)
  else (board.perform fw (.unregisterMods mods), record)

def processUsage (pressed : Bool) (action : UInt16) (board : Board w ρ) : Board w ρ :=
  let code := if pressed then usageCode action else 0
  if fw.extrakeyEnable = false then board
  else if usagePage action = 0 then board.perform fw (.hostSystemSend code)
  else if usagePage action = 1 then board.perform fw (.hostConsumerSend code)
  else board

/-- `ACT_LAYER`: a bit operation on the default layers or on the layers. -/
def processLayer (pressed : Bool) (action : UInt16) (board : Board w ρ) : Board w ρ :=
  let on := layerBitopOn action
  let shift := layerBitopPart action * 4
  let bits := BitVec.ofNat w (layerBitopBits action) <<< shift
  let mask := if layerBitopXbit action then ~~~(BitVec.ofNat w 0xF <<< shift) else 0
  let op (state : BitVec w) : BitVec w :=
    if layerBitopOp action = 0 then state &&& (bits ||| mask)
    else if layerBitopOp action = 1 then state ||| (bits ||| mask)
    else if layerBitopOp action = 2 then state ^^^ (bits ||| mask)
    else bits ||| mask
  if on = 0 then
    if pressed then board else defaultLayerStateSet fw (op board.defaultLayerState) board
  else if on &&& (if pressed then 1 else 2) ≠ 0 then
    layerStateSet fw (op board.layerState) board
  else board

def processLayerMods (pressed : Bool) (action : UInt16) (board : Board w ρ) : Board w ρ :=
  let mods := actionKeyCode action
  if pressed then (layerOn fw (layerModsLayer action) board).perform fw (.registerMods mods)
  else layerOff fw (layerModsLayer action) (board.perform fw (.unregisterMods mods))

/-- `OP_ONESHOT`. -/
def processLayerOneshot (pressed : Bool) (tapCount layer : Nat) (board : Board w ρ) :
    Board w ρ :=
  if (fw.noActionOneshot || fw.noActionTapping) = true ∨ board.oneshotEnable = false then
    if pressed then layerOn fw layer board else layerOff fw layer board
  else if 1 < fw.oneshotTapToggle then
    if pressed then
      if getOneshotLayerState board = oneshotToggled then
        layerOff fw layer (resetOneshotLayer fw board)
      else if tapCount < fw.oneshotTapToggle then setOneshotLayer fw layer oneshotStart board
      else board
    else
      if fw.oneshotTapToggle ≤ tapCount then
        setOneshotLayer fw layer oneshotToggled (resetOneshotLayer fw board)
      else clearOneshotLayerState fw oneshotPressed board
  else
    if pressed then setOneshotLayer fw layer oneshotStart board
    else
      let board := clearOneshotLayerState fw oneshotPressed board
      if 1 < tapCount then clearOneshotLayerState fw oneshotOtherKeyPressed board else board

/-- `ACT_LAYER_TAP` and `ACT_LAYER_TAP_EXT`. -/
def processLayerTap (pressed : Bool) (tapCount : Nat) (action : UInt16) (board : Board w ρ) :
    Board w ρ :=
  let layer := layerTapVal action
  let code := actionKeyCode action
  -- OP_TAP_TOGGLE
  if code = 0xF0 ∧ fw.noActionTapping = false then
    if (if pressed then tapCount < fw.tappingToggle else tapCount ≤ fw.tappingToggle) then
      layerInvert fw layer board
    else board
  -- OP_ON_OFF
  else if code = 0xF1 then if pressed then layerOn fw layer board else layerOff fw layer board
  -- OP_OFF_ON
  else if code = 0xF2 then if pressed then layerOff fw layer board else layerOn fw layer board
  -- OP_SET_CLEAR
  else if code = 0xF3 then if pressed then layerMove fw layer board else layerClear fw board
  else if code = 0xF4 then processLayerOneshot fw pressed tapCount layer board
  else if fw.noActionTapping = true ∨ 0 < tapCount then
    board.perform fw (if pressed then .registerCode code else .unregisterCode code)
  else if pressed then layerOn fw layer board
  else layerOff fw layer board

/-- The hold that `process_record_tap_hint` set up is undone. -/
def undoSwapHold (board : Board w ρ) : Board w ρ :=
  if board.swapHeld then { board with swapHands := !board.swapHands, swapHeld := false } else board

/-- `ACT_SWAP_HANDS`, of which a release resets the whole record. -/
def processSwapHands (record : KeyRecord) (action : UInt16) (board : Board w ρ) :
    Board w ρ × KeyRecord :=
  let pressed := record.event.pressed
  let tapCount := record.tap.count
  let code := actionKeyCode action
  -- OP_SH_TOGGLE
  if code = 0xF0 then
    (if pressed then { board with swapHands := !board.swapHands } else board, record)
  -- OP_SH_ON_OFF
  else if code = 0xF2 then ({ board with swapHands := pressed }, record)
  -- OP_SH_OFF_ON
  else if code = 0xF3 then ({ board with swapHands := !pressed }, record)
  -- OP_SH_ON
  else if code = 0xF5 then (if pressed then board else { board with swapHands := true }, record)
  -- OP_SH_OFF
  else if code = 0xF4 then (if pressed then board else { board with swapHands := false }, record)
  else if code = opShOneshot ∧ fw.noActionOneshot = false then
    (if pressed then setOneshotSwaphands board else releaseOneshotSwaphands board, record)
  else if fw.noActionTapping then (board, record)
  -- OP_SH_TAP_TOGGLE
  else if code = 0xF1 then
    (if pressed then
        if board.swapHeld then { board with swapHeld := false }
        else { board with swapHands := !board.swapHands }
      else if tapCount < fw.tappingToggle then { board with swapHands := !board.swapHands }
      else board, record)
  else if 0 < tapCount then
    let board := undoSwapHold board
    if pressed then (board.perform fw (.registerCode code), record)
    else (board.perform fw (.unregisterCode code), .zero)
  else (if pressed then board else undoSwapHold board, record)

/-- The switch over the kinds of actions. -/
def processKind (record : KeyRecord) (action : UInt16) (board : Board w ρ) :
    Board w ρ × KeyRecord :=
  let pressed := record.event.pressed
  if isActMods action then (processModsKey fw pressed action board, record)
  else if isActModsTap action then processModsTap fw record action board
  else if isActUsage action then (processUsage fw pressed action board, record)
  else if isActMousekey action then
    (board.perform fw (.registerMouse (actionKeyCode action) pressed), record)
  else if isActLayer action ∧ fw.noActionLayer = false then
    (processLayer fw pressed action board, record)
  else if isActLayerMods action ∧ fw.noActionLayer = false then
    (processLayerMods fw pressed action board, record)
  else if isActLayerTap action ∧ fw.noActionLayer = false then
    (processLayerTap fw pressed record.tap.count action board, record)
  else if isActSwapHands action ∧ fw.swapHandsEnable = true then
    processSwapHands fw record action board
  else (board, record)

/-- Another key is pressed for the one-shot layer: not a modifier, nor a one-shot of the hands. -/
def usesOneshotLayer (record : KeyRecord) (action : UInt16) (board : Board w ρ) : Bool :=
  fw.noActionOneshot = false && isOneshotLayerActive board && record.event.pressed &&
    (isActUsage action || !(isModifierKeycode (actionKeyCode action) ||
      fw.noActionTapping = false && isActModsTap action &&
        (actionKeyCode action ≤ 1 || record.tap.count = 0))) &&
    !(fw.swapHandsEnable && isShOneshot action) && board.oneshotEnable

/-- The actions of which the key is not released with the one-shot layer. -/
def isLayerAction (action : UInt16) : Bool :=
  fw.noActionLayer = false && (isActLayer action || isActLayerMods action ||
    fw.noActionTapping = false && isActLayerTap action)

/-- The board of an action, once the press of a key for the one-shot layer is taken account of. -/
def Board.used (record : KeyRecord) (action : UInt16) (board : Board w ρ) : Board w ρ :=
  if usesOneshotLayer fw record action board then
    clearOneshotLayerState fw oneshotOtherKeyPressed board
  else board

/-- `process_action` up to the end of the one-shot layer: the key is released there, if `release`
is set. -/
def actionBody (board : Board w ρ) (record : KeyRecord) (action : UInt16) : Body w ρ :=
  let uses := usesOneshotLayer fw record action board
  let board := board.used fw record action
  let doReleaseOneshot := uses && !isOneshotLayerActive board && !isLayerAction fw action
  let (board, after) := processKind fw record action board
  let board := if isLayerAction fw action then board.perform fw .ledSet else board
  let board := board.perform fw (.retroTapping record action)
  let board :=
    if fw.swapHandsEnable = true ∧ fw.noActionOneshot = false ∧ record.event.pressed = true ∧
        isShOneshot action = false then
      useOneshotSwaphands board
    else board
  { board := board
    record := after
    release := doReleaseOneshot && getOneshotLayerState board &&& oneshotPressed = 0 }

def asRelease (record : KeyRecord) : KeyRecord :=
  { record with event := { record.event with pressed := false } }

/-- `again` is `process_record`. -/
def processAction (again : Board w ρ → KeyRecord → Board w ρ × KeyRecord) (board : Board w ρ)
    (record : KeyRecord) (action : UInt16) : Board w ρ × KeyRecord :=
  let body := actionBody fw board record action
  if body.release then
    let (board, after) :=
      again (layerOn fw (getOneshotLayer body.board) body.board) (asRelease body.record)
    (layerOff fw (getOneshotLayer board) board, after)
  else (body.board, body.record)

/-- `process_record`, which may change the record that it is given; `process_action` calls it again
at most `depth` deep. -/
def processRecordDepth : Nat → Board w ρ → KeyRecord → Board w ρ × KeyRecord
  | 0, board, record => (board, record)
  | depth + 1, board, record =>
      if !record.event.isEvent then (board, record)
      else
        let (proceed, board) := fw.processRecordQuantum board record
        if proceed then
          let (action, rest) := fw.storeOrGetAction board record
          let (board, record) :=
            processAction fw (processRecordDepth depth) { board with rest } record action
          (fw.postProcessRecordQuantum board record, record)
        else if fw.noActionOneshot = false ∧ isOneshotLayerActive board = true ∧
            record.event.pressed = true ∧ board.oneshotEnable = true then
          (clearOneshotLayerState fw oneshotOtherKeyPressed board, record)
        else (board, record)

/-- The second record is a release, of which no third one is made. -/
def processRecord : Board w ρ → KeyRecord → Board w ρ × KeyRecord := processRecordDepth fw 2

end Functions

/-! ## Records -/

variable {fw : Firmware w ρ}

theorem actionBody_release {record : KeyRecord} (hrelease : record.event.pressed = false)
    (board : Board w ρ) (action : UInt16) : (actionBody fw board record action).release = false := by
  simp [actionBody, usesOneshotLayer, hrelease]

theorem processAction_release {record : KeyRecord} (hrelease : record.event.pressed = false)
    (again : Board w ρ → KeyRecord → Board w ρ × KeyRecord) (board : Board w ρ)
    (action : UInt16) : processAction fw again board record action =
      ((actionBody fw board record action).board, (actionBody fw board record action).record) := by
  simp only [processAction, actionBody_release hrelease, if_neg Bool.false_ne_true]

theorem processRecordDepth_release {record : KeyRecord} (hrelease : record.event.pressed = false)
    (depth : Nat) (board : Board w ρ) :
    processRecordDepth fw (depth + 1) board record = processRecordDepth fw 1 board record := by
  simp only [processRecordDepth, processAction_release hrelease]

theorem processRecordDepth_eq (depth : Nat) (board : Board w ρ) (record : KeyRecord) :
    processRecordDepth fw (depth + 2) board record = processRecord fw board record := by
  have hagain : ∀ (board : Board w ρ) (record : KeyRecord),
      processRecordDepth fw (depth + 1) board (asRelease record) =
        processRecordDepth fw 1 board (asRelease record) :=
    fun board record => processRecordDepth_release rfl depth board
  simp only [processRecord, processRecordDepth.eq_2 fw _ _ (depth + 1),
    processRecordDepth.eq_2 fw _ _ 1, processAction, hagain]

end Qmk.Action
