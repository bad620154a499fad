/-!
# The tap-hold engine

`action_tapping.c` without its optional decision rules other than permissive
hold, function by function.  What the engine calls outside that file is a
parameter (`Callbacks`): it may read and change a host state, which holds the
layers, the keymap and the reports.  The waiting buffer is a ring of `WAITING_BUFFER_SIZE` records, modelled by the list
of the records between its tail and its head.
-/

namespace Qmk.Tapping

/-- `keypos_t`. -/
structure KeyPos where
  col : UInt8
  row : UInt8
  deriving DecidableEq, Repr

/-- `keyevent_type_t`. -/
inductive KeyEventType where
  | tick
  | key
  | encoderCw
  | encoderCcw
  | combo
  | dipSwitchOn
  | dipSwitchOff
  deriving DecidableEq, Repr

/-- `keyevent_t`. -/
structure KeyEvent where
  key : KeyPos
  time : UInt16
  type : KeyEventType
  pressed : Bool
  deriving DecidableEq, Repr

/-- `tap_t`, less the field of `SPECULATIVE_HOLD`; `count` has four bits. -/
structure Tap where
  interrupted : Bool
  count : Nat
  deriving DecidableEq, Repr

/-- `keyrecord_t`. -/
structure KeyRecord where
  event : KeyEvent
  tap : Tap
  deriving DecidableEq, Repr

def KeyEvent.isEvent (event : KeyEvent) : Bool := event.type ≠ .tick

/-- The record that `action_exec` makes of an event. -/
def KeyRecord.fresh (event : KeyEvent) : KeyRecord := ⟨event, ⟨false, 0⟩⟩

/-- `(keyrecord_t){0}`: there is no tapping key. -/
def KeyRecord.zero : KeyRecord := .fresh ⟨⟨0, 0⟩, 0, .tick, false⟩

def KeyRecord.setCount (record : KeyRecord) (count : Nat) : KeyRecord :=
  { record with tap := { record.tap with count := count } }

def KeyRecord.setInterrupted (record : KeyRecord) : KeyRecord :=
  { record with tap := { record.tap with interrupted := true } }

/-- The functions that the engine calls. -/
structure Callbacks (σ : Type) where
  processRecord : σ → KeyRecord → σ × KeyRecord
  processRecordTapHint : σ → KeyRecord → σ
  isTapRecord : σ → KeyRecord → Bool
  getTappingTerm : σ → KeyRecord → UInt16
  getQuickTapTerm : σ → KeyRecord → UInt16
  /-- `TAP_GET_PERMISSIVE_HOLD`: constantly false in the default configuration. -/
  getPermissiveHold : σ → KeyRecord → Bool
  layerSwitchGetAction : σ → KeyPos → UInt16
  clearKeyboard : σ → σ

/-- What the engine has done so far, first call first. -/
inductive Call where
  | record (record : KeyRecord)
  /-- The releases that the engine makes up for the last tap (lines 519 and 570). -/
  | releaseLastTap (record : KeyRecord)
  | overflow
  deriving DecidableEq, Repr

/-- The statics of `action_tapping.c`, the host, and the calls made. -/
structure State (σ : Type) where
  host : σ
  tappingKey : KeyRecord
  waitingBuffer : List KeyRecord
  calls : List Call

def State.init {σ : Type} (host : σ) : State σ := ⟨host, .zero, [], []⟩

def waitingBufferSize : Nat := 8

def timerDiff16 (a b : UInt16) : UInt16 := a - b

/-! ## Actions -/

/-- `action.kind.id`. -/
def actionKindId (action : UInt16) : UInt16 := action >>> 12

/-- `action.key.mods`. -/
def actionKeyMods (action : UInt16) : UInt16 := (action >>> 8) &&& 0xF

/-- `action.key.code` and `action.layer_tap.code`. -/
def actionKeyCode (action : UInt16) : UInt16 := action &&& 0xFF

def isModifierKeycode (code : UInt16) : Bool := 0xE0 ≤ code && code ≤ 0xE7

/-- The `switch` that retains the release of a modifier or a layer. -/
def retainsRelease (action : UInt16) (keyp : KeyRecord) : Bool :=
  let mods := actionKeyMods action
  let code := actionKeyCode action
  -- ACT_LMODS, ACT_RMODS
  if actionKindId action = 0 ∨ actionKindId action = 1 then
    (mods ≠ 0 && code = 0) || isModifierKeycode code
  -- ACT_LMODS_TAP, ACT_RMODS_TAP
  else if actionKindId action = 2 ∨ actionKindId action = 3 then
    (mods ≠ 0 && keyp.tap.count = 0) || isModifierKeycode code
  -- ACT_LAYER_TAP, ACT_LAYER_TAP_EXT: all codes below OP_TAP_TOGGLE, OP_ON_OFF,
  -- OP_OFF_ON and OP_SET_CLEAR
  else if actionKindId action = 10 ∨ actionKindId action = 11 then
    code < 0xF0 || code = 0xF1 || code = 0xF2 || code = 0xF3
  else false

section Engine

variable {σ : Type} (cb : Callbacks σ)

/-! ## The waiting buffer -/

/-- `process_record`, which may change the record it is given. -/
def processRecord (record : KeyRecord) (s : State σ) : KeyRecord × State σ :=
  let (host, after) := cb.processRecord s.host record
  (after, { s with host := host, calls := s.calls ++ [.record record] })

def withinTappingTerm (s : State σ) (event : KeyEvent) : Bool :=
  timerDiff16 event.time s.tappingKey.event.time <
    cb.getTappingTerm s.host s.tappingKey

def withinQuickTapTerm (s : State σ) (event : KeyEvent) : Bool :=
  timerDiff16 event.time s.tappingKey.event.time <
    cb.getQuickTapTerm s.host s.tappingKey

def waitingBufferTyped (buffer : List KeyRecord) (event : KeyEvent) : Bool :=
  buffer.any fun record =>
    event.key = record.event.key && event.pressed ≠ record.event.pressed

/-- The buffer with the first release of the tapping key within its term marked. -/
def markTap (s : State σ) : List KeyRecord → Option (List KeyRecord)
  | [] => none
  | candidate :: rest =>
      if candidate.event.isEvent &&
          candidate.event.key = s.tappingKey.event.key &&
          !candidate.event.pressed && withinTappingTerm cb s candidate.event then
        some (candidate.setCount 1 :: rest)
      else (markTap s rest).map (candidate :: ·)

def waitingBufferScanTap (s : State σ) : State σ :=
  if 0 < s.tappingKey.tap.count || !s.tappingKey.event.pressed then s
  else
    match markTap cb s s.waitingBuffer with
    | none => s
    | some buffer =>
        let s :=
          { s with
            tappingKey := s.tappingKey.setCount 1
            waitingBuffer := buffer }
        let (tappingKey, s) := processRecord cb s.tappingKey s
        { s with tappingKey := tappingKey }

/-! ## `process_tapping` -/

/--
The results of `process_tapping`: whether the record is done with, the record as
it was left, and the state.
-/
abbrev Result (σ : Type) := Bool × KeyRecord × State σ

/-- `process_record(keyp); return true;` -/
def handOver (keyp : KeyRecord) (s : State σ) : Result σ :=
  let (keyp, s) := processRecord cb keyp s
  (true, keyp, s)

/-- `tapping_key = *keyp; waiting_buffer_scan_tap(); return true;` -/
def startTapping (keyp : KeyRecord) (s : State σ) : Result σ :=
  (true, keyp, waitingBufferScanTap cb { s with tappingKey := keyp })

/-- The synthetic release of a repeated tap whose key is still down. -/
def releaseLastTap (event : KeyEvent) (s : State σ) : State σ :=
  if 1 < s.tappingKey.tap.count then
    let record : KeyRecord :=
      { event := { s.tappingKey.event with time := event.time, pressed := false }
        tap := s.tappingKey.tap }
    { s with
      host := (cb.processRecord s.host record).1
      calls := s.calls ++ [.releaseLastTap record] }
  else s

def processReset (keyp : KeyRecord) (s : State σ) : Result σ :=
  let event := keyp.event
  if !event.isEvent then (true, keyp, s)
  else if event.pressed && cb.isTapRecord s.host keyp then
    startTapping cb keyp
      { s with host := cb.processRecordTapHint s.host keyp }
  else handOver cb keyp s

/-- The tapping key is pressed, within its term, and not settled. -/
def processUnsettled (keyp : KeyRecord) (s : State σ) : Result σ :=
  let event := keyp.event
  if event.key = s.tappingKey.event.key && !event.pressed then
    -- first tap
    let (tappingKey, s) := processRecord cb (s.tappingKey.setCount 1) s
    (false, { keyp with tap := tappingKey.tap },
      { s with tappingKey := tappingKey })
  else if !event.pressed && waitingBufferTyped s.waitingBuffer event &&
      cb.getPermissiveHold s.host s.tappingKey then
    -- interfered by a typed key
    let (_, s) := processRecord cb s.tappingKey s
    (false, keyp, { s with tappingKey := .zero })
  else if !event.pressed && !waitingBufferTyped s.waitingBuffer event then
    if retainsRelease (cb.layerSwitchGetAction s.host event.key) keyp then
      (false, keyp, s)
    else handOver cb keyp s
  else if event.pressed then
    (false, keyp, { s with tappingKey := s.tappingKey.setInterrupted })
  else (false, keyp, s)

/-- The tapping key is pressed and settled as tapped. -/
def processTapped (within : Bool) (keyp : KeyRecord) (s : State σ) : Result σ :=
  let event := keyp.event
  if event.key = s.tappingKey.event.key && !event.pressed then
    let (keyp, s) :=
      processRecord cb { keyp with tap := s.tappingKey.tap } s
    (true, keyp, { s with tappingKey := if within then keyp else .zero })
  else if cb.isTapRecord s.host keyp && event.pressed then
    startTapping cb keyp (releaseLastTap cb event s)
  else handOver cb keyp s

def processPressed (keyp : KeyRecord) (s : State σ) : Result σ :=
  if withinTappingTerm cb s keyp.event then
    if !keyp.event.isEvent then (true, keyp, s)
    else if s.tappingKey.tap.count = 0 then processUnsettled cb keyp s
    else processTapped cb true keyp s
  else if s.tappingKey.tap.count = 0 then
    let (_, s) := processRecord cb s.tappingKey s
    (false, keyp, { s with tappingKey := .zero })
  else if !keyp.event.isEvent then (true, keyp, s)
  else processTapped cb false keyp s

def processReleased (keyp : KeyRecord) (s : State σ) : Result σ :=
  let event := keyp.event
  if withinTappingTerm cb s event then
    if !event.isEvent then (true, keyp, s)
    else if event.pressed then
      if event.key = s.tappingKey.event.key then
        if withinQuickTapTerm cb s event && !s.tappingKey.tap.interrupted &&
            0 < s.tappingKey.tap.count then
          -- sequential tap
          let keyp := { keyp with tap := s.tappingKey.tap }
          let keyp :=
            if keyp.tap.count < 15 then keyp.setCount (keyp.tap.count + 1)
            else keyp
          let (keyp, s) := processRecord cb keyp s
          (true, keyp, { s with tappingKey := keyp })
        -- a new tap, and the buffer is not scanned
        else (true, keyp, { s with tappingKey := keyp })
      else if cb.isTapRecord s.host keyp then startTapping cb keyp s
      else
        handOver cb keyp { s with tappingKey := s.tappingKey.setInterrupted }
    else handOver cb keyp s
  else (false, keyp, { s with tappingKey := .zero })

def processTapping (keyp : KeyRecord) (s : State σ) : Result σ :=
  if !s.tappingKey.event.isEvent then processReset cb keyp s
  else if s.tappingKey.event.pressed then processPressed cb keyp s
  else processReleased cb keyp s

/-! ## `action_tapping_process` -/

/-- `waiting_buffer_enq`, and what its caller does when it reports an overflow. -/
def waitingBufferEnq (record : KeyRecord) (s : State σ) : State σ :=
  if !record.event.isEvent then s
  else if s.waitingBuffer.length + 1 = waitingBufferSize then
    { host := cb.clearKeyboard s.host
      tappingKey := .zero
      waitingBuffer := []
      calls := s.calls ++ [.overflow] }
  else { s with waitingBuffer := s.waitingBuffer ++ [record] }

/--
The loop over the waiting buffer.  A record stays at the tail of the buffer
while it is processed.
-/
def processWaitingBuffer : Nat → State σ → State σ
  | 0, s => s
  | fuel + 1, s =>
      match s.waitingBuffer with
      | [] => s
      | keyp :: _ =>
          let (done, keyp, s) := processTapping cb keyp s
          if done then
            processWaitingBuffer fuel
              { s with waitingBuffer := s.waitingBuffer.tail }
          else { s with waitingBuffer := keyp :: s.waitingBuffer.tail }

/-- The part of `action_tapping_process` before the loop. -/
def processFresh (record : KeyRecord) (s : State σ) : State σ :=
  let (done, record, s) := processTapping cb record s
  if done then s else waitingBufferEnq cb record s

def actionTappingProcess (record : KeyRecord) (s : State σ) : State σ :=
  let s := processFresh cb record s
  processWaitingBuffer cb s.waitingBuffer.length s

/-- `action_exec` gives the engine a fresh record of each event. -/
def actionExec (s : State σ) (event : KeyEvent) : State σ :=
  actionTappingProcess cb (.fresh event) s

end Engine

end Qmk.Tapping
