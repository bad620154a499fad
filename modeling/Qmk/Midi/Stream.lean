/-!
# The MIDI stream

`midi.c` turns messages into bytes, and `midi_device.c` takes a stream of bytes apart and calls the
callbacks that are registered.
-/

namespace Qmk.Midi.Device

/-! ## Bytes -/

def sysexBegin : BitVec 8 := 0xF0
def sysexEnd : BitVec 8 := 0xF7

def midiCc : BitVec 8 := 0xB0
def midiNoteon : BitVec 8 := 0x90
def midiNoteoff : BitVec 8 := 0x80
def midiAftertouch : BitVec 8 := 0xA0
def midiPitchbend : BitVec 8 := 0xE0
def midiProgchange : BitVec 8 := 0xC0
def midiChanpressure : BitVec 8 := 0xD0

def midiClock : BitVec 8 := 0xF8
def midiTick : BitVec 8 := 0xF9
def midiStart : BitVec 8 := 0xFA
def midiContinue : BitVec 8 := 0xFB
def midiStop : BitVec 8 := 0xFC
def midiActivesense : BitVec 8 := 0xFE
def midiReset : BitVec 8 := 0xFF

def midiTcQuarterframe : BitVec 8 := 0xF1
def midiSongposition : BitVec 8 := 0xF2
def midiSongselect : BitVec 8 := 0xF3
def midiTunerequest : BitVec 8 := 0xF6

def midiIsStatusbyte (byte : BitVec 8) : Bool := byte &&& 0x80 ≠ 0

def midiIsRealtime (byte : BitVec 8) : Bool := byte ≥ midiClock

inductive PacketLength
  | undefined
  | one
  | two
  | three
  deriving DecidableEq

def midiPacketLength (status : BitVec 8) : PacketLength :=
  let high := status &&& 0xF0
  if high ∈ [midiCc, midiNoteon, midiNoteoff, midiAftertouch, midiPitchbend] then .three
  else if high ∈ [midiProgchange, midiChanpressure, midiSongselect] then .two
  else if high = 0xF0 then
    if status ∈ [midiClock, midiTick, midiStart, midiContinue, midiStop, midiActivesense,
        midiReset, midiTunerequest] then .one
    else if status = midiSongposition then .three
    else if status ∈ [midiTcQuarterframe, midiSongselect] then .two
    else .undefined
  else .undefined

/-! ## Callbacks -/

inductive Handler
  | cc
  | noteon
  | noteoff
  | aftertouch
  | pitchbend
  | songposition
  | progchange
  | chanpressure
  | songselect
  | tcQuarterframe
  | realtime
  | tunerequest
  deriving DecidableEq

/-- The callbacks that are not `NULL`. -/
structure Callbacks where
  registered : Handler → Bool
  sysex : Bool
  fallthrough : Bool
  catchall : Bool

inductive Event
  | call (handler : Handler) (args : List (BitVec 8))
  | sysex (start : BitVec 16) (length : BitVec 8) (data : Vector (BitVec 8) 3)
  | fallthrough (cnt : BitVec 16) (byte0 byte1 byte2 : BitVec 8)
  | catchall (cnt : BitVec 16) (byte0 byte1 byte2 : BitVec 8)
  deriving DecidableEq

inductive InputState
  | idle
  | oneByteMessage
  | twoByteMessage
  | threeByteMessage
  | sysexMessage
  deriving DecidableEq

def threeByteFunc (byte0 : BitVec 8) : Option Handler :=
  let high := byte0 &&& 0xF0
  if high = midiCc then some .cc
  else if high = midiNoteon then some .noteon
  else if high = midiNoteoff then some .noteoff
  else if high = midiAftertouch then some .aftertouch
  else if high = midiPitchbend then some .pitchbend
  else if high = 0xF0 ∧ byte0 = midiSongposition then some .songposition
  else none

def twoByteFunc (byte0 : BitVec 8) : Option Handler :=
  let high := byte0 &&& 0xF0
  if high = midiProgchange then some .progchange
  else if high = midiChanpressure then some .chanpressure
  else if high = 0xF0 ∧ byte0 = midiSongselect then some .songselect
  else if high = 0xF0 ∧ byte0 = midiTcQuarterframe then some .tcQuarterframe
  else none

def oneByteFunc (byte0 : BitVec 8) : Option Handler :=
  if midiIsRealtime byte0 then some .realtime
  else if byte0 = midiTunerequest then some .tunerequest
  else none

/-- The first argument, without the channel's status where there is a channel. -/
def statusArg (system : List (BitVec 8)) (byte0 : BitVec 8) : BitVec 8 :=
  if byte0 ∈ system then byte0 else byte0 &&& 0x0F

/-- The specific callback of a message that is not system exclusive. -/
def specificCall (cnt : BitVec 16) (byte0 byte1 byte2 : BitVec 8) :
    Option (Handler × List (BitVec 8)) :=
  if cnt = 3 then
    (threeByteFunc byte0).map (·, [statusArg [midiSongposition] byte0, byte1, byte2])
  else if cnt = 2 then
    (twoByteFunc byte0).map (·, [statusArg [midiSongselect, midiTcQuarterframe] byte0, byte1])
  else if cnt = 1 then (oneByteFunc byte0).map (·, [byte0])
  else none

def specificEvents (c : Callbacks) (state : InputState) (cnt : BitVec 16)
    (byte0 byte1 byte2 : BitVec 8) : List Event :=
  if state = .sysexMessage then
    let start := (cnt - 1) / 3 * 3
    if c.sysex then [.sysex start ((cnt - start).setWidth 8) #v[byte0, byte1, byte2]] else []
  else
    match specificCall cnt byte0 byte1 byte2 with
    | some (handler, args) => if c.registered handler then [.call handler args] else []
    | none => []

def midiInputCallbacks (c : Callbacks) (state : InputState) (cnt : BitVec 16)
    (byte0 byte1 byte2 : BitVec 8) : List Event :=
  let called := specificEvents c state cnt byte0 byte1 byte2
  let cnt := if state ≠ .sysexMessage ∧ cnt > 3 then 0 else cnt
  called ++
    (if called = [] ∧ c.fallthrough then [.fallthrough cnt byte0 byte1 byte2] else []) ++
    if c.catchall then [.catchall cnt byte0 byte1 byte2] else []

/-! ## The device -/

structure Parser where
  inputState : InputState
  inputCount : BitVec 16
  inputBuffer : Vector (BitVec 8) 3

def Parser.byte0 (p : Parser) : BitVec 8 := p.inputBuffer[0]
def Parser.byte1 (p : Parser) : BitVec 8 := p.inputBuffer[1]
def Parser.byte2 (p : Parser) : BitVec 8 := p.inputBuffer[2]

/-- `device->input_buffer[device->input_count % 3] = input`, and the count goes up. -/
def Parser.store (p : Parser) (input : BitVec 8) : Parser :=
  { p with
    inputBuffer := p.inputBuffer.set (p.inputCount.toNat % 3) input (Nat.mod_lt _ (by decide))
    inputCount := p.inputCount + 1 }

/-- The status byte that a message begins with. -/
def Parser.open (p : Parser) (input : BitVec 8) : Parser :=
  { p with inputBuffer := p.inputBuffer.set 0 input, inputCount := 1 }

/-- The callbacks for the bytes that are stored. -/
def Parser.callbacks (c : Callbacks) (p : Parser) (byte2 : BitVec 8) : List Event :=
  midiInputCallbacks c p.inputState p.inputCount p.byte0 p.byte1 byte2

/-- The status byte is kept for running status. -/
def Parser.keepStatus (p : Parser) : Parser :=
  if p.inputState ≠ .sysexMessage then { p with inputCount := 1 } else p

def processStatus (c : Callbacks) (p : Parser) (input : BitVec 8) : List Event × Parser :=
  let p := if p.inputState ≠ .sysexMessage then p.open input else p
  match midiPacketLength input with
  | .one =>
      (midiInputCallbacks c .oneByteMessage 1 input 0 0, { p with inputState := .idle })
  | .two => ([], { p with inputState := .twoByteMessage })
  | .three => ([], { p with inputState := .threeByteMessage })
  | .undefined =>
      if input = sysexBegin then ([], { p.open input with inputState := .sysexMessage })
      else if input = sysexEnd then
        let p := p.store input
        (p.callbacks c p.byte2, { p with inputState := .idle })
      else ([], { p with inputState := .idle, inputCount := 0 })

def processData (c : Callbacks) (p : Parser) (input : BitVec 8) : List Event × Parser :=
  if p.inputState = .idle then ([], p)
  else
    let prev := p.inputCount.toNat % 3
    let p := p.store input
    if prev = 2 then (p.callbacks c p.byte2, p.keepStatus)
    else if prev = 1 ∧ p.inputState = .twoByteMessage then (p.callbacks c 0, p.keepStatus)
    else ([], p)

def midiProcessByte (c : Callbacks) (p : Parser) (input : BitVec 8) : List Event × Parser :=
  if midiIsRealtime input then (midiInputCallbacks c .oneByteMessage 1 input 0 0, p)
  else if midiIsStatusbyte input then processStatus c p input
  else processData c p input

/-- What each byte of a stream calls back. -/
def calls (c : Callbacks) : Parser → List (BitVec 8) → List (BitVec 8 × List Event)
  | _, [] => []
  | p, input :: inputs =>
      (input, (midiProcessByte c p input).1) :: calls c (midiProcessByte c p input).2 inputs

def parsed (c : Callbacks) (p : Parser) (inputs : List (BitVec 8)) : Parser :=
  inputs.foldl (fun p input => (midiProcessByte c p input).2) p

/-! ## Messages -/

/-- The messages with a channel and two bytes of data. -/
inductive Voice
  | cc
  | noteon
  | noteoff
  | aftertouch
  deriving DecidableEq

inductive Pressure
  | programchange
  | channelpressure
  deriving DecidableEq

/-- The `midi_send_<name>` of all messages but the real-time ones. -/
inductive Send
  | voice (kind : Voice) (chan num val : BitVec 8)
  | pitchbend (chan : BitVec 8) (amt : BitVec 16)
  | pressure (kind : Pressure) (chan num : BitVec 8)
  | tcquarterframe (time : BitVec 8)
  | songposition (pos : BitVec 16)
  | songselect (song : BitVec 8)
  | tunerequest
  deriving DecidableEq

def Voice.status : Voice → BitVec 8
  | .cc => midiCc
  | .noteon => midiNoteon
  | .noteoff => midiNoteoff
  | .aftertouch => midiAftertouch

def Pressure.status : Pressure → BitVec 8
  | .programchange => midiProgchange
  | .channelpressure => midiChanpressure

/-- The range check of `midi_send_pitchbend`. -/
def bendOf (amt : BitVec 16) : BitVec 16 :=
  if amt.toInt > 0x1FFF then 0x3FFF else if amt.toInt < -0x2000 then 0 else amt + 0x2000

/-- The seven low bits, and the seven bits above them. -/
def low7 (word : BitVec 16) : BitVec 8 := (word &&& 0x7F).setWidth 8
def high7 (word : BitVec 16) : BitVec 8 := ((word >>> 7) &&& 0x7F).setWidth 8

def Send.status : Send → BitVec 8
  | .voice kind chan _ _ => kind.status ||| (chan &&& 0x0F)
  | .pitchbend chan _ => midiPitchbend ||| (chan &&& 0x0F)
  | .pressure kind chan _ => kind.status ||| (chan &&& 0x0F)
  | .tcquarterframe _ => midiTcQuarterframe
  | .songposition _ => midiSongposition
  | .songselect _ => midiSongselect
  | .tunerequest => midiTunerequest

def Send.data : Send → List (BitVec 8)
  | .voice _ _ num val => [num &&& 0x7F, val &&& 0x7F]
  | .pitchbend _ amt => [low7 (bendOf amt), high7 (bendOf amt)]
  | .pressure _ _ num => [num &&& 0x7F]
  | .tcquarterframe time => [time &&& 0x7F]
  | .songposition pos => [low7 pos, high7 pos]
  | .songselect song => [song &&& 0x7F]
  | .tunerequest => []

/-- The bytes that `send_func` is called with. -/
def Send.bytes (send : Send) : List (BitVec 8) := send.status :: send.data

end Qmk.Midi.Device
