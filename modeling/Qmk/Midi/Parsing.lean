import Mathlib.Data.List.Forall2
import Qmk.Lib.Buffer
import Qmk.Lib.Chunks
import Qmk.Midi.Stream

/-!
# Messages are heard

The callbacks of a stream are those of its messages, with or without running status, and with
real-time bytes between any two bytes.
-/

namespace Qmk.Midi.Device

open Qmk.Lib

variable {c : Callbacks} {p : Parser} {stream first rest : List (BitVec 8)} {byte status : BitVec 8}

/-! ## Streams -/

theorem calls_append (c : Callbacks) (p : Parser) (first rest : List (BitVec 8)) :
    calls c p (first ++ rest) = calls c p first ++ calls c (parsed c p first) rest := by
  induction first generalizing p with
  | nil => rfl
  | cons input inputs ih => exact congrArg ((input, (midiProcessByte c p input).1) :: ·) (ih _)

theorem parsed_append (c : Callbacks) (p : Parser) (first rest : List (BitVec 8)) :
    parsed c p (first ++ rest) = parsed c (parsed c p first) rest := List.foldl_append

/-- What is heard of a stream. -/
def heard (c : Callbacks) (p : Parser) (stream : List (BitVec 8)) : List Event :=
  (calls c p stream).flatMap Prod.snd

theorem heard_cons (c : Callbacks) (p : Parser) (input : BitVec 8) (inputs : List (BitVec 8)) :
    heard c p (input :: inputs) =
      (midiProcessByte c p input).1 ++ heard c (midiProcessByte c p input).2 inputs := rfl

theorem heard_append (c : Callbacks) (p : Parser) (first rest : List (BitVec 8)) :
    heard c p (first ++ rest) = heard c p first ++ heard c (parsed c p first) rest := by
  rw [heard, calls_append, List.flatMap_append]
  rfl

/-! ## Real-time bytes -/

def realtimeEvents (c : Callbacks) (byte : BitVec 8) : List Event :=
  midiInputCallbacks c .oneByteMessage 1 byte 0 0

theorem midiProcessByte_realtime (h : midiIsRealtime byte = true) :
    midiProcessByte c p byte = (realtimeEvents c byte, p) := if_pos h

/-- A real-time byte does not disturb the message that it comes in. -/
theorem calls_realtime (c : Callbacks) (p : Parser) (stream : List (BitVec 8)) :
    (∀ call ∈ calls c p stream, midiIsRealtime call.1 = true → call.2 = realtimeEvents c call.1) ∧
      (calls c p stream).filter (fun call => !midiIsRealtime call.1) =
        calls c p (stream.filter fun byte => !midiIsRealtime byte) := by
  induction stream generalizing p with
  | nil => exact ⟨fun _ h => absurd h List.not_mem_nil, rfl⟩
  | cons input inputs ih =>
      obtain ⟨hevents, hrest⟩ := ih (midiProcessByte c p input).2
      constructor
      · intro call hcall hrealtime
        rcases List.mem_cons.mp hcall with rfl | hcall
        · exact congrArg Prod.fst (midiProcessByte_realtime hrealtime)
        · exact hevents call hcall hrealtime
      · rw [calls]
        cases hrealtime : midiIsRealtime input with
        | true =>
            rw [List.filter_cons_of_neg (by simp [hrealtime]),
              List.filter_cons_of_neg (by simp [hrealtime]), hrest,
              midiProcessByte_realtime hrealtime]
        | false =>
            rw [List.filter_cons_of_pos (by simp [hrealtime]),
              List.filter_cons_of_pos (by simp [hrealtime]), hrest]
            rfl

/-! ## What is sent -/

theorem status_or_channel {status : BitVec 8} (hhigh : status &&& 0xF0 = status)
    (hlow : status &&& 0x0F = 0) (chan : BitVec 8) :
    (status ||| (chan &&& 0x0F)) &&& 0xF0 = status ∧
      (status ||| (chan &&& 0x0F)) &&& 0x0F = chan &&& 0x0F := by
  rw [BitVec.and_or_distrib_right, BitVec.and_or_distrib_right, hhigh, hlow, BitVec.and_assoc,
    BitVec.and_assoc]
  constructor
  · change status ||| (chan &&& 0#8) = status
    rw [BitVec.and_zero, BitVec.or_zero]
  · change 0#8 ||| (chan &&& 0x0F) = chan &&& 0x0F
    exact BitVec.zero_or

theorem not_realtime_of_high : ∀ byte : BitVec 8, byte &&& 0xF0 ≠ 0xF0 →
    midiIsRealtime byte = false := by decide +kernel

theorem statusbyte_of_high (h : (byte &&& 0xF0) &&& 0x80 ≠ 0) : midiIsStatusbyte byte = true := by
  rw [BitVec.and_assoc] at h
  exact decide_eq_true h

theorem not_realtime_of_not_statusbyte : ∀ byte : BitVec 8, midiIsStatusbyte byte = false →
    midiIsRealtime byte = false := by decide +kernel

theorem not_statusbyte_low7 (byte : BitVec 8) : midiIsStatusbyte (byte &&& 0x7F) = false := by
  simp [midiIsStatusbyte, BitVec.and_assoc]

theorem low7_eq (word : BitVec 16) : low7 word = word.setWidth 8 &&& 0x7F := by
  rw [low7, BitVec.setWidth_and]
  rfl

theorem high7_eq (word : BitVec 16) : high7 word = (word >>> 7).setWidth 8 &&& 0x7F := by
  rw [high7, BitVec.setWidth_and]
  rfl

/-- The data bytes that a message of a given length brings. -/
def lengthOf : Nat → PacketLength
  | 0 => .one
  | 1 => .two
  | 2 => .three
  | _ => .undefined

/-- A status byte with the data that belongs to it. -/
structure Framed (status : BitVec 8) (data : List (BitVec 8)) : Prop where
  statusbyte : midiIsStatusbyte status = true
  not_realtime : midiIsRealtime status = false
  length_le : data.length ≤ 2
  length_eq : midiPacketLength status = lengthOf data.length
  data : ∀ byte ∈ data, midiIsStatusbyte byte = false

theorem not_statusbyte_pair {a b : BitVec 8} (ha : midiIsStatusbyte a = false)
    (hb : midiIsStatusbyte b = false) : ∀ byte ∈ [a, b], midiIsStatusbyte byte = false := by
  intro byte h
  rcases List.mem_cons.mp h with rfl | h
  · exact ha
  · rw [List.mem_singleton.mp h]
    exact hb

theorem not_statusbyte_single {a : BitVec 8} (ha : midiIsStatusbyte a = false) :
    ∀ byte ∈ [a], midiIsStatusbyte byte = false := by
  intro byte h
  rw [List.mem_singleton.mp h]
  exact ha

/-- Below the system messages the high bits of a status byte tell its length. -/
theorem midiPacketLength_of_high {high : BitVec 8} (h : status &&& 0xF0 = high)
    (hhigh : high ≠ 0xF0) :
    midiPacketLength status =
      if high ∈ [midiCc, midiNoteon, midiNoteoff, midiAftertouch, midiPitchbend] then .three
      else if high ∈ [midiProgchange, midiChanpressure, midiSongselect] then .two
      else .undefined := by
  unfold midiPacketLength
  dsimp only
  rw [h, if_neg hhigh]

/-- A message on a channel. -/
theorem channel_framed (count : Nat) {high : BitVec 8} {data : List (BitVec 8)}
    (hhigh : high &&& 0xF0 = high ∧ high &&& 0x0F = 0 ∧ high &&& 0x80 ≠ 0 ∧ high ≠ 0xF0)
    (hlength : (if high ∈ [midiCc, midiNoteon, midiNoteoff, midiAftertouch, midiPitchbend] then
        PacketLength.three
      else if high ∈ [midiProgchange, midiChanpressure, midiSongselect] then .two
      else .undefined) = lengthOf count)
    (hcount : data.length = count) (hle : count ≤ 2)
    (hdata : ∀ byte ∈ data, midiIsStatusbyte byte = false) (chan : BitVec 8) :
    Framed (high ||| (chan &&& 0x0F)) data := by
  obtain ⟨hself, hlow, hstatus, hother⟩ := hhigh
  have hnibble := (status_or_channel hself hlow chan).1
  subst hcount
  refine ⟨statusbyte_of_high ?_, not_realtime_of_high _ ?_, hle, ?_, hdata⟩
  · rwa [hnibble]
  · rwa [hnibble]
  · rw [midiPacketLength_of_high hnibble hother, hlength]

/-- A system common message. -/
theorem system_framed (count : Nat) {data : List (BitVec 8)}
    (hstatus : midiIsStatusbyte status = true ∧ midiIsRealtime status = false ∧
      midiPacketLength status = lengthOf count)
    (hcount : data.length = count) (hle : count ≤ 2)
    (hdata : ∀ byte ∈ data, midiIsStatusbyte byte = false) : Framed status data := by
  subst hcount
  exact ⟨hstatus.1, hstatus.2.1, hle, hstatus.2.2, hdata⟩

theorem Send.framed (send : Send) : Framed send.status send.data := by
  have hlow7 (word : BitVec 16) : midiIsStatusbyte (low7 word) = false := by
    rw [low7_eq]
    exact not_statusbyte_low7 _
  have hhigh7 (word : BitVec 16) : midiIsStatusbyte (high7 word) = false := by
    rw [high7_eq]
    exact not_statusbyte_low7 _
  cases send with
  | voice kind chan num val =>
      apply channel_framed 2 (by cases kind <;> decide) (by cases kind <;> decide) rfl (by decide)
      exact not_statusbyte_pair (not_statusbyte_low7 num) (not_statusbyte_low7 val)
  | pitchbend chan amt =>
      apply channel_framed 2 (by decide) (by decide) rfl (by decide)
      exact not_statusbyte_pair (hlow7 (bendOf amt)) (hhigh7 (bendOf amt))
  | pressure kind chan num =>
      apply channel_framed 1 (by cases kind <;> decide) (by cases kind <;> decide) rfl (by decide)
      exact not_statusbyte_single (not_statusbyte_low7 num)
  | tcquarterframe time =>
      apply system_framed 1 (by dsimp only [Send.status]; decide) rfl (by decide)
      exact not_statusbyte_single (not_statusbyte_low7 time)
  | songposition pos =>
      apply system_framed 2 (by dsimp only [Send.status]; decide) rfl (by decide)
      exact not_statusbyte_pair (hlow7 pos) (hhigh7 pos)
  | songselect song =>
      apply system_framed 1 (by dsimp only [Send.status]; decide) rfl (by decide)
      exact not_statusbyte_single (not_statusbyte_low7 song)
  | tunerequest =>
      apply system_framed 0 (by decide) rfl (by decide)
      exact fun byte h => absurd h List.not_mem_nil

/-! ## Messages -/

theorem midiProcessByte_data (h : midiIsStatusbyte byte = false) :
    midiProcessByte c p byte = processData c p byte := by
  rw [midiProcessByte, if_neg (by simp [not_realtime_of_not_statusbyte byte h]), if_neg (by simp [h])]

theorem midiProcessByte_status (h : midiIsStatusbyte byte = true)
    (hrealtime : midiIsRealtime byte = false) :
    midiProcessByte c p byte = processStatus c p byte := by
  rw [midiProcessByte, if_neg (by simp [hrealtime]), if_pos h]

/-- The state in which data bytes follow a status byte. -/
def stateOf : Nat → InputState
  | 1 => .twoByteMessage
  | _ => .threeByteMessage

/-- The device has read a status byte and waits for `count` bytes of data, again and again. -/
structure Awaits (p : Parser) (status : BitVec 8) (count : Nat) : Prop where
  state : p.inputState = stateOf count
  count : p.inputCount = 1
  buffer : p.byte0 = status

/-- What is called back for the bytes of a message. -/
def bytesEvents (c : Callbacks) (status : BitVec 8) (data : List (BitVec 8)) : List Event :=
  midiInputCallbacks c (if data = [] then .oneByteMessage else stateOf data.length)
    (BitVec.ofNat 16 (data.length + 1)) status (data.getD 0 0) (data.getD 1 0)

theorem processStatus_framed {data : List (BitVec 8)} (h : Framed status data) (hne : data ≠ [])
    (hp : p.inputState ≠ .sysexMessage) :
    (midiProcessByte c p status).1 = [] ∧
      Awaits (midiProcessByte c p status).2 status data.length := by
  rw [midiProcessByte_status h.statusbyte h.not_realtime, processStatus, if_pos hp, h.length_eq]
  have hle := h.length_le
  match data, hne with
  | [a], _ => exact ⟨rfl, rfl, rfl, Vector.getElem_set_self _⟩
  | [a, b], _ => exact ⟨rfl, rfl, rfl, Vector.getElem_set_self _⟩
  | a :: b :: d :: data, _ => exact absurd hle (by simp)

theorem processStatus_single (h : Framed status []) (hp : p.inputState ≠ .sysexMessage) :
    (midiProcessByte c p status).1 = bytesEvents c status [] ∧
      (midiProcessByte c p status).2.inputState = .idle := by
  rw [midiProcessByte_status h.statusbyte h.not_realtime, processStatus, if_pos hp, h.length_eq]
  exact ⟨rfl, rfl⟩

/-- The data of a message, with its status byte read before. -/
theorem heard_data {data : List (BitVec 8)} (h : Awaits p status data.length) (hne : data ≠ [])
    (hle : data.length ≤ 2) (hdata : ∀ byte ∈ data, midiIsStatusbyte byte = false) :
    heard c p data = bytesEvents c status data ∧
      Awaits (parsed c p data) status data.length := by
  obtain ⟨state, count, buffer⟩ := p
  obtain ⟨hstate, hcount, hbuffer⟩ := h
  dsimp only at hstate hcount
  change buffer[0] = status at hbuffer
  subst hstate hcount hbuffer
  match data, hne with
  | [a], _ =>
      have ha : midiProcessByte c ⟨.twoByteMessage, 1, buffer⟩ a =
          (midiInputCallbacks c .twoByteMessage 2 buffer[0] a 0,
            ⟨.twoByteMessage, 1, buffer.set 1 a⟩) := by
        rw [midiProcessByte_data (hdata a List.mem_cons_self)]
        simp [processData, Parser.store, Parser.callbacks, Parser.keepStatus, Parser.byte0,
          Parser.byte1]
      change heard c ⟨.twoByteMessage, 1, buffer⟩ [a] = _ ∧
        Awaits (parsed c ⟨.twoByteMessage, 1, buffer⟩ [a]) _ _
      rw [heard_cons, parsed, List.foldl_cons, ha]
      refine ⟨List.append_nil _, rfl, rfl, ?_⟩
      change (buffer.set 1 a)[0] = buffer[0]
      rw [Vector.getElem_set_ne _ _ (by decide)]
  | [a, b], _ =>
      have ha : midiProcessByte c ⟨.threeByteMessage, 1, buffer⟩ a =
          ([], ⟨.threeByteMessage, 2, buffer.set 1 a⟩) := by
        rw [midiProcessByte_data (hdata a List.mem_cons_self)]
        simp [processData, Parser.store]
      have hb : midiProcessByte c ⟨.threeByteMessage, 2, buffer.set 1 a⟩ b =
          (midiInputCallbacks c .threeByteMessage 3 buffer[0] a b,
            ⟨.threeByteMessage, 1, (buffer.set 1 a).set 2 b⟩) := by
        rw [midiProcessByte_data (hdata b (List.mem_cons_of_mem _ List.mem_cons_self))]
        simp [processData, Parser.store, Parser.callbacks, Parser.keepStatus, Parser.byte0,
          Parser.byte1, Parser.byte2]
      change heard c ⟨.threeByteMessage, 1, buffer⟩ [a, b] = _ ∧
        Awaits (parsed c ⟨.threeByteMessage, 1, buffer⟩ [a, b]) _ _
      rw [heard_cons, heard_cons, parsed, List.foldl_cons, List.foldl_cons, ha, hb]
      refine ⟨List.append_nil _, rfl, rfl, ?_⟩
      change ((buffer.set 1 a).set 2 b)[0] = buffer[0]
      rw [Vector.getElem_set_ne _ _ (by decide), Vector.getElem_set_ne _ _ (by decide)]
  | a :: b :: d :: data, _ => exact absurd hle (by simp)

/-- The status byte that a later message may leave out. -/
def running (send : Send) : Option (BitVec 8 × Nat) :=
  if send.data = [] then none else some (send.status, send.data.length)

/-- The device is between two messages, and remembers a status byte. -/
structure Between (p : Parser) (kept : Option (BitVec 8 × Nat)) : Prop where
  not_sysex : p.inputState ≠ .sysexMessage
  awaits : ∀ status count, kept = some (status, count) → Awaits p status count

theorem Awaits.between {count : Nat} (h : Awaits p status count) :
    Between p (some (status, count)) := by
  refine ⟨?_, fun status' count' heq => ?_⟩
  · rw [h.state]
    unfold stateOf
    split <;> decide
  · cases heq
    exact h

theorem heard_send (send : Send) (hp : p.inputState ≠ .sysexMessage) :
    heard c p send.bytes = bytesEvents c send.status send.data ∧
      Between (parsed c p send.bytes) (running send) := by
  have hframed := send.framed
  unfold Send.bytes running
  rw [heard_cons, parsed, List.foldl_cons]
  by_cases hdata : send.data = []
  · rw [hdata] at hframed
    obtain ⟨hevents, hidle⟩ := processStatus_single (c := c) hframed hp
    rw [hdata, if_pos rfl, hevents]
    refine ⟨List.append_nil _, ?_, fun _ _ heq => by cases heq⟩
    change (midiProcessByte c p send.status).2.inputState ≠ _
    rw [hidle]
    decide
  · obtain ⟨hevents, hawaits⟩ := processStatus_framed (c := c) hframed hdata hp
    obtain ⟨hheard, hnext⟩ := heard_data (c := c) hawaits hdata hframed.length_le hframed.data
    rw [if_neg hdata, hevents, List.nil_append]
    exact ⟨hheard, hnext.between⟩

/-! ## What the callbacks get -/

def Voice.handler : Voice → Handler
  | .cc => .cc
  | .noteon => .noteon
  | .noteoff => .noteoff
  | .aftertouch => .aftertouch

def Pressure.handler : Pressure → Handler
  | .programchange => .progchange
  | .channelpressure => .chanpressure

def Send.handler : Send → Handler
  | .voice kind _ _ _ => kind.handler
  | .pitchbend _ _ => .pitchbend
  | .pressure kind _ _ => kind.handler
  | .tcquarterframe _ => .tcQuarterframe
  | .songposition _ => .songposition
  | .songselect _ => .songselect
  | .tunerequest => .tunerequest

/-- The channel or the status byte, and the data. -/
def Send.args : Send → List (BitVec 8)
  | .voice kind chan num val => (chan &&& 0x0F) :: (Send.voice kind chan num val).data
  | .pitchbend chan amt => (chan &&& 0x0F) :: (Send.pitchbend chan amt).data
  | .pressure kind chan num => (chan &&& 0x0F) :: (Send.pressure kind chan num).data
  | send => send.bytes

/-- The callbacks that a message is meant for. -/
def Send.events (c : Callbacks) (send : Send) : List Event :=
  let cnt := BitVec.ofNat 16 send.bytes.length
  let byte (i : Nat) := send.bytes.getD i 0
  (if c.registered send.handler then [.call send.handler send.args]
    else if c.fallthrough then [.fallthrough cnt (byte 0) (byte 1) (byte 2)] else []) ++
    if c.catchall then [.catchall cnt (byte 0) (byte 1) (byte 2)] else []

theorem threeByteFunc_voice (kind : Voice) (h : byte &&& 0xF0 = kind.status) :
    threeByteFunc byte = some kind.handler := by
  unfold threeByteFunc
  dsimp only
  rw [h]
  cases kind <;> rfl

theorem threeByteFunc_pitchbend (h : byte &&& 0xF0 = midiPitchbend) :
    threeByteFunc byte = some .pitchbend := by
  unfold threeByteFunc
  dsimp only
  rw [h]
  rfl

theorem twoByteFunc_pressure (kind : Pressure) (h : byte &&& 0xF0 = kind.status) :
    twoByteFunc byte = some kind.handler := by
  unfold twoByteFunc
  dsimp only
  rw [h]
  cases kind <;> rfl

/-- Where there is a channel, the callback gets it without the status. -/
theorem statusArg_channel {high chan : BitVec 8} {system : List (BitVec 8)}
    (hself : high &&& 0xF0 = high) (hlow : high &&& 0x0F = 0)
    (hsystem : ∀ byte ∈ system, byte &&& 0xF0 ≠ high) :
    statusArg system (high ||| (chan &&& 0x0F)) = chan &&& 0x0F := by
  obtain ⟨hnibble, hchannel⟩ := status_or_channel hself hlow chan
  rw [statusArg, if_neg fun hmem => hsystem _ hmem hnibble, hchannel]

theorem specificCall_three {handler : Handler} {status b0 b1 : BitVec 8}
    (hfunc : threeByteFunc status = some handler) :
    specificCall 3 status b0 b1 = some (handler, [statusArg [midiSongposition] status, b0, b1]) := by
  rw [specificCall, if_pos rfl, hfunc]
  rfl

theorem specificCall_two {handler : Handler} {status b0 b1 : BitVec 8}
    (hfunc : twoByteFunc status = some handler) :
    specificCall 2 status b0 b1 =
      some (handler, [statusArg [midiSongselect, midiTcQuarterframe] status, b0]) := by
  rw [specificCall, if_neg (by decide), if_pos rfl, hfunc]
  rfl

theorem specificCall_send (send : Send) :
    specificCall (BitVec.ofNat 16 (send.data.length + 1)) send.status
      (send.data.getD 0 0) (send.data.getD 1 0) = some (send.handler, send.args) := by
  cases send with
  | voice kind chan num val =>
      have hself : kind.status &&& 0xF0 = kind.status := by cases kind <;> rfl
      have hlow : kind.status &&& 0x0F = 0 := by cases kind <;> rfl
      have hfunc := threeByteFunc_voice kind (status_or_channel hself hlow chan).1
      apply (specificCall_three hfunc).trans
      rw [statusArg_channel hself hlow (by cases kind <;> decide)]
      rfl
  | pitchbend chan amt =>
      have hfunc := threeByteFunc_pitchbend
        (status_or_channel (rfl : midiPitchbend &&& 0xF0 = midiPitchbend) rfl chan).1
      apply (specificCall_three hfunc).trans
      rw [statusArg_channel rfl rfl (by decide)]
      rfl
  | pressure kind chan num =>
      have hself : kind.status &&& 0xF0 = kind.status := by cases kind <;> rfl
      have hlow : kind.status &&& 0x0F = 0 := by cases kind <;> rfl
      have hfunc := twoByteFunc_pressure kind (status_or_channel hself hlow chan).1
      apply (specificCall_two hfunc).trans
      rw [statusArg_channel hself hlow (by cases kind <;> decide)]
      rfl
  | tcquarterframe time =>
      apply (specificCall_two (by decide : twoByteFunc midiTcQuarterframe = some .tcQuarterframe)).trans
      rw [statusArg, if_pos (by decide)]
      rfl
  | songposition pos =>
      apply (specificCall_three (by decide : threeByteFunc midiSongposition = some .songposition)).trans
      rw [statusArg, if_pos (by decide)]
      rfl
  | songselect song =>
      apply (specificCall_two (by decide : twoByteFunc midiSongselect = some .songselect)).trans
      rw [statusArg, if_pos (by decide)]
      rfl
  | tunerequest => rfl

theorem bytesEvents_send (send : Send) :
    bytesEvents c send.status send.data = send.events c := by
  have hcall := specificCall_send send
  have hle := send.framed.length_le
  have hstate : (if send.data = [] then InputState.oneByteMessage else stateOf send.data.length) ≠
      .sysexMessage := by
    unfold stateOf
    split
    · decide
    · split <;> decide
  have hcnt : ¬BitVec.ofNat 16 (send.data.length + 1) > 3 := by
    have hsmall : send.data.length + 1 ≤ 3 := by omega
    intro hgt
    rw [gt_iff_lt, BitVec.lt_def, BitVec.toNat_ofNat] at hgt
    change 3 < _ at hgt
    omega
  unfold bytesEvents midiInputCallbacks specificEvents Send.events
  rw [if_neg hstate, hcall, if_neg fun h => hcnt h.2]
  dsimp only
  cases hregistered : c.registered send.handler <;> simp [Send.bytes]

/-! ## System exclusive messages -/

/-- What the callback for system exclusive messages has got: the bytes, from `start` on. -/
def received (events : List Event) : List (BitVec 16 × List (BitVec 8)) :=
  events.filterMap fun
    | .sysex start length data => some (start, data.toList.take length.toNat)
    | _ => none

theorem received_append (events others : List Event) :
    received (events ++ others) = received events ++ received others := List.filterMap_append

/-- The blocks of a message, from the block `k` on. -/
def blocksFrom (k : Nat) (blocks : List (List (BitVec 8))) :
    List (BitVec 16 × List (BitVec 8)) :=
  (blocks.zipIdx k).map fun (block, i) => (BitVec.ofNat 16 (3 * i), block)

/-- The device has handed on `k` blocks of a message, and keeps what came since. -/
structure Reading (p : Parser) (k : Nat) (part : List (BitVec 8)) : Prop where
  state : p.inputState = .sysexMessage
  count : p.inputCount = BitVec.ofNat 16 (3 * k + part.length)
  buffer : p.inputBuffer.toList.take part.length = part
  length_lt : part.length < 3

theorem received_block (hsysex : c.sysex = true) {k m : Nat} (hm : 1 ≤ m) (hm3 : m ≤ 3)
    (hfits : 3 * k + m < 65536) (byte0 byte1 byte2 : BitVec 8) :
    received (midiInputCallbacks c .sysexMessage (BitVec.ofNat 16 (3 * k + m)) byte0 byte1 byte2) =
      [(BitVec.ofNat 16 (3 * k), [byte0, byte1, byte2].take m)] := by
  have hcnt : (BitVec.ofNat 16 (3 * k + m) - 1).toNat = 3 * k + m - 1 := by
    rw [BitVec.toNat_sub, BitVec.toNat_ofNat]
    change (65536 - 1 + _) % 65536 = _
    omega
  have hstart : (BitVec.ofNat 16 (3 * k + m) - 1) / 3 * 3 = BitVec.ofNat 16 (3 * k) := by
    apply BitVec.eq_of_toNat_eq
    rw [BitVec.toNat_mul, BitVec.toNat_udiv, hcnt, BitVec.toNat_ofNat]
    change (3 * k + m - 1) / 3 * 3 % 65536 = 3 * k % 65536
    omega
  have hlength : ((BitVec.ofNat 16 (3 * k + m) - BitVec.ofNat 16 (3 * k)).setWidth 8).toNat = m := by
    rw [BitVec.toNat_setWidth, BitVec.toNat_sub, BitVec.toNat_ofNat, BitVec.toNat_ofNat]
    omega
  unfold midiInputCallbacks specificEvents
  dsimp only
  rw [if_pos rfl, if_pos hsysex, hstart]
  cases c.catchall <;> simp [received, hlength]

variable {k : Nat} {part : List (BitVec 8)}

theorem Reading.index (h : Reading p k part) (hfits : 3 * k + part.length < 65536) :
    p.inputCount.toNat % 3 = part.length := by
  rw [h.count, BitVec.toNat_ofNat, Nat.mod_eq_of_lt hfits, Nat.mul_add_mod,
    Nat.mod_eq_of_lt h.length_lt]

theorem Reading.store (h : Reading p k part) (hfits : 3 * k + part.length < 65536)
    (byte : BitVec 8) :
    (p.store byte).inputState = .sysexMessage ∧
      (p.store byte).inputCount = BitVec.ofNat 16 (3 * k + (part.length + 1)) ∧
      (p.store byte).inputBuffer.toList.take (part.length + 1) = part ++ [byte] := by
  have hindex := h.index (by omega)
  refine ⟨h.state, ?_, ?_⟩
  · change p.inputCount + 1 = _
    rw [h.count, ← Nat.add_assoc, BitVec.ofNat_add _ 1]
    rfl
  · change (p.inputBuffer.set (p.inputCount.toNat % 3) byte (Nat.mod_lt _ (by decide))).toList.take _ = _
    have hlength : part.length < p.inputBuffer.toList.length := by
      rw [Vector.length_toList]
      exact h.length_lt
    rw [Vector.toList_set, hindex, take_set_succ byte hlength, h.buffer]

theorem Parser.toList_inputBuffer (p : Parser) :
    p.inputBuffer.toList = [p.byte0, p.byte1, p.byte2] := by
  obtain ⟨_, _, ⟨⟨_ | ⟨a, _ | ⟨b, _ | ⟨d, _ | ⟨e, l⟩⟩⟩⟩⟩, hsize⟩⟩ := p
  all_goals first | rfl | cases hsize

/-- A block that is full is handed on. -/
theorem Reading.data (h : Reading p k part) (hsysex : c.sysex = true)
    (hfits : 3 * k + part.length + 1 < 65536) (hdata : midiIsStatusbyte byte = false) :
    let next := midiProcessByte c p byte
    if part.length = 2 then
      received next.1 = [(BitVec.ofNat 16 (3 * k), part ++ [byte])] ∧ Reading next.2 (k + 1) []
    else received next.1 = [] ∧ Reading next.2 k (part ++ [byte]) := by
  obtain ⟨hstate, hcount, hbuffer⟩ := h.store (by omega) byte
  have hindex := h.index (by omega)
  have hidle : p.inputState ≠ .idle := by
    rw [h.state]
    decide
  dsimp only
  rw [midiProcessByte_data hdata, processData, if_neg hidle, hindex]
  dsimp only
  by_cases hfull : part.length = 2
  · rw [if_pos hfull, if_pos hfull]
    have hbytes := received_block (c := c) hsysex (by omega : 1 ≤ part.length + 1)
      (by omega) (by omega : 3 * k + (part.length + 1) < 65536)
      (p.store byte).byte0 (p.store byte).byte1 (p.store byte).byte2
    rw [← Parser.toList_inputBuffer, hbuffer, ← hcount] at hbytes
    constructor
    · rw [Parser.callbacks, hstate]
      exact hbytes
    · rw [Parser.keepStatus, if_neg fun hne => hne hstate]
      refine ⟨hstate, ?_, rfl, by decide⟩
      rw [hcount, hfull]
      rfl
  · have htwo : ¬((part.length = 1) ∧ (p.store byte).inputState = .twoByteMessage) := by
      rintro ⟨-, heq⟩
      rw [hstate] at heq
      cases heq
    rw [if_neg hfull, if_neg hfull, if_neg htwo]
    refine ⟨rfl, hstate, ?_, ?_, ?_⟩
    · rw [hcount, List.length_append, List.length_singleton]
    · rw [List.length_append, List.length_singleton, hbuffer]
    · have hlt := h.length_lt
      rw [List.length_append, List.length_singleton]
      omega

/-- The end of a message hands on what is left. -/
theorem Reading.finish (h : Reading p k part) (hsysex : c.sysex = true)
    (hfits : 3 * k + part.length + 1 < 65536) :
    received (midiProcessByte c p sysexEnd).1 = [(BitVec.ofNat 16 (3 * k), part ++ [sysexEnd])] ∧
      (midiProcessByte c p sysexEnd).2.inputState = .idle := by
  obtain ⟨hstate, hcount, hbuffer⟩ := h.store (by omega) sysexEnd
  have hlt := h.length_lt
  have hundefined : midiPacketLength sysexEnd = .undefined := by decide
  rw [midiProcessByte_status (by decide) (by decide), processStatus, if_neg fun hne => hne h.state,
    hundefined]
  dsimp only
  rw [if_neg (by decide), if_pos rfl]
  have hbytes := received_block (c := c) hsysex (by omega : 1 ≤ part.length + 1)
    (by omega) (by omega : 3 * k + (part.length + 1) < 65536)
    (p.store sysexEnd).byte0 (p.store sysexEnd).byte1 (p.store sysexEnd).byte2
  rw [← Parser.toList_inputBuffer, hbuffer, ← hcount] at hbytes
  refine ⟨?_, rfl⟩
  rw [Parser.callbacks, hstate]
  exact hbytes

theorem blocksFrom_cons (k : Nat) (block : List (BitVec 8)) (blocks : List (List (BitVec 8))) :
    blocksFrom k (block :: blocks) =
      (BitVec.ofNat 16 (3 * k), block) :: blocksFrom (k + 1) blocks := rfl

/-- The rest of a message is handed on in blocks of three. -/
theorem Reading.remaining {rest : List (BitVec 8)} (h : Reading p k part) (hsysex : c.sysex = true)
    (hdata : ∀ byte ∈ rest, midiIsStatusbyte byte = false)
    (hfits : 3 * k + part.length + rest.length + 1 < 65536) :
    received (heard c p (rest ++ [sysexEnd])) =
        blocksFrom k (chunks 3 (part ++ (rest ++ [sysexEnd]))) ∧
      (parsed c p (rest ++ [sysexEnd])).inputState = .idle := by
  induction rest generalizing p k part with
  | nil =>
      obtain ⟨hreceived, hidle⟩ := h.finish hsysex hfits
      have hblock : chunks 3 (part ++ [sysexEnd]) = [part ++ [sysexEnd]] := by
        have hlt := h.length_lt
        by_cases hfull : part.length = 2
        · have hthree : (part ++ [sysexEnd]).length = 3 := by simp [hfull]
          have hchunk : chunks 3 ((part ++ [sysexEnd]) ++ []) = _ := chunks_append (by decide) hthree
          rwa [List.append_nil, chunks_nil] at hchunk
        · apply chunks_of_lt (by simp)
          rw [List.length_append, List.length_singleton]
          omega
      rw [List.nil_append, hblock, heard_cons, received_append, hreceived]
      exact ⟨rfl, hidle⟩
  | cons byte rest ih =>
      have hstep := h.data hsysex (by rw [List.length_cons] at hfits; omega)
        (hdata byte List.mem_cons_self)
      have hrest := fun other hother => hdata other (List.mem_cons_of_mem byte hother)
      rw [List.length_cons] at hfits
      rw [List.cons_append, heard_cons, received_append]
      change _ ∧ (parsed c (midiProcessByte c p byte).2 (rest ++ [sysexEnd])).inputState = .idle
      have hjoin : part ++ (byte :: (rest ++ [sysexEnd])) =
          (part ++ [byte]) ++ (rest ++ [sysexEnd]) := by simp
      rw [hjoin]
      dsimp only at hstep
      by_cases hfull : part.length = 2
      · rw [if_pos hfull] at hstep
        obtain ⟨hreceived, hnext⟩ := hstep
        obtain ⟨hih, hidle⟩ := ih hnext hrest (by rw [List.length_nil]; omega)
        have hthree : (part ++ [byte]).length = 3 := by simp [hfull]
        rw [hreceived, hih, chunks_append (by decide) hthree, blocksFrom_cons]
        exact ⟨rfl, hidle⟩
      · rw [if_neg hfull] at hstep
        obtain ⟨hreceived, hnext⟩ := hstep
        obtain ⟨hih, hidle⟩ := ih hnext hrest
          (by rw [List.length_append, List.length_singleton]; omega)
        rw [hreceived, hih]
        exact ⟨rfl, hidle⟩

theorem begin_reading (c : Callbacks) (p : Parser) :
    (midiProcessByte c p sysexBegin).1 = [] ∧
      Reading (midiProcessByte c p sysexBegin).2 0 [sysexBegin] := by
  have hundefined : midiPacketLength sysexBegin = .undefined := by decide
  rw [midiProcessByte_status (by decide) (by decide), processStatus]
  dsimp only
  rw [hundefined]
  dsimp only
  rw [if_pos rfl]
  refine ⟨rfl, rfl, rfl, ?_, by decide⟩
  split <;> exact take_set_succ sysexBegin (by simp)

/-- A payload between the two bytes that frame it. -/
def sysexFrame (payload : List (BitVec 8)) : List (BitVec 8) :=
  sysexBegin :: (payload ++ [sysexEnd])

theorem heard_sysexFrame (hsysex : c.sysex = true) {payload : List (BitVec 8)}
    (hdata : ∀ byte ∈ payload, midiIsStatusbyte byte = false) (hfits : payload.length + 2 < 65536)
    (p : Parser) :
    received (heard c p (sysexFrame payload)) = blocksFrom 0 (chunks 3 (sysexFrame payload)) ∧
      (parsed c p (sysexFrame payload)).inputState = .idle := by
  obtain ⟨hnone, hreading⟩ := begin_reading c p
  have hrest := hreading.remaining hsysex hdata (by rw [List.length_singleton]; omega)
  unfold sysexFrame
  rw [heard_cons, hnone, List.nil_append]
  exact hrest

/-! ## Streams of messages -/

inductive Item
  | send (send : Send)
  | sysex (payload : List (BitVec 8))

/-- The bytes of a list of messages; a status byte that is kept may be left out. -/
inductive Wire : Option (BitVec 8 × Nat) → List Item → List (BitVec 8) → Prop
  | nil {kept} : Wire kept [] []
  | send {kept items bytes} (send : Send) (rest : Wire (running send) items bytes) :
      Wire kept (.send send :: items) (send.bytes ++ bytes)
  | running {items bytes} (send : Send) (hdata : send.data ≠ [])
      (rest : Wire (running send) items bytes) :
      Wire (running send) (.send send :: items) (send.data ++ bytes)
  | sysex {kept items bytes} (payload : List (BitVec 8))
      (hdata : ∀ byte ∈ payload, midiIsStatusbyte byte = false)
      (hfits : payload.length + 2 < 65536) (rest : Wire none items bytes) :
      Wire kept (.sysex payload :: items) (sysexFrame payload ++ bytes)

/-- What the callbacks get for one message. -/
def Hears (c : Callbacks) : Item → List Event → Prop
  | .send send, events => events = send.events c
  | .sysex payload, events => received events = blocksFrom 0 (chunks 3 (sysexFrame payload))

theorem Wire.heard {kept : Option (BitVec 8 × Nat)} {items : List Item} {bytes : List (BitVec 8)}
    (h : Wire kept items bytes) (hsysex : c.sysex = true) (hp : Between p kept) :
    ∃ groups, heard c p bytes = groups.flatten ∧ List.Forall₂ (Hears c) items groups := by
  induction h generalizing p with
  | nil => exact ⟨[], rfl, .nil⟩
  | @send kept items bytes send rest ih =>
      obtain ⟨hevents, hnext⟩ := heard_send (c := c) send hp.not_sysex
      obtain ⟨groups, hgroups, hall⟩ := ih hnext
      refine ⟨send.events c :: groups, ?_, .cons rfl hall⟩
      rw [heard_append, hevents, bytesEvents_send, hgroups, List.flatten_cons]
  | @running items bytes send hdata rest ih =>
      have hawaits : Awaits p send.status send.data.length := by
        apply hp.awaits
        rw [Device.running, if_neg hdata]
      obtain ⟨hevents, hnext⟩ := heard_data (c := c) hawaits hdata send.framed.length_le
        send.framed.data
      have hbetween : Between (parsed c p send.data) (Device.running send) := by
        rw [Device.running, if_neg hdata]
        exact hnext.between
      obtain ⟨groups, hgroups, hall⟩ := ih hbetween
      refine ⟨send.events c :: groups, ?_, .cons rfl hall⟩
      rw [heard_append, hevents, bytesEvents_send, hgroups, List.flatten_cons]
  | @sysex kept items bytes payload hdata hfits rest ih =>
      obtain ⟨hreceived, hidle⟩ := heard_sysexFrame hsysex hdata hfits p
      have hbetween : Between (parsed c p (sysexFrame payload)) none := by
        refine ⟨?_, fun _ _ heq => by cases heq⟩
        rw [hidle]
        decide
      obtain ⟨groups, hgroups, hall⟩ := ih hbetween
      exact ⟨Device.heard c p (sysexFrame payload) :: groups, by
        rw [heard_append, hgroups, List.flatten_cons], .cons hreceived hall⟩

/-- `midi_device_init`. -/
def Parser.initial : Parser := ⟨.idle, 0, .replicate 3 0⟩

end Qmk.Midi.Device
