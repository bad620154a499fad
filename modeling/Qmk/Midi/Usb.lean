import Qmk.Midi.Queue
import Qmk.Midi.Sysex

/-!
# Messages over USB

`qmk_midi.c` packs what is sent into packets of three bytes, and unpacks what is received. A
payload that is encoded, sent as a system exclusive message, received, parsed and decoded is the
payload again.
-/

namespace Qmk.Midi.Device

open Qmk.Lib
open Qmk.Midi.Sysex

def sysexStartOrCont : BitVec 8 := 0x40
def sysexEndsIn1 : BitVec 8 := 0x50
def sysexEndsIn2 : BitVec 8 := 0x60
def sysexEndsIn3 : BitVec 8 := 0x70

def sysCommon2 : BitVec 8 := 0x20
def sysCommon3 : BitVec 8 := 0x30

/-- `MIDI_EventPacket_t` -/
structure EventPacket where
  event : BitVec 8
  data1 : BitVec 8
  data2 : BitVec 8
  data3 : BitVec 8

section

-- `MIDI_EVENT` of the USB library, for the cable 0.
variable (midiEvent : BitVec 8 → BitVec 8)

def usbSendFunc (cnt : BitVec 16) (byte0 byte1 byte2 : BitVec 8) : Option EventPacket :=
  let packet (command : BitVec 8) : EventPacket := ⟨midiEvent command, byte0, byte1, byte2⟩
  if midiPacketLength byte0 = .undefined then
    if cnt = 3 then
      if byte2 = sysexEnd then some (packet sysexEndsIn3) else some (packet sysexStartOrCont)
    else if cnt = 2 then
      if byte1 = sysexEnd then some (packet sysexEndsIn2) else some (packet sysexStartOrCont)
    else if cnt = 1 then
      if byte0 = sysexEnd then some (packet sysexEndsIn1) else some (packet sysexStartOrCont)
    else none
  else if byte0 &&& 0xF0 = midiSongposition then some (packet sysCommon3)
  else if byte0 &&& 0xF0 = midiSongselect ∨ byte0 &&& 0xF0 = midiTcQuarterframe then
    some (packet sysCommon2)
  else some (packet byte0)

def PacketLength.toNat : PacketLength → Nat
  | .undefined => 0
  | .one => 1
  | .two => 2
  | .three => 3

/-- The bytes that `usb_get_midi` puts into the queue for a packet. -/
def unpack (packet : EventPacket) : List (BitVec 8) :=
  let length := midiPacketLength packet.data1
  let length :=
    if length = .undefined then
      if packet.event = midiEvent sysexStartOrCont ∨ packet.event = midiEvent sysexEndsIn3 then
        .three
      else if packet.event = midiEvent sysexEndsIn2 then .two
      else if packet.event = midiEvent sysexEndsIn1 then .one
      else .undefined
    else length
  [packet.data1, packet.data2, packet.data3].take length.toNat

/-- `midi_send_data` for the bytes of a block. -/
def midiSendData (block : List (BitVec 8)) : List EventPacket :=
  (usbSendFunc midiEvent (BitVec.ofNat 16 block.length) (block.getD 0 0) (block.getD 1 0)
    (block.getD 2 0)).toList

def midiSendArray (array : List (BitVec 8)) : List EventPacket :=
  (chunks 3 array).flatMap (midiSendData midiEvent)

/-- A message of the keyboard: one of `midi.c`, or a payload that is encoded first. -/
inductive Message
  | send (send : Send)
  | sysex (source : List (BitVec 8))

def Message.bytes : Message → List (BitVec 8)
  | .send message => message.bytes
  | .sysex source => sysexFrame (sysexEncode source)

def Message.packets : Message → List EventPacket
  | .send message => midiSendData midiEvent message.bytes
  | .sysex source => midiSendArray midiEvent (sysexFrame (sysexEncode source))

/-- The calls of `midi_device_process` that receive the packets of each batch. -/
def receiving (batches : List (List EventPacket)) : List Op :=
  batches.map fun packets => .process (packets.map (unpack midiEvent))

/-- The codes of the packets of system exclusive messages are different. -/
def Distinct : Prop :=
  ([sysexStartOrCont, sysexEndsIn1, sysexEndsIn2, sysexEndsIn3].map midiEvent).Nodup

/-! ## Packets -/

variable {midiEvent}

theorem length_unpack_le (midiEvent : BitVec 8 → BitVec 8) (packet : EventPacket) :
    (unpack midiEvent packet).length ≤ 3 := by
  unfold unpack
  rw [List.length_take]
  exact Nat.min_le_right _ _

theorem usbSendFunc_message (midiEvent : BitVec 8 → BitVec 8) (cnt : BitVec 16)
    {byte0 : BitVec 8} (byte1 byte2 : BitVec 8) (h : midiPacketLength byte0 ≠ .undefined) :
    ∃ event, usbSendFunc midiEvent cnt byte0 byte1 byte2 = some ⟨event, byte0, byte1, byte2⟩ := by
  unfold usbSendFunc
  dsimp only
  rw [if_neg h]
  split
  · exact ⟨_, rfl⟩
  · split <;> exact ⟨_, rfl⟩

/-- What is unpacked of a message is the message. -/
theorem unpack_send (send : Send) :
    (midiSendData midiEvent send.bytes).flatMap (unpack midiEvent) = send.bytes := by
  have hframed := send.framed
  have hle := hframed.length_le
  have hdefined : midiPacketLength send.status ≠ .undefined := by
    rw [hframed.length_eq]
    match send.data, hle with
    | [], _ => nofun
    | [_], _ => nofun
    | [_, _], _ => nofun
  unfold midiSendData Send.bytes
  rw [List.getD_cons_zero]
  obtain ⟨event, hpacket⟩ := usbSendFunc_message midiEvent
    (BitVec.ofNat 16 (send.status :: send.data).length) ((send.status :: send.data).getD 1 0)
    ((send.status :: send.data).getD 2 0) hdefined
  rw [hpacket]
  change unpack midiEvent _ ++ [] = _
  rw [List.append_nil, unpack]
  dsimp only
  rw [if_neg hdefined, hframed.length_eq]
  match send.data, hle with
  | [], _ => rfl
  | [_], _ => rfl
  | [_, _], _ => rfl

/-- A block of a system exclusive message that is not a block of three is the last one. -/
structure Block (block : List (BitVec 8)) : Prop where
  undefined : ∀ byte ∈ block, midiPacketLength byte = .undefined
  length_pos : block ≠ []
  length_le : block.length ≤ 3
  last : block.length < 3 → block.getLast? = some sysexEnd

theorem unpack_block (hdistinct : Distinct midiEvent) {block : List (BitVec 8)} (h : Block block) :
    (midiSendData midiEvent block).flatMap (unpack midiEvent) = block := by
  obtain ⟨hundefined, hpos, hle, hlast⟩ := h
  simp only [Distinct, List.map_cons, List.map_nil, List.nodup_cons, List.mem_cons,
    List.not_mem_nil, or_false, not_or] at hdistinct
  obtain ⟨⟨h1, h2, h3⟩, ⟨h4, h5⟩, h6, -⟩ := hdistinct
  rcases block with _ | ⟨a, _ | ⟨b, _ | ⟨d, _ | ⟨e, block⟩⟩⟩⟩
  · exact absurd rfl hpos
  · have ha := hundefined a List.mem_cons_self
    obtain rfl : a = sysexEnd := Option.some.inj (hlast (by decide : 1 < 3))
    simp [midiSendData, usbSendFunc, unpack, ha, PacketLength.toNat, Ne.symm h1, h4, h5]
  · have ha := hundefined a List.mem_cons_self
    obtain rfl : b = sysexEnd := Option.some.inj (hlast (by decide : 2 < 3))
    simp [midiSendData, usbSendFunc, unpack, ha, PacketLength.toNat, Ne.symm h2, h6]
  · have ha := hundefined a List.mem_cons_self
    by_cases hend : d = sysexEnd
    · simp [midiSendData, usbSendFunc, unpack, ha, PacketLength.toNat, hend]
    · simp [midiSendData, usbSendFunc, unpack, ha, PacketLength.toNat, hend]
  · simp only [List.length_cons] at hle
    omega

theorem block_of_mem_chunks {array block : List (BitVec 8)}
    (hundefined : ∀ byte ∈ array, midiPacketLength byte = .undefined)
    (hlast : ∀ byte ∈ array.getLast?, byte = sysexEnd) (h : block ∈ chunks 3 array) :
    Block block := by
  induction array using chunks_induction (by decide : 0 < 3) with
  | nil =>
      rw [chunks_nil] at h
      cases h
  | last array hne hlt =>
      rw [chunks_of_lt hne hlt, List.mem_singleton] at h
      subst h
      refine ⟨hundefined, hne, Nat.le_of_lt hlt, fun _ => ?_⟩
      have hsome := List.getLast?_eq_getLast_of_ne_nil hne
      rw [hsome, hlast _ hsome]
  | full first rest hfirst ih =>
      rw [chunks_append (by decide) hfirst, List.mem_cons] at h
      rcases h with rfl | h
      · refine ⟨fun byte hbyte => hundefined byte (List.mem_append_left _ hbyte), ?_,
          Nat.le_of_eq hfirst, fun hlt => absurd hfirst (Nat.ne_of_lt hlt)⟩
        rintro rfl
        cases hfirst
      · refine ih (fun byte hbyte => hundefined byte (List.mem_append_right _ hbyte)) ?_ h
        intro byte hbyte
        apply hlast
        rw [List.getLast?_append, Option.mem_def.mp hbyte]
        rfl

theorem undefined_of_not_statusbyte : ∀ byte : BitVec 8, midiIsStatusbyte byte = false →
    midiPacketLength byte = .undefined := by decide +kernel

theorem undefined_of_mem_sysexFrame {payload : List (BitVec 8)} {byte : BitVec 8}
    (hdata : ∀ byte ∈ payload, midiIsStatusbyte byte = false) (h : byte ∈ sysexFrame payload) :
    midiPacketLength byte = .undefined := by
  rcases List.mem_cons.mp h with rfl | h
  · decide
  · rcases List.mem_append.mp h with h | h
    · exact undefined_of_not_statusbyte byte (hdata byte h)
    · rw [List.mem_singleton.mp h]
      decide

theorem unpack_array (hdistinct : Distinct midiEvent) {payload : List (BitVec 8)}
    (hdata : ∀ byte ∈ payload, midiIsStatusbyte byte = false) :
    (midiSendArray midiEvent (sysexFrame payload)).flatMap (unpack midiEvent) =
      sysexFrame payload := by
  have hlast : ∀ byte ∈ (sysexFrame payload).getLast?, byte = sysexEnd := by
    intro byte hbyte
    rw [sysexFrame, ← List.cons_append, List.getLast?_concat] at hbyte
    exact (Option.some.inj hbyte).symm
  have hblocks : ∀ block ∈ chunks 3 (sysexFrame payload),
      (midiSendData midiEvent block).flatMap (unpack midiEvent) = id block := fun block hmem =>
    unpack_block hdistinct
      (block_of_mem_chunks (fun _ => undefined_of_mem_sysexFrame hdata) hlast hmem)
  unfold midiSendArray
  rw [List.flatMap_assoc, List.flatMap_def, List.map_congr_left hblocks, List.map_id,
    flatten_chunks (by decide)]

theorem not_statusbyte_of_isData {byte : BitVec 8} (h : IsData byte) :
    midiIsStatusbyte byte = false := by
  revert h byte
  unfold IsData
  decide +kernel

theorem not_statusbyte_sysexEncode (source : List (BitVec 8)) :
    ∀ byte ∈ sysexEncode source, midiIsStatusbyte byte = false := fun _ h =>
  not_statusbyte_of_isData (isData_of_mem_sysexEncode h)

theorem unpack_message (hdistinct : Distinct midiEvent) (message : Message) :
    (message.packets midiEvent).flatMap (unpack midiEvent) = message.bytes := by
  cases message with
  | send send => exact unpack_send send
  | sysex source => exact unpack_array hdistinct (not_statusbyte_sysexEncode source)

/-! ## Receiving -/

/-- The message as the parser gets it. -/
def Message.item : Message → Item
  | .send message => .send message
  | .sysex source => .sysex (sysexEncode source)

/-- The two bytes of the length of a system exclusive message can count its bytes. -/
def Message.Fits : Message → Prop
  | .send _ => True
  | .sysex source => (sysexEncode source).length + 2 < 65536

theorem wire_messages {messages : List Message} (hfits : ∀ message ∈ messages, message.Fits)
    (kept : Option (BitVec 8 × Nat)) :
    Wire kept (messages.map Message.item) (messages.flatMap Message.bytes) := by
  induction messages generalizing kept with
  | nil => exact .nil
  | cons message messages ih =>
      have hrest := ih fun other hother => hfits other (List.mem_cons_of_mem _ hother)
      have hfit := hfits message List.mem_cons_self
      cases message with
      | send send => exact .send send (hrest _)
      | sysex source =>
          exact .sysex (sysexEncode source) (not_statusbyte_sysexEncode source) hfit (hrest none)

theorem length_unpack_packets_le (midiEvent : BitVec 8 → BitVec 8) (packets : List EventPacket) :
    (packets.map (unpack midiEvent)).flatten.length ≤ 3 * packets.length := by
  induction packets with
  | nil => exact Nat.le_refl 0
  | cons packet packets ih =>
      have hone := length_unpack_le midiEvent packet
      rw [List.map_cons, List.flatten_cons, List.length_append, List.length_cons]
      omega

/-- Batches of up to 63 packets go through the queue. -/
theorem through_receiving {batches : List (List EventPacket)}
    (hbatch : ∀ packets ∈ batches, packets.length ≤ 63) :
    through [] (receiving midiEvent batches) = batches.flatten.flatMap (unpack midiEvent) := by
  induction batches with
  | nil => rfl
  | cons packets batches ih =>
      have hlength := length_unpack_packets_le midiEvent packets
      have hle := hbatch packets List.mem_cons_self
      have hrest := ih fun other hother => hbatch other (List.mem_cons_of_mem _ hother)
      rw [receiving, List.map_cons, through, List.nil_append, List.take_of_length_le (by omega),
        List.flatten_cons, List.flatMap_append]
      exact congrArg (packets.flatMap (unpack midiEvent) ++ ·) hrest

/-- The payload of the blocks of a system exclusive message, decoded. -/
def reassembled (events : List Event) : List (BitVec 8) :=
  sysexDecode (((received events).flatMap Prod.snd).tail.dropLast)

/-- What the callbacks get for a message: the message's own call, or blocks that carry the
payload. -/
def Delivered (c : Callbacks) : Message → List Event → Prop
  | .send message, events => events = message.events c
  | .sysex source, events => reassembled events = source

theorem flatten_blocksFrom (k : Nat) (blocks : List (List (BitVec 8))) :
    (blocksFrom k blocks).flatMap Prod.snd = blocks.flatten := by
  induction blocks generalizing k with
  | nil => rfl
  | cons block blocks ih => rw [blocksFrom_cons, List.flatMap_cons, ih, List.flatten_cons]

theorem delivered_of_hears {c : Callbacks} {message : Message} {events : List Event}
    (h : Hears c message.item events) : Delivered c message events := by
  cases message with
  | send send => exact h
  | sysex source =>
      change sysexDecode (((received events).flatMap Prod.snd).tail.dropLast) = source
      rw [h, flatten_blocksFrom, flatten_chunks (by decide), sysexFrame, List.tail_cons,
        List.dropLast_concat, sysexDecode_sysexEncode]

theorem hears_receiving {c : Callbacks} (hdistinct : Distinct midiEvent) (hsysex : c.sysex = true)
    {messages : List Message} (hfits : ∀ message ∈ messages, message.Fits)
    {batches : List (List EventPacket)}
    (hsent : batches.flatten = messages.flatMap (Message.packets midiEvent))
    (hbatch : ∀ packets ∈ batches, packets.length ≤ 63) :
    ∃ groups, (run c midiDeviceInit (receiving midiEvent batches)).flatten = groups.flatten ∧
      List.Forall₂ (Hears c) (messages.map Message.item) groups := by
  have hbytes : through [] (receiving midiEvent batches) = messages.flatMap Message.bytes := by
    rw [through_receiving hbatch, hsent, List.flatMap_assoc]
    exact List.flatMap_congr fun message _ => unpack_message hdistinct message
  rw [heard_run, hbytes]
  exact (wire_messages hfits none).heard hsysex ⟨by decide, fun _ _ heq => by cases heq⟩

/-- A stream of messages that one keyboard sends over USB and that another one receives, in
batches of up to 63 packets: the callbacks of the other keyboard get each message once and in
order, and the payload of each system exclusive message is whole. -/
theorem usb_delivered {c : Callbacks} (hdistinct : Distinct midiEvent) (hsysex : c.sysex = true)
    {messages : List Message} (hfits : ∀ message ∈ messages, message.Fits)
    {batches : List (List EventPacket)}
    (hsent : batches.flatten = messages.flatMap (Message.packets midiEvent))
    (hbatch : ∀ packets ∈ batches, packets.length ≤ 63) :
    ∃ groups, (run c midiDeviceInit (receiving midiEvent batches)).flatten = groups.flatten ∧
      List.Forall₂ (Delivered c) messages groups := by
  obtain ⟨groups, hgroups, hall⟩ := hears_receiving hdistinct hsysex hfits hsent hbatch
  refine ⟨groups, hgroups, ?_⟩
  rw [List.forall₂_map_left_iff] at hall
  exact hall.imp fun _ _ => delivered_of_hears

end

/-- A note and a payload of eight bytes, in two batches. -/
theorem noteAndPayload_delivered :
    let midiEvent (command : BitVec 8) : BitVec 8 := command >>> 4
    let c : Callbacks := ⟨fun _ => true, true, false, false⟩
    let messages : List Message :=
      [.send (.voice .noteon 0 60 100), .sysex [0xFF, 0, 0x80, 1, 2, 3, 0x84, 0x95]]
    let packets := messages.flatMap (Message.packets midiEvent)
    ∃ groups, (run c midiDeviceInit (receiving midiEvent [packets.take 2, packets.drop 2])).flatten =
        groups.flatten ∧ List.Forall₂ (Delivered c) messages groups :=
  usb_delivered (by unfold Distinct; decide) rfl
    (by
      intro message hmem
      rcases List.mem_cons.mp hmem with rfl | hmem
      · trivial
      · rw [List.mem_singleton.mp hmem]
        change _ < 65536
        decide)
    (by rw [List.flatten_cons, List.flatten_singleton, List.take_append_drop])
    (List.forall_mem_cons.mpr ⟨by decide, List.forall_mem_singleton.mpr (by decide)⟩)

end Qmk.Midi.Device
