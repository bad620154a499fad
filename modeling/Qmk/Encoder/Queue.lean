import Mathlib.Algebra.Group.Nat.Defs
import Qmk.Lib.Ring

/-!
# Queues of encoder events

The queue functions of `encoder.c`, and the bytes of a queue over which the two halves
of a keyboard compute a checksum.
-/

namespace Qmk.Encoder

open Qmk.Lib

structure Config where
  /-- `MAX_QUEUED_ENCODER_EVENTS`. -/
  maxQueued : Nat
  maxQueued_pos : 0 < maxQueued
  /-- `FORCED_SYNC_THROTTLE_MS`. -/
  forcedSyncThrottleMs : BitVec 32
  /-- `crc8`, which is declared weak. -/
  crc8 : List (BitVec 8) → BitVec 8

/-- `encoder_event_t`. -/
structure EncoderEvent where
  index : BitVec 7
  clockwise : Bool
  deriving DecidableEq, Inhabited

/-- `encoder_events_t`. -/
structure EncoderEvents (cfg : Config) extends Ring EncoderEvent cfg.maxQueued where
  enqueued : BitVec 8
  dequeued : BitVec 8

variable {cfg : Config}

/-- `memset(&encoder_events, 0, sizeof(encoder_events))`. -/
def EncoderEvents.zero (cfg : Config) : EncoderEvents cfg where
  head := 0
  tail := 0
  slots := Vector.replicate cfg.maxQueued ⟨0, false⟩
  enqueued := 0
  dequeued := 0

def encoderQueueFullAdvanced (events : EncoderEvents cfg) : Bool := events.toRing.isFull

def encoderQueueEmptyAdvanced (events : EncoderEvents cfg) : Bool := events.toRing.isEmpty

def encoderQueueEventAdvanced (events : EncoderEvents cfg) (event : EncoderEvent) :
    Option (EncoderEvents cfg) :=
  if encoderQueueFullAdvanced events = true then none
  else some { events.toRing.push event with
    enqueued := events.enqueued + 1, dequeued := events.dequeued }

def encoderDequeueEventAdvanced (events : EncoderEvents cfg) :
    Option (EncoderEvent × EncoderEvents cfg) :=
  if encoderQueueEmptyAdvanced events = true then none
  else some (events.toRing.slot events.tail, { events.toRing.advance with
    enqueued := events.enqueued, dequeued := events.dequeued + 1 })

def encoderQueueDrain (events : EncoderEvents cfg) : EncoderEvents cfg :=
  { events.toRing.clear with enqueued := events.enqueued, dequeued := events.enqueued }

/-! ## The checksum -/

/-- The byte of the bit fields. -/
def EncoderEvent.byte (event : EncoderEvent) : BitVec 8 :=
  (if event.clockwise = true then 1#1 else 0#1) ++ event.index

def EncoderEvents.bytes (events : EncoderEvents cfg) : List (BitVec 8) :=
  [events.enqueued, events.dequeued, BitVec.ofNat 8 events.head, BitVec.ofNat 8 events.tail]
    ++ events.slots.toList.map EncoderEvent.byte

def crc8Bit (crc : BitVec 8) : BitVec 8 :=
  if crc &&& 0x80#8 ≠ 0#8 then (crc <<< 1) ^^^ 0x31#8 else crc <<< 1

/-- `crc8` of `crc.c` without `CRC8_USE_TABLE`. -/
def crc8 (data : List (BitVec 8)) : BitVec 8 :=
  data.foldl (fun crc byte => Nat.repeat crc8Bit 8 (crc ^^^ byte)) 0xff#8

def EncoderEvents.crc (events : EncoderEvents cfg) : BitVec 8 := cfg.crc8 events.bytes

/-! ## What the functions do to the queue -/

abbrev EncoderEvents.WF (events : EncoderEvents cfg) : Prop := events.toRing.WF

abbrev EncoderEvents.toList (events : EncoderEvents cfg) : List EncoderEvent :=
  events.toRing.toList

theorem wf_zero : (EncoderEvents.zero cfg).WF := ⟨cfg.maxQueued_pos, cfg.maxQueued_pos⟩

@[simp] theorem toList_zero : (EncoderEvents.zero cfg).toList = [] :=
  (Ring.toList_eq_nil wf_zero).mpr rfl

theorem queueEvent_cases {events events' : EncoderEvents cfg} {event : EncoderEvent}
    (hwf : events.WF) (h : encoderQueueEventAdvanced events event = some events') :
    events'.WF ∧ events'.toList = events.toList ++ [event] ∧
      events'.head = (events.head + 1) % cfg.maxQueued := by
  unfold encoderQueueEventAdvanced at h
  split at h
  · contradiction
  · rename_i hroom
    cases h
    exact ⟨hwf.push event, Ring.toList_push hwf (Bool.not_eq_true _ ▸ hroom) event, rfl⟩

theorem queueEvent_isSome {events : EncoderEvents cfg} (hwf : events.WF)
    (hroom : events.toList.length + 1 < cfg.maxQueued) (event : EncoderEvent) :
    ∃ events', encoderQueueEventAdvanced events event = some events' := by
  have hfull : ¬encoderQueueFullAdvanced events = true := by
    rw [encoderQueueFullAdvanced, Ring.isFull_iff hwf, ← Ring.length_toList]
    exact Nat.ne_of_lt hroom
  exact ⟨_, if_neg hfull⟩

theorem dequeueEvent_none {events : EncoderEvents cfg} (hwf : events.WF) :
    encoderDequeueEventAdvanced events = none ↔ events.toList = [] := by
  rw [Ring.toList_eq_nil hwf]
  unfold encoderDequeueEventAdvanced encoderQueueEmptyAdvanced
  split <;> simp_all

theorem dequeueEvent_cases {events events' : EncoderEvents cfg} {event : EncoderEvent}
    (hwf : events.WF) (h : encoderDequeueEventAdvanced events = some (event, events')) :
    events'.WF ∧ events.toList = event :: events'.toList ∧ events'.head = events.head := by
  unfold encoderDequeueEventAdvanced at h
  split at h
  · contradiction
  · rename_i hsome
    have hne : events.head ≠ events.tail := by
      simpa [encoderQueueEmptyAdvanced, Ring.isEmpty] using hsome
    cases h
    exact ⟨hwf.advance, Ring.toList_advance hwf hne, rfl⟩

theorem queueDrain_cases {events : EncoderEvents cfg} (hwf : events.WF) :
    (encoderQueueDrain events).WF ∧ (encoderQueueDrain events).toList = [] :=
  ⟨hwf.clear, Ring.toList_clear _⟩

/-! ## Queueing several events -/

/-- The second queue is the first one with the events added. -/
inductive Queued : EncoderEvents cfg → List EncoderEvent → EncoderEvents cfg → Prop
  | refl (events : EncoderEvents cfg) : Queued events [] events
  | step {events events' events'' : EncoderEvents cfg} {added : List EncoderEvent}
      {event : EncoderEvent} (rest : Queued events added events')
      (last : encoderQueueEventAdvanced events' event = some events'') :
      Queued events (added ++ [event]) events''

namespace Queued

variable {first second third : EncoderEvents cfg} {added more : List EncoderEvent}

theorem trans (h : Queued first added second) (h' : Queued second more third) :
    Queued first (added ++ more) third := by
  induction h' with
  | refl => simpa using h
  | step rest last ih =>
      rw [← List.append_assoc]
      exact .step ih last

theorem cases (h : Queued first added second) (hwf : first.WF) :
    second.WF ∧ second.toList = first.toList ++ added ∧
      second.head = (first.head + added.length) % cfg.maxQueued := by
  induction h with
  | refl =>
      refine ⟨hwf, (List.append_nil _).symm, ?_⟩
      simpa using (Nat.mod_eq_of_lt hwf.1).symm
  | step rest last ih =>
      obtain ⟨hwf', hlist, hhead⟩ := ih
      obtain ⟨hwf'', hlast, hnext⟩ := queueEvent_cases hwf' last
      refine ⟨hwf'', by simp [hlast, hlist], ?_⟩
      rw [hnext, hhead, Nat.mod_add_mod, List.length_append, List.length_singleton,
        Nat.add_assoc]

/-- Too few events fit into a queue for its head to come round to the same slot. -/
theorem eq_of_head_eq (h : Queued first added second) (hwf : first.WF)
    (hhead : second.head = first.head) : added = [] ∧ second = first := by
  obtain ⟨hwf', hlist, hadded⟩ := h.cases hwf
  have hlt : added.length < cfg.maxQueued := by
    have hcount : second.toList.length < cfg.maxQueued := by
      rw [Ring.length_toList]
      exact Ring.count_lt hwf'
    rw [hlist, List.length_append] at hcount
    omega
  have hnil : added.length = 0 := by
    have hbound := hwf.1
    rw [hadded, Ring.wrap _ (by omega)] at hhead
    split at hhead <;> omega
  have hnil := List.length_eq_zero_iff.mp hnil
  subst hnil
  refine ⟨rfl, ?_⟩
  generalize hl : ([] : List EncoderEvent) = l at h
  cases h with
  | refl => rfl
  | step rest last => simp at hl

end Queued

end Qmk.Encoder
