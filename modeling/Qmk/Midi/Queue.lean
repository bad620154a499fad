import Qmk.Lib.Ring
import Qmk.Midi.Parsing

/-!
# The input queue

`midi_device_input` puts bytes into the queue of `bytequeue.c`, and `midi_device_process` takes
them out and parses them. What is heard over a run is what a queue of 191 bytes lets through.
-/

namespace Qmk.Midi.Device

open Qmk.Lib

/-- `byteQueue_t`: `head` is `end`, and `tail` is `start`. -/
abbrev Queue := Ring (BitVec 8) 192

def bytequeueInit : Queue := ⟨0, 0, .replicate 192 0⟩

def bytequeueEnqueue (queue : Queue) (item : BitVec 8) : Bool × Queue :=
  if queue.isFull then (false, queue) else (true, queue.push item)

def bytequeueLength (queue : Queue) : Nat :=
  if queue.head ≥ queue.tail then queue.head - queue.tail else (192 - queue.tail) + queue.head

def bytequeueGet (queue : Queue) (index : Nat) : BitVec 8 :=
  queue.slot ((queue.tail + index) % 192)

def bytequeueRemove (queue : Queue) (numToRemove : Nat) : Queue :=
  { queue with tail := (queue.tail + numToRemove) % 192 }

structure MidiDevice where
  parser : Parser
  inputQueue : Queue

def midiDeviceInit : MidiDevice := ⟨.initial, bytequeueInit⟩

def midiDeviceInput (d : MidiDevice) (input : List (BitVec 8)) : MidiDevice :=
  { d with inputQueue := input.foldl (fun queue byte => (bytequeueEnqueue queue byte).2) d.inputQueue }

/-- The loop of `midi_device_process`. -/
def drain (c : Callbacks) : Nat → MidiDevice → List Event × MidiDevice
  | 0, d => ([], d)
  | len + 1, d =>
      let (events, parser) := midiProcessByte c d.parser (bytequeueGet d.inputQueue 0)
      let (rest, d) := drain c len ⟨parser, bytequeueRemove d.inputQueue 1⟩
      (events ++ rest, d)

/-- `midi_device_process`, where `preInput` is what the callback before it puts into the queue. -/
def midiDeviceProcess (c : Callbacks) (preInput : List (List (BitVec 8))) (d : MidiDevice) :
    List Event × MidiDevice :=
  let d := preInput.foldl midiDeviceInput d
  drain c (bytequeueLength d.inputQueue) d

inductive Op
  | input (bytes : List (BitVec 8))
  | process (preInput : List (List (BitVec 8)))

def step (c : Callbacks) (d : MidiDevice) : Op → List Event × MidiDevice
  | .input bytes => ([], midiDeviceInput d bytes)
  | .process preInput => midiDeviceProcess c preInput d

/-- The events of every call of a run. -/
def run (c : Callbacks) : MidiDevice → List Op → List (List Event)
  | _, [] => []
  | d, op :: ops => (step c d op).1 :: run c (step c d op).2 ops

/-! ## The queue that lets 191 bytes through -/

/-- A parser behind a queue. -/
structure Line where
  parser : Parser
  pending : List (BitVec 8)

def Line.accept (l : Line) (bytes : List (BitVec 8)) : Line :=
  { l with pending := (l.pending ++ bytes).take 191 }

def Line.step (c : Callbacks) (l : Line) : Op → List Event × Line
  | .input bytes => ([], l.accept bytes)
  | .process preInput =>
      let l := l.accept preInput.flatten
      (heard c l.parser l.pending, ⟨parsed c l.parser l.pending, []⟩)

def Line.run (c : Callbacks) : Line → List Op → List (List Event)
  | _, [] => []
  | l, op :: ops => (Line.step c l op).1 :: Line.run c (Line.step c l op).2 ops

/-- The bytes that a run of a line hands to the parser. -/
def through : List (BitVec 8) → List Op → List (BitVec 8)
  | _, [] => []
  | pending, .input bytes :: ops => through ((pending ++ bytes).take 191) ops
  | pending, .process preInput :: ops =>
      (pending ++ preInput.flatten).take 191 ++ through [] ops

/-- The device holds the bytes of a line. -/
structure Holds (d : MidiDevice) (l : Line) : Prop where
  wf : d.inputQueue.WF
  parser : d.parser = l.parser
  pending : d.inputQueue.toList = l.pending

variable {c : Callbacks} {d : MidiDevice} {l : Line}

theorem bytequeueLength_eq {queue : Queue} (h : queue.WF) :
    bytequeueLength queue = queue.count := by
  obtain ⟨-, htail⟩ := h
  unfold bytequeueLength Ring.count
  split <;> omega

theorem bytequeueGet_zero {queue : Queue} (h : queue.WF) :
    bytequeueGet queue 0 = queue.slot queue.tail :=
  congrArg queue.slot (Nat.mod_eq_of_lt h.2)

theorem bytequeueEnqueue_spec {queue : Queue} (h : queue.WF) (byte : BitVec 8) :
    (bytequeueEnqueue queue byte).2.WF ∧
      (bytequeueEnqueue queue byte).2.toList = (queue.toList ++ [byte]).take 191 := by
  have hcount := Ring.count_lt h
  have hlength := Ring.length_toList queue
  unfold bytequeueEnqueue
  cases hfull : queue.isFull with
  | true =>
      have hcount := (Ring.isFull_iff h).mp hfull
      rw [if_pos rfl, List.take_append_of_le_length (by omega), List.take_of_length_le (by omega)]
      exact ⟨h, rfl⟩
  | false =>
      have hroom : queue.count + 1 ≠ 192 := fun heq => by
        rw [(Ring.isFull_iff h).mpr heq] at hfull
        cases hfull
      rw [if_neg (by decide)]
      refine ⟨h.push byte, ?_⟩
      rw [Ring.toList_push h hfull, List.take_of_length_le]
      rw [List.length_append, List.length_singleton]
      omega

theorem Line.accept_nil (h : l.pending.length ≤ 191) : l.accept [] = l := by
  rw [Line.accept, List.append_nil, List.take_of_length_le h]

theorem take_take_append (n : Nat) (xs ys : List (BitVec 8)) :
    (xs.take n ++ ys).take n = (xs ++ ys).take n := by
  rw [List.take_append, List.take_take, Nat.min_self, List.length_take, List.take_append]
  congr 2
  omega

theorem Line.accept_append (first rest : List (BitVec 8)) :
    (l.accept first).accept rest = l.accept (first ++ rest) := by
  unfold Line.accept
  rw [take_take_append, List.append_assoc]

theorem Holds.length_le (h : Holds d l) : l.pending.length ≤ 191 := by
  have hcount := Ring.count_lt h.wf
  have hlength := Ring.length_toList d.inputQueue
  rw [h.pending] at hlength
  omega

/-- The bytes that do not fit are lost, and they alone. -/
theorem Holds.input (h : Holds d l) (bytes : List (BitVec 8)) :
    Holds (midiDeviceInput d bytes) (l.accept bytes) := by
  induction bytes generalizing d l with
  | nil =>
      rw [Line.accept_nil h.length_le]
      exact h
  | cons byte bytes ih =>
      obtain ⟨hwf, hlist⟩ := bytequeueEnqueue_spec h.wf byte
      have hone : Holds { d with inputQueue := (bytequeueEnqueue d.inputQueue byte).2 }
          (l.accept [byte]) := by
        refine ⟨hwf, h.parser, ?_⟩
        rw [hlist, h.pending]
        rfl
      have hrest := ih hone
      rw [Line.accept_append] at hrest
      exact hrest

theorem Holds.inputs (h : Holds d l) (inputs : List (List (BitVec 8))) :
    Holds (inputs.foldl midiDeviceInput d) (l.accept inputs.flatten) := by
  induction inputs generalizing d l with
  | nil =>
      rw [List.flatten_nil, Line.accept_nil h.length_le]
      exact h
  | cons bytes inputs ih =>
      rw [List.flatten_cons, ← Line.accept_append]
      exact ih (h.input bytes)

/-- The loop empties the queue, and parses its bytes in their order. -/
theorem Holds.drain (h : Holds d l) :
    (drain c d.inputQueue.count d).1 = heard c l.parser l.pending ∧
      Holds (drain c d.inputQueue.count d).2 ⟨parsed c l.parser l.pending, []⟩ := by
  obtain ⟨parser, pending⟩ := l
  induction pending generalizing d parser with
  | nil =>
      have hcount := Ring.length_toList d.inputQueue
      rw [h.pending] at hcount
      rw [← hcount]
      exact ⟨rfl, h⟩
  | cons byte pending ih =>
      have hlist := h.pending
      have hsome : d.inputQueue.head ≠ d.inputQueue.tail := by
        intro heq
        have hzero := (Ring.count_eq_zero h.wf).mpr heq
        rw [← Ring.length_toList, h.pending] at hzero
        cases hzero
      rw [Ring.toList_advance h.wf hsome] at hlist
      obtain ⟨hbyte, hrest⟩ := List.cons.inj hlist
      have hnext : Holds ⟨(midiProcessByte c d.parser byte).2, bytequeueRemove d.inputQueue 1⟩
          ⟨(midiProcessByte c parser byte).2, pending⟩ :=
        ⟨h.wf.advance, by rw [h.parser], hrest⟩
      obtain ⟨hevents, hholds⟩ := ih _ hnext
      rw [Ring.count_advance h.wf hsome, Device.drain, bytequeueGet_zero h.wf, hbyte]
      refine ⟨?_, hholds⟩
      rw [heard_cons, ← hevents, h.parser]
      rfl

theorem Holds.step (h : Holds d l) (op : Op) :
    (step c d op).1 = (Line.step c l op).1 ∧ Holds (step c d op).2 (Line.step c l op).2 := by
  cases op with
  | input bytes => exact ⟨rfl, h.input bytes⟩
  | process preInput =>
      rw [Device.step, midiDeviceProcess, bytequeueLength_eq (h.inputs preInput).wf]
      exact (h.inputs preInput).drain

theorem Holds.run (h : Holds d l) (ops : List Op) : run c d ops = Line.run c l ops := by
  induction ops generalizing d l with
  | nil => rfl
  | cons op ops ih =>
      obtain ⟨hevents, hnext⟩ := h.step (c := c) op
      rw [Device.run, Line.run, hevents, ih hnext]

theorem holds_init : Holds midiDeviceInit ⟨.initial, []⟩ :=
  ⟨⟨by decide, by decide⟩, rfl, rfl⟩

theorem Line.flatten_run (l : Line) (ops : List Op) :
    (Line.run c l ops).flatten = heard c l.parser (through l.pending ops) := by
  induction ops generalizing l with
  | nil => rfl
  | cons op ops ih =>
      rw [Line.run, List.flatten_cons, ih]
      cases op with
      | input bytes => rfl
      | process preInput =>
          rw [through, heard_append]
          rfl

theorem heard_run (c : Callbacks) (ops : List Op) :
    (run c midiDeviceInit ops).flatten = heard c .initial (through [] ops) := by
  rw [holds_init.run, Line.flatten_run]

/-- Each call of a run calls back what the parser makes of the bytes that a queue of 191 bytes let
through, once and in order; bytes are lost where the queue is full, and nowhere else. -/
theorem run_eq_line (c : Callbacks) (ops : List Op) :
    run c midiDeviceInit ops = Line.run c ⟨.initial, []⟩ ops ∧
      (run c midiDeviceInit ops).flatten = heard c .initial (through [] ops) :=
  ⟨holds_init.run ops, heard_run c ops⟩

end Qmk.Midi.Device
