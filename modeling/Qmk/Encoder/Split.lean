import Qmk.Encoder.Queue
import Qmk.Lib.Run

/-!
# Encoder events of a split keyboard

The slave publishes its queue with a checksum; the master reads the checksum, reads the
queue where the checksum differs from that of its own copy, queues the events, and has
the slave drain its queue.  Each transaction is a step of its own, so the slave may do
anything in between.
-/

namespace Qmk.Encoder

open Qmk.Lib

structure Slave (cfg : Config) where
  /-- `encoder_events`. -/
  own : EncoderEvents cfg
  signalQueueDrain : Bool
  /-- `split_shmem->encoders.events`. -/
  published : EncoderEvents cfg
  /-- `split_shmem->encoders.checksum`. -/
  checksum : BitVec 8

/-- Where the master is in `encoder_handlers_master`. -/
inductive Phase (cfg : Config)
  | idle
  /-- `curr_checksum`, and the queue that the slave had published with it. -/
  | checksumRead (currChecksum : BitVec 8) (image : EncoderEvents cfg)
  | dataRead
  /-- Events were queued, and the queue is to be drained. -/
  | actioned

structure Master (cfg : Config) where
  /-- `encoder_events`. -/
  own : EncoderEvents cfg
  /-- `split_shmem->encoders.events`. -/
  copy : EncoderEvents cfg
  /-- `split_shmem->encoders.checksum`. -/
  checksum : BitVec 8
  lastUpdate : BitVec 32
  lastChecksum : BitVec 8
  phase : Phase cfg

structure State (cfg : Config) where
  slave : Slave cfg
  master : Master cfg
  /-- The events enqueued on the slave. -/
  sent : List EncoderEvent
  /-- The events of the slave enqueued on the master. -/
  received : List EncoderEvent

def State.initial (cfg : Config) : State cfg where
  slave := ⟨.zero cfg, false, .zero cfg, 0⟩
  master := ⟨.zero cfg, .zero cfg, 0, 0, 0, .idle⟩
  sent := []
  received := []

inductive Input (cfg : Config)
  /-- An event is enqueued on the slave. -/
  | queueEvent (event : EncoderEvent)
  /-- `encoder_task` on the slave, up to `encoder_driver_task`. -/
  | encoderTask
  /-- `encoder_handlers_slave`. -/
  | publish
  /-- `GET_ENCODERS_CHECKSUM`. -/
  | readChecksum (okay : Bool)
  /-- `GET_ENCODERS_DATA` where it is called for; a transaction that fails leaves
  anything in the buffer. -/
  | readData (now : BitVec 32) (okay : Bool) (leftover : EncoderEvents cfg)
  /-- The events of the copy are queued on the master. -/
  | takeEvents
  /-- `CMD_ENCODER_DRAIN`, which may get lost. -/
  | drain (arrives : Bool)
  /-- An event of the master's own encoders. -/
  | masterQueue (event : EncoderEvent)
  /-- One round of `encoder_handle_queue` on the master. -/
  | masterHandle

variable {cfg : Config}

def queueEvent (event : EncoderEvent) (s : State cfg) : State cfg :=
  match encoderQueueEventAdvanced s.slave.own event with
  | none => s
  | some own => { s with slave := { s.slave with own }, sent := s.sent ++ [event] }

def encoderTask (s : State cfg) : State cfg :=
  if s.slave.signalQueueDrain = true then
    { s with
      slave := { s.slave with signalQueueDrain := false, own := encoderQueueDrain s.slave.own } }
  else s

def publish (s : State cfg) : State cfg :=
  { s with slave := { s.slave with published := s.slave.own, checksum := s.slave.own.crc } }

def readChecksum (okay : Bool) (s : State cfg) : State cfg :=
  match s.master.phase with
  | .idle =>
      if okay = true then
        { s with
          master :=
            { s.master with
              checksum := s.slave.checksum
              phase := .checksumRead s.slave.checksum s.slave.published } }
      else s
  | _ => s

/-- `timer_elapsed32(*last_update) >= FORCED_SYNC_THROTTLE_MS || curr_checksum !=
crc8(equiv_shmem, length)`. -/
def Master.rereads (m : Master cfg) (now : BitVec 32) (currChecksum : BitVec 8) : Prop :=
  cfg.forcedSyncThrottleMs ≤ now - m.lastUpdate ∨ currChecksum ≠ m.copy.crc

instance (m : Master cfg) (now : BitVec 32) (currChecksum : BitVec 8) :
    Decidable (m.rereads now currChecksum) := inferInstanceAs (Decidable (_ ∨ _))

def readData (now : BitVec 32) (okay : Bool) (leftover : EncoderEvents cfg)
    (s : State cfg) : State cfg :=
  match s.master.phase with
  | .checksumRead currChecksum _ =>
      if s.master.rereads now currChecksum then
        if okay = true then
          if currChecksum = s.slave.published.crc then
            { s with
              master :=
                { s.master with copy := s.slave.published, lastUpdate := now, phase := .dataRead } }
          else { s with master := { s.master with copy := s.slave.published, phase := .idle } }
        else { s with master := { s.master with copy := leftover, phase := .idle } }
      else { s with master := { s.master with phase := .dataRead } }
  | _ => s

/-- The variables of the loop in `encoder_handlers_master`. -/
structure Taking (cfg : Config) where
  copy : EncoderEvents cfg
  own : EncoderEvents cfg
  taken : List EncoderEvent
  okay : Bool
  actioned : Bool

/-- The loop, which ends at the latest when the master's queue is full. -/
def takeLoop : Nat → Taking cfg → Taking cfg
  | 0, t => t
  | n + 1, t =>
      if t.okay = true then
        match encoderDequeueEventAdvanced t.copy with
        | none => t
        | some (event, copy) =>
            match encoderQueueEventAdvanced t.own event with
            | none => takeLoop n { t with copy, okay := false, actioned := true }
            | some own =>
                takeLoop n { t with copy, own, taken := t.taken ++ [event], actioned := true }
      else t

def takeEvents (s : State cfg) : State cfg :=
  match s.master.phase with
  | .dataRead =>
      if s.master.lastChecksum ≠ s.master.checksum then
        let t := takeLoop cfg.maxQueued ⟨s.master.copy, s.master.own, [], true, false⟩
        { s with
          received := s.received ++ t.taken
          master :=
            { s.master with
              copy := t.copy
              own := t.own
              lastChecksum :=
                if t.actioned = true then s.master.lastChecksum else s.master.checksum
              phase := if t.actioned = true then .actioned else .idle } }
      else { s with master := { s.master with phase := .idle } }
  | _ => s

def drain (arrives : Bool) (s : State cfg) : State cfg :=
  match s.master.phase with
  | .actioned =>
      { s with
        slave := { s.slave with signalQueueDrain := s.slave.signalQueueDrain || arrives }
        master := { s.master with lastChecksum := s.master.checksum, phase := .idle } }
  | _ => s

def masterQueue (event : EncoderEvent) (s : State cfg) : State cfg :=
  match encoderQueueEventAdvanced s.master.own event with
  | none => s
  | some own => { s with master := { s.master with own } }

def masterHandle (s : State cfg) : State cfg :=
  match encoderDequeueEventAdvanced s.master.own with
  | none => s
  | some (_, own) => { s with master := { s.master with own } }

def step (s : State cfg) : Input cfg → State cfg
  | .queueEvent event => queueEvent event s
  | .encoderTask => encoderTask s
  | .publish => publish s
  | .readChecksum okay => readChecksum okay s
  | .readData now okay leftover => readData now okay leftover s
  | .takeEvents => takeEvents s
  | .drain arrives => drain arrives s
  | .masterQueue event => masterQueue event s
  | .masterHandle => masterHandle s

/-! ## What is to be shown, and when -/

/-- Each event of the slave was received once and in order, or waits at the end of the
slave's queue. -/
def Delivered (s : State cfg) : Prop :=
  ∃ waiting, waiting <:+ s.slave.own.toList ∧ s.sent = s.received ++ waiting

/-- At most `MAX_QUEUED_ENCODER_EVENTS - 1` events are outstanding on the slave. -/
def Fits (s : State cfg) : Input cfg → Prop
  | .queueEvent _ => encoderQueueFullAdvanced s.slave.own = false
  | _ => True

/-- No event is queued on the slave between the reading of its queue and the draining,
which comes about; the master has room for what it reads; and equal checksums stand for
equal queues where the master relies on that. -/
def Undisturbed (s : State cfg) : Input cfg → Prop
  | .queueEvent _ => s.slave.signalQueueDrain = false
  | .readData now _ _ => ∀ currChecksum image,
      s.master.phase = .checksumRead currChecksum image → s.master.lastChecksum ≠ currChecksum →
      ¬s.master.rereads now currChecksum → s.master.copy = image
  | .takeEvents => s.master.phase = .dataRead → s.master.lastChecksum ≠ s.master.checksum →
      s.master.copy.toList.length + s.master.own.toList.length < cfg.maxQueued
  | .drain arrives => s.master.phase = .actioned →
      arrives = true ∧ s.slave.own.head = s.master.copy.head
  | _ => True

/-! ## The invariant -/

/-- From the image, the queueing of `added` led to the queue of the slave by way of the
queue that it has published. -/
def Descends (image : EncoderEvents cfg) (slave : Slave cfg) (added : List EncoderEvent) :
    Prop :=
  slave.signalQueueDrain = false ∧ slave.checksum = slave.published.crc ∧ image.WF ∧
    ∃ early late, added = early ++ late ∧ Queued image early slave.published ∧
      Queued slave.published late slave.own

/-- Nothing in the slave's queue has been received, or all of it has and is to be
drained. -/
def Ledger (s : State cfg) : Prop :=
  (s.slave.signalQueueDrain = false ∧ s.sent = s.received ++ s.slave.own.toList) ∨
    (s.slave.signalQueueDrain = true ∧ s.sent = s.received ∧
      s.slave.own.crc = s.master.lastChecksum ∧ s.slave.checksum = s.master.lastChecksum)

/-- What the slave has published is new to the master only if none of it has been
received. -/
def Current (s : State cfg) : Prop :=
  s.slave.checksum = s.master.lastChecksum ∨
    ∃ added, Descends s.slave.published s.slave added

/-- The image that a checksum stands for is new to the master only if none of it has
been received. -/
def NewImage (s : State cfg) (checksum : BitVec 8) (image : EncoderEvents cfg) : Prop :=
  checksum = s.master.lastChecksum ∨
    image.crc = checksum ∧ ∃ added, Descends image s.slave added

/-- The events of an image have been received and are to be drained. -/
def Received (s : State cfg) : Prop :=
  ∃ image added, image.crc = s.master.checksum ∧ image.head = s.master.copy.head ∧
    Descends image s.slave added ∧ s.sent = s.received ++ added

def PhaseInv (s : State cfg) : Phase cfg → Prop
  | .idle => Ledger s ∧ Current s
  | .checksumRead currChecksum image => (Ledger s ∧ Current s) ∧
      s.master.checksum = currChecksum ∧ NewImage s currChecksum image
  | .dataRead => (Ledger s ∧ Current s) ∧ NewImage s s.master.checksum s.master.copy
  | .actioned => Received s

structure Inv (s : State cfg) : Prop where
  slave : s.slave.own.WF
  master : s.master.own.WF
  phase : PhaseInv s s.master.phase

theorem inv_initial : Inv (State.initial cfg) where
  slave := wf_zero
  master := wf_zero
  phase := ⟨.inl ⟨rfl, by simp [State.initial]⟩, .inl rfl⟩

namespace Descends

variable {image : EncoderEvents cfg} {slave : Slave cfg} {added : List EncoderEvent}

theorem queued (h : Descends image slave added) : Queued image added slave.own := by
  obtain ⟨-, -, -, early, late, rfl, hearly, hlate⟩ := h
  exact hearly.trans hlate

theorem published (h : Descends image slave added) :
    ∃ late, Descends slave.published slave late := by
  obtain ⟨hsignal, hchecksum, hwf, early, late, -, hearly, hlate⟩ := h
  exact ⟨late, hsignal, hchecksum, (hearly.cases hwf).1, [], late, rfl, .refl _, hlate⟩

theorem queueEvent (h : Descends image slave added) {event : EncoderEvent}
    {own : EncoderEvents cfg} (hown : encoderQueueEventAdvanced slave.own event = some own) :
    Descends image { slave with own } (added ++ [event]) := by
  obtain ⟨hsignal, hchecksum, hwf, early, late, rfl, hearly, hlate⟩ := h
  exact ⟨hsignal, hchecksum, hwf, early, late ++ [event], List.append_assoc .., hearly,
    hlate.step hown⟩

theorem publish (h : Descends image slave added) :
    Descends image { slave with published := slave.own, checksum := slave.own.crc } added :=
  ⟨h.1, rfl, h.2.2.1, added, [], (List.append_nil _).symm, h.queued, .refl _⟩

theorem eq_of_head_eq (h : Descends image slave added)
    (hhead : slave.own.head = image.head) :
    added = [] ∧ slave.own = image ∧ slave.published = image := by
  obtain ⟨hadded, hown⟩ := h.queued.eq_of_head_eq h.2.2.1 hhead
  obtain ⟨-, -, hwf, early, late, hsplit, hearly, -⟩ := h
  have hnone : early = [] := (List.append_eq_nil_iff.mp (hsplit.symm.trans hadded)).1
  subst hnone
  have hsame : slave.published.head = image.head := by
    rw [(hearly.cases hwf).2.2, List.length_nil, Nat.add_zero, Nat.mod_eq_of_lt hwf.1]
  exact ⟨hadded, hown, (hearly.eq_of_head_eq hwf hsame).2⟩

end Descends

/-! ## Steps of the slave -/

/-- What a step of the slave may do, where it adds events and drains none that the
master has not received. -/
structure SlaveStep (s s' : State cfg) (more : List EncoderEvent) : Prop where
  master : s'.master = s.master
  received : s'.received = s.received
  sent : s'.sent = s.sent ++ more
  wf : s'.slave.own.WF
  descends : ∀ image added, Descends image s.slave added →
    Descends image s'.slave (added ++ more)
  settled : Ledger s ∧ Current s → Ledger s' ∧ Current s'

theorem SlaveStep.inv {s s' : State cfg} {more : List EncoderEvent}
    (h : SlaveStep s s' more) (hs : Inv s) : Inv s' := by
  have hnew (checksum : BitVec 8) (image : EncoderEvents cfg)
      (himage : NewImage s checksum image) : NewImage s' checksum image := by
    unfold NewImage
    rw [h.master]
    rcases himage with heq | ⟨hcrc, added, hdescends⟩
    · exact .inl heq
    · exact .inr ⟨hcrc, _, h.descends image added hdescends⟩
  refine ⟨h.wf, h.master ▸ hs.master, ?_⟩
  have hphase := hs.phase
  rw [h.master]
  cases hat : s.master.phase with
  | idle =>
      rw [hat] at hphase
      exact h.settled hphase
  | checksumRead currChecksum image =>
      rw [hat] at hphase
      obtain ⟨hsettled, hchecksum, himage⟩ := hphase
      exact ⟨h.settled hsettled, h.master ▸ hchecksum, hnew _ _ himage⟩
  | dataRead =>
      rw [hat] at hphase
      obtain ⟨hsettled, himage⟩ := hphase
      exact ⟨h.settled hsettled, h.master ▸ hnew _ _ himage⟩
  | actioned =>
      rw [hat] at hphase
      obtain ⟨image, added, hcrc, hhead, hdescends, hsent⟩ := hphase
      refine ⟨image, added ++ more, h.master ▸ hcrc, h.master ▸ hhead,
        h.descends image added hdescends, ?_⟩
      rw [h.sent, h.received, hsent, List.append_assoc]

theorem queueEvent_slaveStep {s : State cfg} (hwf : s.slave.own.WF)
    (hsignal : s.slave.signalQueueDrain = false) (event : EncoderEvent) :
    ∃ more, SlaveStep s (queueEvent event s) more := by
  unfold queueEvent
  cases hown : encoderQueueEventAdvanced s.slave.own event with
  | none =>
      exact ⟨[], rfl, rfl, (List.append_nil _).symm, hwf,
        fun image added h => (List.append_nil added).symm ▸ h, id⟩
  | some own =>
      obtain ⟨hwf', hlist, -⟩ := queueEvent_cases hwf hown
      refine ⟨[event], rfl, rfl, rfl, hwf', fun image added h => h.queueEvent hown, ?_⟩
      rintro ⟨hledger, hcurrent⟩
      constructor
      · rcases hledger with ⟨-, hsent⟩ | ⟨htrue, -⟩
        · exact .inl ⟨hsignal, by rw [hlist, ← List.append_assoc, ← hsent]⟩
        · rw [hsignal] at htrue
          contradiction
      · rcases hcurrent with heq | ⟨added, hdescends⟩
        · exact .inl heq
        · exact .inr ⟨_, hdescends.queueEvent hown⟩

theorem encoderTask_slaveStep {s : State cfg} (hwf : s.slave.own.WF) :
    SlaveStep s (encoderTask s) [] := by
  unfold encoderTask
  split
  · rename_i htrue
    obtain ⟨hwf', hnil⟩ := queueDrain_cases hwf
    refine ⟨rfl, rfl, (List.append_nil _).symm, hwf', ?_, ?_⟩
    · intro image added h
      have hfalse := h.1
      rw [htrue] at hfalse
      contradiction
    · rintro ⟨⟨hfalse, -⟩ | ⟨-, hsent, -, hchecksum⟩, -⟩
      · rw [htrue] at hfalse
        contradiction
      · exact ⟨.inl ⟨rfl, by rw [hnil, List.append_nil]; exact hsent⟩, .inl hchecksum⟩
  · exact ⟨rfl, rfl, (List.append_nil _).symm, hwf,
      fun image added h => (List.append_nil added).symm ▸ h, id⟩

theorem publish_slaveStep {s : State cfg} (hwf : s.slave.own.WF) :
    SlaveStep s (publish s) [] := by
  refine ⟨rfl, rfl, (List.append_nil _).symm, hwf,
    fun image added h => (List.append_nil added).symm ▸ h.publish, ?_⟩
  rintro ⟨⟨hsignal, hsent⟩ | ⟨hsignal, hsent, hcrc, -⟩, -⟩
  · exact ⟨.inl ⟨hsignal, hsent⟩, .inr ⟨[], hsignal, rfl, hwf, [], [], rfl, .refl _, .refl _⟩⟩
  · exact ⟨.inr ⟨hsignal, hsent, hcrc, hcrc⟩, .inl hcrc⟩

/-! ## Steps of the master -/

theorem takeLoop_all (n : Nat) {t : Taking cfg} (hokay : t.okay = true) (hcopy : t.copy.WF)
    (hown : t.own.WF) (hfuel : t.copy.toList.length ≤ n)
    (hroom : t.copy.toList.length + t.own.toList.length < cfg.maxQueued) :
    (takeLoop n t).taken = t.taken ++ t.copy.toList ∧ (takeLoop n t).own.WF ∧
      (takeLoop n t).copy.head = t.copy.head ∧
      ((takeLoop n t).actioned = true ↔ t.actioned = true ∨ t.copy.toList ≠ []) := by
  induction n generalizing t with
  | zero =>
      have hnil : t.copy.toList = [] := List.length_eq_zero_iff.mp (Nat.le_zero.mp hfuel)
      simp [takeLoop, hnil, hown]
  | succ n ih =>
      rw [takeLoop, if_pos hokay]
      cases hdequeue : encoderDequeueEventAdvanced t.copy with
      | none =>
          have hnil := (dequeueEvent_none hcopy).mp hdequeue
          simp [hnil, hown]
      | some result =>
          obtain ⟨event, copy⟩ := result
          obtain ⟨hcopy', hlist, hhead⟩ := dequeueEvent_cases hcopy hdequeue
          rw [hlist, List.length_cons] at hfuel hroom
          obtain ⟨own, hqueue⟩ := queueEvent_isSome hown (by omega) event
          obtain ⟨hown', hadded, -⟩ := queueEvent_cases hown hqueue
          simp only [hqueue]
          have hroom' : copy.toList.length + own.toList.length < cfg.maxQueued := by
            rw [hadded, List.length_append, List.length_singleton]
            omega
          obtain ⟨htaken, hwf, hsame, haction⟩ := ih
            (t := { t with copy, own, taken := t.taken ++ [event], actioned := true }) hokay
            hcopy' hown' (Nat.le_of_succ_le_succ hfuel) hroom'
          refine ⟨?_, hwf, hsame.trans hhead, ?_⟩
          · rw [htaken, hlist, List.append_assoc]
            rfl
          · simp [haction, hlist]

theorem Inv.settled {s : State cfg} (h : Inv s) (hphase : s.master.phase ≠ .actioned) :
    Ledger s ∧ Current s := by
  have hinv := h.phase
  cases hat : s.master.phase with
  | idle => exact (hat ▸ hinv : PhaseInv s .idle)
  | checksumRead currChecksum image =>
      exact (hat ▸ hinv : PhaseInv s (.checksumRead currChecksum image)).1
  | dataRead => exact (hat ▸ hinv : PhaseInv s .dataRead).1
  | actioned => exact absurd hat hphase

theorem readChecksum_inv {s : State cfg} (h : Inv s) (okay : Bool) :
    Inv (readChecksum okay s) := by
  unfold readChecksum
  split
  · rename_i hidle
    have hsettled := h.settled (by simp [hidle])
    split
    · refine ⟨h.slave, h.master, hsettled, rfl, ?_⟩
      rcases hsettled.2 with heq | ⟨added, hdescends⟩
      · exact .inl heq
      · exact .inr ⟨hdescends.2.1.symm, added, hdescends⟩
    · exact h
  · exact h

theorem readData_inv {s : State cfg} (h : Inv s) (now : BitVec 32) (okay : Bool)
    (leftover : EncoderEvents cfg) (hcond : Undisturbed s (.readData now okay leftover)) :
    Inv (readData now okay leftover s) := by
  unfold readData
  split
  · rename_i currChecksum image hat
    have hinv : PhaseInv s (.checksumRead currChecksum image) := hat ▸ h.phase
    obtain ⟨hsettled, hchecksum, himage⟩ := hinv
    split
    · split
      · split
        · rename_i hcrc
          refine ⟨h.slave, h.master, hsettled, ?_⟩
          rcases himage with heq | ⟨-, added, hdescends⟩
          · exact .inl (hchecksum.trans heq)
          · exact .inr ⟨(hchecksum.trans hcrc).symm, hdescends.published⟩
        · exact ⟨h.slave, h.master, hsettled⟩
      · exact ⟨h.slave, h.master, hsettled⟩
    · rename_i hskip
      refine ⟨h.slave, h.master, hsettled, ?_⟩
      by_cases hlast : s.master.lastChecksum = currChecksum
      · exact .inl (hchecksum.trans hlast.symm)
      · have hcopy := hcond currChecksum image hat hlast hskip
        rcases himage with heq | ⟨hcrc, added, hdescends⟩
        · exact absurd heq.symm hlast
        · refine .inr ⟨?_, added, ?_⟩
          · exact (congrArg _ hcopy).trans (hcrc.trans hchecksum.symm)
          · exact hcopy ▸ hdescends
  · exact h

theorem takeEvents_inv {s : State cfg} (h : Inv s) (hcond : Undisturbed s .takeEvents) :
    Inv (takeEvents s) := by
  unfold takeEvents
  split
  · rename_i hat
    have hinv : PhaseInv s .dataRead := hat ▸ h.phase
    obtain ⟨hsettled, hnew⟩ := hinv
    split
    · rename_i hlast
      have hroom := hcond hat hlast
      obtain ⟨hcrc, added, hdescends⟩ := hnew.resolve_left (Ne.symm hlast)
      have hcopy : s.master.copy.WF := hdescends.2.2.1
      have hlength : s.master.copy.toList.length ≤ cfg.maxQueued := by omega
      obtain ⟨htaken, hwf, hhead, haction⟩ := takeLoop_all cfg.maxQueued
        (t := ⟨s.master.copy, s.master.own, [], true, false⟩) rfl hcopy h.master hlength hroom
      have hsent : s.sent = s.received ++ s.slave.own.toList := by
        rcases hsettled.1 with ⟨-, hsent⟩ | ⟨htrue, -⟩
        · exact hsent
        · rw [hdescends.1] at htrue
          contradiction
      have hlist := (hdescends.queued.cases hcopy).2.1
      refine ⟨h.slave, hwf, ?_⟩
      by_cases hnil : s.master.copy.toList = []
      · have hnone := mt haction.mp (by simp [hnil])
        simp only [hnone, if_false, htaken, hnil, List.append_nil, Bool.false_eq_true]
        exact ⟨.inl ⟨hdescends.1, hsent⟩, .inr hdescends.published⟩
      · have hsome := haction.mpr (.inr hnil)
        simp only [hsome, if_true, htaken]
        refine ⟨s.master.copy, added, hcrc, hhead.symm, hdescends, ?_⟩
        rw [hsent, hlist, List.nil_append, List.append_assoc]
    · exact ⟨h.slave, h.master, hsettled⟩
  · exact h

theorem drain_inv {s : State cfg} (h : Inv s) (arrives : Bool)
    (hcond : Undisturbed s (.drain arrives)) : Inv (drain arrives s) := by
  unfold drain
  split
  · rename_i hat
    have hinv : PhaseInv s .actioned := hat ▸ h.phase
    obtain ⟨image, added, hcrc, hhead, hdescends, hsent⟩ := hinv
    obtain ⟨rfl, hown⟩ := hcond hat
    obtain ⟨rfl, hsame, hpublished⟩ := hdescends.eq_of_head_eq (hown.trans hhead.symm)
    have hchecksum : s.slave.checksum = s.master.checksum := by
      rw [hdescends.2.1, hpublished, hcrc]
    refine ⟨h.slave, h.master, .inr ⟨Bool.or_true _, ?_, ?_, hchecksum⟩, .inl hchecksum⟩
    · rw [hsent, List.append_nil]
    · exact (congrArg _ hsame).trans hcrc
  · exact h

/-- The master's own queue is not part of what the two halves agree on. -/
theorem Inv.withOwn {s : State cfg} (h : Inv s) {own : EncoderEvents cfg} (hown : own.WF) :
    Inv { s with master := { s.master with own } } := by
  refine ⟨h.slave, hown, ?_⟩
  have hinv := h.phase
  cases hat : s.master.phase <;> rw [hat] at hinv <;> exact hinv

theorem masterQueue_inv {s : State cfg} (h : Inv s) (event : EncoderEvent) :
    Inv (masterQueue event s) := by
  unfold masterQueue
  split
  · exact h
  · rename_i own hown
    exact h.withOwn (queueEvent_cases h.master hown).1

theorem masterHandle_inv {s : State cfg} (h : Inv s) : Inv (masterHandle s) := by
  unfold masterHandle
  split
  · exact h
  · rename_i event own hown
    exact h.withOwn (dequeueEvent_cases h.master hown).1

theorem Inv.step {s : State cfg} (h : Inv s) (input : Input cfg)
    (hcond : Undisturbed s input) : Inv (Encoder.step s input) := by
  cases input with
  | queueEvent event =>
      obtain ⟨more, hstep⟩ := queueEvent_slaveStep h.slave hcond event
      exact hstep.inv h
  | encoderTask => exact (encoderTask_slaveStep h.slave).inv h
  | publish => exact (publish_slaveStep h.slave).inv h
  | readChecksum okay => exact readChecksum_inv h okay
  | readData now okay leftover => exact readData_inv h now okay leftover hcond
  | takeEvents => exact takeEvents_inv h hcond
  | drain arrives => exact drain_inv h arrives hcond
  | masterQueue event => exact masterQueue_inv h event
  | masterHandle => exact masterHandle_inv h

theorem Inv.delivered {s : State cfg} (h : Inv s) : Delivered s := by
  by_cases hphase : s.master.phase = .actioned
  · have hinv : PhaseInv s .actioned := hphase ▸ h.phase
    obtain ⟨image, added, -, -, hdescends, hsent⟩ := hinv
    refine ⟨added, ?_, hsent⟩
    rw [(hdescends.queued.cases hdescends.2.2.1).2.1]
    exact List.suffix_append _ _
  · rcases (h.settled hphase).1 with ⟨-, hsent⟩ | ⟨-, hsent, -⟩
    · exact ⟨_, List.suffix_rfl, hsent⟩
    · exact ⟨[], List.nil_suffix, by simp [hsent]⟩

/-! ## A round without interference -/

/-- The slave publishes, and all transactions of the master up to the taking of the
events succeed. -/
def round (now : BitVec 32) (leftover : EncoderEvents cfg) : List (Input cfg) :=
  [.publish, .readChecksum true, .readData now true leftover, .takeEvents]

/-- The state in which the master takes the events of a round. -/
def roundRead (now : BitVec 32) (leftover : EncoderEvents cfg) (s : State cfg) : State cfg :=
  readData now true leftover (readChecksum true (publish s))

theorem readData_of_rereads {s : State cfg} {now : BitVec 32} {currChecksum : BitVec 8}
    {image : EncoderEvents cfg} (hat : s.master.phase = .checksumRead currChecksum image)
    (hreread : s.master.rereads now currChecksum)
    (hcrc : currChecksum = s.slave.published.crc) (leftover : EncoderEvents cfg) :
    readData now true leftover s =
      { s with
        master :=
          { s.master with copy := s.slave.published, lastUpdate := now, phase := .dataRead } } := by
  simp only [readData, hat]
  rw [if_pos hreread, if_pos trivial, if_pos hcrc]

theorem readData_of_skips {s : State cfg} {now : BitVec 32} {currChecksum : BitVec 8}
    {image : EncoderEvents cfg} (hat : s.master.phase = .checksumRead currChecksum image)
    (hskip : ¬s.master.rereads now currChecksum) (okay : Bool)
    (leftover : EncoderEvents cfg) :
    readData now okay leftover s = { s with master := { s.master with phase := .dataRead } } := by
  simp only [readData, hat]
  rw [if_neg hskip]

theorem readChecksum_publish {s : State cfg} (hidle : s.master.phase = .idle) :
    readChecksum true (publish s) =
      { publish s with
        master :=
          { s.master with
            checksum := s.slave.own.crc
            phase := .checksumRead s.slave.own.crc s.slave.own } } := by
  simp [readChecksum, publish, hidle]

theorem roundRead_cases {s : State cfg} (hidle : s.master.phase = .idle) (now : BitVec 32)
    (leftover : EncoderEvents cfg)
    (hcond : Undisturbed (readChecksum true (publish s)) (.readData now true leftover)) :
    ∃ copy lastUpdate, (s.master.lastChecksum ≠ s.slave.own.crc → copy = s.slave.own) ∧
      roundRead now leftover s =
        { publish s with
          master :=
            { s.master with
              copy, lastUpdate, checksum := s.slave.own.crc, phase := .dataRead } } := by
  unfold roundRead
  rw [readChecksum_publish hidle] at hcond ⊢
  by_cases hreread : s.master.rereads now s.slave.own.crc
  · exact ⟨s.slave.own, now, fun _ => rfl,
      readData_of_rereads rfl (by exact hreread) rfl leftover⟩
  · exact ⟨s.master.copy, s.master.lastUpdate, fun hlast => hcond _ _ rfl hlast hreread,
      readData_of_skips rfl (by exact hreread) true leftover⟩

theorem round_completes {s : State cfg} (h : Inv s) (hidle : s.master.phase = .idle)
    {now : BitVec 32} {leftover : EncoderEvents cfg}
    (hcond : Meets step Undisturbed s (round now leftover))
    (hcrc : s.received ≠ s.sent → s.slave.own.crc ≠ s.master.lastChecksum) :
    (run step s (round now leftover)).received = s.sent := by
  obtain ⟨-, -, hread, htake, -⟩ := hcond
  obtain ⟨copy, lastUpdate, hcopy, heq⟩ := roundRead_cases hidle now leftover hread
  have hrun : run step s (round now leftover) = takeEvents (roundRead now leftover s) := rfl
  have hroom : Undisturbed (roundRead now leftover s) .takeEvents := htake
  rw [heq] at hroom
  rw [hrun, heq]
  by_cases hlast : s.master.lastChecksum = s.slave.own.crc
  · have hsame : s.received = s.sent := Decidable.byContradiction fun hne => hcrc hne hlast.symm
    simp only [takeEvents, hlast, ne_eq, not_true_eq_false, if_false]
    exact hsame
  · have hcopy := hcopy hlast
    subst hcopy
    have hroom := hroom rfl hlast
    have hlength : s.slave.own.toList.length ≤ cfg.maxQueued :=
      Nat.le_trans (Nat.le_add_right _ _) (Nat.le_of_lt hroom)
    have htaken := (takeLoop_all cfg.maxQueued
      (t := ⟨s.slave.own, s.master.own, [], true, false⟩) rfl h.slave h.master hlength hroom).1
    have hsent : s.sent = s.received ++ s.slave.own.toList := by
      rcases (h.settled (by simp [hidle])).1 with ⟨-, hsent⟩ | ⟨-, -, hown, -⟩
      · exact hsent
      · exact absurd hown.symm hlast
    simp only [takeEvents, hlast, ne_eq, not_false_eq_true, if_true, htaken]
    exact hsent.symm

theorem fourSlots_pos : 0 < 4 := by decide

def fourSlots : Config where
  maxQueued := 4
  maxQueued_pos := fourSlots_pos
  forcedSyncThrottleMs := 100
  crc8 := crc8

/-- A turn of an encoder that the master reads, and the slave drains. -/
def handedOver : List (Input fourSlots) :=
  [.queueEvent ⟨0, true⟩, .publish, .readChecksum true,
    .readData 200 true (EncoderEvents.zero fourSlots), .takeEvents, .drain true, .encoderTask]

theorem handedOver_meets :
    Meets step (fun s input => Fits s input ∧ Undisturbed s input) (State.initial fourSlots)
      handedOver := by
  refine ⟨⟨rfl, rfl⟩, ⟨trivial, trivial⟩, ⟨trivial, trivial⟩, ⟨trivial, ?_⟩, ⟨trivial, ?_⟩,
    ⟨trivial, ?_⟩, ⟨trivial, trivial⟩, trivial⟩
  · intro currChecksum image _ _ hskip
    exact absurd (.inl (by decide +kernel)) hskip
  · intro _ _
    decide +kernel
  · intro _
    exact ⟨rfl, by decide +kernel⟩

/-- Two turns of an encoder, the second one after the first one was read and before the
slave is told to drain its queue. -/
def overtaken : List (Input fourSlots) :=
  [.queueEvent ⟨0, true⟩, .publish, .readChecksum true,
    .readData 1 true (EncoderEvents.zero fourSlots), .takeEvents, .queueEvent ⟨0, false⟩,
    .drain true, .encoderTask]

end Qmk.Encoder
