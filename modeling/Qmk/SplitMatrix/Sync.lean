import Qmk.Encoder.Queue
import Qmk.Lib.Run

/-!
# Reading the slave's matrix

The slave publishes its matrix with a checksum.  The master reads the checksum, and reads the
matrix where the checksum differs from that of its own copy or the last read is too old.  The
bytes of the matrix are transferred one by one, and the slave may publish between any two steps
of the master.  The clock may move on there as well.
-/

namespace Qmk.SplitMatrix

open Qmk.Lib

structure Config where
  /-- `sizeof(split_shmem->smatrix.matrix)` -/
  size : Nat
  /-- `FORCED_SYNC_THROTTLE_MS` -/
  forcedSyncThrottleMs : Nat
  throttle_lt : forcedSyncThrottleMs < 2 ^ 32
  /-- `crc8`, which is declared weak. -/
  crc8 : List (BitVec 8) → BitVec 8

abbrev Matrix (cfg : Config) := Vector (BitVec 8) cfg.size

variable {cfg : Config}

def Matrix.zero (cfg : Config) : Matrix cfg := Vector.replicate cfg.size 0

def Matrix.crc (matrix : Matrix cfg) : BitVec 8 := cfg.crc8 matrix.toList

/-- Where the master is in `slave_matrix_handlers_master`, which it entered at `start`. -/
inductive Phase (cfg : Config)
  | idle
  | entered (start : Nat)
  | checksumRead (start : Nat) (currChecksum : BitVec 8)
  /-- `count` bytes of the matrix have arrived; the last read that was accepted lay
  `sinceRead` back when this one was decided on. -/
  | reading (start : Nat) (currChecksum : BitVec 8) (sinceRead count : Nat)
  deriving DecidableEq

/-- What a call left behind, for the statements only. -/
structure Call (cfg : Config) where
  start : Nat
  sinceRead : Nat
  /-- The checksum of a successful call. -/
  okay : Option (BitVec 8)
  slaveMatrix : Matrix cfg
  deriving DecidableEq

structure State (cfg : Config) where
  /-- In milliseconds; `timer_read32` has its low 32 bits. -/
  clock : Nat
  /-- `split_shmem->smatrix` of the slave. -/
  published : Matrix cfg
  checksum : BitVec 8
  /-- `split_shmem->smatrix.matrix` of the master. -/
  copy : Matrix cfg
  lastUpdate : BitVec 32
  lastMatrix : Matrix cfg
  phase : Phase cfg
  /-- The time that `lastUpdate` stands for. -/
  lastRead : Nat
  calls : List (Call cfg)

def State.initial (cfg : Config) : State cfg where
  clock := 0
  published := .zero cfg
  checksum := 0
  copy := .zero cfg
  lastUpdate := 0
  lastMatrix := .zero cfg
  phase := .idle
  lastRead := 0
  calls := []

inductive Input (cfg : Config)
  | advance (ms : Nat)
  /-- `slave_matrix_handlers_slave` -/
  | publish (slaveMatrix : Matrix cfg)
  /-- The master enters `slave_matrix_handlers_master`. -/
  | enter
  /-- `GET_SLAVE_MATRIX_CHECKSUM` -/
  | readChecksum (okay : Bool)
  | decide
  /-- The next byte of `GET_SLAVE_MATRIX_DATA`. -/
  | readByte
  /-- The transaction fails and leaves anything in the buffer. -/
  | failData (leftover : Matrix cfg)
  | checkData

def timerRead32 (s : State cfg) : BitVec 32 := BitVec.ofNat 32 s.clock

def timerElapsed32 (s : State cfg) (last : BitVec 32) : BitVec 32 := timerRead32 s - last

/-- The call returns `true`: the copy is the last matrix, and the one handed out. -/
def accept (start sinceRead : Nat) (currChecksum : BitVec 8) (s : State cfg) : State cfg :=
  { s with
    lastMatrix := s.copy
    phase := .idle
    calls := s.calls ++ [⟨start, sinceRead, some currChecksum, s.copy⟩] }

/-- The call returns `false` and hands out the last matrix. -/
def reject (start sinceRead : Nat) (s : State cfg) : State cfg :=
  { s with
    phase := .idle
    calls := s.calls ++ [⟨start, sinceRead, none, s.lastMatrix⟩] }

def publish (slaveMatrix : Matrix cfg) (s : State cfg) : State cfg :=
  { s with published := slaveMatrix, checksum := slaveMatrix.crc }

def enter (s : State cfg) : State cfg :=
  match s.phase with
  | .idle => { s with phase := .entered s.clock }
  | _ => s

def readChecksum (okay : Bool) (s : State cfg) : State cfg :=
  match s.phase with
  | .entered start =>
      if okay = true then { s with phase := .checksumRead start s.checksum }
      else reject start (s.clock - s.lastRead) s
  | _ => s

/-- `timer_elapsed32(*last_update) >= FORCED_SYNC_THROTTLE_MS || curr_checksum !=
crc8(equiv_shmem, length)` -/
def Rereads (s : State cfg) (currChecksum : BitVec 8) : Prop :=
  cfg.forcedSyncThrottleMs ≤ (timerElapsed32 s s.lastUpdate).toNat ∨ currChecksum ≠ s.copy.crc

instance (s : State cfg) (currChecksum : BitVec 8) : Decidable (Rereads s currChecksum) :=
  inferInstanceAs (Decidable (_ ∨ _))

def decideRead (s : State cfg) : State cfg :=
  match s.phase with
  | .checksumRead start currChecksum =>
      if Rereads s currChecksum then
        { s with phase := .reading start currChecksum (s.clock - s.lastRead) 0 }
      else accept start (s.clock - s.lastRead) currChecksum s
  | _ => s

def readByte (s : State cfg) : State cfg :=
  match s.phase with
  | .reading start currChecksum sinceRead count =>
      if h : count < cfg.size then
        { s with
          copy := s.copy.set count s.published[count]
          phase := .reading start currChecksum sinceRead (count + 1) }
      else s
  | _ => s

def failData (leftover : Matrix cfg) (s : State cfg) : State cfg :=
  match s.phase with
  | .reading start _ sinceRead _ => reject start sinceRead { s with copy := leftover }
  | _ => s

def checkData (s : State cfg) : State cfg :=
  match s.phase with
  | .reading start currChecksum sinceRead count =>
      if count = cfg.size then
        if currChecksum = s.copy.crc then
          accept start sinceRead currChecksum
            { s with lastUpdate := timerRead32 s, lastRead := s.clock }
        else reject start sinceRead s
      else s
  | _ => s

def step (s : State cfg) : Input cfg → State cfg
  | .advance ms => { s with clock := s.clock + ms }
  | .publish slaveMatrix => publish slaveMatrix s
  | .enter => enter s
  | .readChecksum okay => readChecksum okay s
  | .decide => decideRead s
  | .readByte => readByte s
  | .failData leftover => failData leftover s
  | .checkData => checkData s

/-! ## What a call hands out -/

/-- The matrix of the last successful call. -/
def lastAccepted (calls : List (Call cfg)) : Matrix cfg :=
  calls.foldl (fun last call => if call.okay.isSome then call.slaveMatrix else last) (.zero cfg)

/-- A successful call has the checksum it read, a failed one repeats the last accepted
matrix. -/
def Sound (earlier : List (Call cfg)) (call : Call cfg) : Prop :=
  match call.okay with
  | some currChecksum => call.slaveMatrix.crc = currChecksum
  | none => call.slaveMatrix = lastAccepted earlier

def AllSound (calls : List (Call cfg)) : Prop :=
  ∀ earlier call later, calls = earlier ++ call :: later → Sound earlier call

theorem allSound_append {calls : List (Call cfg)} {call : Call cfg} (sound : AllSound calls)
    (last : Sound calls call) : AllSound (calls ++ [call]) := by
  intro earlier other later split
  rcases List.append_eq_append_iff.mp split with ⟨middle, rfl, rest⟩ | ⟨middle, rfl, rest⟩
  · cases middle with
    | nil =>
        rw [List.nil_append, List.cons.injEq] at rest
        rw [← rest.1, List.append_nil]
        exact last
    | cons head tail => simp at rest
  · cases middle with
    | nil =>
        rw [List.nil_append, List.cons.injEq] at rest
        rw [rest.1]
        simpa using last
    | cons head tail =>
        rw [List.cons_append, List.cons.injEq] at rest
        rw [rest.1]
        exact sound earlier head tail (by simp)

@[simp] theorem lastAccepted_append (calls : List (Call cfg)) (call : Call cfg) :
    lastAccepted (calls ++ [call]) =
      if call.okay.isSome then call.slaveMatrix else lastAccepted calls := by
  simp [lastAccepted]

/-- What is handed out next is sound. -/
structure Inv (s : State cfg) : Prop where
  last : s.lastMatrix = lastAccepted s.calls
  sound : AllSound s.calls

theorem inv_initial : Inv (State.initial cfg) where
  last := rfl
  sound := by
    intro earlier call later split
    simp [State.initial] at split

theorem Inv.accept {s : State cfg} (h : Inv s) {start sinceRead : Nat} {currChecksum : BitVec 8}
    (same : currChecksum = s.copy.crc) : Inv (accept start sinceRead currChecksum s) where
  last := by simp [SplitMatrix.accept]
  sound := allSound_append h.sound same.symm

theorem Inv.reject {s : State cfg} (h : Inv s) {start sinceRead : Nat} :
    Inv (reject start sinceRead s) where
  last := by simpa [SplitMatrix.reject] using h.last
  sound := allSound_append h.sound h.last

theorem inv_step {s : State cfg} (h : Inv s) (input : Input cfg) : Inv (step s input) := by
  cases input with
  | advance ms => exact ⟨h.last, h.sound⟩
  | publish slaveMatrix => exact ⟨h.last, h.sound⟩
  | enter =>
      rw [step, enter]
      split
      · exact ⟨h.last, h.sound⟩
      · exact h
  | readChecksum okay =>
      rw [step, readChecksum]
      split
      · split
        · exact ⟨h.last, h.sound⟩
        · exact h.reject
      · exact h
  | decide =>
      rw [step, decideRead]
      split
      · rename_i start currChecksum _
        split
        · exact ⟨h.last, h.sound⟩
        · rename_i keeps
          exact h.accept (Decidable.not_not.mp fun differs => keeps (.inr differs))
      · exact h
  | readByte =>
      rw [step, readByte]
      split
      · split
        · exact ⟨h.last, h.sound⟩
        · exact h
      · exact h
  | failData leftover =>
      rw [step, failData]
      split
      · have overwritten : Inv { s with copy := leftover } := ⟨h.last, h.sound⟩
        exact overwritten.reject
      · exact h
  | checkData =>
      rw [step, checkData]
      split
      · split
        · split
          · rename_i same
            have stamped : Inv { s with lastUpdate := timerRead32 s, lastRead := s.clock } :=
              ⟨h.last, h.sound⟩
            exact stamped.accept same
          · exact h.reject
        · exact h
      · exact h

theorem inv_run {s : State cfg} (h : Inv s) (inputs : List (Input cfg)) :
    Inv (run step s inputs) := by
  induction inputs generalizing s with
  | nil => exact h
  | cons input inputs ih => exact ih (inv_step h input)

end Qmk.SplitMatrix
