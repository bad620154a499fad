import Qmk.SplitMatrix.Sync

/-!
# When the master has the slave's matrix

From a time on the slave's matrix is constant.  The copy of the master then is that matrix, or the
last read that was accepted is so old that the next call reads again.  A copy whose bytes were
read before that time can still be stamped after it by the call that is in progress, and a stamp
that is `2 ^ 32` milliseconds old looks new; both let a matrix with the same checksum through.
-/

namespace Qmk.SplitMatrix

open Qmk.Lib

variable {cfg : Config}

/-! ## The stamp of the last read -/

structure Stamped (s : State cfg) : Prop where
  update : s.lastUpdate = BitVec.ofNat 32 s.lastRead
  past : s.lastRead ≤ s.clock

theorem stamped_initial : Stamped (State.initial cfg) := ⟨rfl, Nat.le_refl 0⟩

theorem stamped_step {s : State cfg} (h : Stamped s) (input : Input cfg) :
    Stamped (step s input) := by
  cases input with
  | advance ms => exact ⟨h.update, Nat.le_add_right_of_le h.past⟩
  | publish slaveMatrix => exact ⟨h.update, h.past⟩
  | enter =>
      rw [step, enter]
      split <;> exact ⟨h.update, h.past⟩
  | readChecksum okay =>
      rw [step, readChecksum]
      split
      · split <;> exact ⟨h.update, h.past⟩
      · exact h
  | decide =>
      rw [step, decideRead]
      split
      · split <;> exact ⟨h.update, h.past⟩
      · exact h
  | readByte =>
      rw [step, readByte]
      split
      · split <;> exact ⟨h.update, h.past⟩
      · exact h
  | failData leftover =>
      rw [step, failData]
      split <;> exact ⟨h.update, h.past⟩
  | checkData =>
      rw [step, checkData]
      split
      · split
        · split
          · exact ⟨rfl, Nat.le_refl s.clock⟩
          · exact ⟨h.update, h.past⟩
        · exact h
      · exact h

theorem stamped_run {s : State cfg} (h : Stamped s) (inputs : List (Input cfg)) :
    Stamped (run step s inputs) := by
  induction inputs generalizing s with
  | nil => exact h
  | cons input inputs ih => exact ih (stamped_step h input)

theorem elapsed_toNat {s : State cfg} (h : Stamped s) :
    (timerElapsed32 s s.lastUpdate).toNat = (s.clock - s.lastRead) % 2 ^ 32 := by
  have past := h.past
  rw [timerElapsed32, timerRead32, h.update, BitVec.toNat_sub, BitVec.toNat_ofNat,
    BitVec.toNat_ofNat]
  omega

theorem elapsed_le {s : State cfg} (h : Stamped s) :
    (timerElapsed32 s s.lastUpdate).toNat ≤ s.clock - s.lastRead := by
  rw [elapsed_toNat h]
  exact Nat.mod_le _ _

/-! ## A constant matrix -/

section Constant

variable (matrix : Matrix cfg) (since : Nat)

/-- The next call that starts a throttle time after `since` reads again. -/
def Stale (s : State cfg) : Prop :=
  s.lastRead ≤ since ∨ s.lastRead + cfg.forcedSyncThrottleMs ≤ s.clock

def InSync (s : State cfg) : Prop :=
  s.copy = matrix ∧ s.checksum = matrix.crc

/-- The checksum of a call is the one that the slave has, or had before it published the
matrix. -/
def ChecksumOf (s : State cfg) (currChecksum : BitVec 8) : Prop :=
  currChecksum = s.checksum ∨ s.checksum = matrix.crc

def PhaseOk (s : State cfg) : Phase cfg → Prop
  | .idle => InSync matrix s ∨ Stale since s
  | .entered start => start ≤ s.clock ∧ (InSync matrix s ∨ Stale since s)
  | .checksumRead start currChecksum =>
      start ≤ s.clock ∧ ChecksumOf matrix s currChecksum ∧
        ((InSync matrix s ∧ currChecksum = matrix.crc) ∨ Stale since s)
  | .reading start currChecksum _ count =>
      start ≤ s.clock ∧ ChecksumOf matrix s currChecksum ∧ Stale since s ∧ count ≤ cfg.size ∧
        ∀ i (h : i < cfg.size), i < count → s.copy[i] = matrix[i]

/-- A call that is late enough hands out the matrix. -/
def Converged (call : Call cfg) : Prop :=
  call.okay.isSome → since + cfg.forcedSyncThrottleMs ≤ call.start → call.sinceRead < 2 ^ 32 →
    call.slaveMatrix = matrix

structure Steady (seen : Nat) (s : State cfg) : Prop where
  stamped : Stamped s
  published : s.published = matrix
  phase : PhaseOk matrix since s s.phase
  seen_le : seen ≤ s.calls.length
  calls : ∀ call ∈ s.calls.drop seen, Converged matrix since call

variable {matrix since} {seen : Nat} {s : State cfg}

theorem Stale.old (stale : Stale since s)
    (late : since + cfg.forcedSyncThrottleMs ≤ s.clock) :
    s.lastRead + cfg.forcedSyncThrottleMs ≤ s.clock := by
  rcases stale with early | old
  · omega
  · exact old

theorem converged_append {calls : List (Call cfg)} {new : Call cfg}
    (seen_le : seen ≤ calls.length) (earlier : ∀ call ∈ calls.drop seen, Converged matrix since call)
    (last : Converged matrix since new) :
    ∀ call ∈ (calls ++ [new]).drop seen, Converged matrix since call := by
  intro call listed
  rw [List.drop_append_of_le_length seen_le, List.mem_append, List.mem_singleton] at listed
  rcases listed with old | rfl
  · exact earlier call old
  · exact last

theorem Steady.accept (h : Steady matrix since seen s) {start sinceRead : Nat}
    {currChecksum : BitVec 8} (next : InSync matrix s ∨ Stale since s)
    (last : since + cfg.forcedSyncThrottleMs ≤ start → sinceRead < 2 ^ 32 → s.copy = matrix) :
    Steady matrix since seen (accept start sinceRead currChecksum s) where
  stamped := ⟨h.stamped.update, h.stamped.past⟩
  published := h.published
  phase := next
  seen_le := by simpa [SplitMatrix.accept] using Nat.le_succ_of_le h.seen_le
  calls := converged_append h.seen_le h.calls fun _ late recent => last late recent

theorem Steady.reject (h : Steady matrix since seen s) {start sinceRead : Nat}
    (next : InSync matrix s ∨ Stale since s) :
    Steady matrix since seen (reject start sinceRead s) where
  stamped := ⟨h.stamped.update, h.stamped.past⟩
  published := h.published
  phase := next
  seen_le := by simpa [SplitMatrix.reject] using Nat.le_succ_of_le h.seen_le
  calls := converged_append h.seen_le h.calls fun okay => by simp at okay

theorem Stale.advance (stale : Stale since s) (ms : Nat) :
    Stale since { s with clock := s.clock + ms } :=
  stale.imp_right (Nat.le_add_right_of_le ·)

theorem steady_advance (h : Steady matrix since seen s) (ms : Nat) :
    Steady matrix since seen { s with clock := s.clock + ms } := by
  refine ⟨stamped_step h.stamped (.advance ms), h.published, ?_, h.seen_le, h.calls⟩
  have ok := h.phase
  change PhaseOk matrix since { s with clock := s.clock + ms } s.phase
  cases at_ : s.phase <;> rw [at_] at ok
  case idle => exact ok.imp_right (·.advance ms)
  case entered start =>
      exact ⟨Nat.le_add_right_of_le ok.1, ok.2.imp_right (·.advance ms)⟩
  case checksumRead start currChecksum =>
      exact ⟨Nat.le_add_right_of_le ok.1, ok.2.1, ok.2.2.imp_right (·.advance ms)⟩
  case reading start currChecksum sinceRead count =>
      exact ⟨Nat.le_add_right_of_le ok.1, ok.2.1, ok.2.2.1.advance ms, ok.2.2.2⟩

theorem steady_publish (h : Steady matrix since seen s) :
    Steady matrix since seen (publish matrix s) := by
  refine ⟨⟨h.stamped.update, h.stamped.past⟩, rfl, ?_, h.seen_le, h.calls⟩
  have ok := h.phase
  have stays (state : InSync matrix s ∨ Stale since s) :
      InSync matrix (publish matrix s) ∨ Stale since (publish matrix s) :=
    state.imp_left fun sync => ⟨sync.1, rfl⟩
  change PhaseOk matrix since (publish matrix s) s.phase
  cases at_ : s.phase <;> rw [at_] at ok
  case idle => exact stays ok
  case entered start => exact ⟨ok.1, stays ok.2⟩
  case checksumRead start currChecksum =>
      exact ⟨ok.1, .inr rfl, ok.2.2.imp_left fun sync => ⟨⟨sync.1.1, rfl⟩, sync.2⟩⟩
  case reading start currChecksum sinceRead count => exact ⟨ok.1, .inr rfl, ok.2.2⟩

theorem steady_enter (h : Steady matrix since seen s) : Steady matrix since seen (enter s) := by
  unfold enter
  split
  · rename_i at_
    have ok := h.phase
    rw [at_] at ok
    exact ⟨⟨h.stamped.update, h.stamped.past⟩, h.published, ⟨Nat.le_refl _, ok⟩, h.seen_le,
      h.calls⟩
  · exact h

theorem steady_readChecksum (h : Steady matrix since seen s) (okay : Bool) :
    Steady matrix since seen (readChecksum okay s) := by
  unfold readChecksum
  split
  · rename_i start at_
    have ok := h.phase
    rw [at_] at ok
    split
    · refine ⟨⟨h.stamped.update, h.stamped.past⟩, h.published, ⟨ok.1, .inl rfl, ?_⟩, h.seen_le,
        h.calls⟩
      exact ok.2.imp_left fun sync => ⟨sync, sync.2⟩
    · exact h.reject ok.2
  · exact h

/-- A copy that is in sync is read again only when the last read is too old. -/
theorem stale_of_rereads (h : Stamped s) {currChecksum : BitVec 8}
    (rereads : Rereads s currChecksum)
    (state : (InSync matrix s ∧ currChecksum = matrix.crc) ∨ Stale since s) : Stale since s := by
  rcases state with ⟨⟨same, -⟩, checksum⟩ | stale
  · rcases rereads with old | differs
    · have bound := elapsed_le h
      have past := h.past
      exact .inr (by omega)
    · exact absurd (checksum.trans (by rw [same])) differs
  · exact stale

theorem copy_of_not_rereads (h : Stamped s) {currChecksum : BitVec 8}
    (keeps : ¬ Rereads s currChecksum)
    (state : (InSync matrix s ∧ currChecksum = matrix.crc) ∨ Stale since s)
    (late : since + cfg.forcedSyncThrottleMs ≤ s.clock)
    (recent : s.clock - s.lastRead < 2 ^ 32) : s.copy = matrix := by
  rcases state with ⟨⟨same, -⟩, -⟩ | stale
  · exact same
  · refine absurd (.inl ?_) keeps
    have old := stale.old late
    rw [elapsed_toNat h, Nat.mod_eq_of_lt recent]
    omega

theorem steady_decideRead (h : Steady matrix since seen s) :
    Steady matrix since seen (decideRead s) := by
  unfold decideRead
  split
  · rename_i start currChecksum at_
    have ok := h.phase
    rw [at_] at ok
    obtain ⟨started, checksum, state⟩ := ok
    split
    · rename_i rereads
      have stale : Stale since s := stale_of_rereads h.stamped rereads state
      exact ⟨⟨h.stamped.update, h.stamped.past⟩, h.published,
        ⟨started, checksum, stale, Nat.zero_le _,
          fun i _ none => absurd none (Nat.not_lt_zero i)⟩, h.seen_le, h.calls⟩
    · rename_i keeps
      refine h.accept (state.imp_left (·.1)) fun late recent => ?_
      exact copy_of_not_rereads h.stamped keeps state (Nat.le_trans late started) recent
  · exact h

theorem steady_readByte (h : Steady matrix since seen s) :
    Steady matrix since seen (readByte s) := by
  unfold readByte
  split
  · rename_i start currChecksum sinceRead count at_
    have ok := h.phase
    rw [at_] at ok
    obtain ⟨started, checksum, stale, -, arrived⟩ := ok
    split
    · rename_i inside
      refine ⟨⟨h.stamped.update, h.stamped.past⟩, h.published,
        ⟨started, checksum, stale, inside, fun i bound before => ?_⟩, h.seen_le, h.calls⟩
      rw [Vector.getElem_set]
      split
      · rename_i here
        subst here
        simp [h.published]
      · exact arrived i bound (by omega)
    · exact h
  · exact h

theorem steady_failData (h : Steady matrix since seen s) (leftover : Matrix cfg) :
    Steady matrix since seen (failData leftover s) := by
  unfold failData
  split
  · rename_i start currChecksum sinceRead count at_
    have ok := h.phase
    rw [at_] at ok
    obtain ⟨-, -, stale, -⟩ := ok
    -- the phase of the state in between is not looked at
    have overwritten : Steady matrix since seen { s with copy := leftover, phase := .idle } :=
      ⟨⟨h.stamped.update, h.stamped.past⟩, h.published, .inr stale, h.seen_le, h.calls⟩
    exact overwritten.reject (.inr stale)
  · exact h

theorem steady_checkData (h : Steady matrix since seen s) :
    Steady matrix since seen (checkData s) := by
  unfold checkData
  split
  · rename_i start currChecksum sinceRead count at_
    have ok := h.phase
    rw [at_] at ok
    obtain ⟨-, checksum, stale, -, arrived⟩ := ok
    split
    · rename_i complete
      split
      · rename_i same
        have copied : s.copy = matrix :=
          Vector.ext fun i bound => arrived i bound (complete ▸ bound)
        have published : s.checksum = matrix.crc := by
          rcases checksum with now | now
          · rw [← now, same, copied]
          · exact now
        have sync : InSync matrix s := ⟨copied, published⟩
        have stamped : Steady matrix since seen
            { s with lastUpdate := timerRead32 s, lastRead := s.clock, phase := .idle } :=
          ⟨⟨rfl, Nat.le_refl _⟩, h.published, .inl sync, h.seen_le, h.calls⟩
        exact stamped.accept (.inl sync) fun _ _ => copied
      · exact h.reject (.inr stale)
    · exact h
  · exact h

/-- The slave publishes nothing but the matrix. -/
def Publishes (matrix : Matrix cfg) : Input cfg → Prop
  | .publish slaveMatrix => slaveMatrix = matrix
  | _ => True

theorem steady_step (h : Steady matrix since seen s) {input : Input cfg}
    (constant : Publishes matrix input) : Steady matrix since seen (step s input) := by
  cases input with
  | advance ms => exact steady_advance h ms
  | publish slaveMatrix =>
      subst constant
      exact steady_publish h
  | enter => exact steady_enter h
  | readChecksum okay => exact steady_readChecksum h okay
  | decide => exact steady_decideRead h
  | readByte => exact steady_readByte h
  | failData leftover => exact steady_failData h leftover
  | checkData => exact steady_checkData h

theorem steady_run (h : Steady matrix since seen s) {inputs : List (Input cfg)}
    (constant : ∀ input ∈ inputs, Publishes matrix input) :
    Steady matrix since seen (run step s inputs) := by
  induction inputs generalizing s with
  | nil => exact h
  | cons input inputs ih =>
      exact ih (steady_step h (constant input (by simp)))
        fun other listed => constant other (List.mem_cons_of_mem _ listed)

theorem steady_of_idle (h : Stamped s) (idle : s.phase = .idle) :
    Steady s.published s.clock s.calls.length s where
  stamped := h
  published := rfl
  phase := by
    rw [idle]
    exact .inr (.inl h.past)
  seen_le := Nat.le_refl _
  calls := by simp

end Constant

/-! ## The runs -/

/-- The calls that end after the first inputs. -/
def newCalls (before after : List (Input cfg)) : List (Call cfg) :=
  (run step (State.initial cfg) (before ++ after)).calls.drop
    (run step (State.initial cfg) before).calls.length

/-- Each successful call has the checksum it read, and each failed one repeats the last accepted
matrix.  Once the slave's matrix is constant, seen from a time between two calls, a successful
call that starts a throttle time later hands it out, unless the last accepted read lies `2 ^ 32`
milliseconds back. -/
theorem splitMatrix_synchronises (cfg : Config) :
    (∀ inputs : List (Input cfg), AllSound (run step (State.initial cfg) inputs).calls) ∧
    ∀ (before after : List (Input cfg)) (s : State cfg),
      s = run step (State.initial cfg) before → s.phase = .idle →
      (∀ input ∈ after, Publishes s.published input) →
      ∀ call ∈ newCalls before after, call.okay.isSome →
        s.clock + cfg.forcedSyncThrottleMs ≤ call.start → call.sinceRead < 2 ^ 32 →
          call.slaveMatrix = s.published := by
  refine ⟨fun inputs => (inv_run inv_initial inputs).sound, ?_⟩
  rintro before after s rfl idle constant call listed
  have steady := steady_run (steady_of_idle (stamped_run stamped_initial before) idle) constant
  rw [newCalls, run_append] at listed
  exact steady.calls call listed

def twoRows : Config where
  size := 2
  forcedSyncThrottleMs := 100
  throttle_lt := by decide
  crc8 := Encoder.crc8

def oldRows : Matrix twoRows := #v[1#8, 0#8]

/-- Other rows with the same checksum. -/
def newRows : Matrix twoRows := #v[0#8, 49#8]

def wholeCall : List (Input twoRows) :=
  [.enter, .readChecksum true, .decide, .readByte, .readByte, .checkData]

theorem oldThenNew_calls :
    newCalls ([.publish oldRows] ++ wholeCall ++ [.publish newRows])
      (wholeCall ++ [.advance 100] ++ wholeCall) =
      [⟨0, 0, some 117#8, oldRows⟩, ⟨100, 100, some 117#8, newRows⟩] := by
  decide +kernel

theorem oldThenNew_converges :
    ∃ call ∈ newCalls ([.publish oldRows] ++ wholeCall ++ [.publish newRows])
        (wholeCall ++ [.advance 100] ++ wholeCall),
      call.start = 100 ∧ call.slaveMatrix = newRows := by
  have listed : (⟨100, 100, some 117#8, newRows⟩ : Call twoRows) ∈
      newCalls ([.publish oldRows] ++ wholeCall ++ [.publish newRows])
        (wholeCall ++ [.advance 100] ++ wholeCall) := by
    rw [oldThenNew_calls]
    simp
  exact ⟨_, listed, rfl, (splitMatrix_synchronises twoRows).2 _ _ _ rfl (by decide +kernel)
    (by simp [wholeCall, Publishes]) _ listed rfl (by decide +kernel) (by decide)⟩

/-! ## Matrices that share a checksum -/

/-- A successful call, and after it the first one that starts a throttle time after the slave's
matrix has become constant at a `Quiet` moment: that one hands the matrix out, if it counts as
`Recent`. -/
def Converges (cfg : Config) (Quiet : State cfg → Prop) (Recent : Call cfg → Prop) : Prop :=
  ∀ (before after : List (Input cfg)) (s : State cfg),
    s = run step (State.initial cfg) before → Quiet s →
    (∀ input ∈ after, Publishes s.published input) →
    ∀ earlier first between second later,
      newCalls before after = earlier ++ first :: between ++ second :: later →
      first.okay.isSome → s.clock ≤ first.start →
      (∀ call ∈ between, call.okay.isSome → call.start < s.clock + cfg.forcedSyncThrottleMs) →
      second.okay.isSome → s.clock + cfg.forcedSyncThrottleMs ≤ second.start → Recent second →
        second.slaveMatrix = s.published

/-- The bytes are read before the new rows are published, and stamped 49 milliseconds later. -/
def readAcross : List (Input twoRows) :=
  [.publish oldRows, .enter, .readChecksum true, .decide, .readByte, .readByte, .advance 1,
    .publish newRows]

def stampLater : List (Input twoRows) :=
  [.advance 49, .checkData, .advance 1] ++ wholeCall ++ [.advance 50] ++ wholeCall

/-- The clock of the last read comes round once before the new rows are published. -/
def oldStamp : List (Input twoRows) :=
  [.publish oldRows, .enter, .readChecksum true, .decide, .readByte, .readByte, .advance 50,
    .checkData, .advance (2 ^ 32 - 50), .publish newRows]

def clockComesRound : List (Input twoRows) :=
  [.advance 60] ++ wholeCall ++ [.advance 40] ++ wholeCall

/-- Neither the moment between two calls nor the age of the last read can be dropped. -/
theorem oldRows_handed_out :
    ¬ Converges twoRows (fun _ => True) (fun call => call.sinceRead < 2 ^ 32) ∧
      ¬ Converges twoRows (fun s => s.phase = .idle) (fun _ => True) := by
  have differ : oldRows ≠ newRows := by decide
  constructor
  · intro claim
    have calls : newCalls readAcross stampLater = [⟨0, 0, some 117#8, oldRows⟩] ++
        ⟨51, 1, some 117#8, oldRows⟩ :: [] ++ ⟨101, 51, some 117#8, oldRows⟩ :: [] := by
      decide +kernel
    exact differ (claim readAcross stampLater _ rfl True.intro
      (by simp [stampLater, wholeCall, Publishes]) _ _ _ _ _ calls rfl (by decide +kernel)
      (by simp) rfl (by decide +kernel) (by decide))
  · intro claim
    have calls : newCalls oldStamp clockComesRound = [] ++
        ⟨2 ^ 32 + 60, 2 ^ 32 + 10, some 117#8, oldRows⟩ :: [] ++
          ⟨2 ^ 32 + 100, 2 ^ 32 + 50, some 117#8, oldRows⟩ :: [] := by
      decide +kernel
    exact differ (claim oldStamp clockComesRound _ rfl (by decide +kernel)
      (by simp [clockComesRound, wholeCall, Publishes]) _ _ _ _ _ calls rfl (by decide +kernel)
      (by simp) rfl (by decide +kernel) True.intro)

end Qmk.SplitMatrix
