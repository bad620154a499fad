import Mathlib.Algebra.Group.Nat.Defs
import Qmk.Lib.Run

/-!
# The secure lock

The status, the two time-outs and the unlock sequence of `secure.c`, with the events of
`process_secure.c` that drive them.
-/

namespace Qmk.Secure

open Qmk.Lib

inductive Status
  | locked
  | pending
  | unlocked
  deriving DecidableEq

structure Config where
  /-- `SECURE_UNLOCK_TIMEOUT`. -/
  unlockTimeout : Nat
  /-- `SECURE_IDLE_TIMEOUT`. -/
  idleTimeout : Nat
  /-- `SECURE_UNLOCK_SEQUENCE`, rows and columns. -/
  sequence : List (Nat × Nat)
  sequence_ne : sequence ≠ []

/-- `sequence_len` has eight bits. -/
def Config.sequenceLen (cfg : Config) : Nat := cfg.sequence.length % 256

structure State where
  secureStatus : Status
  unlockTime : BitVec 32
  idleTime : BitVec 32
  /-- The static variable of `secure_keypress_event`. -/
  offset : Nat
  /-- The presses handled since the status last went from locked to pending. -/
  presses : List (Nat × Nat)

def State.initial : State := ⟨.locked, 0, 0, 0, []⟩

variable (cfg : Config)

def secureLock (s : State) : State := { s with secureStatus := .locked }

def secureUnlock (now : BitVec 32) (s : State) : State :=
  { s with secureStatus := .unlocked, idleTime := now }

def secureRequestUnlock (now : BitVec 32) (s : State) : State :=
  if s.secureStatus = .locked then
    { s with secureStatus := .pending, unlockTime := now, presses := [] }
  else s

def secureActivityEvent (now : BitVec 32) (s : State) : State :=
  if s.secureStatus = .unlocked then { s with idleTime := now } else s

def secureKeypressEvent (row col : Nat) (now : BitVec 32) (s : State) : State :=
  let s := { s with presses := s.presses ++ [(row, col)] }
  if cfg.sequence[s.offset]? = some (row, col) then
    let s := { s with offset := (s.offset + 1) % 256 }
    if s.offset = cfg.sequenceLen then secureUnlock now { s with offset := 0 } else s
  else secureLock { s with offset := 0 }

def timerElapsed32 (now time : BitVec 32) : Nat := (now - time).toNat

def unlockTimeoutTask (now : BitVec 32) (s : State) : State :=
  if cfg.unlockTimeout ≠ 0 ∧ s.secureStatus = .pending ∧
      cfg.unlockTimeout ≤ timerElapsed32 now s.unlockTime then secureLock s
  else s

def idleTimeoutTask (now : BitVec 32) (s : State) : State :=
  if cfg.idleTimeout ≠ 0 ∧ s.secureStatus = .unlocked ∧
      cfg.idleTimeout ≤ timerElapsed32 now s.idleTime then secureLock s
  else s

def secureTask (now : BitVec 32) (s : State) : State :=
  idleTimeoutTask cfg now (unlockTimeoutTask cfg now s)

/-- Whether the record is processed any further, and the state. -/
def preprocessSecure (pressed : Bool) (row col : Nat) (now : BitVec 32) (s : State) :
    Bool × State :=
  if s.secureStatus = .pending then
    (false, if pressed = true then secureKeypressEvent cfg row col now s else s)
  else (true, s)

def qkSecureLock : Nat := 0x7C60
def qkSecureUnlock : Nat := 0x7C61
def qkSecureToggle : Nat := 0x7C62
def qkSecureRequest : Nat := 0x7C63

def processSecure (keycode : Nat) (pressed : Bool) (now : BitVec 32) (s : State) :
    Bool × State :=
  if pressed = true then (true, s)
  else if keycode = qkSecureLock then (false, secureLock s)
  else if keycode = qkSecureUnlock then (false, secureUnlock now s)
  else if keycode = qkSecureToggle then
    (false, if s.secureStatus = .locked then secureUnlock now s else secureLock s)
  else if keycode = qkSecureRequest then (false, secureRequestUnlock now s)
  else (true, s)

/-! ## Runs -/

inductive Input
  | lock
  | unlock (now : BitVec 32)
  | request (now : BitVec 32)
  | activity (now : BitVec 32)
  | preprocess (pressed : Bool) (row col : Nat) (now : BitVec 32)
  | process (keycode : Nat) (pressed : Bool) (now : BitVec 32)
  | task (now : BitVec 32)

def step (s : State) : Input → State
  | .lock => secureLock s
  | .unlock now => secureUnlock now s
  | .request now => secureRequestUnlock now s
  | .activity now => secureActivityEvent now s
  | .preprocess pressed row col now => (preprocessSecure cfg pressed row col now s).2
  | .process keycode pressed now => (processSecure keycode pressed now s).2
  | .task now => secureTask cfg now s

/-- An unlock by a key press comes at the end of the whole sequence. -/
def UnlocksBySequence (s : State) : Input → Prop
  | .preprocess pressed row col now =>
      s.secureStatus ≠ .unlocked →
        (step cfg s (.preprocess pressed row col now)).secureStatus = .unlocked →
          (step cfg s (.preprocess pressed row col now)).presses = cfg.sequence
  | _ => True

def Requests : Input → Prop
  | .request _ => True
  | .process keycode pressed _ => keycode = qkSecureRequest ∧ pressed = false
  | _ => False

/-- No request finds a sequence half entered. -/
def StartsOver (s : State) (input : Input) : Prop :=
  Requests input → s.secureStatus = .locked → s.offset = 0

variable {cfg}

/-! ## The sequence -/

/-- While the status is pending, the presses are the part of the sequence that the offset
counts. -/
def Inv (cfg : Config) (s : State) : Prop :=
  s.secureStatus = .pending →
    s.offset < cfg.sequence.length ∧ s.presses = cfg.sequence.take s.offset

theorem Inv.of_not_pending {s : State} (h : s.secureStatus ≠ .pending) : Inv cfg s :=
  fun hpending => absurd hpending h

theorem secureRequestUnlock_inv {s : State} (h : Inv cfg s) (now : BitVec 32)
    (hover : s.secureStatus = .locked → s.offset = 0) :
    Inv cfg (secureRequestUnlock now s) := by
  unfold secureRequestUnlock
  split
  · rename_i hlocked
    intro _
    simp only [hover hlocked, List.take_zero, and_true]
    exact List.length_pos_iff.mpr cfg.sequence_ne
  · exact h

theorem take_offset {s : State} {press : Nat × Nat} (hpresses : s.presses =
    cfg.sequence.take s.offset) (hkey : cfg.sequence[s.offset]? = some press) :
    s.presses ++ [press] = cfg.sequence.take (s.offset + 1) := by
  rw [hpresses, List.take_add_one, hkey]
  rfl

/-- A key press ends the pending state, or goes on with the sequence. -/
theorem secureKeypressEvent_cases {s : State} (hlen : cfg.sequence.length ≤ 256)
    (h : Inv cfg s) (hpending : s.secureStatus = .pending) (row col : Nat)
    (now : BitVec 32) :
    let s' := secureKeypressEvent cfg row col now s
    s'.secureStatus = .locked ∨
      s'.secureStatus = .unlocked ∧ s'.presses = cfg.sequence ∨
      s'.secureStatus = .pending ∧ Inv cfg s' := by
  obtain ⟨hoffset, hpresses⟩ := h hpending
  by_cases hkey : cfg.sequence[s.offset]? = some (row, col)
  · have hnext := take_offset hpresses hkey
    by_cases hend : s.offset + 1 = cfg.sequence.length
    · have hlast : (s.offset + 1) % 256 = cfg.sequenceLen := by
        rw [hend, Config.sequenceLen]
      simp only [secureKeypressEvent, if_pos hkey, if_pos hlast]
      rw [hend, List.take_length] at hnext
      exact .inr (.inl ⟨rfl, hnext⟩)
    · -- the offset does not wrap before the end of the sequence
      have hmod : (s.offset + 1) % 256 = s.offset + 1 := Nat.mod_eq_of_lt (by omega)
      have hmore : s.offset + 1 ≠ cfg.sequenceLen := by
        unfold Config.sequenceLen
        omega
      simp only [secureKeypressEvent, if_pos hkey, hmod, if_neg hmore]
      exact .inr (.inr ⟨hpending, fun _ => ⟨by simp only; omega, hnext⟩⟩)
  · simp only [secureKeypressEvent, if_neg hkey]
    exact .inl rfl

theorem secureKeypressEvent_inv {s : State} (hlen : cfg.sequence.length ≤ 256)
    (h : Inv cfg s) (hpending : s.secureStatus = .pending) (row col : Nat)
    (now : BitVec 32) : Inv cfg (secureKeypressEvent cfg row col now s) := by
  rcases secureKeypressEvent_cases hlen h hpending row col now with
    hlocked | ⟨hunlocked, -⟩ | ⟨-, hinv⟩
  · exact .of_not_pending (by rw [hlocked]; decide)
  · exact .of_not_pending (by rw [hunlocked]; decide)
  · exact hinv

theorem secureTask_inv {s : State} (h : Inv cfg s) (now : BitVec 32) :
    Inv cfg (secureTask cfg now s) := by
  have hlock (s' : State) (hinv : Inv cfg s') : Inv cfg (idleTimeoutTask cfg now s') := by
    unfold idleTimeoutTask
    split
    · exact .of_not_pending (by simp [secureLock])
    · exact hinv
  refine hlock _ ?_
  unfold unlockTimeoutTask
  split
  · exact .of_not_pending (by simp [secureLock])
  · exact h

theorem processSecure_inv {s : State} {keycode : Nat} {pressed : Bool} {now : BitVec 32}
    (h : Inv cfg s) (hover : StartsOver s (.process keycode pressed now)) :
    Inv cfg (processSecure keycode pressed now s).2 := by
  unfold processSecure
  split
  · exact h
  · split
    · exact .of_not_pending (by simp [secureLock])
    · split
      · exact .of_not_pending (by simp [secureUnlock])
      · split
        · split
          · exact .of_not_pending (by simp [secureUnlock])
          · exact .of_not_pending (by simp [secureLock])
        · split
          · rename_i hpressed _ _ _ hkeycode
            exact secureRequestUnlock_inv h now (hover ⟨hkeycode, Bool.not_eq_true _ ▸ hpressed⟩)
          · exact h

theorem step_inv {s : State} {input : Input} (hlen : cfg.sequence.length ≤ 256)
    (h : Inv cfg s) (hover : StartsOver s input) : Inv cfg (step cfg s input) := by
  cases input with
  | lock => exact .of_not_pending (by simp [step, secureLock])
  | unlock now => exact .of_not_pending (by simp [step, secureUnlock])
  | request now => exact secureRequestUnlock_inv h now (hover trivial)
  | activity now =>
      rw [step, secureActivityEvent]
      split
      · exact h
      · exact h
  | preprocess pressed row col now =>
      rw [step, preprocessSecure]
      split
      · rename_i hpending
        cases pressed with
        | true => exact secureKeypressEvent_inv hlen h hpending row col now
        | false => exact h
      · exact h
  | process keycode pressed now => exact processSecure_inv h hover
  | task now => exact secureTask_inv h now

theorem step_unlocksBySequence {s : State} {input : Input}
    (hlen : cfg.sequence.length ≤ 256) (h : Inv cfg s) : UnlocksBySequence cfg s input := by
  cases input with
  | preprocess pressed row col now =>
      intro hbefore hafter
      rw [step, preprocessSecure] at hafter ⊢
      split at hafter
      · rename_i hpending
        rw [if_pos hpending]
        cases pressed with
        | true =>
            rcases secureKeypressEvent_cases hlen h hpending row col now with
              hlocked | ⟨-, hsequence⟩ | ⟨hstill, -⟩
            · exact absurd (hlocked.symm.trans hafter) (by decide)
            · exact hsequence
            · exact absurd (hstill.symm.trans hafter) (by decide)
        | false => exact absurd hafter hbefore
      · exact absurd hafter hbefore
  | _ => trivial

/-- Unlocking by key presses takes the whole sequence, pressed since the request. -/
theorem secure_unlocksBySequence (hlen : cfg.sequence.length ≤ 256) {inputs : List Input}
    (h : Meets (step cfg) StartsOver .initial inputs) :
    Meets (step cfg) (UnlocksBySequence cfg) .initial inputs :=
  h.imp_of_invariant (Inv cfg) (fun _ _ => step_inv hlen)
    (fun _ _ hinv _ => step_unlocksBySequence hlen hinv) (.of_not_pending (by decide))

/-! ## A sequence that is half entered at the time-out -/

def twoKeys : Config where
  unlockTimeout := 5000
  idleTimeout := 60000
  sequence := [(0, 1), (0, 2)]
  sequence_ne := by decide

theorem twoKeys_unlocked :
    Meets (step twoKeys) (UnlocksBySequence twoKeys) .initial
        [.request 0, .preprocess true 0 1 100, .preprocess true 0 2 200] ∧
      (run (step twoKeys) .initial
        [.request 0, .preprocess true 0 1 100, .preprocess true 0 2 200]).secureStatus =
          .unlocked := by
  refine ⟨secure_unlocksBySequence (by decide) ⟨?_, ?_, ?_, trivial⟩, by decide⟩
  · exact fun _ _ => rfl
  · exact fun hrequests => hrequests.elim
  · exact fun hrequests => hrequests.elim

theorem twoKeys_resumed :
    ¬Meets (step twoKeys) (UnlocksBySequence twoKeys) .initial
      [.request 0, .preprocess true 0 1 100, .task 5000, .request 6000,
        .preprocess true 0 2 6100] := by
  intro h
  exact absurd (h.2.2.2.2.1 (by decide) (by decide)) (by decide)

end Qmk.Secure
