import Mathlib.Data.List.Pairwise
import Mathlib.Tactic.SplitIfs
import Qmk.MouseKeys.Acceleration

/-!
# One held movement key

A hold is the press of a movement key, with no other on its way, and what happens until its
release.  The speeds and units of its tasks follow the promised curve exactly when the
condition of `accelerates_iff` holds.
-/

namespace Qmk.MouseKeys

open Qmk.Lib

section Held

variable {cfg : Config} {now : Nat} {s t : State}

/-- The report moves the cursor the way of the key, and no other. -/
def Report.MovesBy (r : Report) : Keycode → Prop
  | .cursorUp => r.x = 0 ∧ r.y < 0
  | .cursorDown => r.x = 0 ∧ 0 < r.y
  | .cursorLeft => r.x < 0 ∧ r.y = 0
  | .cursorRight => 0 < r.x ∧ r.y = 0
  | _ => False

structure HeldBy (key : Keycode) (s : State) : Prop where
  moves : s.mouseReport.MovesBy key
  accel : s.mousekeyAccel = 0

/-- What may happen while the key is held: no other movement key is pressed, nor an
acceleration key. -/
def Event.Keeps (key : Keycode) : Event → Prop
  | .register code true => code.isMove = false ∧ code.isAccel = false
  | .register code false => code ≠ key
  | .clear => False
  | .task => True

theorem Report.MovesBy.ne_zero {r : Report} {key : Keycode} (h : r.MovesBy key) :
    r.x ≠ 0 ∨ r.y ≠ 0 := by
  cases key <;> simp [Report.MovesBy] at h <;> omega

theorem HeldBy.of_same {key : Keycode} (hs : HeldBy key s) (hsame : SameCursor t s) :
    HeldBy key t := by
  obtain ⟨hx, hy, haccel, -, -⟩ := hsame
  have hmoves := hs.moves
  constructor
  · cases key <;> simp_all [Report.MovesBy]
  · rw [haccel, hs.accel]

theorem pressKey_same (cfg : Config) (now : Nat) (s : State) {code : Keycode}
    (hmove : code.isMove = false) (haccel : code.isAccel = false) : SameCursor (pressKey cfg now code s) s := by
  cases code <;> simp_all [Keycode.isMove, Keycode.isAccel] <;> exact ⟨rfl, rfl, rfl, rfl, rfl⟩

/-- The report does not move the way of the other key, so its release changes nothing. -/
theorem releaseKey_other {key code : Keycode} (hs : s.mouseReport.MovesBy key)
    (hcode : code ≠ key) (hmove : code.isMove = true) : releaseKey code s = s := by
  cases code <;> simp only [Keycode.isMove, Bool.false_eq_true] at hmove <;>
    cases key <;> simp only [Report.MovesBy, ne_eq, not_true_eq_false] at hs hcode <;>
    exact if_neg (by omega)

theorem releaseKey_not_move {code : Keycode} (hmove : code.isMove = false) :
    (releaseKey code s).mouseReport.x = s.mouseReport.x ∧
      (releaseKey code s).mouseReport.y = s.mouseReport.y ∧
      (releaseKey code s).mouseTimer = s.mouseTimer ∧
      (s.mousekeyAccel = 0 → (releaseKey code s).mousekeyAccel = 0) := by
  cases code <;> simp only [Keycode.isMove, Bool.true_eq_false] at hmove
  case button n => exact ⟨rfl, rfl, rfl, id⟩
  case acceleration n => exact ⟨rfl, rfl, rfl, fun h => by simp [releaseKey, h]⟩
  all_goals
    simp only [releaseKey]
    split <;> exact ⟨rfl, rfl, rfl, id⟩

theorem heldBy_releaseKey {key code : Keycode} (hs : HeldBy key s) (hcode : code ≠ key) :
    HeldBy key (releaseKey code s) ∧ (releaseKey code s).mouseTimer = s.mouseTimer := by
  cases hmove : code.isMove
  case true =>
    rw [releaseKey_other hs.moves hcode hmove]
    exact ⟨hs, rfl⟩
  case false =>
    obtain ⟨hx, hy, htimer, haccel⟩ := releaseKey_not_move (s := s) hmove
    refine ⟨⟨?_, haccel hs.accel⟩, htimer⟩
    have hmoves := hs.moves
    cases key <;> simp_all [Report.MovesBy]

/-- While the key is held, no release resets the movement. -/
theorem heldBy_mousekeyOff {key code : Keycode} (hs : HeldBy key s) (hcode : code ≠ key) :
    HeldBy key (mousekeyOff code s) ∧ (mousekeyOff code s).mouseTimer = s.mouseTimer := by
  obtain ⟨hheld, htimer⟩ := heldBy_releaseKey hs hcode
  have hne : ¬((releaseKey code s).mouseReport.x = 0 ∧
      (releaseKey code s).mouseReport.y = 0) := by
    exact fun ⟨hx, hy⟩ => hheld.moves.ne_zero.elim (· hx) (· hy)
  simp only [mousekeyOff, if_neg hne]
  split
  · exact ⟨⟨hheld.moves, hheld.accel⟩, htimer⟩
  · exact ⟨hheld, htimer⟩

theorem heldBy_mousekeyOn {key code : Keycode} (hs : HeldBy key s)
    (hmove : code.isMove = false) (haccel : code.isAccel = false) :
    HeldBy key (mousekeyOn cfg now code s) ∧
      (s.mouseTimer ≠ 0 → (mousekeyOn cfg now code s).mouseTimer = s.mouseTimer) := by
  have hsame := pressKey_same cfg now (startTimer now code s) hmove haccel
  have hstart : HeldBy key (startTimer now code s) := by
    unfold startTimer
    split
    · exact ⟨hs.moves, hs.accel⟩
    · exact hs
  constructor
  · exact hstart.of_same hsame
  · intro htimer
    rw [mousekeyOn, hsame.timer, startTimer, if_neg (fun h => htimer h.1)]

theorem bumpRepeat_frame (s : State) :
    (bumpRepeat s).mousekeyAccel = s.mousekeyAccel ∧
      (bumpRepeat s).mouseTimer = s.mouseTimer := by
  unfold bumpRepeat
  split <;> exact ⟨rfl, rfl⟩

theorem moveTask_eq (cfg : Config) (now : Nat) (tmpmr : Report) (s : State) :
    ∃ report, moveTask cfg now tmpmr s = { bumpRepeat s with mouseReport := report } := by
  simp only [moveTask]
  split_ifs <;> exact ⟨_, rfl⟩

theorem cursorTask_frame (cfg : Config) (now : Nat) (s : State) :
    (cursorTask cfg now s).mousekeyAccel = s.mousekeyAccel ∧
      (cursorTask cfg now s).mouseTimer = s.mouseTimer := by
  simp only [cursorTask]
  split
  · obtain ⟨report, heq⟩ := moveTask_eq cfg now s.mouseReport
      { s with mouseReport := { buttons := s.mouseReport.buttons } }
    rw [heq]
    exact bumpRepeat_frame { s with mouseReport := { buttons := s.mouseReport.buttons } }
  · exact ⟨rfl, rfl⟩

theorem taskReport_same (cfg : Config) (now : Nat) (s : State) :
    SameCursor (taskReport cfg now s) (cursorTask cfg now s) := by
  unfold taskReport
  split
  · exact wheelTask_same _ _
  · exact SameCursor.refl _

@[simp] theorem mousekeyTask_mouseReport :
    (mousekeyTask cfg now s).1.mouseReport = s.mouseReport := by
  simp only [mousekeyTask]
  split <;> rfl

/-- Apart from the report, `mousekey_task` leaves the cursor as `cursorTask` does. -/
theorem mousekeyTask_frame (cfg : Config) (now : Nat) (s : State) :
    (mousekeyTask cfg now s).1.mousekeyAccel = s.mousekeyAccel ∧
      (mousekeyTask cfg now s).1.mouseTimer = s.mouseTimer ∧
      (mousekeyTask cfg now s).1.mousekeyRepeat = (cursorTask cfg now s).mousekeyRepeat := by
  obtain ⟨-, -, haccel, hrep, htimer⟩ := taskReport_same cfg now s
  obtain ⟨haccel', htimer'⟩ := cursorTask_frame cfg now s
  obtain ⟨-, -, hsent, hsent', hsent''⟩ := mousekeySend_same now (taskReport cfg now s)
  simp only [mousekeyTask]
  split
  · exact ⟨hsent.trans (haccel.trans haccel'), hsent''.trans (htimer.trans htimer'),
      hsent'.trans hrep⟩
  · exact ⟨haccel.trans haccel', htimer.trans htimer', hrep⟩

/-- What may happen during a hold keeps the movement, and the timer once it runs. -/
theorem heldBy_step {key : Keycode} (hs : HeldBy key s) (event : Event)
    (hevent : event.Keeps key) :
    HeldBy key (step cfg s (now, event)) ∧
      (s.mouseTimer ≠ 0 → (step cfg s (now, event)).mouseTimer = s.mouseTimer) := by
  cases event with
  | clear => exact hevent.elim
  | task =>
      obtain ⟨haccel, htimer, -⟩ := mousekeyTask_frame cfg now s
      refine ⟨⟨?_, haccel.trans hs.accel⟩, fun _ => htimer⟩
      simpa only [step, mousekeyTask_mouseReport] using hs.moves
  | register code pressed =>
      have hkey : HeldBy key (if pressed then mousekeyOn cfg now code s else mousekeyOff code s) ∧
          (s.mouseTimer ≠ 0 →
            (if pressed then mousekeyOn cfg now code s else mousekeyOff code s).mouseTimer =
              s.mouseTimer) := by
        cases pressed with
        | true => exact heldBy_mousekeyOn hs hevent.1 hevent.2
        | false => exact ⟨(heldBy_mousekeyOff hs hevent).1, fun _ => (heldBy_mousekeyOff hs hevent).2⟩
      have hsame := mousekeySend_same now
        (if pressed then mousekeyOn cfg now code s else mousekeyOff code s)
      simp only [step, registerMouse]
      split
      · exact hkey
      · exact ⟨hkey.1.of_same hsame, fun h => hsame.timer.trans (hkey.2 h)⟩

end Held

end Qmk.MouseKeys
