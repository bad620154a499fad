import Mathlib.Data.List.Basic
import Mathlib.Data.List.Pairwise
import Mathlib.Data.List.Nodup
import Qmk.Audio.Tones

/-!
# The requested tones

What the tone stack is for: the most recent request for each pitch, the oldest first, until it is
stopped, evicted by newer ones or out of time.
-/

namespace Qmk.Audio

/-- The most recent request to play a pitch, with the time it was made. -/
structure Request where
  pitch : Int
  started : Nat
  duration : Nat
  deriving DecidableEq

/-- The durations that run out. -/
def finite (duration : Nat) : Bool := duration ≠ 0 && duration ≠ 0xffff

/-- The request has run out.  Beyond a minute the timer of sixteen bits decides. -/
def Request.over (now : Nat) (r : Request) : Bool :=
  finite r.duration &&
    if r.duration ≤ 60000 then r.started + r.duration ≤ now
    else r.duration ≤ timerElapsed now (timerRead r.started)

namespace Requests

def stop (pitch : Int) (requests : List Request) : List Request :=
  requests.filter fun r => r.pitch ≠ pitch

/-- The request goes to the top; one tone too many and the oldest goes. -/
def play (size : Nat) (r : Request) (requests : List Request) : List Request :=
  let requests := stop r.pitch requests ++ [r]
  if requests.length > size then requests.tail else requests

def expire (now : Nat) (requests : List Request) : List Request :=
  requests.filter fun r => !r.over now

/-- Distinct pitches in the order of their most recent requests, none of them in the future. -/
structure Ordered (time : Nat) (requests : List Request) : Prop where
  distinct : (requests.map Request.pitch).Nodup
  ordered : requests.Pairwise fun first second => first.started ≤ second.started
  past : ∀ r ∈ requests, r.started ≤ time

theorem Ordered.sublist {time : Nat} {requests rest : List Request} (h : Ordered time requests)
    (hsub : rest.Sublist requests) : Ordered time rest where
  distinct := h.distinct.sublist (hsub.map _)
  ordered := h.ordered.sublist hsub
  past r hr := h.past r (hsub.subset hr)

theorem Ordered.later {time now : Nat} {requests : List Request} (h : Ordered time requests)
    (hle : time ≤ now) : Ordered now requests where
  distinct := h.distinct
  ordered := h.ordered
  past r hr := Nat.le_trans (h.past r hr) hle

theorem play_sublist (size : Nat) (r : Request) (requests : List Request) :
    (play size r requests).Sublist (stop r.pitch requests ++ [r]) := by
  unfold play
  dsimp only
  split
  · exact List.tail_sublist _
  · exact List.Sublist.refl _

theorem Ordered.play {time now : Nat} {requests : List Request} (h : Ordered time requests)
    (size : Nat) {r : Request} (hle : time ≤ now) (hr : r.started = now) :
    Ordered now (play size r requests) := by
  have hstop : Ordered time (stop r.pitch requests) := h.sublist List.filter_sublist
  have hnew : r.pitch ∉ (stop r.pitch requests).map Request.pitch := by
    simp [stop]
  apply Ordered.sublist _ (play_sublist size r requests)
  constructor
  · rw [List.map_append, List.nodup_append]
    refine ⟨hstop.distinct, List.nodup_singleton _, ?_⟩
    rintro pitch hpitch other hother rfl
    rw [List.map_singleton, List.mem_singleton] at hother
    exact hnew (hother ▸ hpitch)
  · rw [List.pairwise_append]
    refine ⟨hstop.ordered, List.pairwise_singleton _ _, ?_⟩
    intro first hfirst second hsecond
    rw [List.mem_singleton.mp hsecond, hr]
    exact Nat.le_trans (hstop.past first hfirst) hle
  · intro other hother
    rcases List.mem_append.mp hother with hold | hnewest
    · exact Nat.le_trans (hstop.past other hold) hle
    · exact Nat.le_of_eq (by rw [List.mem_singleton.mp hnewest, hr])

end Requests

end Qmk.Audio
