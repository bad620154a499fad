import Qmk.Lib.Run
import Mathlib.Algebra.Group.Nat.Defs
import Mathlib.Data.List.Basic
import Mathlib.Logic.Function.Basic

/-!
# The hits that reactive effects remember

The hit buffer of `rgb_matrix.c`, and of `led_matrix.c`, which has the same code.  A hit that
expires is the oldest one, and the newest one is taken off for it.  A buffer that gets too full
loses as many hits as there are new ones, whether it was full or not.
-/

namespace Qmk.RgbMatrix

open Qmk.Lib

/-! ## The code -/

/-- `last_hit_t`. -/
structure LastHit where
  count : Nat
  x : Nat → Nat
  y : Nat → Nat
  index : Nat → Nat
  tick : Nat → Nat

/-- Which events are looked up: `keyReleases` is `RGB_MATRIX_KEYRELEASES`. -/
inductive Reactive where
  | keyPresses
  | keyReleases

/-- The configuration of a keyboard, with the LEDs of its keys. -/
structure Reacting where
  hitsToRemember : Nat
  split : Bool
  reactive : Reactive
  point : Nat → Nat × Nat
  mapRowColumnToLed : Nat → Nat → List Nat
  hitsToRemember_pos : 0 < hitsToRemember
  hitsToRemember_le : hitsToRemember ≤ 255
  map_length : ∀ row col, (mapRowColumnToLed row col).length ≤ hitsToRemember

namespace LastHit

def empty : LastHit := ⟨0, fun _ => 0, fun _ => 0, fun _ => 0, fun _ => 0⟩

/-- `memcpy(&a[0], &a[n], size - n)`, copying upwards. -/
def moveDown (n size : Nat) (a : Nat → Nat) : Nat → Nat :=
  fun i => if i < size - n then a (i + n) else a i

def makeRoom (ledCount size : Nat) (b : LastHit) : LastHit where
  x := moveDown ledCount size b.x
  y := moveDown ledCount size b.y
  tick := moveDown ledCount size b.tick
  index := moveDown ledCount size b.index
  count := size - ledCount

def record (point : Nat → Nat × Nat) (b : LastHit) (led : Nat) : LastHit where
  x := Function.update b.x b.count (point led).1
  y := Function.update b.y b.count (point led).2
  index := Function.update b.index b.count led
  tick := Function.update b.tick b.count 0
  count := (b.count + 1) % 256

/-- The body of the loop of `rgb_task_timers`; the time is unsigned and has 32 bits. -/
def ageHit (deltaTime : Nat) (b : LastHit) (i : Nat) : LastHit :=
  if (2 ^ 32 + 65535 - deltaTime) % 2 ^ 32 < b.tick i then
    { b with count := b.count - 1 }
  else
    { b with tick := Function.update b.tick i ((b.tick i + deltaTime) % 65536) }

end LastHit

namespace Reacting

variable (c : Reacting)

/-- The LEDs of an event. -/
def ledsOf (row col : Nat) (pressed : Bool) : List Nat :=
  match c.reactive with
  | .keyReleases => if !pressed then c.mapRowColumnToLed row col else []
  | .keyPresses => if pressed then c.mapRowColumnToLed row col else []

/-- What an event brings, unless it is ignored on a board that is not the master. -/
def hitsOf (row col : Nat) (pressed master : Bool) : List Nat :=
  if !c.split && !master then [] else c.ledsOf row col pressed

def handleKeyEvent (row col : Nat) (pressed master : Bool) (b : LastHit) : LastHit :=
  if !c.split && !master then b
  else
    let led := c.ledsOf row col pressed
    let b := if b.count + led.length > c.hitsToRemember then
      b.makeRoom led.length c.hitsToRemember else b
    led.foldl (LastHit.record c.point) b

/-- A hit, with the time at which it was recorded and that of the task before it. -/
structure Hit where
  led : Nat
  recordedAt : Nat
  tickedAt : Nat
  deriving DecidableEq

/-- The buffer and its timer, and what is seen from outside: the time, the time of the last task
and all hits, oldest first. -/
structure State where
  now : Nat
  timerBuffer : Nat
  buffer : LastHit
  lastTask : Nat
  history : List Hit

def initial : State := ⟨0, 0, .empty, 0, []⟩

def taskTimers (s : State) : State :=
  let deltaTime := (2 ^ 32 + s.now % 2 ^ 32 - s.timerBuffer) % 2 ^ 32
  { s with
    timerBuffer := s.now % 2 ^ 32
    buffer := (List.range s.buffer.count).foldl (LastHit.ageHit deltaTime) s.buffer
    lastTask := s.now }

inductive Input where
  | elapse (ms : Nat)
  | key (row col : Nat) (pressed master : Bool)
  | task

def step (s : State) : Input → State
  | .elapse ms => { s with now := s.now + ms }
  | .key row col pressed master =>
      { s with
        buffer := c.handleKeyEvent row col pressed master s.buffer
        history := s.history ++
          (c.hitsOf row col pressed master).map fun led => ⟨led, s.now, s.lastTask⟩ }
  | .task => taskTimers s

/-! ## What the buffer should hold -/

/-- A hit as the buffer has it. -/
structure Entry where
  x : Nat
  y : Nat
  index : Nat
  tick : Nat
  deriving DecidableEq

def entryAt (b : LastHit) (i : Nat) : Entry := ⟨b.x i, b.y i, b.index i, b.tick i⟩

def entries (b : LastHit) : List Entry := (List.range b.count).map (entryAt b)

/-- The hits whose age is below the maximum of 16 bits. -/
def young (since : Hit → Nat) (s : State) : List Hit :=
  s.history.filter fun h => s.lastTask - since h < 65535

/-- The last of them. -/
def remembered (since : Hit → Nat) (s : State) : List Hit :=
  (young since s).drop ((young since s).length - c.hitsToRemember)

def entryOf (since : Hit → Nat) (s : State) (h : Hit) : Entry :=
  ⟨(c.point h.led).1, (c.point h.led).2, h.led, s.lastTask - since h⟩

/-- The buffer holds the most recent hits, with the time that has passed since they were recorded. -/
def Exact (since : Hit → Nat) (s : State) : Prop :=
  entries s.buffer = (c.remembered since s).map (c.entryOf since s)

instance (since : Hit → Nat) (s : State) : Decidable (c.Exact since s) :=
  inferInstanceAs (Decidable (_ = _))

/-- New hits find room, or a full buffer, or replace everything.  A task that follows the last one
within 65535 ms lets all hits grow older, or expire. -/
def Regular (s : State) : Input → Prop
  | .elapse _ => True
  | .key row col pressed master =>
      let new := (c.hitsOf row col pressed master).length
      s.buffer.count + new ≤ c.hitsToRemember ∨ s.buffer.count = c.hitsToRemember ∨
        new = c.hitsToRemember
  | .task =>
      c.remembered Hit.tickedAt s = [] ∨
        s.now - s.lastTask ≤ 65535 ∧
          ((∀ h ∈ c.remembered Hit.tickedAt s, s.now - h.tickedAt < 65535) ∨
            ∀ h ∈ c.remembered Hit.tickedAt s, 65535 < s.now - h.tickedAt)

/-! ## The operations on the buffer -/

variable {c}

@[simp] theorem length_entries (b : LastHit) : (entries b).length = b.count := by simp [entries]

theorem entries_record {b : LastHit} (led : Nat) (hcount : b.count < 255) :
    entries (b.record c.point led) =
      entries b ++ [⟨(c.point led).1, (c.point led).2, led, 0⟩] := by
  have hnext : (b.record c.point led).count = b.count + 1 := Nat.mod_eq_of_lt (by omega)
  have hnew : entryAt (b.record c.point led) b.count =
      ⟨(c.point led).1, (c.point led).2, led, 0⟩ := by
    simp [entryAt, LastHit.record]
  rw [entries, hnext, List.range_succ, List.map_append, List.map_singleton, hnew]
  congr 1
  refine List.map_congr_left fun i hi => ?_
  have hne : i ≠ b.count := Nat.ne_of_lt (List.mem_range.mp hi)
  simp [entryAt, LastHit.record, hne]

theorem entries_foldl_record (led : List Nat) {b : LastHit} (hroom : b.count + led.length ≤ 255) :
    entries (led.foldl (LastHit.record c.point) b) =
      entries b ++ led.map fun led => ⟨(c.point led).1, (c.point led).2, led, 0⟩ := by
  induction led generalizing b with
  | nil => simp
  | cons first rest ih =>
      rw [List.length_cons] at hroom
      have hrecord : entries (b.record c.point first) =
          entries b ++ [⟨(c.point first).1, (c.point first).2, first, 0⟩] :=
        entries_record first (by omega)
      have hcount : (b.record c.point first).count = b.count + 1 := by
        rw [← length_entries, hrecord]
        simp
      rw [List.foldl_cons, ih (by omega), hrecord, List.map_cons, List.append_assoc]
      rfl

theorem entries_makeRoom {b : LastHit} {n size : Nat} (hfull : b.count = size) :
    entries (b.makeRoom n size) = (entries b).drop n := by
  apply List.ext_getElem
  · simp [LastHit.makeRoom, hfull]
  · intro i hi _
    have hmoved : i < size - n := by simpa [LastHit.makeRoom] using hi
    simp [entries, entryAt, LastHit.makeRoom, LastHit.moveDown, hmoved, Nat.add_comm i n]

theorem length_hitsOf (c : Reacting) (row col : Nat) (pressed master : Bool) :
    (c.hitsOf row col pressed master).length ≤ c.hitsToRemember := by
  have hmap := c.map_length row col
  unfold hitsOf ledsOf
  split
  · simp
  · split <;> split <;> simp [hmap]

/-- A key event drops the oldest hits of a full buffer. -/
theorem entries_handleKeyEvent {row col : Nat} {pressed master : Bool} {b : LastHit}
    (hcount : b.count ≤ c.hitsToRemember)
    (hroom : b.count + (c.hitsOf row col pressed master).length ≤ c.hitsToRemember ∨
      b.count = c.hitsToRemember ∨
        (c.hitsOf row col pressed master).length = c.hitsToRemember) :
    entries (c.handleKeyEvent row col pressed master b) =
      (entries b).drop
          (b.count + (c.hitsOf row col pressed master).length - c.hitsToRemember) ++
        (c.hitsOf row col pressed master).map
          fun led => ⟨(c.point led).1, (c.point led).2, led, 0⟩ := by
  have hsize := c.hitsToRemember_le
  have hlength := c.length_hitsOf row col pressed master
  unfold handleKeyEvent
  by_cases hignored : (!c.split && !master) = true
  · have hnone : c.hitsOf row col pressed master = [] := if_pos hignored
    rw [if_pos hignored, hnone, List.map_nil, List.append_nil, List.length_nil, Nat.add_zero,
      Nat.sub_eq_zero_of_le hcount, List.drop_zero]
  · have hleds : c.hitsOf row col pressed master = c.ledsOf row col pressed := if_neg hignored
    rw [hleds] at hroom hlength ⊢
    rw [if_neg hignored]
    by_cases hover : b.count + (c.ledsOf row col pressed).length > c.hitsToRemember
    · simp only [if_pos hover]
      rw [entries_foldl_record _ (by simp only [LastHit.makeRoom]; omega)]
      congr 1
      rcases hroom with hroom | hfull | hall
      · omega
      · rw [entries_makeRoom hfull, hfull, Nat.add_sub_cancel_left]
      · -- every slot is new
        rw [List.drop_eq_nil_of_le (by rw [length_entries]; omega), hall]
        simp [entries, LastHit.makeRoom]
    · simp only [if_neg hover]
      have hdrop : b.count + (c.ledsOf row col pressed).length - c.hitsToRemember = 0 := by omega
      rw [entries_foldl_record _ (by omega), hdrop, List.drop_zero]

theorem foldl_ageHit_of_young {deltaTime : Nat} {b : LastHit} (n : Nat)
    (h : ∀ i < n, b.tick i ≤ (2 ^ 32 + 65535 - deltaTime) % 2 ^ 32) :
    (List.range n).foldl (LastHit.ageHit deltaTime) b =
      { b with tick := fun i => if i < n then (b.tick i + deltaTime) % 65536 else b.tick i } := by
  induction n with
  | zero => simp
  | succ n ih =>
      rw [List.range_succ, List.foldl_append, ih fun i hi => h i (Nat.lt_succ_of_lt hi),
        List.foldl_cons, List.foldl_nil, LastHit.ageHit]
      have hyoung := h n (Nat.lt_succ_self n)
      simp only [Nat.lt_irrefl, if_false, if_neg (Nat.not_lt.mpr hyoung)]
      congr 1
      funext i
      by_cases hi : i = n
      · rw [hi, Function.update_self, if_pos (Nat.lt_succ_self n)]
      · rw [Function.update_of_ne hi]
        have hiff : i < n ↔ i < n + 1 := by omega
        simp only [hiff]

theorem foldl_ageHit_of_expired {deltaTime : Nat} {b : LastHit} (n : Nat)
    (h : ∀ i < n, (2 ^ 32 + 65535 - deltaTime) % 2 ^ 32 < b.tick i) :
    (List.range n).foldl (LastHit.ageHit deltaTime) b = { b with count := b.count - n } := by
  induction n with
  | zero => rfl
  | succ n ih =>
      rw [List.range_succ, List.foldl_append, ih fun i hi => h i (Nat.lt_succ_of_lt hi),
        List.foldl_cons, List.foldl_nil, LastHit.ageHit, if_pos (h n (Nat.lt_succ_self n))]
      rfl

theorem entries_foldl_ageHit {deltaTime : Nat} {b : LastHit} (hdelta : deltaTime ≤ 65535)
    (h : ∀ e ∈ entries b, e.tick + deltaTime ≤ 65535) :
    entries ((List.range b.count).foldl (LastHit.ageHit deltaTime) b) =
      (entries b).map fun e => { e with tick := e.tick + deltaTime } := by
  have htick (i : Nat) (hi : i < b.count) : b.tick i + deltaTime ≤ 65535 :=
    h _ (List.mem_map_of_mem (List.mem_range.mpr hi))
  have hlimit : (2 ^ 32 + 65535 - deltaTime) % 2 ^ 32 = 65535 - deltaTime := by omega
  have hloop := foldl_ageHit_of_young (b := b) b.count fun i hi => show b.tick i ≤
    (2 ^ 32 + 65535 - deltaTime) % 2 ^ 32 by
    have hle := htick i hi
    omega
  rw [hloop, entries, entries, List.map_map]
  refine List.map_congr_left fun i hi => ?_
  have hlt := List.mem_range.mp hi
  have hle := htick i hlt
  simp only [entryAt, if_pos hlt, Function.comp_apply, Entry.mk.injEq, true_and]
  omega

theorem entries_foldl_ageHit_of_expired {deltaTime : Nat} {b : LastHit}
    (hdelta : deltaTime ≤ 65535) (h : ∀ e ∈ entries b, 65535 < e.tick + deltaTime) :
    entries ((List.range b.count).foldl (LastHit.ageHit deltaTime) b) = [] := by
  have hlimit : (2 ^ 32 + 65535 - deltaTime) % 2 ^ 32 = 65535 - deltaTime := by omega
  have hloop := foldl_ageHit_of_expired (b := b) b.count fun i hi => show
    (2 ^ 32 + 65535 - deltaTime) % 2 ^ 32 < b.tick i by
    have hlt := h _ (List.mem_map_of_mem (List.mem_range.mpr hi))
    simp only [entryAt] at hlt
    omega
  rw [hloop, entries, Nat.sub_self]
  rfl

/-! ## The hits that should be remembered -/

theorem length_remembered (since : Hit → Nat) (s : State) :
    (c.remembered since s).length = min (young since s).length c.hitsToRemember := by
  rw [remembered, List.length_drop]
  omega

/-- A filter that keeps the end of a list keeps its end. -/
theorem drop_filter_of_forall {α : Type} {l : List α} {p : α → Bool} (size : Nat)
    (h : ∀ a ∈ l.drop (l.length - size), p a = true) :
    (l.filter p).drop ((l.filter p).length - size) = l.drop (l.length - size) := by
  have hsplit : l.filter p = (l.take (l.length - size)).filter p ++ l.drop (l.length - size) := by
    conv_lhs => rw [← List.take_append_drop (l.length - size) l]
    rw [List.filter_append, List.filter_eq_self.mpr h]
  by_cases hfull : size ≤ l.length
  · have hlength : (l.drop (l.length - size)).length = size := by
      rw [List.length_drop]
      omega
    rw [hsplit, List.length_append, hlength, Nat.add_sub_cancel, List.drop_left]
  · have hzero : l.length - size = 0 := by omega
    rw [hzero, List.drop_zero] at h ⊢
    rw [List.filter_eq_self.mpr h, hzero, List.drop_zero]

/-- What holds between two steps. -/
structure Inv (c : Reacting) (s : State) : Prop where
  exact : c.Exact Hit.tickedAt s
  timer : s.timerBuffer = s.lastTask % 2 ^ 32
  past : s.lastTask ≤ s.now
  sorted : s.history.Pairwise fun h h' => h.tickedAt ≤ h'.tickedAt
  ticked : ∀ h ∈ s.history, h.tickedAt ≤ s.lastTask

theorem Inv.count_eq {s : State} (hs : Inv c s) :
    s.buffer.count = (c.remembered Hit.tickedAt s).length := by
  rw [← length_entries, hs.exact, List.length_map]

theorem Inv.count_le {s : State} (hs : Inv c s) : s.buffer.count ≤ c.hitsToRemember := by
  rw [hs.count_eq, length_remembered]
  exact Nat.min_le_right _ _

theorem mem_history_of_mem_remembered {since : Hit → Nat} {s : State} {h : Hit}
    (hh : h ∈ c.remembered since s) : h ∈ s.history :=
  List.mem_of_mem_filter (List.mem_of_mem_drop hh)

theorem initial_inv : Inv c initial where
  exact := by simp [Exact, entries, remembered, young, initial, LastHit.empty]
  timer := rfl
  past := Nat.le_refl 0
  sorted := List.Pairwise.nil
  ticked _ hh := absurd hh List.not_mem_nil

theorem key_exact {s : State} (hs : Inv c s) (row col : Nat) (pressed master : Bool)
    (hregular : c.Regular s (.key row col pressed master)) :
    c.Exact Hit.tickedAt (c.step s (.key row col pressed master)) := by
  have hcount := hs.count_eq
  rw [length_remembered] at hcount
  have hlength := c.length_hitsOf row col pressed master
  -- the new hits have no age yet
  have hyoung : young Hit.tickedAt (c.step s (.key row col pressed master)) =
      young Hit.tickedAt s ++
        (c.hitsOf row col pressed master).map fun led => ⟨led, s.now, s.lastTask⟩ := by
    simp only [young, step, List.filter_append]
    congr 1
    refine List.filter_eq_self.mpr fun h hh => ?_
    obtain ⟨led, -, rfl⟩ := List.mem_map.mp hh
    simp
  have hremembered : c.remembered Hit.tickedAt (c.step s (.key row col pressed master)) =
      (c.remembered Hit.tickedAt s).drop
          (s.buffer.count + (c.hitsOf row col pressed master).length - c.hitsToRemember) ++
        (c.hitsOf row col pressed master).map fun led => ⟨led, s.now, s.lastTask⟩ := by
    rw [remembered, hyoung, List.length_append, List.length_map,
      List.drop_append_of_le_length (by omega), remembered, List.drop_drop]
    congr 2
    omega
  have hentries := entries_handleKeyEvent hs.count_le hregular
  rw [hs.exact] at hentries
  rw [Exact, hremembered, List.map_append, List.map_drop, List.map_map]
  refine hentries.trans ?_
  congr 1
  refine List.map_congr_left fun led _ => ?_
  simp [entryOf, step]

theorem task_exact {s : State} (hs : Inv c s) (hregular : c.Regular s .task) :
    c.Exact Hit.tickedAt (c.step s .task) := by
  have hpast := hs.past
  have hpos := c.hitsToRemember_pos
  have hfilter : young Hit.tickedAt (c.step s .task) =
      (young Hit.tickedAt s).filter fun h => s.now - h.tickedAt < 65535 := by
    rw [young, young, List.filter_filter]
    refine List.filter_congr fun h _ => ?_
    simp only [step, taskTimers, ← Bool.decide_and]
    congr 1
    simp only [eq_iff_iff]
    omega
  have hdelta (hlate : s.now - s.lastTask ≤ 65535) :
      (2 ^ 32 + s.now % 2 ^ 32 - s.timerBuffer) % 2 ^ 32 = s.now - s.lastTask := by
    rw [hs.timer]
    omega
  have htick (h : Hit) (hh : h ∈ c.remembered Hit.tickedAt s) :
      s.lastTask - h.tickedAt + (s.now - s.lastTask) = s.now - h.tickedAt := by
    have hle := hs.ticked h (mem_history_of_mem_remembered hh)
    omega
  rcases hregular with hnone | ⟨hlate, hyoung | hexpired⟩
  · have hcount : s.buffer.count = 0 := by rw [hs.count_eq, hnone, List.length_nil]
    have hempty : young Hit.tickedAt s = [] := by
      have hlength := length_remembered (c := c) Hit.tickedAt s
      rw [hnone, List.length_nil] at hlength
      exact List.length_eq_zero_iff.mp (by omega)
    have hbuffer : (c.step s .task).buffer = s.buffer := by simp [step, taskTimers, hcount]
    rw [Exact, hbuffer, remembered, hfilter, hempty, entries, hcount]
    simp
  · -- no hit expires
    have hremembered : c.remembered Hit.tickedAt (c.step s .task) = c.remembered Hit.tickedAt s := by
      rw [remembered, hfilter]
      exact drop_filter_of_forall _ fun h hh => decide_eq_true (hyoung h hh)
    have hentries := entries_foldl_ageHit (b := s.buffer) hlate fun e he => by
      rw [hs.exact] at he
      obtain ⟨h, hh, rfl⟩ := List.mem_map.mp he
      have hsum := htick h hh
      have hlt := hyoung h hh
      simp only [entryOf]
      omega
    rw [Exact, hremembered]
    have hbuffer : (c.step s .task).buffer = (List.range s.buffer.count).foldl
        (LastHit.ageHit (s.now - s.lastTask)) s.buffer := by
      simp only [step, taskTimers, hdelta hlate]
    rw [hbuffer, hentries, hs.exact, List.map_map]
    refine List.map_congr_left fun h hh => ?_
    simp [entryOf, step, taskTimers, htick h hh]
  · -- all of them expire, and so do the ones before them
    have hempty : young Hit.tickedAt (c.step s .task) = [] := by
      rw [hfilter]
      refine List.filter_eq_nil_iff.mpr fun h hh => ?_
      have hsorted := List.Pairwise.filter (fun h => decide (s.lastTask - h.tickedAt < 65535))
        hs.sorted
      have hold : 65535 < s.now - h.tickedAt := by
        have hh' := hh
        rw [← List.take_append_drop
          ((young Hit.tickedAt s).length - c.hitsToRemember) (young Hit.tickedAt s)] at hh'
        rcases List.mem_append.mp hh' with htake | hdrop
        · have hlong := List.length_pos_of_mem htake
          rw [List.length_take] at hlong
          have hlast : 0 < (c.remembered Hit.tickedAt s).length := by
            rw [length_remembered]
            omega
          obtain ⟨last, hmem⟩ := List.exists_mem_of_length_pos hlast
          have hle : h.tickedAt ≤ last.tickedAt := by
            have hpairs : (young Hit.tickedAt s).Pairwise fun h h' => h.tickedAt ≤ h'.tickedAt :=
              hsorted
            rw [← List.take_append_drop
              ((young Hit.tickedAt s).length - c.hitsToRemember) (young Hit.tickedAt s)] at hpairs
            exact (List.pairwise_append.mp hpairs).2.2 h htake last hmem
          have hlt := hexpired last hmem
          omega
        · exact hexpired h hdrop
      rw [decide_eq_true_eq]
      omega
    have hentries := entries_foldl_ageHit_of_expired (b := s.buffer) hlate fun e he => by
      rw [hs.exact] at he
      obtain ⟨h, hh, rfl⟩ := List.mem_map.mp he
      have hsum := htick h hh
      have hlt := hexpired h hh
      simp only [entryOf]
      omega
    have hbuffer : (c.step s .task).buffer = (List.range s.buffer.count).foldl
        (LastHit.ageHit (s.now - s.lastTask)) s.buffer := by
      simp only [step, taskTimers, hdelta hlate]
    rw [Exact, hbuffer, hentries, remembered, hempty, List.drop_nil, List.map_nil]

theorem step_inv (s : State) (input : Input) (hs : Inv c s) (hregular : c.Regular s input) :
    Inv c (c.step s input) := by
  cases input with
  | elapse ms =>
      exact ⟨hs.exact, hs.timer, Nat.le_add_right_of_le hs.past, hs.sorted, hs.ticked⟩
  | key row col pressed master =>
      refine ⟨key_exact hs row col pressed master hregular, hs.timer, hs.past,
        List.pairwise_append.mpr ⟨hs.sorted, ?_, fun h hh new hnew => ?_⟩, fun h hh => ?_⟩
      · refine List.pairwise_map.mpr (List.pairwise_of_forall fun _ _ => Nat.le_refl _)
      · obtain ⟨led, -, rfl⟩ := List.mem_map.mp hnew
        exact hs.ticked h hh
      · rcases List.mem_append.mp hh with hh | hh
        · exact hs.ticked h hh
        · obtain ⟨led, -, rfl⟩ := List.mem_map.mp hh
          exact Nat.le_refl _
  | task =>
      exact ⟨task_exact hs hregular, rfl, Nat.le_refl _, hs.sorted,
        fun h hh => Nat.le_trans (hs.ticked h hh) hs.past⟩

/-- The time since a hit was recorded is taken from the task before it, which is right for hits
that are recorded in the millisecond of a task. -/
theorem hits_exact (c : Reacting) (inputs : List Input)
    (h : Meets c.step c.Regular initial inputs) :
    c.Exact Hit.tickedAt (run c.step initial inputs) ∧
      ((∀ hit ∈ (run c.step initial inputs).history, hit.recordedAt = hit.tickedAt) →
        c.Exact Hit.recordedAt (run c.step initial inputs)) := by
  have hinv : Inv c (run c.step initial inputs) :=
    h.preserves (Inv c) step_inv initial_inv
  refine ⟨hinv.exact, fun hsame => ?_⟩
  have hyoung : young Hit.recordedAt (run c.step initial inputs) =
      young Hit.tickedAt (run c.step initial inputs) :=
    List.filter_congr fun hit hhit => by rw [hsame hit hhit]
  have hremembered : c.remembered Hit.recordedAt (run c.step initial inputs) =
      c.remembered Hit.tickedAt (run c.step initial inputs) := by
    rw [remembered, remembered, hyoung]
  rw [Exact, hinv.exact, hremembered]
  refine List.map_congr_left fun hit hhit => ?_
  rw [entryOf, entryOf, hsame hit (mem_history_of_mem_remembered hhit)]

/-- The LED of a key is its column, at a place of its own. -/
def oneRow : Reacting :=
  ⟨8, false, .keyPresses, fun led => (10 * led, 0), fun _ col => [col], by decide, by decide,
    fun _ _ => Nat.le_add_left 1 7⟩

theorem hits_exact_oneRow :
    oneRow.Exact Hit.tickedAt (run oneRow.step initial
        [.key 0 1 true true, .elapse 10, .task, .key 0 2 true true, .elapse 5, .task]) ∧
      ((∀ hit ∈ (run oneRow.step initial [.key 0 1 true true, .elapse 10, .task,
          .key 0 2 true true, .elapse 5, .task]).history, hit.recordedAt = hit.tickedAt) →
        oneRow.Exact Hit.recordedAt (run oneRow.step initial
          [.key 0 1 true true, .elapse 10, .task, .key 0 2 true true, .elapse 5, .task])) :=
  hits_exact oneRow _ ⟨.inl (by decide), trivial, .inr ⟨by decide, .inl (by decide)⟩,
    .inl (by decide), trivial, .inr ⟨by decide, .inl (by decide)⟩, trivial⟩

/-- The older of two hits expires, and the younger one is taken off. -/
theorem expired_hit_drops_newer :
    ¬oneRow.Exact Hit.recordedAt (run oneRow.step initial
      [.key 0 1 true true, .elapse 65000, .task, .key 0 2 true true, .elapse 1000, .task]) := by
  decide

end Reacting

end Qmk.RgbMatrix
