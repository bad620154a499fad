import Qmk.Tapping.Delivery

/-!
# A release is handed over as its press was

The invariant is about one key: the records handed over, the tapping key, and
the queue of the key, which is what waits of it.  A key held as a tap is the
tapping key, or the release at the head of its queue is marked.
-/

namespace Qmk.Tapping

open Qmk.Lib

variable {σ : Type} {cb : Callbacks σ}

/-! ## One key -/

/-- Each release is taken as a tap exactly if its press was. -/
def Matched (handed : List KeyRecord) : Prop :=
  handed.IsChain fun press release =>
    press.event.pressed = true → release.event.pressed = false →
      (0 < release.tap.count ↔ 0 < press.tap.count)

/-- The key is down, and its press was handed over as a tap. -/
def HeldTap (handed : List KeyRecord) : Prop :=
  ∃ press, handed.getLast? = some press ∧ press.event.pressed = true ∧
    0 < press.tap.count

/-- The next event of the key is marked. -/
def HeadTap (queue : List KeyRecord) : Prop :=
  ∃ record, queue.head? = some record ∧ 0 < record.tap.count

def TapOf (tappingKey : KeyRecord) (key : KeyPos) : Prop :=
  tappingKey.Tapped ∧ tappingKey.event.key = key

structure KeyAgrees (key : KeyPos) (handed : List KeyRecord)
    (tappingKey : KeyRecord) (queue : List KeyRecord) : Prop where
  matched : Matched handed
  tail_count : ∀ record ∈ queue.tail, record.tap.count = 0
  heldTap_of_head : HeadTap queue → HeldTap handed
  heldTap_of_tapOf : TapOf tappingKey key → HeldTap handed
  settled : HeldTap handed → TapOf tappingKey key ∨ HeadTap queue
  head_of_tapOf : TapOf tappingKey key → tappingKey.tap.count = 1 → HeadTap queue

theorem heldTap_snoc (handed : List KeyRecord) (record : KeyRecord) :
    HeldTap (handed ++ [record]) ↔
      record.event.pressed = true ∧ 0 < record.tap.count := by
  simp [HeldTap]

theorem headTap_cons (record : KeyRecord) (queue : List KeyRecord) :
    HeadTap (record :: queue) ↔ 0 < record.tap.count := by
  simp [HeadTap]

theorem Matched.press {handed : List KeyRecord} {record : KeyRecord}
    (h : Matched handed) (hpressed : record.event.pressed = true) :
    Matched (handed ++ [record]) := by
  refine List.isChain_append.mpr ⟨h, List.isChain_singleton _, ?_⟩
  intro last _ next hnext _ hreleased
  have hsame : record = next := by simpa using hnext
  rw [← hsame, hpressed] at hreleased
  exact absurd hreleased (by simp)

theorem Matched.release {handed : List KeyRecord} {record : KeyRecord}
    (h : Matched handed) (hcount : 0 < record.tap.count ↔ HeldTap handed) :
    Matched (handed ++ [record]) := by
  refine List.isChain_append.mpr ⟨h, List.isChain_singleton _, ?_⟩
  intro last hlast next hnext hpressed _
  have hsame : record = next := by simpa using hnext
  have hlast : handed.getLast? = some last := by simpa using hlast
  rw [← hsame, hcount]
  refine ⟨fun ⟨press, hpress, _, hpos⟩ => ?_, fun hpos => ⟨last, hlast, hpressed,
    hpos⟩⟩
  rw [hlast] at hpress
  rwa [← Option.some.inj hpress] at hpos

namespace KeyAgrees

variable {key : KeyPos} {handed : List KeyRecord} {tappingKey other : KeyRecord}
  {queue : List KeyRecord}

theorem unmarked (h : KeyAgrees key handed tappingKey queue)
    (hheld : ¬ HeldTap handed) : ∀ record ∈ queue, record.tap.count = 0 := by
  intro record hrecord
  cases queue with
  | nil => simp at hrecord
  | cons head rest =>
      rcases List.mem_cons.mp hrecord with rfl | hrecord
      · have hhead := mt h.heldTap_of_head hheld
        rw [headTap_cons] at hhead
        omega
      · exact h.tail_count record hrecord

theorem of_not_heldTap (hmatched : Matched handed) (hheld : ¬ HeldTap handed)
    (hother : ¬ TapOf tappingKey key)
    (hqueue : ∀ record ∈ queue, record.tap.count = 0) :
    KeyAgrees key handed tappingKey queue where
  matched := hmatched
  tail_count record hrecord := hqueue record (List.mem_of_mem_tail hrecord)
  heldTap_of_head := by
    rintro ⟨record, hhead, hpos⟩
    have hzero := hqueue record (List.mem_of_mem_head? hhead)
    omega
  heldTap_of_tapOf htap := absurd htap hother
  settled htap := absurd htap hheld
  head_of_tapOf htap := absurd htap hother

theorem frame (h : KeyAgrees key handed tappingKey queue)
    (hbefore : TapOf tappingKey key → HeadTap queue)
    (hafter : ¬ TapOf other key) : KeyAgrees key handed other queue where
  matched := h.matched
  tail_count := h.tail_count
  heldTap_of_head := h.heldTap_of_head
  heldTap_of_tapOf htap := absurd htap hafter
  settled htap := (h.settled htap).elim (fun hown => .inr (hbefore hown)) .inr
  head_of_tapOf htap := absurd htap hafter

theorem congr (h : KeyAgrees key handed tappingKey queue)
    (htap : TapOf other key ↔ TapOf tappingKey key)
    (hcount : other.tap.count = tappingKey.tap.count) :
    KeyAgrees key handed other queue where
  matched := h.matched
  tail_count := h.tail_count
  heldTap_of_head := h.heldTap_of_head
  heldTap_of_tapOf hown := h.heldTap_of_tapOf (htap.mp hown)
  settled hheld := (h.settled hheld).imp_left htap.mpr
  head_of_tapOf hown hone := h.head_of_tapOf (htap.mp hown) (hcount ▸ hone)

theorem enq (h : KeyAgrees key handed tappingKey queue) {record : KeyRecord}
    (hcount : record.tap.count = 0) :
    KeyAgrees key handed tappingKey (queue ++ [record]) := by
  have hhead : HeadTap (queue ++ [record]) ↔ HeadTap queue := by
    cases queue with
    | nil => simp [HeadTap, hcount]
    | cons head rest => simp [HeadTap]
  refine ⟨h.matched, fun other hother => ?_, fun hmarked =>
    h.heldTap_of_head (hhead.mp hmarked), h.heldTap_of_tapOf, fun hheld =>
    (h.settled hheld).imp_right hhead.mpr, fun hown hone =>
    hhead.mpr (h.head_of_tapOf hown hone)⟩
  cases queue with
  | nil => simp at hother
  | cons head rest =>
      rw [List.cons_append, List.tail_cons] at hother
      rcases List.mem_append.mp hother with hother | hother
      · exact h.tail_count other hother
      · rw [List.mem_singleton.mp hother]
        exact hcount

/-- The head of the queue is handed over, and the key is no held tap. -/
theorem handed_over {record after : KeyRecord}
    (h : KeyAgrees key handed tappingKey (record :: queue))
    (hmatched : Matched (handed ++ [after]))
    (hheld : ¬ (after.event.pressed = true ∧ 0 < after.tap.count))
    (hother : ¬ TapOf other key) : KeyAgrees key (handed ++ [after]) other queue :=
  of_not_heldTap hmatched (mt (heldTap_snoc _ _).mp hheld) hother h.tail_count

theorem release {record : KeyRecord}
    (h : KeyAgrees key handed tappingKey (record :: queue))
    (hreleased : record.event.pressed = false) (hbefore : ¬ TapOf tappingKey key)
    (hother : ¬ TapOf other key) :
    KeyAgrees key (handed ++ [record]) other queue := by
  refine h.handed_over (h.matched.release ?_) (by simp [hreleased]) hother
  rw [← headTap_cons record queue]
  exact ⟨h.heldTap_of_head, fun hheld => (h.settled hheld).resolve_left hbefore⟩

theorem tapRelease {record : KeyRecord}
    (h : KeyAgrees key handed tappingKey (record :: queue))
    (hbefore : TapOf tappingKey key) {after : KeyRecord}
    (hreleased : after.event.pressed = false)
    (hcount : after.tap.count = tappingKey.tap.count)
    (hother : ¬ TapOf other key) :
    KeyAgrees key (handed ++ [after]) other queue := by
  refine h.handed_over (h.matched.release ?_) (by simp [hreleased]) hother
  rw [hcount]
  exact ⟨fun _ => h.heldTap_of_tapOf hbefore, fun _ => hbefore.1.count_pos⟩

/-- A press is handed over as a tap; the queue behind it, marked or not, is new. -/
theorem tapPress {press : KeyRecord} {before : List KeyRecord}
    (h : KeyAgrees key handed tappingKey before)
    (hpressed : press.event.pressed = true) (hcount : 0 < press.tap.count)
    (htail : ∀ record ∈ queue.tail, record.tap.count = 0)
    (hsettled : TapOf other key ∨ HeadTap queue)
    (hone : other.tap.count = 1 → HeadTap queue) :
    KeyAgrees key (handed ++ [press]) other queue := by
  have hheld : HeldTap (handed ++ [press]) := (heldTap_snoc _ _).mpr ⟨hpressed, hcount⟩
  exact ⟨h.matched.press hpressed, htail, fun _ => hheld, fun _ => hheld,
    fun _ => hsettled, fun _ => hone⟩

end KeyAgrees

theorem not_heldTap_of_next {handed : List KeyRecord} {event : KeyEvent}
    {rest : List KeyEvent}
    (halt : Alternates (handed.map (·.event) ++ event :: rest))
    (hpressed : event.pressed = true) : ¬ HeldTap handed := by
  rintro ⟨press, hlast, hdown, -⟩
  obtain ⟨-, -, hjoin⟩ := List.isChain_append.mp halt
  have hne := hjoin press.event (by simp [List.getLast?_map, hlast]) event (by simp)
  exact hne (hdown.trans hpressed.symm)

/-! ## All keys -/

structure Agrees (s : State σ) (buffer : List KeyRecord) : Prop where
  keys : ∀ key,
    KeyAgrees key (recordsTo key s.calls) s.tappingKey (waitingOf key buffer)
  no_releaseLastTap : ∀ record, .releaseLastTap record ∉ s.calls

/-- The buffer holds the record at its head, or the record is fresh and first. -/
def Behind (buffered : Bool) (keyp : KeyRecord) (buffer rest : List KeyRecord) :
    Prop :=
  match buffered with
  | true => buffer = keyp :: rest
  | false => buffer = rest ∧ waitingOf keyp.event.key rest = []

theorem waitingOf_cons_own {record : KeyRecord} {key : KeyPos}
    (h : record.event.key = key) (buffer : List KeyRecord) :
    waitingOf key (record :: buffer) = record :: waitingOf key buffer := by
  simp [waitingOf, h]

theorem waitingOf_cons_other {record : KeyRecord} {key : KeyPos}
    (h : record.event.key ≠ key) (buffer : List KeyRecord) :
    waitingOf key (record :: buffer) = waitingOf key buffer := by
  simp [waitingOf, h]

/-! ### The scan -/

/-- The scan passes over the next release of the key and finds a later one. -/
def SkipsRelease (cb : Callbacks σ) (s : State σ) : Prop :=
  (∃ next ∈ (s.waitingBuffer.filter fun record =>
      record.event.key = s.tappingKey.event.key && !record.event.pressed).head?,
    ¬ TapRelease cb s next) ∧
  ∃ later ∈ s.waitingBuffer, TapRelease cb s later

instance (cb : Callbacks σ) (s : State σ) : Decidable (SkipsRelease cb s) :=
  inferInstanceAs (Decidable (_ ∧ _))

theorem Marked.queue_other {s : State σ} {buffer marked : List KeyRecord}
    (h : Marked cb s buffer marked) {key : KeyPos}
    (hkey : s.tappingKey.event.key ≠ key) :
    waitingOf key marked = waitingOf key buffer := by
  induction h with
  | @here candidate rest hfound =>
      have hother : candidate.event.key ≠ key := hfound.own ▸ hkey
      rw [waitingOf_cons_other hother, waitingOf_cons_other (by simpa using hother)]
  | @there record buffer marked hskip hrest ih =>
      by_cases hown : record.event.key = key
      · rw [waitingOf_cons_own hown, waitingOf_cons_own hown, ih]
      · rw [waitingOf_cons_other hown, waitingOf_cons_other hown, ih]

theorem Marked.exists_tapRelease {s : State σ} {buffer marked : List KeyRecord}
    (h : Marked cb s buffer marked) : ∃ record ∈ buffer, TapRelease cb s record := by
  induction h with
  | here rest hfound => exact ⟨_, List.mem_cons_self, hfound⟩
  | there hskip hrest ih =>
      obtain ⟨record, hrecord, hfound⟩ := ih
      exact ⟨record, List.mem_cons_of_mem _ hrecord, hfound⟩

/-- The mark is at the head of the queue if the scan skips no release. -/
theorem Marked.queue_own {s : State σ} {buffer marked queue : List KeyRecord}
    {first : KeyRecord} (h : Marked cb s buffer marked)
    (hqueue : waitingOf s.tappingKey.event.key buffer = first :: queue)
    (hfirst : TapRelease cb s first) :
    waitingOf s.tappingKey.event.key marked = first.setCount 1 :: queue := by
  induction h with
  | @here candidate rest hfound =>
      rw [waitingOf_cons_own hfound.own] at hqueue
      obtain ⟨rfl, rfl⟩ := List.cons.inj hqueue
      exact @waitingOf_cons_own (candidate.setCount 1) _ hfound.own rest
  | @there record buffer marked hskip hrest ih =>
      by_cases hown : record.event.key = s.tappingKey.event.key
      · rw [waitingOf_cons_own hown] at hqueue
        exact absurd ((List.cons.inj hqueue).1 ▸ hfirst) hskip
      · rw [waitingOf_cons_other hown] at hqueue ⊢
        exact ih hqueue

theorem Behind.marked {buffered : Bool} {keyp : KeyRecord} {s : State σ}
    {buffer marked rest : List KeyRecord} (h : Behind buffered keyp buffer rest)
    (hpressed : keyp.event.pressed = true) (hmarked : Marked cb s buffer marked) :
    ∃ after, Behind buffered keyp marked after ∧ Marked cb s rest after := by
  cases buffered with
  | true =>
      subst h
      cases hmarked with
      | here rest hfound => exact absurd hpressed (by simp [hfound.released])
      | there _ hrest => exact ⟨_, rfl, hrest⟩
  | false =>
      obtain ⟨rfl, hnone⟩ := h
      refine ⟨marked, ⟨rfl, ?_⟩, hmarked⟩
      have hevents : (waitingOf keyp.event.key marked).map (·.event) = [] := by
        rw [waitingOf_events, hmarked.events, ← waitingOf_events, hnone,
          List.map_nil]
      exact List.map_eq_nil_iff.mp hevents

theorem Behind.filter_releases {buffered : Bool} {keyp : KeyRecord}
    {buffer rest : List KeyRecord} (h : Behind buffered keyp buffer rest)
    (hpressed : keyp.event.pressed = true) (key : KeyPos) :
    (buffer.filter fun record => record.event.key = key && !record.event.pressed) =
      rest.filter fun record => record.event.key = key && !record.event.pressed := by
  cases buffered with
  | true =>
      subst h
      simp [hpressed]
  | false => rw [h.1]

theorem Behind.mem {buffered : Bool} {keyp record : KeyRecord}
    {buffer rest : List KeyRecord} (h : Behind buffered keyp buffer rest)
    (hrecord : record ∈ rest) : record ∈ buffer := by
  cases buffered with
  | true =>
      subst h
      exact List.mem_cons_of_mem _ hrecord
  | false => rwa [h.1]

theorem Marked.head {buffered : Bool} {keyp : KeyRecord} {s : State σ}
    {rest after : List KeyRecord} {before : List KeyEvent}
    (h : Marked cb s rest after) (htapping : s.tappingKey = keyp)
    (hbehind : Behind buffered keyp s.waitingBuffer rest)
    (hpressed : keyp.event.pressed = true)
    (halt : Alternates (before ++
      keyp.event :: (waitingOf keyp.event.key rest).map (·.event)))
    (hskips : ¬ SkipsRelease cb s) :
    ∃ first queue, waitingOf keyp.event.key rest = first :: queue ∧
      waitingOf keyp.event.key after = first.setCount 1 :: queue := by
  subst htapping
  obtain ⟨later, hlater, hfound⟩ := h.exists_tapRelease
  cases hqueue : waitingOf s.tappingKey.event.key rest with
  | nil =>
      have hmem : later ∈ waitingOf s.tappingKey.event.key rest :=
        List.mem_filter.mpr ⟨hlater, by simp [hfound.own]⟩
      simp [hqueue] at hmem
  | cons first queue =>
      rw [hqueue, List.map_cons] at halt
      have hne := (List.isChain_cons_cons.mp (List.isChain_append.mp halt).2.1).1
      have hreleased : first.event.pressed = false := by
        rw [hpressed] at hne
        simpa using hne.symm
      have hhead : (s.waitingBuffer.filter fun record =>
          record.event.key = s.tappingKey.event.key &&
            !record.event.pressed).head? = some first := by
        rw [hbehind.filter_releases hpressed]
        have hsplit : (rest.filter fun record =>
            record.event.key = s.tappingKey.event.key && !record.event.pressed) =
            (waitingOf s.tappingKey.event.key rest).filter
              fun record => !record.event.pressed := by
          rw [waitingOf, List.filter_filter]
          simp [Bool.and_comm]
        rw [hsplit, hqueue, List.filter_cons_of_pos (by simp [hreleased]),
          List.head?_cons]
      have hfirst : TapRelease cb s first := by
        by_contra hnot
        exact hskips ⟨⟨first, hhead, hnot⟩, later, hbehind.mem hlater, hfound⟩
      exact ⟨first, queue, rfl, h.queue_own hqueue hfirst⟩

theorem not_tapOf_of_count {tappingKey : KeyRecord} (h : tappingKey.tap.count = 0)
    (key : KeyPos) : ¬ TapOf tappingKey key :=
  fun htap => absurd h (Nat.ne_of_gt htap.1.count_pos)

theorem not_tapOf_of_released {tappingKey : KeyRecord}
    (h : tappingKey.event.pressed = false) (key : KeyPos) :
    ¬ TapOf tappingKey key :=
  fun htap => absurd htap.1.pressed (by simp [h])

theorem not_tapOf_of_key {tappingKey : KeyRecord} {key : KeyPos}
    (h : tappingKey.event.key ≠ key) : ¬ TapOf tappingKey key :=
  fun htap => h htap.2

theorem startTapping_agrees {buffered : Bool} {keyp : KeyRecord} {s : State σ}
    {rest : List KeyRecord} (hcb : cb.KeepsRecords)
    (hpressed : keyp.event.pressed = true) (hcount : keyp.tap.count = 0)
    (hbehind : Behind buffered keyp s.waitingBuffer rest)
    (halt : Alternates (handedTo keyp.event.key s.calls ++
      keyp.event :: (waitingOf keyp.event.key rest).map (·.event)))
    (hskips : ¬ SkipsRelease cb { s with tappingKey := keyp })
    (hbefore : ∀ key, TapOf s.tappingKey key →
      HeadTap (waitingOf key (keyp :: rest)))
    (h : Agrees s (keyp :: rest)) :
    ∃ after, Behind buffered keyp (startTapping cb keyp s).2.2.waitingBuffer after ∧
      Agrees (startTapping cb keyp s).2.2 after := by
  have hheld := not_heldTap_of_next halt hpressed
  have hown := h.keys keyp.event.key
  rw [waitingOf_cons_own rfl] at hown
  have hothers : ∀ key, keyp.event.key ≠ key → ∀ other : KeyRecord,
      other.event.key = keyp.event.key →
      KeyAgrees key (recordsTo key s.calls) other (waitingOf key rest) := by
    intro key hkey other hsame
    have hagrees := h.keys key
    have hhead := hbefore key
    rw [waitingOf_cons_other hkey] at hagrees hhead
    exact hagrees.frame hhead (not_tapOf_of_key (hsame ▸ hkey))
  rcases startTapping_cases cb s hcount hpressed with
    ⟨hstart, -⟩ | ⟨buffer, hmarked, hstart⟩
  · rw [hstart]
    refine ⟨rest, hbehind, fun key => ?_, h.no_releaseLastTap⟩
    by_cases hkey : keyp.event.key = key
    · subst hkey
      exact .of_not_heldTap hown.matched hheld (not_tapOf_of_count hcount _)
        hown.tail_count
    · exact hothers key hkey keyp rfl
  · rw [hstart]
    obtain ⟨after, hafter, hmarked⟩ := hbehind.marked hpressed hmarked
    refine ⟨after, hafter, fun key => ?_, fun record hmem => ?_⟩
    · have hcalls : recordsTo key (s.calls ++ [.record (keyp.setCount 1)]) =
          recordsTo key s.calls ++
            if keyp.event.key = key then [keyp.setCount 1] else [] :=
        recordsTo_record _ _ _
      refine hcalls.symm ▸ ?_
      by_cases hkey : keyp.event.key = key
      · subst hkey
        obtain ⟨first, queue, hbefore, hqueue⟩ :=
          hmarked.head rfl hbehind hpressed halt hskips
        have hhead : HeadTap (waitingOf keyp.event.key after) := by
          rw [hqueue, headTap_cons]
          exact Nat.zero_lt_one
        rw [if_pos rfl]
        refine hown.tapPress hpressed Nat.zero_lt_one (fun record hrecord => ?_)
          (.inr hhead) fun _ => hhead
        refine hown.tail_count record ?_
        rw [List.tail_cons, hbefore]
        rw [hqueue, List.tail_cons] at hrecord
        exact List.mem_cons_of_mem _ hrecord
      · rw [if_neg hkey, List.append_nil, hmarked.queue_other hkey]
        exact hothers key hkey _ (KeepsRecords.key hcb _ _)
    · rcases List.mem_append.mp hmem with hmem | hmem
      · exact h.no_releaseLastTap record hmem
      · simp at hmem

/-! ### Calls that are done with their record -/

def Alternating (s : State σ) (buffer : List KeyRecord) : Prop :=
  ∀ key, Alternates (taken s key ++ (waitingOf key buffer).map (·.event))

/-- The state in which the buffer is scanned for the release of a new press. -/
def scanState (cb : Callbacks σ) (keyp : KeyRecord) (s : State σ) : State σ :=
  { s with
    host :=
      if s.tappingKey.event.isEvent then s.host
      else cb.processRecordTapHint s.host keyp
    tappingKey := keyp }

/-- A press whose key becomes the tapping key, with a scan of the buffer. -/
def Starts (cb : Callbacks σ) (keyp : KeyRecord) (s : State σ) : Prop :=
  keyp.event.isEvent = true ∧ keyp.event.pressed = true ∧
    cb.isTapRecord s.host keyp = true ∧ ¬ s.Unsettled ∧
    ¬ (s.Released ∧ (keyp.event.key = s.tappingKey.event.key ∨
      withinTappingTerm cb s keyp.event = false))

/-- A repeated tap that `process_record` turns into a release. -/
def RepeatEnds (cb : Callbacks σ) (keyp : KeyRecord) (s : State σ) : Prop :=
  keyp.event.isEvent = true ∧ keyp.event.pressed = true ∧ s.Released ∧
    keyp.event.key = s.tappingKey.event.key ∧
    withinTappingTerm cb s keyp.event = true ∧
    quickRepeat cb s keyp.event = true ∧
    (cb.processRecord s.host (sequentialTap keyp s.tappingKey.tap)).2.event.pressed =
      false

/-- A call that loses how a press was taken. -/
def Forgets (cb : Callbacks σ) (keyp : KeyRecord) (s : State σ) : Prop :=
  (Starts cb keyp s ∧
    (s.Tapped ∧ 1 < s.tappingKey.tap.count ∨
      SkipsRelease cb (scanState cb keyp s))) ∨
  RepeatEnds cb keyp s

instance (cb : Callbacks σ) (keyp : KeyRecord) (s : State σ) :
    Decidable (Starts cb keyp s) :=
  inferInstanceAs (Decidable (_ ∧ _ ∧ _ ∧ _ ∧ _))

instance (cb : Callbacks σ) (keyp : KeyRecord) (s : State σ) :
    Decidable (RepeatEnds cb keyp s) :=
  inferInstanceAs (Decidable (_ ∧ _ ∧ _ ∧ _ ∧ _ ∧ _ ∧ _))

instance (cb : Callbacks σ) (keyp : KeyRecord) (s : State σ) :
    Decidable (Forgets cb keyp s) :=
  inferInstanceAs (Decidable (_ ∨ _))

theorem KeepsRecords.released (hcb : cb.KeepsRecords) (host : σ)
    {record : KeyRecord} (h : record.event.pressed = false) :
    (cb.processRecord host record).2.event.pressed = false := by
  rcases hcb host record with heq | heq
  · rw [heq, h]
  · rw [heq]

theorem sequentialTap_event (keyp : KeyRecord) (tap : Tap) :
    (sequentialTap keyp tap).event = keyp.event := by
  unfold sequentialTap
  split_ifs <;> rfl

theorem sequentialTap_count (keyp : KeyRecord) {tap : Tap} (h : 0 < tap.count) :
    1 < (sequentialTap keyp tap).tap.count := by
  unfold sequentialTap
  split_ifs with hlimit
  · exact Nat.succ_lt_succ h
  · simp only
    omega

theorem tapOf_setInterrupted (tappingKey : KeyRecord) (key : KeyPos) :
    TapOf tappingKey.setInterrupted key ↔ TapOf tappingKey key := by
  simp [TapOf, KeyRecord.setInterrupted_tapped]

theorem not_mem_record {record : KeyRecord} {calls : List Call}
    (h : ∀ other, .releaseLastTap other ∉ calls) :
    ∀ other, .releaseLastTap other ∉ calls ++ [.record record] := by
  intro other hmem
  rcases List.mem_append.mp hmem with hmem | hmem
  · exact h other hmem
  · simp at hmem

theorem handOver_agrees (cb : Callbacks σ) (tappingKey : KeyRecord)
    {keyp : KeyRecord} {s : State σ} {rest : List KeyRecord}
    (h : Agrees s (keyp :: rest))
    (halt : Alternating s (keyp :: rest))
    (hcount : keyp.event.pressed = true → keyp.tap.count = 0)
    (hpending : pendingTap s.tappingKey keyp.event.key = [])
    (hother : s.Tapped → keyp.event.key = s.tappingKey.event.key →
      keyp.event.pressed = true)
    (htap : ∀ key, TapOf tappingKey key ↔ TapOf s.tappingKey key)
    (htapCount : tappingKey.tap.count = s.tappingKey.tap.count) :
    Agrees (handOver cb keyp { s with tappingKey := tappingKey }).2.2 rest := by
  refine ⟨fun key => ?_, not_mem_record h.no_releaseLastTap⟩
  have hcalls : recordsTo key (s.calls ++ [.record keyp]) =
      recordsTo key s.calls ++ if keyp.event.key = key then [keyp] else [] :=
    recordsTo_record _ _ _
  refine hcalls.symm ▸ ?_
  have hagrees := h.keys key
  by_cases hkey : keyp.event.key = key
  · subst hkey
    have hnext := halt keyp.event.key
    rw [taken, hpending, List.append_nil, waitingOf_cons_own rfl, List.map_cons]
      at hnext
    rw [waitingOf_cons_own rfl] at hagrees
    rw [if_pos rfl]
    cases hpressed : keyp.event.pressed with
    | true =>
        have hheld := not_heldTap_of_next hnext hpressed
        refine hagrees.handed_over (hagrees.matched.press hpressed) ?_ ?_
        · simp [hcount hpressed]
        · exact fun htapOf =>
            hheld (hagrees.heldTap_of_tapOf ((htap _).mp htapOf))
    | false =>
        have hbefore : ¬ TapOf s.tappingKey keyp.event.key := by
          rintro ⟨htapped, hown⟩
          exact absurd (hother htapped hown.symm) (by simp [hpressed])
        exact hagrees.release hpressed hbefore (mt (htap _).mp hbefore)
  · rw [waitingOf_cons_other hkey] at hagrees
    rw [if_neg hkey, List.append_nil]
    exact hagrees.congr (htap key) htapCount

/-- The record goes to the tapping key, and other keys are left alone. -/
theorem Agrees.replace {keyp : KeyRecord} {s t : State σ} {rest : List KeyRecord}
    (handed : List KeyRecord) (h : Agrees s (keyp :: rest))
    (hcalls : ∀ key, recordsTo key t.calls =
      recordsTo key s.calls ++ if keyp.event.key = key then handed else [])
    (hno : ∀ record, .releaseLastTap record ∉ t.calls)
    (hbefore : ∀ key, keyp.event.key ≠ key → ¬ TapOf s.tappingKey key)
    (hafter : ∀ key, keyp.event.key ≠ key → ¬ TapOf t.tappingKey key)
    (hown : KeyAgrees keyp.event.key (recordsTo keyp.event.key s.calls)
        s.tappingKey (keyp :: waitingOf keyp.event.key rest) →
      KeyAgrees keyp.event.key (recordsTo keyp.event.key s.calls ++ handed)
        t.tappingKey (waitingOf keyp.event.key rest)) : Agrees t rest := by
  refine ⟨fun key => ?_, hno⟩
  rw [hcalls]
  have hagrees := h.keys key
  by_cases hkey : keyp.event.key = key
  · subst hkey
    rw [waitingOf_cons_own rfl] at hagrees
    rw [if_pos rfl]
    exact hown hagrees
  · rw [waitingOf_cons_other hkey] at hagrees
    rw [if_neg hkey, List.append_nil]
    exact hagrees.frame (fun htap => absurd htap (hbefore key hkey))
      (hafter key hkey)

theorem not_tapOf_of_mode {tappingKey : KeyRecord} (h : ¬ tappingKey.Tapped)
    (key : KeyPos) : ¬ TapOf tappingKey key :=
  fun htap => h htap.1

theorem State.not_tapped_of_idle {s : State σ}
    (h : s.tappingKey.event.isEvent = false) : ¬ s.Tapped :=
  fun htapped => absurd htapped.isEvent (by simp [h])

theorem State.not_unsettled_of_idle {s : State σ}
    (h : s.tappingKey.event.isEvent = false) : ¬ s.Unsettled :=
  fun hunsettled => absurd hunsettled.isEvent (by simp [h])

theorem State.not_released_of_idle {s : State σ}
    (h : s.tappingKey.event.isEvent = false) : ¬ s.Released :=
  fun hreleased => absurd hreleased.isEvent (by simp [h])

theorem releaseLastTap_once {s : State σ} {event : KeyEvent}
    (h : s.tappingKey.tap.count ≤ 1) : releaseLastTap cb event s = s := by
  rw [releaseLastTap, if_neg (by omega)]

/-- The events behind a press of a key that the tapping key does not hold up. -/
theorem Alternating.press {s : State σ} {keyp : KeyRecord} {rest : List KeyRecord}
    (h : Alternating s (keyp :: rest)) (hmode : ¬ s.Unsettled) :
    Alternates (handedTo keyp.event.key s.calls ++
      keyp.event :: (waitingOf keyp.event.key rest).map (·.event)) := by
  have hown := h keyp.event.key
  rwa [taken_settled hmode, waitingOf_cons_own rfl, List.map_cons] at hown

theorem Outcome.agrees_done (buffered : Bool) {keyp : KeyRecord} {s : State σ}
    {result : Result σ} {rest : List KeyRecord} (hcb : cb.KeepsRecords)
    (hout : Outcome cb keyp s result) (hdone : result.1 = true)
    (hevent : keyp.event.isEvent = true)
    (hcount : keyp.event.pressed = true → keyp.tap.count = 0)
    (hforgets : ¬ Forgets cb keyp s)
    (hbehind : Behind buffered keyp s.waitingBuffer rest)
    (halt : Alternating s (keyp :: rest)) (h : Agrees s (keyp :: rest)) :
    ∃ after, Behind buffered keyp result.2.2.waitingBuffer after ∧
      Agrees result.2.2 after := by
  cases hout with
  | ignored htick => simp [htick] at hevent
  | handed _ hmode hother =>
      exact ⟨rest, hbehind, handOver_agrees cb s.tappingKey h halt hcount
        (pendingTap_settled hmode _) hother (fun _ => Iff.rfl) rfl⟩
  | bypassed _ hmode hother hreleased =>
      refine ⟨rest, hbehind, handOver_agrees cb s.tappingKey h halt hcount
        (pendingTap_other (Ne.symm hother)) (fun htapped => ?_)
        (fun _ => Iff.rfl) rfl⟩
      exact absurd hmode htapped.not_unsettled
  | interrupted _ hmode hother hpressed =>
      exact ⟨rest, hbehind, handOver_agrees cb s.tappingKey.setInterrupted h halt
        hcount (pendingTap_settled hmode.not_unsettled _) (fun _ _ => hpressed)
        (tapOf_setInterrupted _) rfl⟩
  | startedIdle _ hidle hpressed htap =>
      have hmode := State.not_unsettled_of_idle hidle
      have hstarts : Starts cb keyp s := ⟨hevent, hpressed, htap, hmode,
        fun hreleased => State.not_released_of_idle hidle hreleased.1⟩
      have hscan : scanState cb keyp s =
          { s with
            host := cb.processRecordTapHint s.host keyp
            tappingKey := keyp } := by
        simp [scanState, hidle]
      refine startTapping_agrees hcb hpressed (hcount hpressed) hbehind
        (halt.press hmode) (fun hskips => hforgets (.inl ⟨hstarts, .inr ?_⟩))
        (fun key htapOf => absurd htapOf.1 (State.not_tapped_of_idle hidle))
        ⟨h.keys, h.no_releaseLastTap⟩
      rw [hscan]
      exact hskips
  | startedTapped _ hmode hpressed htap =>
      have hstarts : Starts cb keyp s := ⟨hevent, hpressed, htap,
        hmode.not_unsettled, fun hreleased => hreleased.1.not_tapped hmode⟩
      have honce : s.tappingKey.tap.count ≤ 1 := by
        by_contra hmore
        exact hforgets (.inl ⟨hstarts, .inl ⟨hmode, by omega⟩⟩)
      have hscan : scanState cb keyp s = { s with tappingKey := keyp } := by
        simp [scanState, hmode.isEvent]
      rw [releaseLastTap_once honce]
      refine startTapping_agrees hcb hpressed (hcount hpressed) hbehind
        (halt.press hmode.not_unsettled)
        (fun hskips => hforgets (.inl ⟨hstarts, .inr ?_⟩)) (fun key htapOf => ?_) h
      · rw [hscan]
        exact hskips
      · have hpos := hmode.count_pos
        exact (h.keys key).head_of_tapOf htapOf (by omega)
  | startedReleased _ hmode hpressed hwithin hother htap =>
      have hstarts : Starts cb keyp s := by
        refine ⟨hevent, hpressed, htap, hmode.not_unsettled, ?_⟩
        rintro ⟨-, hown | hafter⟩
        · exact hother hown
        · simp [hwithin] at hafter
      have hscan : scanState cb keyp s = { s with tappingKey := keyp } := by
        simp [scanState, hmode.isEvent]
      refine startTapping_agrees hcb hpressed (hcount hpressed) hbehind
        (halt.press hmode.not_unsettled)
        (fun hskips => hforgets (.inl ⟨hstarts, .inr ?_⟩))
        (fun key htapOf => absurd htapOf.1 hmode.not_tapped) h
      rw [hscan]
      exact hskips
  | restarted _ hmode hpressed =>
      refine ⟨rest, hbehind, h.replace [] (fun key => by simp) h.no_releaseLastTap
        (fun key _ => not_tapOf_of_mode hmode.not_tapped key)
        (fun key => not_tapOf_of_key) fun hagrees => ?_⟩
      rw [List.append_nil]
      exact .of_not_heldTap hagrees.matched
        (not_heldTap_of_next (halt.press hmode.not_unsettled) hpressed)
        (not_tapOf_of_count (hcount hpressed) _) hagrees.tail_count
  | sequential _ hmode hown hpressed hwithin hquick =>
      have hevents := sequentialTap_event keyp s.tappingKey.tap
      have hmore := sequentialTap_count keyp (quickRepeat_count hquick)
      have hkey := KeepsRecords.key hcb s.host
        (sequentialTap keyp s.tappingKey.tap)
      have htap := KeepsRecords.tap hcb s.host
        (sequentialTap keyp s.tappingKey.tap)
      have hisEvent := KeepsRecords.isEvent hcb s.host
        (sequentialTap keyp s.tappingKey.tap)
      rw [hevents] at hkey hisEvent
      refine ⟨rest, hbehind, h.replace
        [sequentialTap keyp s.tappingKey.tap]
        (fun key => (recordsTo_record _ _ _).trans (by rw [hevents]))
        (not_mem_record h.no_releaseLastTap)
        (fun key _ => not_tapOf_of_mode hmode.not_tapped key)
        (fun key hother => not_tapOf_of_key (hkey ▸ hother)) fun hagrees => ?_⟩
      have hdown : (cb.processRecord s.host
          (sequentialTap keyp s.tappingKey.tap)).2.event.pressed = true := by
        by_contra hup
        exact hforgets (.inr ⟨hevent, hpressed, hmode, hown, hwithin, hquick,
          by simpa using hup⟩)
      have htapped : (cb.processRecord s.host
          (sequentialTap keyp s.tappingKey.tap)).2.Tapped :=
        ⟨hisEvent.trans hevent, hdown, by rw [htap]; omega⟩
      refine hagrees.tapPress (hevents ▸ hpressed) (by omega)
        (fun record hrecord => hagrees.tail_count record
          (List.mem_of_mem_tail hrecord)) (.inl ⟨htapped, hkey⟩) fun hone => ?_
      simp only [processRecord, htap] at hone
      omega
  | tapReleased _ hmode hown hreleased within =>
      have hreleased' := @KeepsRecords.released _ _ hcb s.host
        { keyp with tap := s.tappingKey.tap } hreleased
      have hafter : ∀ key, ¬ TapOf (if within = true then
          (processRecord cb { keyp with tap := s.tappingKey.tap } s).1
          else .zero) key := by
        intro key
        cases within with
        | true => exact not_tapOf_of_released hreleased' key
        | false => exact not_tapOf_of_mode KeyRecord.zero_not_tapped key
      exact ⟨rest, hbehind, h.replace
        [{ keyp with tap := s.tappingKey.tap }] (fun key => recordsTo_record _ _ _)
        (not_mem_record h.no_releaseLastTap)
        (fun key hother => not_tapOf_of_key (hown ▸ hother))
        (fun key _ => hafter key)
        fun hagrees => hagrees.tapRelease ⟨hmode, hown.symm⟩ hreleased rfl
          (hafter _)⟩
  | firstTap | retained | interfered | timedOut | expired => simp at hdone

/-! ### Calls that leave their record -/

theorem Outcome.waits_buffer {keyp : KeyRecord} {s : State σ} {result : Result σ}
    (h : Outcome cb keyp s result) (hwaits : result.1 = false) :
    result.2.2.waitingBuffer = s.waitingBuffer := by
  cases h with
  | firstTap | retained | interfered | timedOut | expired => rfl
  | _ => simp [handOver, startTapping] at hwaits

theorem Outcome.done_tick {keyp : KeyRecord} {s : State σ} {result : Result σ}
    (h : Outcome cb keyp s result) (hdone : result.1 = true)
    (htick : ¬ keyp.event.isEvent = true) : result.2.2 = s := by
  cases h with
  | ignored => rfl
  | handed hevent | bypassed hevent | interrupted hevent | startedIdle hevent
  | startedTapped hevent | startedReleased hevent | restarted hevent
  | sequential hevent | tapReleased hevent => exact absurd hevent htick
  | firstTap | retained | interfered | timedOut | expired => simp at hdone

theorem Outcome.waits_isEvent {keyp : KeyRecord} {s : State σ} {result : Result σ}
    (h : Outcome cb keyp s result) (hwaits : result.1 = false)
    (hmode : s.Unsettled) (hwithin : withinTappingTerm cb s keyp.event = true) :
    keyp.event.isEvent = true := by
  cases h with
  | firstTap hevent | retained hevent | interfered hevent => exact hevent
  | timedOut _ hafter => simp [hwithin] at hafter
  | expired hreleased => exact absurd hmode hreleased.not_unsettled
  | _ => simp [handOver, startTapping] at hwaits

/-- The tapping key is handed over as it is, while nothing leaves the buffer. -/
theorem Agrees.settle {s : State σ} {buffer : List KeyRecord}
    (h : Agrees s buffer) (halt : Alternating s buffer) (hmode : s.Unsettled) :
    Agrees { (processRecord cb s.tappingKey s).2 with tappingKey := .zero }
      buffer := by
  refine ⟨fun key => ?_, not_mem_record h.no_releaseLastTap⟩
  have hcalls : recordsTo key (s.calls ++ [.record s.tappingKey]) =
      recordsTo key s.calls ++
        if s.tappingKey.event.key = key then [s.tappingKey] else [] :=
    recordsTo_record _ _ _
  refine hcalls.symm ▸ ?_
  have hagrees := h.keys key
  have hzero : ¬ TapOf KeyRecord.zero key :=
    not_tapOf_of_mode KeyRecord.zero_not_tapped key
  by_cases hkey : s.tappingKey.event.key = key
  · have hnext := halt key
    rw [taken, pendingTap, if_pos ⟨hmode, hkey⟩, List.append_assoc,
      List.singleton_append] at hnext
    have hheld := not_heldTap_of_next hnext hmode.pressed
    rw [if_pos hkey]
    refine .of_not_heldTap (hagrees.matched.press hmode.pressed) ?_ hzero
      (hagrees.unmarked hheld)
    simp [heldTap_snoc, hmode.count_eq]
  · rw [if_neg hkey, List.append_nil]
    exact hagrees.frame (fun htap => absurd htap.2 hkey) hzero

theorem Agrees.retain {s : State σ} {buffer : List KeyRecord}
    {tappingKey : KeyRecord} (h : Agrees s buffer) (hmode : ¬ s.Tapped)
    (htapped : ¬ tappingKey.Tapped) :
    Agrees { s with tappingKey := tappingKey } buffer :=
  ⟨fun key => (h.keys key).frame (fun htap => absurd htap.1 hmode)
    (not_tapOf_of_mode htapped key), h.no_releaseLastTap⟩

/-- Apart from the first tap, a call that leaves its record changes no queue. -/
theorem Outcome.agrees_waits {keyp : KeyRecord} {s : State σ} {result : Result σ}
    {buffer : List KeyRecord} (hout : Outcome cb keyp s result)
    (hwaits : result.1 = false)
    (hfirst : ¬ (s.Unsettled ∧ keyp.event.key = s.tappingKey.event.key ∧
      keyp.event.pressed = false ∧ withinTappingTerm cb s keyp.event = true))
    (halt : Alternating s buffer) (h : Agrees s buffer) :
    result.2.1 = keyp ∧ Agrees result.2.2 buffer := by
  cases hout with
  | firstTap _ hmode hown hreleased hwithin =>
      exact absurd ⟨hmode, hown, hreleased, hwithin⟩ hfirst
  | retained _ hmode hsame =>
      refine ⟨rfl, h.retain (fun htapped => htapped.not_unsettled hmode) ?_⟩
      rcases hsame with rfl | rfl
      · exact fun htapped => htapped.not_unsettled hmode
      · exact fun htapped => (KeyRecord.setInterrupted_tapped.mp
          htapped).not_unsettled hmode
  | interfered _ hmode => exact ⟨rfl, h.settle halt hmode⟩
  | timedOut hmode => exact ⟨rfl, h.settle halt hmode⟩
  | expired hmode => exact ⟨rfl, h.retain hmode.not_tapped KeyRecord.zero_not_tapped⟩
  | _ => simp [handOver, startTapping] at hwaits

theorem Outcome.agrees_firstTap {keyp : KeyRecord} {s : State σ}
    {result : Result σ} {rest : List KeyRecord} (hcb : cb.KeepsRecords)
    (hout : Outcome cb keyp s result) (hwaits : result.1 = false)
    (hmode : s.Unsettled) (hown : keyp.event.key = s.tappingKey.event.key)
    (hreleased : keyp.event.pressed = false)
    (hwithin : withinTappingTerm cb s keyp.event = true)
    (h : Agrees s (keyp :: rest)) : Agrees result.2.2 (result.2.1 :: rest) := by
  have hpress := hmode.pressed
  cases hout with
  | firstTap =>
      have htap := KeepsRecords.tap hcb s.host (s.tappingKey.setCount 1)
      have hkey := KeepsRecords.key hcb s.host (s.tappingKey.setCount 1)
      refine ⟨fun key => ?_, not_mem_record h.no_releaseLastTap⟩
      have hcalls : recordsTo key
          (s.calls ++ [.record (s.tappingKey.setCount 1)]) =
          recordsTo key s.calls ++ if s.tappingKey.event.key = key then
            [s.tappingKey.setCount 1] else [] := recordsTo_record _ _ _
      refine hcalls.symm ▸ ?_
      have hagrees := h.keys key
      by_cases hsame : keyp.event.key = key
      · rw [waitingOf_cons_own hsame] at hagrees
        have hhead : HeadTap (waitingOf key
            ({ keyp with
              tap := (processRecord cb (s.tappingKey.setCount 1) s).1.tap } ::
                rest)) := by
          rw [waitingOf, List.filter_cons_of_pos (by simp [hsame]), headTap_cons]
          simp [processRecord, htap]
        rw [if_pos (hown ▸ hsame)]
        refine hagrees.tapPress hpress Nat.zero_lt_one (fun record hrecord => ?_)
          (.inr hhead) fun _ => hhead
        rw [waitingOf, List.filter_cons_of_pos (by simp [hsame]), List.tail_cons]
          at hrecord
        exact hagrees.tail_count record hrecord
      · rw [waitingOf_cons_other hsame] at hagrees
        rw [if_neg (hown ▸ hsame), List.append_nil, waitingOf,
          List.filter_cons_of_neg (by simp [hsame])]
        refine hagrees.frame (fun htapOf => absurd htapOf.2 (hown ▸ hsame))
          (not_tapOf_of_key ?_)
        simp only [processRecord, hkey]
        exact hown ▸ hsame
  | retained _ _ _ hother => exact absurd (hother hown) (by simp [hreleased])
  | interfered _ _ hother => exact absurd hown hother
  | timedOut _ hafter => simp [hwithin] at hafter
  | expired hreleased' => exact absurd hmode hreleased'.not_unsettled
  | _ => simp [handOver, startTapping] at hwaits

end Qmk.Tapping
