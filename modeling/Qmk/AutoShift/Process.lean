import Qmk.CapsWord.Process

/-!
# Auto Shift

`process_auto_shift.c` with `AUTO_SHIFT_REPEAT`, without Retro Shift and the options for each key, and
while it stays enabled.  A mod-tap is held or is a key like any other.
-/

namespace Qmk.AutoShift

open Qmk.Lib
open Qmk.CapsWord (Shift has has_zero has_or has_bit has_andNot and_bit_ne_zero)

structure Config where
  noAlpha : Bool
  noNumeric : Bool
  noSpecial : Bool
  noTab : Bool
  noSymbols : Bool
  enter : Bool
  /-- `AUTO_SHIFT_MODIFIERS`. -/
  modifiers : Bool
  /-- `AUTO_SHIFT_NO_AUTO_REPEAT`. -/
  noAutoRepeat : Bool
  autoshiftTimeout : BitVec 16
  tappingTerm : BitVec 16

/-- What a key does: a key code of one byte, a code with weak modifiers, a mod-tap that is held, and
a layer-mod key. -/
inductive Code
  | basic (kc : BitVec 8)
  | weak (mods : BitVec 8)
  | modTap (mods : BitVec 8)
  | layerMod (mods : BitVec 8)

structure State where
  realMods : BitVec 8
  weakMods : BitVec 8
  autoshiftTime : BitVec 16
  autoshiftLastkey : BitVec 8
  lastshifted : Bool
  inProgress : Bool
  /-- `cancelling_lshift` and `cancelling_rshift`. -/
  cancelling : Shift → Bool
  /-- The keys that `autoshift_press_user` has registered. -/
  registered : BitVec 8 → Bool
  /-- The keys that are down. -/
  held : Nat → Option Code

def State.boot : State where
  realMods := 0
  weakMods := 0
  autoshiftTime := 0
  autoshiftLastkey := 0
  lastshifted := false
  inProgress := false
  cancelling := fun _ => false
  registered := fun _ => false
  held := fun _ => none

/-- `IS_MODIFIER_KEYCODE` -/
def isModifier (kc : BitVec 8) : Bool := 0xE0 ≤ kc.toNat ∧ kc.toNat ≤ 0xE7

def modBit (kc : BitVec 8) : BitVec 8 := 1#8 <<< (kc.toNat % 8)

/-- `KC_LSFT` and `KC_RSFT`. -/
def shiftKey : Shift → BitVec 8
  | .lsft => 0xE1
  | .rsft => 0xE5

/-- The modifiers that the key holds. -/
def Code.mods : Code → BitVec 8
  | .basic kc => if isModifier kc then modBit kc else 0
  | .weak _ => 0
  | .modTap mods => mods
  | .layerMod mods => mods

def Code.isRetro : Code → Bool
  | .modTap _ => true
  | _ => false

/-! ## `process_auto_shift.c` -/

def autoshiftPressUser (keycode : BitVec 8) (shifted : Bool) (s : State) : State :=
  { s with
    weakMods := if shifted then s.weakMods ||| Shift.lsft.bit else s.weakMods
    registered := Function.update s.registered keycode true }

def autoshiftReleaseUser (keycode : BitVec 8) (s : State) : State :=
  { s with registered := Function.update s.registered keycode false }

def cancelShift (m : Shift) (s : State) : State :=
  if s.realMods &&& m.bit ≠ 0 then
    { s with
      cancelling := Function.update s.cancelling m true
      realMods := s.realMods &&& ~~~m.bit }
  else s

/-- The shifts are removed before a key is registered. -/
def cancelShifts (s : State) : State := cancelShift .rsft (cancelShift .lsft s)

def restoreShift (m : Shift) (s : State) : State :=
  if s.cancelling m then
    { s with
      cancelling := Function.update s.cancelling m false
      realMods := s.realMods ||| m.bit }
  else s

def autoshiftFlushShift (s : State) : State :=
  restoreShift .rsft
    (restoreShift .lsft { s with weakMods := s.weakMods &&& ~~~Shift.lsft.bit })

variable (cfg : Config)

def getAutoShiftedKey (kc : BitVec 8) : Bool :=
  (!cfg.noAlpha && decide (0x04 ≤ kc.toNat ∧ kc.toNat ≤ 0x1D)) ||
    (!cfg.noNumeric && decide (0x1E ≤ kc.toNat ∧ kc.toNat ≤ 0x27)) ||
    (!cfg.noSpecial && !cfg.noTab && decide (kc.toNat = 0x2B)) ||
    (!cfg.noSpecial && !cfg.noSymbols &&
      decide (0x2D ≤ kc.toNat ∧ kc.toNat ≤ 0x38 ∨ kc.toNat = 0x64)) ||
    (cfg.enter && decide (kc.toNat = 0x28))

def autoshiftPress (keycode : BitVec 8) (now : BitVec 16) (s : State) : State :=
  let otherMods := s.realMods &&& ~~~Shift.lsft.bit ≠ 0
  let s := if otherMods then { s with autoshiftLastkey := 0 } else s
  if otherMods ∧ cfg.modifiers = false then autoshiftPressUser keycode false s
  else if keycode = s.autoshiftLastkey ∧ (cfg.noAutoRepeat || !s.lastshifted) ∧
      now - s.autoshiftTime < cfg.tappingTerm then
    autoshiftPressUser s.autoshiftLastkey s.lastshifted (cancelShifts s)
  else
    { s with
      lastshifted := has s.realMods .lsft
      autoshiftLastkey := keycode
      autoshiftTime := now
      inProgress := true }

def autoshiftEnd (keycode : BitVec 8) (now : BitVec 16) (matrixTrigger : Bool) (s : State) :
    State :=
  if s.inProgress ∧ (keycode = s.autoshiftLastkey ∨ keycode = 0) then
    let s := { s with
      inProgress := false
      lastshifted := s.lastshifted || decide (cfg.autoshiftTimeout ≤ now - s.autoshiftTime) }
    let s := autoshiftPressUser s.autoshiftLastkey s.lastshifted (cancelShifts s)
    if matrixTrigger && !cfg.noAutoRepeat then s
    else
      { autoshiftFlushShift (autoshiftReleaseUser s.autoshiftLastkey s) with
        autoshiftTime := now }
  else
    let s := autoshiftReleaseUser keycode s
    { (if keycode = s.autoshiftLastkey then autoshiftFlushShift s else s) with
      autoshiftTime := now }

def autoshiftMatrixScan (now : BitVec 16) (s : State) : State :=
  if s.inProgress ∧ cfg.autoshiftTimeout ≤ now - s.autoshiftTime then
    autoshiftEnd cfg s.autoshiftLastkey now true s
  else s

def processAutoShift (code : Code) (pressed : Bool) (now : BitVec 16) (s : State) :
    Bool × State :=
  if pressed then
    let s := if s.inProgress then autoshiftEnd cfg 0 now false s else s
    if code.isRetro then (true, { s with autoshiftLastkey := 0 })
    else
      match code with
      | .basic kc =>
          if getAutoShiftedKey cfg kc then (false, autoshiftPress cfg kc now s)
          else (true, { s with autoshiftLastkey := 0 })
      | _ => (true, { s with autoshiftLastkey := 0 })
  else
    match code with
    | .basic kc =>
        let s :=
          if kc = shiftKey .lsft then
            { s with cancelling := Function.update s.cancelling .lsft false }
          else if kc = shiftKey .rsft then
            { s with cancelling := Function.update s.cancelling .rsft false }
          else s
        if getAutoShiftedKey cfg kc then (false, autoshiftEnd cfg kc now false s) else (true, s)
    | _ => (true, s)

/-! ## Events -/

/-- `process_action`, as far as the modifiers go. -/
def processAction (code : Code) (pressed : Bool) (s : State) : State :=
  match code with
  | .weak mods =>
      { s with weakMods := if pressed then s.weakMods ||| mods else s.weakMods &&& ~~~mods }
  | code =>
      { s with realMods :=
        if pressed then s.realMods ||| code.mods else s.realMods &&& ~~~code.mods }

def processRecord (code : Code) (pressed : Bool) (now : BitVec 16) (s : State) : State :=
  let (unhandled, s) := processAutoShift cfg code pressed now s
  if unhandled then processAction code pressed s else s

/-- A press is processed when it arrives, or it waits in the tapping engine: then the weak modifiers
were cleared when it arrived, by an `arrive` before.  The event of a key that is down is its release,
of the code that it went down with. -/
inductive Input
  | arrive
  | event (key : Nat) (code : Code) (now : BitVec 16) (waited : Bool)
  | scan (now : BitVec 16)

def step (s : State) : Input → State
  | .arrive => { s with weakMods := 0 }
  | .event key code now waited =>
      match s.held key with
      | none =>
          { processRecord cfg code true now
            (if waited then s else { s with weakMods := 0 }) with
            held := Function.update s.held key (some code) }
      | some code =>
          { processRecord cfg code false now s with held := Function.update s.held key none }
  | .scan now => autoshiftMatrixScan cfg now s

/-! ## Shifts that are held -/

def Holds (held : Nat → Option Code) (m : Shift) : Prop :=
  ∃ key code, held key = some code ∧ has code.mods m = true

/-- A key that registers a weak left shift is down. -/
def WeakShift (held : Nat → Option Code) : Prop :=
  ∃ key mods, held key = some (.weak mods) ∧ has mods .lsft = true

def AllUp (s : State) : Prop := ∀ key, s.held key = none

/-- No shift is left behind, and each shift that a key holds is there while no auto-shifted key is
registered. -/
structure NoStuckShift (s : State) : Prop where
  released : AllUp s → (∀ m, has s.realMods m = false) ∧ has s.weakMods .lsft = false
  held : (∀ kc, s.registered kc = false) → ∀ m, Holds s.held m → has s.realMods m = true

/-- The release of the code is one that Auto Shift takes for the release of the shift. -/
def IsShiftKey (code : Code) (m : Shift) : Prop := code = .basic (shiftKey m)

/-- A key that holds a shift comes up: `KC_LSFT` or `KC_RSFT` as the only key that holds it, another
key either so and with the shift not cancelled, or besides another key and with the shift
cancelled. -/
def ReleasesShift (s : State) (key : Nat) (code : Code) (m : Shift) : Prop :=
  let others := Holds (Function.update s.held key none) m
  (IsShiftKey code m → ¬others) ∧ (¬IsShiftKey code m → (s.cancelling m = true ↔ others))

/-- An auto-shifted key comes up as the last one that is registered: it is the last key, or no shift
is cancelled. -/
def ReleasesLast (s : State) (kc : BitVec 8) : Prop :=
  (∀ other, s.registered other = true → other = kc) → kc ≠ s.autoshiftLastkey →
    ∀ m, s.cancelling m = false

/-- A press that has waited finds no weak shift of a key that repeats. -/
def FindsNoShift (s : State) (code : Code) (waited : Bool) : Prop :=
  waited = true → s.inProgress = false → has s.weakMods .lsft = true →
    WeakShift s.held ∨ ∃ mods, code = .weak mods ∧ has mods .lsft = true

def Careful (s : State) : Input → Prop
  | .event key code _ waited =>
      match s.held key with
      | none => FindsNoShift s code waited
      | some code =>
          (∀ m, has code.mods m = true → ReleasesShift s key code m) ∧
            ∀ kc, code = .basic kc → getAutoShiftedKey cfg kc = true → ReleasesLast s kc
  | _ => True

/-! ## Cancelling and restoring -/

section Shifts

variable (s : State) (m m' : Shift)

theorem cancelShift_spec : ∃ mods cancelling,
    cancelShift m s = { s with realMods := mods, cancelling := cancelling } ∧
      (has mods m = false ∧ cancelling m = (s.cancelling m || has s.realMods m)) ∧
      ∀ m', m' ≠ m → has mods m' = has s.realMods m' ∧ cancelling m' = s.cancelling m' := by
  unfold cancelShift
  split_ifs with hmods
  · have hhas := (and_bit_ne_zero s.realMods m).mp hmods
    refine ⟨_, _, rfl, ⟨by simp, by simp [hhas]⟩, fun m' hne => ⟨?_, ?_⟩⟩
    · simp [hne]
    · exact Function.update_of_ne hne _ _
  · have hhas : has s.realMods m = false :=
      Bool.eq_false_iff.mpr fun h => hmods ((and_bit_ne_zero s.realMods m).mpr h)
    exact ⟨s.realMods, s.cancelling, rfl, ⟨hhas, by rw [hhas, Bool.or_false]⟩,
      fun _ _ => ⟨rfl, rfl⟩⟩

theorem restoreShift_spec : ∃ mods cancelling,
    restoreShift m s = { s with realMods := mods, cancelling := cancelling } ∧
      (has mods m = (has s.realMods m || s.cancelling m) ∧ cancelling m = false) ∧
      ∀ m', m' ≠ m → has mods m' = has s.realMods m' ∧ cancelling m' = s.cancelling m' := by
  unfold restoreShift
  split_ifs with hcancelling
  · refine ⟨_, _, rfl, ⟨by simp [hcancelling], by simp⟩, fun m' hne => ⟨?_, ?_⟩⟩
    · simp [hne]
    · exact Function.update_of_ne hne _ _
  · exact ⟨s.realMods, s.cancelling, rfl, by simp [hcancelling], fun _ _ => ⟨rfl, rfl⟩⟩

theorem cancelShifts_spec : ∃ mods cancelling,
    cancelShifts s = { s with realMods := mods, cancelling := cancelling } ∧
      ∀ m, has mods m = false ∧ cancelling m = (s.cancelling m || has s.realMods m) := by
  obtain ⟨leftMods, leftCancelling, hleft, hself, hother⟩ := cancelShift_spec s .lsft
  obtain ⟨mods, cancelling, hright, hself', hother'⟩ := cancelShift_spec (cancelShift .lsft s) .rsft
  rw [hleft] at hright hself' hother'
  have hleft' := hother' .lsft (by decide)
  have hright' := hother .rsft (by decide)
  refine ⟨mods, cancelling, ?_, fun m => ?_⟩
  · rw [cancelShifts, hleft, hright]
  · cases m with
    | lsft => exact ⟨hleft'.1.trans hself.1, hleft'.2.trans hself.2⟩
    | rsft =>
        refine ⟨hself'.1, hself'.2.trans ?_⟩
        simp only [hright'.1, hright'.2]

theorem autoshiftFlushShift_spec : ∃ mods cancelling,
    autoshiftFlushShift s = { s with
      weakMods := s.weakMods &&& ~~~Shift.lsft.bit
      realMods := mods
      cancelling := cancelling } ∧
      ∀ m, has mods m = (has s.realMods m || s.cancelling m) ∧ cancelling m = false := by
  obtain ⟨leftMods, leftCancelling, hleft, hself, hother⟩ :=
    restoreShift_spec { s with weakMods := s.weakMods &&& ~~~Shift.lsft.bit } .lsft
  obtain ⟨mods, cancelling, hright, hself', hother'⟩ := restoreShift_spec
    (restoreShift .lsft { s with weakMods := s.weakMods &&& ~~~Shift.lsft.bit }) .rsft
  rw [hleft] at hright hself' hother'
  have hleft' := hother' .lsft (by decide)
  have hright' := hother .rsft (by decide)
  refine ⟨mods, cancelling, ?_, fun m => ?_⟩
  · rw [autoshiftFlushShift, hleft, hright]
  · cases m with
    | lsft => exact ⟨hleft'.1.trans hself.1, hleft'.2.trans hself.2⟩
    | rsft =>
        refine ⟨hself'.1.trans ?_, hself'.2⟩
        simp only [hright'.1, hright'.2]

end Shifts

/-! ## The invariant -/

/-- An auto-shifted key of the code is down. -/
def Down (held : Nat → Option Code) (kc : BitVec 8) : Prop :=
  getAutoShiftedKey cfg kc = true ∧ ∃ key, held key = some (.basic kc)

structure Inv (held : Nat → Option Code) (s : State) : Prop where
  up : ∀ m, has s.realMods m = true → Holds held m
  there : ∀ m, Holds held m → has s.realMods m = true ∨ s.cancelling m = true
  cancelled : ∀ m, s.cancelling m = true → Holds held m
  pending : ∀ m, s.cancelling m = true → ∃ kc, s.registered kc = true
  registered : ∀ kc, s.registered kc = true → Down cfg held kc
  progress : s.inProgress = true → Down cfg held s.autoshiftLastkey
  weak : has s.weakMods .lsft = true → s.registered s.autoshiftLastkey = true ∨ WeakShift held

variable {cfg}

section Inv

variable {held : Nat → Option Code} {s : State}

theorem boot_inv : Inv cfg State.boot.held State.boot where
  up := fun m h => by simp [State.boot] at h
  there := fun m ⟨key, code, hheld, _⟩ => by simp [State.boot] at hheld
  cancelled := fun m h => Bool.noConfusion h
  pending := fun m h => Bool.noConfusion h
  registered := fun kc h => Bool.noConfusion h
  progress := fun h => Bool.noConfusion h
  weak := fun h => by simp [State.boot] at h

theorem Inv.flush (h : Inv cfg held s) : Inv cfg held (autoshiftFlushShift s) := by
  obtain ⟨mods, cancelling, hflush, hspec⟩ := autoshiftFlushShift_spec s
  have hnone : ∀ m, cancelling m = true → False := by
    intro m hm
    rw [(hspec m).2] at hm
    exact Bool.noConfusion hm
  rw [hflush]
  refine ⟨fun m hm => ?_, fun m hm => .inl ?_, fun m hm => (hnone m hm).elim,
    fun m hm => (hnone m hm).elim, h.registered, h.progress, fun hweak => ?_⟩
  · simp only [(hspec m).1, Bool.or_eq_true] at hm
    exact hm.elim (h.up m) (h.cancelled m)
  · simp only [(hspec m).1, Bool.or_eq_true]
    exact h.there m hm
  · simp at hweak

/-- The key that is registered with its shifts cancelled is the last key from then on. -/
theorem Inv.register (h : Inv cfg held s) {kc : BitVec 8} (hdown : Down cfg held kc)
    (shifted : Bool) (hlast : s.autoshiftLastkey = kc) :
    Inv cfg held (autoshiftPressUser kc shifted (cancelShifts s)) := by
  obtain ⟨mods, cancelling, hcancel, hspec⟩ := cancelShifts_spec s
  rw [autoshiftPressUser, hcancel]
  refine ⟨fun m hm => ?_, fun m hm => .inr ?_, fun m hm => ?_, fun m _ => ⟨kc, ?_⟩,
    fun other hother => ?_, h.progress, fun _ => .inl ?_⟩
  · simp only [(hspec m).1] at hm
    exact Bool.noConfusion hm
  · simp only [(hspec m).2, Bool.or_eq_true]
    exact (h.there m hm).symm
  · simp only [(hspec m).2, Bool.or_eq_true] at hm
    exact hm.elim (h.cancelled m) (h.up m)
  · exact Function.update_self ..
  · by_cases hkc : other = kc
    · rw [hkc]
      exact hdown
    · simp only [Function.update_of_ne hkc] at hother
      exact h.registered other hother
  · simp only [hlast, Function.update_self]

/-- A key is unregistered while no shift is cancelled, and no weak shift is left for it. -/
theorem Inv.unregister (h : Inv cfg held s) {kc : BitVec 8}
    (hpending : ∀ m, s.cancelling m = true → ∃ other, other ≠ kc ∧ s.registered other = true)
    (hweak : kc = s.autoshiftLastkey → has s.weakMods .lsft = false) :
    Inv cfg held (autoshiftReleaseUser kc s) := by
  refine ⟨h.up, h.there, h.cancelled, fun m hm => ?_, fun other hother => ?_, h.progress,
    fun hshift => ?_⟩
  · obtain ⟨other, hne, hother⟩ := hpending m hm
    exact ⟨other, (Function.update_of_ne hne _ _).trans hother⟩
  · by_cases hkc : other = kc
    · subst hkc
      simp [autoshiftReleaseUser] at hother
    · simp only [autoshiftReleaseUser, Function.update_of_ne hkc] at hother
      exact h.registered other hother
  · refine (h.weak hshift).imp (fun hlast => ?_) id
    have hne : s.autoshiftLastkey ≠ kc := by
      rintro heq
      have hnone : has s.weakMods .lsft = false := hweak heq.symm
      exact Bool.noConfusion (hnone.symm.trans hshift)
    exact (Function.update_of_ne hne _ _).trans hlast

theorem flush_release (kc : BitVec 8) (s : State) :
    autoshiftFlushShift (autoshiftReleaseUser kc s) =
      autoshiftReleaseUser kc (autoshiftFlushShift s) := by
  unfold autoshiftFlushShift autoshiftReleaseUser restoreShift
  dsimp only
  split_ifs <;> rfl

theorem flush_settled (s : State) :
    (∀ m, (autoshiftFlushShift s).cancelling m = false) ∧
      has (autoshiftFlushShift s).weakMods .lsft = false := by
  obtain ⟨mods, cancelling, hflush, hspec⟩ := autoshiftFlushShift_spec s
  rw [hflush]
  exact ⟨fun m => (hspec m).2, by simp⟩

theorem Inv.unregister_flush (h : Inv cfg held s) (kc : BitVec 8) :
    Inv cfg held (autoshiftFlushShift (autoshiftReleaseUser kc s)) := by
  rw [flush_release]
  obtain ⟨hcancelling, hweak⟩ := flush_settled s
  refine h.flush.unregister (fun m hm => ?_) fun _ => hweak
  rw [hcancelling m] at hm
  exact Bool.noConfusion hm

theorem Inv.setTime (h : Inv cfg held s) (now : BitVec 16) :
    Inv cfg held { s with autoshiftTime := now } :=
  ⟨h.up, h.there, h.cancelled, h.pending, h.registered, h.progress, h.weak⟩

theorem Inv.evaluate (h : Inv cfg held s) (lastshifted : Bool) :
    Inv cfg held { s with inProgress := false, lastshifted := lastshifted } :=
  ⟨h.up, h.there, h.cancelled, h.pending, h.registered, fun hp => Bool.noConfusion hp, h.weak⟩

theorem Inv.endProgress (h : Inv cfg held s) {keycode : BitVec 8}
    (hgo : s.inProgress = true ∧ (keycode = s.autoshiftLastkey ∨ keycode = 0)) (now : BitVec 16)
    (matrixTrigger : Bool) : Inv cfg held (autoshiftEnd cfg keycode now matrixTrigger s) := by
  have hlast := h.progress hgo.1
  have hpressed := (h.evaluate (s.lastshifted ||
    decide (cfg.autoshiftTimeout ≤ now - s.autoshiftTime))).register hlast
      (s.lastshifted || decide (cfg.autoshiftTimeout ≤ now - s.autoshiftTime)) rfl
  rw [autoshiftEnd, if_pos hgo]
  dsimp only
  split_ifs
  · exact hpressed
  · exact (hpressed.unregister_flush _).setTime now

theorem Inv.endRepeat (h : Inv cfg held s) {keycode : BitVec 8}
    (hgo : ¬(s.inProgress = true ∧ (keycode = s.autoshiftLastkey ∨ keycode = 0)))
    (hlast : ReleasesLast s keycode) (now : BitVec 16) (matrixTrigger : Bool) :
    Inv cfg held (autoshiftEnd cfg keycode now matrixTrigger s) := by
  rw [autoshiftEnd, if_neg hgo]
  dsimp only
  split_ifs with hkey
  · exact (h.unregister_flush keycode).setTime now
  · refine (h.unregister (fun m hm => ?_) fun heq => absurd heq hkey).setTime now
    by_contra hnone
    have honly : ∀ other, s.registered other = true → other = keycode := by
      intro other hother
      by_contra hne
      exact hnone ⟨other, hne, hother⟩
    have hoff := hlast honly hkey m
    rw [hoff] at hm
    exact Bool.noConfusion hm

end Inv

/-! ## What the end of a key leaves -/

section End

variable {s : State}

theorem cancelShifts_fields : (cancelShifts s).held = s.held ∧
    (cancelShifts s).inProgress = s.inProgress ∧
    (cancelShifts s).autoshiftLastkey = s.autoshiftLastkey ∧
    (cancelShifts s).registered = s.registered := by
  obtain ⟨mods, cancelling, hcancel, -⟩ := cancelShifts_spec s
  rw [hcancel]
  exact ⟨rfl, rfl, rfl, rfl⟩

theorem flush_fields : (autoshiftFlushShift s).held = s.held ∧
    (autoshiftFlushShift s).inProgress = s.inProgress ∧
    (autoshiftFlushShift s).autoshiftLastkey = s.autoshiftLastkey ∧
    (autoshiftFlushShift s).registered = s.registered := by
  obtain ⟨mods, cancelling, hflush, -⟩ := autoshiftFlushShift_spec s
  rw [hflush]
  exact ⟨rfl, rfl, rfl, rfl⟩

theorem autoshiftEnd_held (keycode : BitVec 8) (now : BitVec 16) (matrixTrigger : Bool) :
    (autoshiftEnd cfg keycode now matrixTrigger s).held = s.held := by
  rw [autoshiftEnd]
  dsimp only
  split_ifs
  · exact cancelShifts_fields.1
  · exact flush_fields.1.trans cancelShifts_fields.1
  · exact flush_fields.1
  · rfl

theorem autoshiftEnd_evaluated (h : s.inProgress = true) (now : BitVec 16) :
    (autoshiftEnd cfg 0 now false s).inProgress = false ∧
      has (autoshiftEnd cfg 0 now false s).weakMods .lsft = false := by
  rw [autoshiftEnd, if_pos ⟨h, .inr rfl⟩]
  simp only [Bool.false_and, Bool.false_eq_true, if_false]
  exact ⟨flush_fields.2.1.trans cancelShifts_fields.2.1, (flush_settled _).2⟩

/-- A key that comes up is neither registered nor in progress any more. -/
theorem autoshiftEnd_released {keycode : BitVec 8} (hkey : keycode ≠ 0) (now : BitVec 16) :
    (autoshiftEnd cfg keycode now false s).registered keycode = false ∧
      ((autoshiftEnd cfg keycode now false s).inProgress = true →
        (autoshiftEnd cfg keycode now false s).autoshiftLastkey ≠ keycode) := by
  by_cases hgo : s.inProgress = true ∧ (keycode = s.autoshiftLastkey ∨ keycode = 0)
  · have hlast := hgo.2.resolve_right hkey
    rw [autoshiftEnd, if_pos hgo]
    simp only [Bool.false_and, Bool.false_eq_true, if_false, flush_fields.2.1, flush_fields.2.2.2]
    refine ⟨?_, fun hprogress => ?_⟩
    · simp only [autoshiftReleaseUser, autoshiftPressUser, cancelShifts_fields.2.2.1, ← hlast,
        Function.update_self]
    · have hnone : (cancelShifts { s with
          inProgress := false
          lastshifted := s.lastshifted ||
            decide (cfg.autoshiftTimeout ≤ now - s.autoshiftTime) }).inProgress = true := hprogress
      rw [cancelShifts_fields.2.1] at hnone
      exact Bool.noConfusion hnone
  · rw [autoshiftEnd, if_neg hgo]
    dsimp only
    split_ifs with hlast
    · refine ⟨?_, fun hprogress => ?_⟩
      · rw [flush_fields.2.2.2]
        exact Function.update_self ..
      · rw [flush_fields.2.1] at hprogress
        exact absurd ⟨hprogress, .inl hlast⟩ hgo
    · exact ⟨Function.update_self .., fun _ => Ne.symm hlast⟩

end End

/-! ## Keys that go down and come up -/

section Keys

variable {held : Nat → Option Code} {key : Nat} {code : Code} {m : Shift} {kc : BitVec 8}

/-- A key that goes down leaves the others down. -/
theorem held_press (hup : held key = none) {other : Nat} {code' : Code}
    (h : held other = some code') : Function.update held key (some code) other = some code' := by
  have hne : other ≠ key := by
    rintro rfl
    rw [hup] at h
    cases h
  rw [Function.update_of_ne hne, h]

/-- A key that comes up leaves those of other codes down. -/
theorem held_release (hkey : held key = some code) {other : Nat} {code' : Code}
    (h : held other = some code') (hcode : code' ≠ code) :
    Function.update held key none other = some code' := by
  have hne : other ≠ key := by
    rintro rfl
    exact hcode (Option.some.inj (h.symm.trans hkey))
  rw [Function.update_of_ne hne, h]

theorem Holds.mono (h : Holds held m) (hup : held key = none) :
    Holds (Function.update held key (some code)) m := by
  obtain ⟨other, code', hother, hmods⟩ := h
  exact ⟨other, code', held_press hup hother, hmods⟩

theorem holds_press (hup : held key = none) :
    Holds (Function.update held key (some code)) m ↔
      Holds held m ∨ has code.mods m = true := by
  refine ⟨?_, ?_⟩
  · rintro ⟨other, code', hother, hmods⟩
    by_cases hkey : other = key
    · subst hkey
      rw [Function.update_self] at hother
      rw [Option.some.inj hother]
      exact .inr hmods
    · rw [Function.update_of_ne hkey] at hother
      exact .inl ⟨other, code', hother, hmods⟩
  · rintro (h | h)
    · exact h.mono hup
    · exact ⟨key, code, Function.update_self .., h⟩

theorem holds_release (hkey : held key = some code) (hmods : has code.mods m = false) :
    Holds (Function.update held key none) m ↔ Holds held m := by
  refine ⟨?_, ?_⟩
  · rintro ⟨other, code', hother, hmods'⟩
    by_cases heq : other = key
    · subst heq
      rw [Function.update_self] at hother
      cases hother
    · rw [Function.update_of_ne heq] at hother
      exact ⟨other, code', hother, hmods'⟩
  · rintro ⟨other, code', hother, hmods'⟩
    refine ⟨other, code', held_release hkey hother ?_, hmods'⟩
    rintro rfl
    exact Bool.noConfusion (hmods.symm.trans hmods')

theorem Down.press (h : Down cfg held kc) (hup : held key = none) :
    Down cfg (Function.update held key (some code)) kc := by
  obtain ⟨hauto, other, hother⟩ := h
  exact ⟨hauto, other, held_press hup hother⟩

theorem Down.release (h : Down cfg held kc) (hkey : held key = some code)
    (hne : code ≠ .basic kc) : Down cfg (Function.update held key none) kc := by
  obtain ⟨hauto, other, hother⟩ := h
  exact ⟨hauto, other, held_release hkey hother hne.symm⟩

theorem WeakShift.press (h : WeakShift held) (hup : held key = none) :
    WeakShift (Function.update held key (some code)) := by
  obtain ⟨other, mods, hother, hmods⟩ := h
  exact ⟨other, mods, held_press hup hother, hmods⟩

theorem WeakShift.release (h : WeakShift held) (hkey : held key = some code)
    (hcode : ∀ mods, code = .weak mods → has mods .lsft = false) :
    WeakShift (Function.update held key none) := by
  obtain ⟨other, mods, hother, hmods⟩ := h
  refine ⟨other, mods, held_release hkey hother ?_, hmods⟩
  rintro rfl
  exact Bool.noConfusion ((hcode mods rfl).symm.trans hmods)

variable (cfg) in
/-- The code is one of an auto-shifted key. -/
def isAuto : Code → Bool
  | .basic kc => getAutoShiftedKey cfg kc
  | _ => false

theorem isAuto_iff : isAuto cfg code = true ↔
    ∃ kc, code = .basic kc ∧ getAutoShiftedKey cfg kc = true := by
  cases code with
  | basic kc => exact ⟨fun h => ⟨kc, rfl, h⟩, fun ⟨_, hkc, h⟩ => Code.basic.inj hkc ▸ h⟩
  | weak mods => exact ⟨fun h => Bool.noConfusion h, fun ⟨_, hkc, _⟩ => by cases hkc⟩
  | modTap mods => exact ⟨fun h => Bool.noConfusion h, fun ⟨_, hkc, _⟩ => by cases hkc⟩
  | layerMod mods => exact ⟨fun h => Bool.noConfusion h, fun ⟨_, hkc, _⟩ => by cases hkc⟩

theorem getAutoShiftedKey_spec (h : getAutoShiftedKey cfg kc = true) :
    kc ≠ 0 ∧ isModifier kc = false := by
  have hrange : 0x04 ≤ kc.toNat ∧ kc.toNat ≤ 0x64 := by
    simp only [getAutoShiftedKey, Bool.or_eq_true, Bool.and_eq_true, decide_eq_true_eq] at h
    omega
  refine ⟨?_, ?_⟩
  · rintro rfl
    simp at hrange
  · simp only [isModifier, decide_eq_false_iff_not]
    omega

theorem mods_of_auto (h : getAutoShiftedKey cfg kc = true) : (Code.basic kc).mods = 0 := by
  rw [Code.mods, (getAutoShiftedKey_spec h).2]
  rfl

theorem shiftKey_not_auto (m : Shift) : getAutoShiftedKey cfg (shiftKey m) = false := by
  rw [Bool.eq_false_iff]
  intro h
  have hmod := (getAutoShiftedKey_spec h).2
  cases m with
  | lsft => exact absurd hmod (by decide)
  | rsft => exact absurd hmod (by decide)

end Keys

section Actions

variable {s : State} (code : Code)

theorem processAction_press : ∃ mods weak,
    processAction code true s = { s with realMods := mods, weakMods := weak } ∧
      (∀ m, has mods m = (has s.realMods m || has code.mods m)) ∧
      (has weak .lsft = true → has s.weakMods .lsft = true ∨
        ∃ others, code = .weak others ∧ has others .lsft = true) := by
  cases code with
  | weak others =>
      refine ⟨s.realMods, s.weakMods ||| others, rfl, fun m => ?_, fun h => ?_⟩
      · simp [Code.mods]
      · rw [has_or, Bool.or_eq_true] at h
        exact h.imp id fun hothers => ⟨others, rfl, hothers⟩
  | basic kc => exact ⟨_, s.weakMods, rfl, fun m => has_or _ _ m, .inl⟩
  | modTap others => exact ⟨_, s.weakMods, rfl, fun m => has_or _ _ m, .inl⟩
  | layerMod others => exact ⟨_, s.weakMods, rfl, fun m => has_or _ _ m, .inl⟩

theorem processAction_release : ∃ mods weak,
    processAction code false s = { s with realMods := mods, weakMods := weak } ∧
      (∀ m, has mods m = (has s.realMods m && !has code.mods m)) ∧
      (has weak .lsft = true → has s.weakMods .lsft = true ∧
        ∀ others, code = .weak others → has others .lsft = false) := by
  cases code with
  | weak others =>
      refine ⟨s.realMods, s.weakMods &&& ~~~others, rfl, fun m => ?_, fun h => ?_⟩
      · simp [Code.mods]
      · rw [has_andNot, Bool.and_eq_true, Bool.not_eq_true'] at h
        refine ⟨h.1, fun mods hcode => ?_⟩
        rw [← Code.weak.inj hcode]
        exact h.2
  | basic kc =>
      exact ⟨_, s.weakMods, rfl, fun m => has_andNot _ _ m, fun h => ⟨h, fun _ hc => by cases hc⟩⟩
  | modTap others =>
      exact ⟨_, s.weakMods, rfl, fun m => has_andNot _ _ m, fun h => ⟨h, fun _ hc => by cases hc⟩⟩
  | layerMod others =>
      exact ⟨_, s.weakMods, rfl, fun m => has_andNot _ _ m, fun h => ⟨h, fun _ hc => by cases hc⟩⟩

end Actions

/-! ## A press -/

section Press

variable {held : Nat → Option Code} {s : State} {key : Nat} {code : Code} {now : BitVec 16}

/-- The weak left shift is one of a key that registers it. -/
def Excused (held : Nat → Option Code) (code : Code) (s : State) : Prop :=
  has s.weakMods .lsft = true →
    WeakShift held ∨ ∃ mods, code = .weak mods ∧ has mods .lsft = true

theorem Excused.press (h : Excused held code s) (hup : held key = none)
    (hweak : has s.weakMods .lsft = true) : WeakShift (Function.update held key (some code)) := by
  rcases h hweak with hother | ⟨mods, rfl, hmods⟩
  · exact hother.press hup
  · exact ⟨key, mods, Function.update_self .., hmods⟩

theorem Inv.pressOther (h : Inv cfg held s) (hidle : s.inProgress = false)
    (hup : held key = none) (hexcused : Excused held code s) :
    Inv cfg (Function.update held key (some code))
      (processAction code true { s with autoshiftLastkey := 0 }) := by
  obtain ⟨mods, weak, hprocess, hmods, hweak⟩ :=
    @processAction_press { s with autoshiftLastkey := 0 } code
  rw [hprocess]
  refine ⟨fun m hm => ?_, fun m hm => ?_, fun m hm => ?_, h.pending, fun kc hkc => ?_,
    fun hprogress => ?_, fun hshift => .inr ?_⟩
  · simp only [hmods, Bool.or_eq_true] at hm
    exact (holds_press hup).mpr (hm.imp (h.up m) id)
  · simp only [hmods, Bool.or_eq_true]
    rcases (holds_press hup).mp hm with hold | hnew
    · exact (h.there m hold).imp .inl id
    · exact .inl (.inr hnew)
  · exact (h.cancelled m hm).mono hup
  · exact (h.registered kc hkc).press hup
  · exact Bool.noConfusion (hidle.symm.trans hprogress)
  · rcases hweak hshift with hold | ⟨others, rfl, hothers⟩
    · exact hexcused.press hup hold
    · exact ⟨key, others, Function.update_self .., hothers⟩

theorem Inv.down (h : Inv cfg held s) (hup : held key = none) (hmods : code.mods = 0) :
    Inv cfg (Function.update held key (some code)) s := by
  refine ⟨fun m hm => (h.up m hm).mono hup, fun m hm => ?_, fun m hm => (h.cancelled m hm).mono hup,
    h.pending, fun kc hkc => (h.registered kc hkc).press hup, fun hp => (h.progress hp).press hup,
    fun hweak => (h.weak hweak).imp id fun hshift => hshift.press hup⟩
  rcases (holds_press hup).mp hm with hold | hnew
  · exact h.there m hold
  · rw [hmods] at hnew
    simp at hnew

theorem Inv.pressPlain (h : Inv cfg held s) {kc : BitVec 8} (hidle : s.inProgress = false)
    (hdown : Down cfg held kc) (hshift : has s.weakMods .lsft = true → WeakShift held) :
    Inv cfg held (autoshiftPressUser kc false { s with autoshiftLastkey := 0 }) := by
  refine ⟨h.up, h.there, h.cancelled, fun m _ => ⟨kc, Function.update_self ..⟩,
    fun other hother => ?_, fun hp => Bool.noConfusion (hidle.symm.trans hp),
    fun hweak => .inr (hshift hweak)⟩
  by_cases hkc : other = kc
  · rw [hkc]
    exact hdown
  · simp only [autoshiftPressUser, Function.update_of_ne hkc] at hother
    exact h.registered other hother

theorem Inv.begin (h : Inv cfg held s) {kc : BitVec 8} (hdown : Down cfg held kc)
    (hshift : has s.weakMods .lsft = true → WeakShift held) (lastshifted : Bool)
    (now : BitVec 16) :
    Inv cfg held { s with
      lastshifted := lastshifted, autoshiftLastkey := kc, autoshiftTime := now
      inProgress := true } :=
  ⟨h.up, h.there, h.cancelled, h.pending, h.registered, fun _ => hdown,
    fun hweak => .inr (hshift hweak)⟩

theorem Inv.pressAuto (h : Inv cfg held s) {kc : BitVec 8} (hidle : s.inProgress = false)
    (hdown : Down cfg held kc) (hshift : has s.weakMods .lsft = true → WeakShift held) :
    Inv cfg held (autoshiftPress cfg kc now s) := by
  have hlast : Inv cfg held { s with autoshiftLastkey := 0 } :=
    ⟨h.up, h.there, h.cancelled, h.pending, h.registered,
      fun hp => Bool.noConfusion (hidle.symm.trans hp), fun hweak => .inr (hshift hweak)⟩
  rw [autoshiftPress]
  split_ifs with hplain hother hother hrepeat hrepeat
  · exact h.pressPlain hidle hdown hshift
  · exact absurd hplain.1 hother
  · exact hlast.register (hrepeat.1 ▸ hdown) s.lastshifted rfl
  · exact hlast.begin hdown hshift _ now
  · exact h.register (hrepeat.1 ▸ hdown) s.lastshifted rfl
  · exact h.begin hdown hshift _ now

theorem processRecord_press_other (h : isAuto cfg code = false) :
    processRecord cfg code true now s = processAction code true
      { (if s.inProgress then autoshiftEnd cfg 0 now false s else s) with
        autoshiftLastkey := 0 } := by
  cases code with
  | weak mods => rfl
  | modTap mods => rfl
  | layerMod mods => rfl
  | basic kc =>
      have hauto : getAutoShiftedKey cfg kc = false := h
      simp only [processRecord, processAutoShift, Code.isRetro, hauto, if_true,
        Bool.false_eq_true, if_false]

theorem processRecord_press_auto {kc : BitVec 8} (h : getAutoShiftedKey cfg kc = true) :
    processRecord cfg (.basic kc) true now s =
      autoshiftPress cfg kc now (if s.inProgress then autoshiftEnd cfg 0 now false s else s) := by
  simp only [processRecord, processAutoShift, Code.isRetro, h, if_true, Bool.false_eq_true,
    if_false]

theorem Inv.processPress (h : Inv cfg held s) (hup : held key = none)
    (hexcused : s.inProgress = false → Excused held code s) :
    Inv cfg (Function.update held key (some code)) (processRecord cfg code true now s) := by
  have hstart : Inv cfg held (if s.inProgress then autoshiftEnd cfg 0 now false s else s) ∧
      (if s.inProgress then autoshiftEnd cfg 0 now false s else s).inProgress = false ∧
      Excused held code (if s.inProgress then autoshiftEnd cfg 0 now false s else s) := by
    split_ifs with hprogress
    · obtain ⟨hidle, hweak⟩ := @autoshiftEnd_evaluated cfg s hprogress now
      exact ⟨h.endProgress ⟨hprogress, .inr rfl⟩ now false, hidle,
        fun hshift => Bool.noConfusion (hweak.symm.trans hshift)⟩
    · have hidle := Bool.eq_false_iff.mpr hprogress
      exact ⟨h, hidle, hexcused hidle⟩
  cases hcode : isAuto cfg code with
  | false =>
      rw [processRecord_press_other hcode]
      exact hstart.1.pressOther hstart.2.1 hup hstart.2.2
  | true =>
      obtain ⟨kc, rfl, hauto⟩ := isAuto_iff.mp hcode
      rw [processRecord_press_auto hauto]
      exact (hstart.1.down hup (mods_of_auto hauto)).pressAuto hstart.2.1
        ⟨hauto, key, Function.update_self ..⟩ (hstart.2.2.press hup)

end Press

/-! ## A release -/

section Release

variable {s : State} {key : Nat} {code : Code} {now : BitVec 16}

theorem mods_of_shiftKey {m : Shift} (h : IsShiftKey code m) : has code.mods m = true := by
  rw [h]
  cases m with
  | lsft => decide
  | rsft => decide

/-- An auto-shifted key that is neither registered nor in progress comes up. -/
theorem Inv.upAuto {held : Nat → Option Code} (h : Inv cfg held s) {kc : BitVec 8}
    (hkey : held key = some (.basic kc)) (hauto : getAutoShiftedKey cfg kc = true)
    (hregistered : s.registered kc = false)
    (hprogress : s.inProgress = true → s.autoshiftLastkey ≠ kc) :
    Inv cfg (Function.update held key none) s := by
  have hmods : ∀ m, has (Code.basic kc).mods m = false := fun m => by
    rw [mods_of_auto hauto]
    exact has_zero m
  refine ⟨fun m hm => (holds_release hkey (hmods m)).mpr (h.up m hm),
    fun m hm => h.there m ((holds_release hkey (hmods m)).mp hm),
    fun m hm => (holds_release hkey (hmods m)).mpr (h.cancelled m hm), h.pending,
    fun other hother => ?_, fun hp => ?_, fun hweak => (h.weak hweak).imp id fun hshift => ?_⟩
  · refine (h.registered other hother).release hkey fun heq => ?_
    rw [← Code.basic.inj heq, hregistered] at hother
    exact Bool.noConfusion hother
  · exact (h.progress hp).release hkey fun heq => hprogress hp (Code.basic.inj heq).symm
  · exact hshift.release hkey fun mods hcode => by cases hcode

theorem Inv.releaseOther (h : Inv cfg s.held s) (hkey : s.held key = some code)
    (hshifts : ∀ m, has code.mods m = true → ReleasesShift s key code m)
    (hauto : ∀ kc, code = .basic kc → getAutoShiftedKey cfg kc = false)
    {cancelling : Shift → Bool}
    (hcancelling : ∀ m, cancelling m = true ↔ s.cancelling m = true ∧ ¬IsShiftKey code m) :
    Inv cfg (Function.update s.held key none)
      (processAction code false { s with cancelling := cancelling }) := by
  obtain ⟨mods, weak, hprocess, hmods, hweak⟩ :=
    @processAction_release { s with cancelling := cancelling } code
  rw [hprocess]
  refine ⟨fun m hm => ?_, fun m hm => ?_, fun m hm => ?_, fun m hm => ?_, fun kc hkc => ?_,
    fun hprogress => ?_, fun hshift => ?_⟩
  · simp only [hmods, Bool.and_eq_true, Bool.not_eq_true'] at hm
    exact (holds_release hkey hm.2).mpr (h.up m hm.1)
  · cases hcode : has code.mods m with
    | true =>
        obtain ⟨honly, hcancelled⟩ := hshifts m hcode
        have hnot : ¬IsShiftKey code m := fun hshift => honly hshift hm
        exact .inr ((hcancelling m).mpr ⟨(hcancelled hnot).mpr hm, hnot⟩)
    | false =>
        refine (h.there m ((holds_release hkey hcode).mp hm)).imp (fun hreal => ?_) fun hc => ?_
        · simp only [hmods, hreal, hcode]
          rfl
        · refine (hcancelling m).mpr ⟨hc, fun hshift => ?_⟩
          rw [mods_of_shiftKey hshift] at hcode
          exact Bool.noConfusion hcode
  · obtain ⟨hold, hnot⟩ := (hcancelling m).mp hm
    cases hcode : has code.mods m with
    | true => exact ((hshifts m hcode).2 hnot).mp hold
    | false => exact (holds_release hkey hcode).mpr (h.cancelled m hold)
  · exact h.pending m ((hcancelling m).mp hm).1
  · refine (h.registered kc hkc).release hkey fun heq => ?_
    exact Bool.noConfusion ((hauto kc heq).symm.trans (h.registered kc hkc).1)
  · refine (h.progress hprogress).release hkey fun heq => ?_
    exact Bool.noConfusion ((hauto _ heq).symm.trans (h.progress hprogress).1)
  · obtain ⟨hold, hothers⟩ := hweak hshift
    exact (h.weak hold).imp id fun hother => hother.release hkey hothers

theorem processRecord_release_auto {kc : BitVec 8} (h : getAutoShiftedKey cfg kc = true) :
    processRecord cfg (.basic kc) false now s = autoshiftEnd cfg kc now false s := by
  have hne : ∀ m, kc ≠ shiftKey m := by
    rintro m rfl
    rw [shiftKey_not_auto m] at h
    exact Bool.noConfusion h
  simp only [processRecord, processAutoShift, h, hne, Bool.false_eq_true, if_false, if_true]

theorem processRecord_release_other (h : isAuto cfg code = false) : ∃ cancelling,
    processRecord cfg code false now s =
      processAction code false { s with cancelling := cancelling } ∧
        ∀ m, cancelling m = true ↔ s.cancelling m = true ∧ ¬IsShiftKey code m := by
  have hkeep : (∀ m, ¬IsShiftKey code m) →
      ∀ m, s.cancelling m = true ↔ s.cancelling m = true ∧ ¬IsShiftKey code m :=
    fun hnot m => (and_iff_left (hnot m)).symm
  cases code with
  | weak mods => exact ⟨s.cancelling, rfl, hkeep fun m hm => by cases hm⟩
  | modTap mods => exact ⟨s.cancelling, rfl, hkeep fun m hm => by cases hm⟩
  | layerMod mods => exact ⟨s.cancelling, rfl, hkeep fun m hm => by cases hm⟩
  | basic kc =>
      have hauto : getAutoShiftedKey cfg kc = false := h
      by_cases hshift : ∃ m, kc = shiftKey m
      · obtain ⟨m, rfl⟩ := hshift
        refine ⟨Function.update s.cancelling m false, ?_, fun m' => ?_⟩
        · simp only [processRecord, processAutoShift, hauto, Bool.false_eq_true, if_false, if_true]
          cases m with
          | lsft => rfl
          | rsft => rfl
        · by_cases hm : m' = m
          · subst hm
            simp [IsShiftKey]
          · have hne : shiftKey m ≠ shiftKey m' := by
              cases m <;> cases m' <;> first | exact absurd rfl hm | decide
            simp [IsShiftKey, hm, hne]
      · have hnot : ∀ m, kc ≠ shiftKey m := fun m hm => hshift ⟨m, hm⟩
        refine ⟨s.cancelling, ?_, hkeep fun m hm => hnot m (Code.basic.inj hm)⟩
        simp only [processRecord, processAutoShift, hauto, hnot, Bool.false_eq_true, if_false,
          if_true]

theorem Inv.processRelease (h : Inv cfg s.held s) (hkey : s.held key = some code)
    (hshifts : ∀ m, has code.mods m = true → ReleasesShift s key code m)
    (hlast : ∀ kc, code = .basic kc → getAutoShiftedKey cfg kc = true → ReleasesLast s kc) :
    Inv cfg (Function.update s.held key none) (processRecord cfg code false now s) := by
  cases hcode : isAuto cfg code with
  | false =>
      obtain ⟨cancelling, hprocess, hcancelling⟩ := @processRecord_release_other cfg s code now hcode
      rw [hprocess]
      refine h.releaseOther hkey hshifts (fun kc heq => ?_) hcancelling
      rw [heq] at hcode
      exact hcode
  | true =>
      obtain ⟨kc, rfl, hauto⟩ := isAuto_iff.mp hcode
      rw [processRecord_release_auto hauto]
      obtain ⟨hregistered, hprogress⟩ :=
        @autoshiftEnd_released cfg s kc (getAutoShiftedKey_spec hauto).1 now
      refine Inv.upAuto ?_ hkey hauto hregistered hprogress
      by_cases hgo : s.inProgress = true ∧ (kc = s.autoshiftLastkey ∨ kc = 0)
      · exact h.endProgress hgo now false
      · exact h.endRepeat hgo (hlast kc rfl hauto) now false

end Release

/-! ## Runs -/

section Runs

variable {s : State}

theorem Inv.setHeld {held : Nat → Option Code} (h : Inv cfg held s)
    (held' : Nat → Option Code) : Inv cfg held { s with held := held' } :=
  ⟨h.up, h.there, h.cancelled, h.pending, h.registered, h.progress, h.weak⟩

theorem Inv.clearWeak {held : Nat → Option Code} (h : Inv cfg held s) :
    Inv cfg held { s with weakMods := 0 } :=
  ⟨h.up, h.there, h.cancelled, h.pending, h.registered, h.progress, fun hweak => by simp at hweak⟩

theorem Inv.step (h : Inv cfg s.held s) {input : Input} (hcareful : Careful cfg s input) :
    Inv cfg (step cfg s input).held (step cfg s input) := by
  cases input with
  | arrive => exact h.clearWeak
  | scan now =>
      rw [AutoShift.step, autoshiftMatrixScan]
      split_ifs with hdue
      · rw [autoshiftEnd_held]
        exact h.endProgress ⟨hdue.1, .inl rfl⟩ now true
      · exact h
  | event key code now waited =>
      rw [Careful] at hcareful
      rw [AutoShift.step]
      cases hkey : s.held key with
      | none =>
          rw [hkey] at hcareful
          refine Inv.setHeld ?_ _
          cases waited with
          | true => exact h.processPress hkey fun hidle hweak => hcareful rfl hidle hweak
          | false =>
              refine h.clearWeak.processPress hkey fun _ hweak => ?_
              simp at hweak
      | some held =>
          rw [hkey] at hcareful
          exact (h.processRelease hkey hcareful.1 hcareful.2).setHeld _

theorem Inv.noStuckShift (h : Inv cfg s.held s) : NoStuckShift s := by
  refine ⟨fun hup => ⟨fun m => ?_, ?_⟩, fun hnone m hholds => ?_⟩
  · rw [Bool.eq_false_iff]
    intro hreal
    obtain ⟨key, code, hkey, -⟩ := h.up m hreal
    rw [hup key] at hkey
    cases hkey
  · rw [Bool.eq_false_iff]
    intro hweak
    rcases h.weak hweak with hlast | ⟨key, mods, hkey, -⟩
    · obtain ⟨-, key, hkey⟩ := h.registered _ hlast
      rw [hup key] at hkey
      cases hkey
    · rw [hup key] at hkey
      cases hkey
  · refine (h.there m hholds).resolve_right fun hcancelled => ?_
    obtain ⟨kc, hkc⟩ := h.pending m hcancelled
    rw [hnone kc] at hkc
    exact Bool.noConfusion hkc

end Runs

/-- The default options, with `AUTO_SHIFT_REPEAT`. -/
def defaults : Config :=
  ⟨false, false, false, false, false, false, false, false, 175, 200⟩

/-- `KC_LSFT` comes up while `KC_A` repeats, and `KC_A` after it. -/
def shiftUpFirst : List Input :=
  [.event 0 (.basic 0xE1) 0 false, .event 1 (.basic 0x04) 10 false, .scan 200,
    .event 0 (.basic 0xE1) 300 false, .event 1 (.basic 0x04) 400 false]

/-- The same with a mod-tap of the left shift. -/
def modTapUpFirst : List Input :=
  [.event 0 (.modTap 0x02) 0 false, .event 1 (.basic 0x04) 10 false, .scan 200,
    .event 0 (.modTap 0x02) 300 false, .event 1 (.basic 0x04) 400 false]

/-- The keys of the two runs that are down before the first release. -/
def bothDown (code : Code) : Nat → Option Code :=
  Function.update (Function.update (fun _ => none) 0 (some code)) 1 (some (.basic 0x04))

end Qmk.AutoShift
