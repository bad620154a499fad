import Mathlib.Algebra.BigOperators.Group.List.Basic
import Mathlib.Algebra.GroupWithZero.Nat
import Mathlib.Data.Finset.Union
import Qmk.Steno.Process

/-!
# Strokes

A stroke is the set of the keys that go down from when no key is down until none is down again.
The keyboard sends one packet for each stroke.
-/

namespace Qmk.Steno

/-! ## Strokes of the fingers -/

/-- The keycode of a key that goes down or up. -/
inductive Event
  | press (keycode : Nat)
  | release (keycode : Nat)

structure Stroke where
  mode : Mode
  keys : Finset Nat

/-- The keys that are down, the ones of the stroke so far, and the strokes before it. -/
structure Chording where
  held : List Nat
  keys : Finset Nat
  mode : Mode
  strokes : List Stroke

variable (cfg : Config)

/-- The steno keys that a key stands for, by their numbers from `STN__MIN`. -/
def stenoKeys (keycode : Nat) : List Nat :=
  if stnMin ≤ keycode ∧ keycode ≤ stnMax then [keycode - qkSteno]
  else if cfg.combinedmap ∧ qkStenoComb ≤ keycode ∧ keycode ≤ qkStenoCombMax then
    [combinedmapFirst.getD (keycode - qkStenoComb) 0 - qkSteno,
      combinedmapSecond.getD (keycode - qkStenoComb) 0 - qkSteno]
  else []

/-- The mode that a key switches to. -/
def switchedMode (keycode : Nat) : Option Mode :=
  if cfg.enableAll then
    if keycode = qkStenoBolt then some stenoModeBolt
    else if keycode = qkStenoGemini then some stenoModeGemini
    else none
  else none

namespace Chording

def press (keycode : Nat) (t : Chording) : Chording :=
  match switchedMode cfg keycode with
  | some mode => { t with keys := ∅, mode := mode }
  | none =>
      if stenoKeys cfg keycode = [] then t
      else
        { t with
          held := keycode :: t.held
          keys := t.keys ∪ (stenoKeys cfg keycode).toFinset }

def release (keycode : Nat) (t : Chording) : Chording :=
  if stenoKeys cfg keycode = [] then t
  else if t.held.erase keycode = [] then
    { t with held := [], keys := ∅, strokes := t.strokes ++ [⟨t.mode, t.keys⟩] }
  else { t with held := t.held.erase keycode }

def step (t : Chording) : Event → Chording
  | .press keycode => t.press cfg keycode
  | .release keycode => t.release cfg keycode

def run (t : Chording) (events : List Event) : Chording := events.foldl (step cfg) t

/-- How many steno keys are down, a combined key counting twice. -/
def count (t : Chording) : Nat := (t.held.map fun keycode => (stenoKeys cfg keycode).length).sum

/-- Only a key that is down goes up, and an `int8_t` counts the ones that are down. -/
def Allows (t : Chording) : Event → Prop
  | .press keycode => t.count cfg + (stenoKeys cfg keycode).length ≤ 127
  | .release keycode => stenoKeys cfg keycode = [] ∨ keycode ∈ t.held

def Plausible : Chording → List Event → Prop
  | _, [] => True
  | t, event :: events => t.Allows cfg event ∧ Plausible (t.step cfg event) events

instance (t : Chording) : (event : Event) → Decidable (t.Allows cfg event)
  | .press _ => inferInstanceAs (Decidable (_ ≤ _))
  | .release _ => inferInstanceAs (Decidable (_ ∨ _))

instance decidablePlausible :
    (t : Chording) → (events : List Event) → Decidable (t.Plausible cfg events)
  | _, [] => inferInstanceAs (Decidable True)
  | t, event :: events =>
      have := decidablePlausible (t.step cfg event) events
      inferInstanceAs (Decidable (_ ∧ _))

end Chording

/-- Nothing is down at the start. -/
def Chording.start (mode : Mode) : Chording := ⟨[], ∅, mode, []⟩

/-! ## Runs of the keyboard -/

def step (s : State) : Event → State
  | .press keycode => (processSteno cfg .weak keycode ⟨false, true⟩ s).2
  | .release keycode => (processSteno cfg .weak keycode ⟨false, false⟩ s).2

def run (s : State) (events : List Event) : State := events.foldl (step cfg) s

/-- The mode is one that the build has. -/
def Known (mode : Mode) : Prop :=
  (cfg.enableBolt = true ∧ mode = stenoModeBolt) ∨
    (cfg.enableGemini = true ∧ mode = stenoModeGemini)

/-- The byte of the chord and the bits in it that a key sets. -/
def code (mode : Mode) (key : Nat) : Nat × Byte :=
  if mode = stenoModeBolt then (txbGetGroup (boltcode key), boltcode key)
  else (key / 7, geminiBit key)

/-- The chord has the bits of the keys and no others. -/
def Holds (mode : Mode) (chord : List Byte) (keys : Finset Nat) : Prop :=
  ∀ group bit, (chord.getD group 0).getLsbD bit = true ↔
    ∃ key ∈ keys, (code mode key).1 = group ∧ (code mode key).2.getLsbD bit = true

/-- What is sent of a chord. -/
def packet (mode : Mode) (chord : List Byte) : List Byte :=
  if mode = stenoModeBolt then
    ((List.range boltStrokeSize).map fun i => chord.getD i 0).filter (· ≠ 0) ++ [0]
  else
    (List.range geminiStrokeSize).map fun i => (chord.modify 0 (· ||| 0x80)).getD i 0

variable {cfg}

/-! ## One key -/

section Key

variable {mode : Mode} {chord : List Byte} {keys : Finset Nat} {s : State}

theorem getD_modify {α : Type} (l : List α) (f : α → α) (d : α) {i : Nat} (h : i < l.length)
    (j : Nat) : (l.modify i f).getD j d = if i = j then f (l.getD j d) else l.getD j d := by
  simp only [List.getD_eq_getElem?_getD, List.getElem?_modify]
  by_cases heq : i = j
  · subst heq
    simp [h]
  · simp [heq]

theorem holds_empty (cfg : Config) (mode : Mode) : Holds mode (emptyChord cfg) ∅ := by
  intro group bit
  have hzero : (emptyChord cfg).getD group 0 = 0 := by
    rw [emptyChord, List.getD_eq_getElem?_getD, List.getElem?_replicate]
    split <;> rfl
  rw [hzero]
  simp

theorem Holds.insert {key : Nat} (h : Holds mode chord keys)
    (hlt : (code mode key).1 < chord.length) :
    Holds mode (chord.modify (code mode key).1 (· ||| (code mode key).2)) (insert key keys) := by
  intro group bit
  rw [getD_modify _ _ _ hlt]
  by_cases hgroup : (code mode key).1 = group
  · rw [if_pos hgroup, BitVec.getLsbD_or, Bool.or_eq_true, h group bit]
    simp [hgroup, or_comm]
  · rw [if_neg hgroup, h group bit]
    simp [hgroup]

/-- Every key has its byte in the chord. -/
theorem code_lt (hknown : Known cfg mode) {key : Nat} (hkey : key < 42) :
    (code mode key).1 < cfg.maxStrokeSize := by
  rcases hknown with ⟨hbolt, rfl⟩ | ⟨hgemini, rfl⟩
  · have hgroup : ∀ key < 42, txbGetGroup (boltcode key) < 4 := by decide
    have hsize : 4 ≤ cfg.maxStrokeSize := by
      unfold Config.maxStrokeSize
      split <;> decide
    exact Nat.lt_of_lt_of_le (hgroup key hkey) hsize
  · rw [code, if_neg (by decide), Config.maxStrokeSize, if_pos hgemini]
    exact Nat.div_lt_of_lt_mul hkey

theorem bolt_test (hbolt : cfg.enableBolt = true) (hmode : mode = stenoModeBolt) :
    (cfg.enableBolt && mode == stenoModeBolt) = true := by
  rw [hbolt, hmode]
  rfl

theorem gemini_tests (hgemini : cfg.enableGemini = true) (hmode : mode = stenoModeGemini) :
    (cfg.enableBolt && mode == stenoModeBolt) = false ∧
      (cfg.enableGemini && mode == stenoModeGemini) = true := by
  rw [hgemini, hmode]
  exact ⟨Bool.and_false _, rfl⟩

theorem pressStenoKey_weak (hknown : Known cfg s.mode) (key : Nat) (record : Record) :
    pressStenoKey cfg .weak (qkSteno + key) record s =
      { s with
        nPressedKeys := s.nPressedKeys + 1
        chord := s.chord.modify (code s.mode key).1 (· ||| (code s.mode key).2) } := by
  have hkey : qkSteno + key - qkSteno = key := Nat.add_sub_cancel_left ..
  unfold pressStenoKey
  dsimp only
  rw [hkey]
  rcases hknown with ⟨hbolt, hmode⟩ | ⟨hgemini, hmode⟩
  · rw [if_pos (bolt_test hbolt hmode), code, if_pos hmode]
    rfl
  · have htests := gemini_tests hgemini hmode
    have hother : s.mode ≠ stenoModeBolt := hmode ▸ by decide
    rw [if_neg (by simp [htests.1]), if_pos htests.2, code, if_neg hother]
    rfl

theorem sendStenoChord_known (hknown : Known cfg s.mode) :
    stenoClearChord cfg (sendStenoChord cfg s) =
      { s with chord := emptyChord cfg, sent := s.sent ++ packet s.mode s.chord } := by
  unfold sendStenoChord
  rcases hknown with ⟨hbolt, hmode⟩ | ⟨hgemini, hmode⟩
  · rw [if_pos (bolt_test hbolt hmode), packet, if_pos hmode]
    rfl
  · have htests := gemini_tests hgemini hmode
    have hother : s.mode ≠ stenoModeBolt := hmode ▸ by decide
    rw [if_neg (by simp [htests.1]), if_pos htests.2, packet, if_neg hother]
    rfl

theorem releaseStenoKey_weak (hknown : Known cfg s.mode) (keycode : Nat) (record : Record) :
    releaseStenoKey cfg .weak keycode record s =
      if 0 < (s.nPressedKeys - 1).toInt then { s with nPressedKeys := s.nPressedKeys - 1 }
      else
        { s with
          nPressedKeys := 0
          chord := emptyChord cfg
          sent := s.sent ++ packet s.mode s.chord } := by
  have hsend := sendStenoChord_known (s := { s with nPressedKeys := 0 }) hknown
  unfold releaseStenoKey Hooks.weak
  dsimp only
  rw [if_neg (by decide : ¬true = false), if_neg (by decide : ¬true = false), hsend]

end Key

/-! ## One key event -/

section Event

variable {s : State} {t : Chording} {keycode : Nat}

/-- What a steno key event does with one key. -/
def keyAction (cfg : Config) (record : Record) (s : State) (key : Nat) : State :=
  if record.pressed then pressStenoKey cfg .weak (qkSteno + key) record s
  else releaseStenoKey cfg .weak (qkSteno + key) record s

theorem processStenoBody_key (again : Nat → Record → State → Bool × State) {record : Record}
    (hevent : record.noevent = false) (h : stnMin ≤ keycode ∧ keycode ≤ stnMax) :
    (processStenoBody cfg .weak again keycode record s).2 =
      keyAction cfg record s (keycode - qkSteno) := by
  have hkey : qkSteno + (keycode - qkSteno) = keycode := Nat.add_sub_cancel' h.1
  have hrange : stnMin ≤ keycode ∧ keycode ≤ stnMax := h
  simp only [stnMin, stnMax, qkSteno] at h
  unfold processStenoBody
  rw [if_neg (by simp only [qkSteno, qkStenoMax]; omega), if_neg (by simp [hevent]),
    if_neg (by simp [Hooks.weak]), if_neg (by simp only [qkStenoBolt]; omega),
    if_neg (by simp only [qkStenoGemini]; omega),
    if_neg (by simp only [qkStenoComb, qkStenoCombMax]; omega), if_pos hrange, keyAction, hkey]

theorem combinedmap_range : ∀ i < 11,
    (stnMin ≤ combinedmapFirst.getD i 0 ∧ combinedmapFirst.getD i 0 ≤ stnMax) ∧
      (stnMin ≤ combinedmapSecond.getD i 0 ∧ combinedmapSecond.getD i 0 ≤ stnMax) := by
  decide

theorem combined_index (h : qkStenoComb ≤ keycode ∧ keycode ≤ qkStenoCombMax) :
    keycode - qkStenoComb < 11 := by
  simp only [qkStenoComb, qkStenoCombMax] at h ⊢
  omega

theorem processStenoBody_combined (again : Nat → Record → State → Bool × State) {record : Record}
    (hevent : record.noevent = false)
    (h : cfg.combinedmap = true ∧ qkStenoComb ≤ keycode ∧ keycode ≤ qkStenoCombMax) :
    (processStenoBody cfg .weak again keycode record s).2 =
      (again (combinedmapSecond.getD (keycode - qkStenoComb) 0) record
        (again (combinedmapFirst.getD (keycode - qkStenoComb) 0) record s).2).2 := by
  have hrange := h.2
  simp only [qkStenoComb, qkStenoCombMax] at hrange
  unfold processStenoBody
  rw [if_neg (by simp only [qkSteno, qkStenoMax]; omega), if_neg (by simp [hevent]),
    if_neg (by simp [Hooks.weak]), if_neg (by simp only [qkStenoBolt]; omega),
    if_neg (by simp only [qkStenoGemini]; omega), if_pos h]

/-- Every other key leaves the state alone, as a key that switches the mode does when it goes up. -/
theorem processStenoBody_other (again : Nat → Record → State → Bool × State) {record : Record}
    (hswitch : record.pressed = true → switchedMode cfg keycode = none)
    (hkey : ¬(stnMin ≤ keycode ∧ keycode ≤ stnMax))
    (hcombined : ¬(cfg.combinedmap = true ∧ qkStenoComb ≤ keycode ∧ keycode ≤ qkStenoCombMax)) :
    (processStenoBody cfg .weak again keycode record s).2 = s := by
  have hup : ∀ {mode}, switchedMode cfg keycode = some mode → ¬record.pressed = true := by
    intro mode hmode hdown
    cases hmode.symm.trans (hswitch hdown)
  unfold processStenoBody
  split
  · rfl
  · split
    · rfl
    · split
      · rfl
      · split
        · next hbolt =>
          have hmode : switchedMode cfg keycode = some stenoModeBolt := by
            rw [switchedMode, if_pos hbolt.1, if_pos hbolt.2]
          rw [if_neg (hup hmode)]
        · split
          · next hgemini =>
            have hmode : switchedMode cfg keycode = some stenoModeGemini := by
              rw [switchedMode, if_pos hgemini.1, hgemini.2, if_neg (by decide), if_pos rfl]
            rw [if_neg (hup hmode)]
          · rfl

/-- A key that does not switch the mode acts for each steno key that it stands for. -/
theorem processSteno_keys {record : Record} (hevent : record.noevent = false)
    (hswitch : record.pressed = true → switchedMode cfg keycode = none) :
    (processSteno cfg .weak keycode record s).2 =
      (stenoKeys cfg keycode).foldl (keyAction cfg record) s := by
  unfold processSteno stenoKeys
  by_cases hkey : stnMin ≤ keycode ∧ keycode ≤ stnMax
  · rw [processStenoBody_key _ hevent hkey, if_pos hkey, List.foldl_cons, List.foldl_nil]
  · rw [if_neg hkey]
    by_cases hcombined : cfg.combinedmap = true ∧ qkStenoComb ≤ keycode ∧
        keycode ≤ qkStenoCombMax
    · obtain ⟨hfirst, hsecond⟩ := combinedmap_range _ (combined_index hcombined.2)
      rw [processStenoBody_combined _ hevent hcombined, if_pos hcombined,
        processStenoBody_key _ hevent hsecond, processStenoBody_key _ hevent hfirst,
        List.foldl_cons, List.foldl_cons, List.foldl_nil]
    · rw [processStenoBody_other _ hswitch hkey hcombined, if_neg hcombined, List.foldl_nil]

theorem processSteno_switch {mode : Mode} (h : switchedMode cfg keycode = some mode) :
    (processSteno cfg .weak keycode ⟨false, true⟩ s).2 = stenoSetMode cfg mode s := by
  unfold switchedMode at h
  split at h
  · next hall =>
    split at h
    · next hbolt =>
      obtain rfl := Option.some.inj h
      subst hbolt
      simp [processSteno, processStenoBody, hall, qkSteno, qkStenoMax, qkStenoBolt, Hooks.weak]
    · split at h
      · next hgemini =>
        obtain rfl := Option.some.inj h
        subst hgemini
        simp [processSteno, processStenoBody, hall, qkSteno, qkStenoMax, qkStenoBolt,
          qkStenoGemini, Hooks.weak]
      · cases h
  · cases h

theorem stenoKeys_lt (cfg : Config) (keycode : Nat) :
    ∀ key ∈ stenoKeys cfg keycode, key < 42 := by
  intro key hkey
  unfold stenoKeys at hkey
  split at hkey
  · next hrange =>
    simp only [stnMin, stnMax] at hrange
    rw [List.mem_singleton] at hkey
    omega
  · split at hkey
    · next hcombined =>
      obtain ⟨hfirst, hsecond⟩ := combinedmap_range _ (combined_index hcombined.2)
      simp only [stnMin, stnMax] at hfirst hsecond
      simp only [List.mem_cons, List.not_mem_nil, or_false] at hkey
      omega
    · cases hkey

/-! ## Several keys -/

def addKeys (mode : Mode) (keys : List Nat) (chord : List Byte) : List Byte :=
  keys.foldl (fun chord key => chord.modify (code mode key).1 (· ||| (code mode key).2)) chord

theorem foldl_press {s : State} (keys : List Nat) (hknown : Known cfg s.mode) :
    keys.foldl (keyAction cfg ⟨false, true⟩) s =
      { s with
        nPressedKeys := s.nPressedKeys + BitVec.ofNat 8 keys.length
        chord := addKeys s.mode keys s.chord } := by
  induction keys generalizing s with
  | nil => simp [addKeys]
  | cons key keys ih =>
      have hfirst : keyAction cfg ⟨false, true⟩ s key = _ := pressStenoKey_weak hknown key _
      have hcount : s.nPressedKeys + 1 + BitVec.ofNat 8 keys.length =
          s.nPressedKeys + BitVec.ofNat 8 (keys.length + 1) := by
        rw [BitVec.ofNat_add, BitVec.add_assoc, BitVec.add_comm 1]
        rfl
      rw [List.foldl_cons, hfirst]
      refine (ih (s := { s with
        nPressedKeys := s.nPressedKeys + 1
        chord := s.chord.modify (code s.mode key).1 (· ||| (code s.mode key).2) }) hknown).trans ?_
      rw [hcount]
      rfl

theorem Holds.addKeys {mode : Mode} {chord : List Byte} {set : Finset Nat} {keys : List Nat}
    (hknown : Known cfg mode) (h : Holds mode chord set)
    (hlength : chord.length = cfg.maxStrokeSize) (hkeys : ∀ key ∈ keys, key < 42) :
    Holds mode (addKeys mode keys chord) (set ∪ keys.toFinset) ∧
      (Steno.addKeys mode keys chord).length = cfg.maxStrokeSize := by
  induction keys generalizing chord set with
  | nil => simpa [Steno.addKeys] using ⟨h, hlength⟩
  | cons key keys ih =>
      rw [List.forall_mem_cons] at hkeys
      have hlt := code_lt hknown hkeys.1
      have hnext := ih (h.insert (hlength ▸ hlt)) (by rw [List.length_modify, hlength]) hkeys.2
      rw [List.toFinset_cons, Finset.union_insert, ← Finset.insert_union]
      exact hnext

theorem foldl_release {keys : List Nat} (hne : keys ≠ []) (hknown : Known cfg s.mode) {m : Nat}
    (hcount : s.nPressedKeys.toNat = m + keys.length) (hle : m + keys.length ≤ 127) :
    keys.foldl (keyAction cfg ⟨false, false⟩) s =
      if m = 0 then
        { s with
          nPressedKeys := 0
          chord := emptyChord cfg
          sent := s.sent ++ packet s.mode s.chord }
      else { s with nPressedKeys := BitVec.ofNat 8 m } := by
  induction keys generalizing s with
  | nil => exact absurd rfl hne
  | cons key keys ih =>
      rw [List.length_cons] at hcount hle
      have hnext : (s.nPressedKeys - 1).toNat = m + keys.length := by
        rw [BitVec.toNat_sub, hcount]
        show (2 ^ 8 - 1 + (m + (keys.length + 1))) % 2 ^ 8 = m + keys.length
        omega
      have hsigned : (s.nPressedKeys - 1).toInt = (m + keys.length : Nat) := by
        rw [BitVec.toInt_eq_toNat_of_lt (by omega), hnext]
      have hfirst : keyAction cfg ⟨false, false⟩ s key = _ :=
        releaseStenoKey_weak hknown (qkSteno + key) ⟨false, false⟩
      rw [List.foldl_cons, hfirst, hsigned]
      cases keys with
      | nil =>
          rw [List.length_nil, Nat.add_zero] at hnext ⊢
          by_cases hzero : m = 0
          · subst hzero
            rfl
          · rw [if_pos (by omega), if_neg hzero, List.foldl_nil, ← hnext, BitVec.ofNat_toNat,
              BitVec.setWidth_eq]
      | cons next keys =>
          rw [if_pos (by rw [List.length_cons]; omega)]
          exact ih (List.cons_ne_nil _ _) hknown hnext (by omega)

end Event

/-! ## Runs -/

/-- The bytes are the packet of a chord with the keys of the stroke. -/
def Frames (cfg : Config) (stroke : Stroke) (bytes : List Byte) : Prop :=
  Known cfg stroke.mode ∧ (∀ key ∈ stroke.keys, key < 42) ∧
    ∃ chord, chord.length = cfg.maxStrokeSize ∧ Holds stroke.mode chord stroke.keys ∧
      bytes = packet stroke.mode chord

/-- The state of the keyboard is the one that the strokes call for. -/
structure Agrees (cfg : Config) (s : State) (t : Chording) : Prop where
  mode : s.mode = t.mode
  known : Known cfg t.mode
  stored : cfg.enableAll = true → s.stenomode = t.mode
  count : s.nPressedKeys.toNat = t.count cfg
  count_le : t.count cfg ≤ 127
  held : ∀ keycode ∈ t.held, stenoKeys cfg keycode ≠ []
  length : s.chord.length = cfg.maxStrokeSize
  keys : ∀ key ∈ t.keys, key < 42
  holds : Holds t.mode s.chord t.keys
  sent : ∃ packets, s.sent = packets.flatten ∧ List.Forall₂ (Frames cfg) t.strokes packets

section Runs

variable {s : State} {t : Chording} {keycode : Nat}

theorem known_of_switched {mode : Mode} (h : switchedMode cfg keycode = some mode) :
    Known cfg mode := by
  have hall : cfg.enableAll = true := by
    unfold switchedMode at h
    split at h
    · assumption
    · cases h
  have hprotocol : cfg.protocol = .all := by
    cases hcase : cfg.protocol <;> simp [Config.enableAll, hcase] at hall
    rfl
  rw [switchedMode, if_pos hall] at h
  split at h
  · exact .inl ⟨by simp [Config.enableBolt, hprotocol], (Option.some.inj h).symm⟩
  · split at h
    · exact .inr ⟨by simp [Config.enableGemini, hprotocol], (Option.some.inj h).symm⟩
    · cases h

theorem agrees_start {stenomode : Mode} (h : Known cfg (stenoInit cfg stenomode).mode) :
    Agrees cfg (stenoInit cfg stenomode) (.start (stenoInit cfg stenomode).mode) where
  mode := rfl
  known := h
  stored hall := by
    unfold Config.enableAll at hall
    unfold Chording.start stenoInit
    split at hall
    · next hprotocol => simp [hprotocol]
    · cases hall
  count := rfl
  count_le := Nat.zero_le _
  held := nofun
  length := List.length_replicate
  keys := nofun
  holds := holds_empty _ _
  sent := ⟨[], rfl, .nil⟩

theorem Agrees.press (h : Agrees cfg s t) (hallows : t.Allows cfg (.press keycode)) :
    Agrees cfg (step cfg s (.press keycode)) (t.press cfg keycode) := by
  have hle : t.count cfg + (stenoKeys cfg keycode).length ≤ 127 := hallows
  cases hswitch : switchedMode cfg keycode with
  | some mode =>
      rw [step, processSteno_switch hswitch, Chording.press, hswitch]
      exact { h with
        mode := rfl
        known := known_of_switched hswitch
        stored := fun _ => rfl
        length := List.length_replicate
        keys := nofun
        holds := holds_empty _ _ }
  | none =>
      rw [step, processSteno_keys rfl fun _ => hswitch, Chording.press, hswitch]
      by_cases hkeys : stenoKeys cfg keycode = []
      · simp only [hkeys, if_true, List.foldl_nil]
        exact h
      · have hknown : Known cfg s.mode := h.mode ▸ h.known
        have hmode := h.mode
        obtain ⟨hholds, hlength⟩ := h.holds.addKeys h.known h.length
          (stenoKeys_lt cfg keycode)
        simp only [hkeys, if_false, foldl_press _ hknown]
        have hcount : Chording.count cfg
            { t with
              held := keycode :: t.held
              keys := t.keys ∪ (stenoKeys cfg keycode).toFinset } =
            t.count cfg + (stenoKeys cfg keycode).length := by
          rw [Nat.add_comm]
          rfl
        refine
          { mode := hmode
            known := h.known
            stored := h.stored
            count := ?_
            count_le := hcount ▸ hle
            held := ?_
            length := ?_
            keys := ?_
            holds := ?_
            sent := h.sent }
        case refine_1 =>
          have hprevious := h.count
          rw [hcount, BitVec.toNat_add, BitVec.toNat_ofNat, hprevious]
          omega
        case refine_2 => exact List.forall_mem_cons.mpr ⟨hkeys, h.held⟩
        case refine_3 => rw [hmode]; exact hlength
        case refine_4 =>
          intro key hkey
          rcases Finset.mem_union.mp hkey with hold | hnew
          · exact h.keys key hold
          · exact stenoKeys_lt cfg keycode key (List.mem_toFinset.mp hnew)
        case refine_5 => rw [hmode]; exact hholds

theorem count_erase (cfg : Config) (h : keycode ∈ t.held) :
    t.count cfg = Chording.count cfg { t with held := t.held.erase keycode } +
      (stenoKeys cfg keycode).length := by
  have hperm := (List.perm_cons_erase h).map fun keycode => (stenoKeys cfg keycode).length
  rw [Chording.count, hperm.sum_eq, List.map_cons, List.sum_cons, Nat.add_comm]
  rfl

theorem count_eq_zero (h : ∀ keycode ∈ t.held, stenoKeys cfg keycode ≠ []) :
    t.count cfg = 0 ↔ t.held = [] := by
  constructor
  · intro hzero
    cases hheld : t.held with
    | nil => rfl
    | cons keycode held =>
        have hpos := List.length_pos_iff.mpr (h keycode (hheld ▸ List.mem_cons_self))
        rw [Chording.count, hheld, List.map_cons, List.sum_cons] at hzero
        omega
  · intro hnil
    rw [Chording.count, hnil]
    rfl

theorem Agrees.release (h : Agrees cfg s t) (hallows : t.Allows cfg (.release keycode)) :
    Agrees cfg (step cfg s (.release keycode)) (t.release cfg keycode) := by
  rw [step, processSteno_keys rfl Bool.noConfusion, Chording.release]
  by_cases hkeys : stenoKeys cfg keycode = []
  · simp only [hkeys, if_true, List.foldl_nil]
    exact h
  · have hmem : keycode ∈ t.held := hallows.resolve_left hkeys
    have hknown : Known cfg s.mode := h.mode ▸ h.known
    have hmode := h.mode
    have hcount := count_erase cfg hmem
    have hle := h.count_le
    have hheld : ∀ other ∈ t.held.erase keycode, stenoKeys cfg other ≠ [] :=
      fun other hother => h.held other (List.mem_of_mem_erase hother)
    have hzero := count_eq_zero (t := { t with held := t.held.erase keycode }) hheld
    rw [if_neg hkeys, foldl_release hkeys hknown (h.count.trans hcount) (hcount ▸ hle)]
    by_cases hlast : t.held.erase keycode = []
    · obtain ⟨packets, hsent, hframes⟩ := h.sent
      rw [if_pos (hzero.mpr hlast), if_pos hlast]
      exact
        { mode := hmode
          known := h.known
          stored := h.stored
          count := rfl
          count_le := Nat.zero_le _
          held := nofun
          length := List.length_replicate
          keys := nofun
          holds := holds_empty _ _
          sent := ⟨packets ++ [packet t.mode s.chord], by simp [hsent, hmode],
            List.rel_append hframes
              (.cons ⟨h.known, h.keys, s.chord, h.length, h.holds, rfl⟩ .nil)⟩ }
    · rw [if_neg (mt hzero.mp hlast), if_neg hlast]
      exact
        { mode := hmode
          known := h.known
          stored := h.stored
          count := by
            rw [BitVec.toNat_ofNat]
            exact Nat.mod_eq_of_lt (by omega)
          count_le := by omega
          held := hheld
          length := h.length
          keys := h.keys
          holds := h.holds
          sent := h.sent }

theorem Agrees.step {event : Event} (h : Agrees cfg s t) (hallows : t.Allows cfg event) :
    Agrees cfg (step cfg s event) (t.step cfg event) := by
  cases event with
  | press keycode => exact h.press hallows
  | release keycode => exact h.release hallows

theorem Agrees.run {events : List Event} (h : Agrees cfg s t)
    (hallowed : t.Plausible cfg events) :
    Agrees cfg (run cfg s events) (t.run cfg events) := by
  induction events generalizing s t with
  | nil => exact h
  | cons event events ih => exact ih (h.step hallowed.1) hallowed.2

end Runs

end Qmk.Steno
