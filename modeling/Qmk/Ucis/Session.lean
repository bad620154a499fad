import Qmk.Lib.Buffer
import Qmk.Ucis.Search

/-!
# UCIS sessions

A session is the text typed since the last start, with its backspaces applied.  The finish keys
register the symbol of that text exactly under the condition of `selects_iff`.
-/

namespace Qmk.Ucis

open Qmk.Lib

/-- The text of the session, if there is one.  A full buffer takes no more characters. -/
def sessionStep (limit : Nat) : Option (List Nat) → Event → Option (List Nat)
  | _, .start => some []
  | some typed, .key keycode true =>
      if keycode = kcEscape ∨ keycode = kcSpace ∨ keycode = kcEnter then none
      else if keycode = kcBackspace then some typed.dropLast
      else if keycodeToChar keycode ≠ 0 ∧ typed.length < limit then
        some (typed ++ [keycodeToChar keycode])
      else some typed
  | session, .key _ _ => session

/-- The keyboard, with the session that its user sees. -/
structure Typing where
  state : State
  session : Option (List Nat)

variable (cfg : Config)

def typingStep (typing : Typing) (event : Event) : Typing :=
  ⟨next cfg typing.state event, sessionStep cfg.maxInputLength typing.session event⟩

def Typing.initial : Typing := ⟨.initial cfg, none⟩

/-- The text that the event finishes. -/
def Typing.finished (typing : Typing) : Event → Option (List Nat)
  | .key keycode true =>
      if keycode = kcSpace ∨ keycode = kcEnter then typing.session else none
  | _ => none

/-- What is registered is the symbol of the text, and nothing when there is none. -/
def Selects (typed : List Nat) : Option Nat → Prop
  | some i => ∃ symbol, cfg.table[i]? = some symbol ∧ symbol.mnemonic = typed
  | none => ∀ symbol ∈ cfg.table, symbol.mnemonic ≠ typed

/-- The step stays inside the buffer and ends, a finish selects what was typed, and no other
step registers a symbol. -/
def Correct (typing : Typing) (event : Event) : Prop :=
  ∃ state effect, step cfg typing.state event = .ok (state, effect) ∧
    match typing.finished event with
    | some typed => Selects cfg typed effect.registered
    | none => effect.registered = none

/-- The condition of a finish on the typed characters and on what the buffer holds up to its
first zero.  A mnemonic must be followed by a zero inside the buffer, and no earlier symbol may
begin with it; other characters must not begin any symbol, together with the one left behind
them if there is just one. -/
structure Selectable (typed text : List Nat) : Prop where
  mnemonic : (∃ symbol ∈ cfg.table, symbol.mnemonic = typed) →
    text = typed ∧ typed.length < cfg.maxInputLength ∧
      ∃ i < 256, (∃ symbol, cfg.table[i]? = some symbol ∧ symbol.mnemonic = typed) ∧
        ∀ j < i, ∀ symbol, cfg.table[j]? = some symbol → ¬typed <+: symbol.mnemonic
  other : (∀ symbol ∈ cfg.table, symbol.mnemonic ≠ typed) →
    cfg.table.length ≤ 255 ∧
      (text.length ≤ typed.length + 1 → ∀ symbol ∈ cfg.table, ¬text <+: symbol.mnemonic)

def FinishesSelectably (typing : Typing) (event : Event) : Prop :=
  ∀ typed, typing.finished event = some typed → Selectable cfg typed typing.state.text

variable {cfg}

/-- The buffer holds the typed characters before its count. -/
structure Tracks (cfg : Config) (typing : Typing) : Prop where
  length_eq : typing.state.input.length = cfg.maxInputLength
  count_le : typing.state.count ≤ cfg.maxInputLength
  active_eq : typing.state.active = typing.session.isSome
  typed_eq : ∀ typed, typing.session = some typed →
    typed = typing.state.input.take typing.state.count
  nonzero : ∀ typed, typing.session = some typed → 0 ∉ typed

theorem tracks_initial : Tracks cfg (.initial cfg) where
  length_eq := List.length_replicate
  count_le := Nat.zero_le _
  active_eq := rfl
  typed_eq := by simp [Typing.initial]
  nonzero := by simp [Typing.initial]

theorem Tracks.typed_length {typing : Typing} (h : Tracks cfg typing) {typed : List Nat}
    (htyped : typing.session = some typed) : typed.length = typing.state.count := by
  have := h.count_le
  have := h.length_eq
  rw [h.typed_eq typed htyped, List.length_take]
  omega

/-- The typed characters are not zero, so that the text of the buffer begins with them. -/
theorem Tracks.typed_begins {typing : Typing} (h : Tracks cfg typing) {typed : List Nat}
    (htyped : typing.session = some typed) : typed <+: typing.state.text := by
  have hsplit := List.take_append_drop typing.state.count typing.state.input
  rw [← h.typed_eq typed htyped] at hsplit
  have hnonzero : ∀ c ∈ typed, decide (c ≠ 0) = true := by
    intro c hc
    have hne : c ≠ 0 := fun hzero => h.nonzero typed htyped (by rwa [← hzero])
    simpa using hne
  unfold State.text
  rw [← hsplit, List.takeWhile_append_of_pos hnonzero]
  exact List.prefix_append _ _

/-- Past the typed characters the loop accepts one more. -/
theorem Tracks.agrees_iff {typing : Typing} (h : Tracks cfg typing) {typed : List Nat}
    (htyped : typing.session = some typed) (mnemonic : List Nat) :
    Agrees typing.state.count mnemonic 0 typing.state.text ↔
      typing.state.text <+: mnemonic ∧ typing.state.text.length ≤ typed.length + 1 := by
  rw [h.typed_length htyped, Agrees, List.drop_zero, Nat.zero_add]
  constructor
  · rintro ⟨hbegins, hempty | hle⟩
    · exact ⟨hbegins, by simp [hempty]⟩
    · exact ⟨hbegins, hle⟩
  · exact fun ⟨hbegins, hle⟩ => ⟨hbegins, .inr hle⟩

/-- The effect of a search that ends registers what it found. -/
theorem ucisFinish_of_found {s : State} {found : Option Nat}
    (hfound : findSymbol cfg s 256 0 = .ok found) :
    ∃ effect, effect.registered = found ∧
      ucisFinish cfg s = .ok ({ s with active := false }, effect) := by
  unfold ucisFinish
  rw [hfound]
  cases found <;> exact ⟨_, rfl, rfl⟩

theorem ucisFinish_ok_iff {s : State} {P : Option Nat → Prop} :
    (∃ state effect, ucisFinish cfg s = .ok (state, effect) ∧ P effect.registered) ↔
      ∃ found, findSymbol cfg s 256 0 = .ok found ∧ P found := by
  cases hfound : findSymbol cfg s 256 0 with
  | error fault => simp [ucisFinish, hfound]
  | ok found =>
      obtain ⟨effect, rfl, heq⟩ := ucisFinish_of_found hfound
      constructor
      · rintro ⟨state, other, hother, hP⟩
        rw [heq] at hother
        cases hother
        exact ⟨_, rfl, hP⟩
      · rintro ⟨_, ⟨⟩, hP⟩
        exact ⟨_, effect, heq, hP⟩

/-- A search that selects what was typed meets the condition. -/
theorem Tracks.selectable {typing : Typing} (h : Tracks cfg typing) {typed : List Nat}
    (htyped : typing.session = some typed) {found : Option Nat}
    (hfound : findSymbol cfg typing.state 256 0 = .ok found) (hselects : Selects cfg typed found) :
    Selectable cfg typed typing.state.text := by
  obtain ⟨k, -, hk, hskips, hend, hstop⟩ := findSymbol_ok (by omega) hfound
  rw [show 256 - k = 255 - k + 1 by omega] at hend
  rcases findSymbol_here hstop hend with ⟨rfl, hterminator⟩ | ⟨rfl, symbol, hsymbol, hagrees, hfull⟩
  · have hlength : cfg.table.length ≤ k := List.getElem?_eq_none_iff.mp hterminator
    refine ⟨fun ⟨symbol, hmem, heq⟩ => (hselects symbol hmem heq).elim, fun _ => ⟨by omega, ?_⟩⟩
    intro hle symbol hmem hbegins
    obtain ⟨j, hj, rfl⟩ := List.mem_iff_getElem.mp hmem
    obtain ⟨other, hother, hnot⟩ := hskips j (Nat.zero_le j) (by omega)
    obtain rfl : cfg.table[j] = other := by
      simpa [List.getElem?_eq_getElem hj] using hother
    exact hnot ((h.agrees_iff htyped _).mpr ⟨hbegins, hle⟩)
  · obtain ⟨same, hsame, heq⟩ := hselects
    obtain rfl : symbol = same := by simpa [hsymbol] using hsame
    have htext : typing.state.text = typed := by
      have hbegins := ((h.agrees_iff htyped _).mp hagrees).1
      rw [heq] at hbegins
      exact hbegins.eq_of_length_le (h.typed_begins htyped).length_le
    have hlt : typed.length < cfg.maxInputLength := by
      have := h.typed_length htyped
      have := h.count_le
      have := h.length_eq
      rw [htext] at hfull
      omega
    refine ⟨fun _ => ⟨htext, hlt, k, hk, ⟨symbol, hsymbol, heq⟩, ?_⟩,
      fun hother => (hother symbol (List.mem_of_getElem? hsymbol) heq).elim⟩
    intro j hj other hother hbegins
    obtain ⟨same, hsame, hnot⟩ := hskips j (Nat.zero_le j) hj
    obtain rfl : other = same := by simpa [hother] using hsame
    exact hnot ((h.agrees_iff htyped _).mpr ⟨htext.symm ▸ hbegins, by simp [htext]⟩)

/-- Under the condition the search ends and selects what was typed. -/
theorem Tracks.selects {typing : Typing} (h : Tracks cfg typing) {typed : List Nat}
    (htyped : typing.session = some typed)
    (hselectable : Selectable cfg typed typing.state.text) :
    ∃ found, findSymbol cfg typing.state 256 0 = .ok found ∧ Selects cfg typed found := by
  by_cases hmem : ∃ symbol ∈ cfg.table, symbol.mnemonic = typed
  · obtain ⟨htext, hlt, k, hk, ⟨symbol, hsymbol, heq⟩, hfirst⟩ := hselectable.mnemonic hmem
    refine ⟨some k, ?_, symbol, hsymbol, heq⟩
    have hklt : k < cfg.table.length := (List.getElem?_eq_some_iff.mp hsymbol).1
    apply findSymbol_eq_some hk _ hsymbol
    · exact (h.agrees_iff htyped _).mpr ⟨by simp [htext, heq], by simp [htext]⟩
    · have := h.length_eq
      rw [htext]
      omega
    · intro j hj
      refine ⟨cfg.table[j], List.getElem?_eq_getElem (by omega), fun hagrees => ?_⟩
      have hbegins := ((h.agrees_iff htyped _).mp hagrees).1
      rw [htext] at hbegins
      exact hfirst j hj _ (List.getElem?_eq_getElem (by omega)) hbegins
  · have hother : ∀ symbol ∈ cfg.table, symbol.mnemonic ≠ typed :=
      fun symbol hsymbol heq => hmem ⟨symbol, hsymbol, heq⟩
    obtain ⟨hlength, hnone⟩ := hselectable.other hother
    refine ⟨none, findSymbol_eq_none hlength fun j hj => ?_, hother⟩
    refine ⟨cfg.table[j], List.getElem?_eq_getElem hj, fun hagrees => ?_⟩
    obtain ⟨hbegins, hle⟩ := (h.agrees_iff htyped _).mp hagrees
    exact hnone hle _ (List.getElem_mem hj) hbegins

section Steps

variable {s : State} {keycode : Nat}

theorem processUcis_inactive (pressed : Bool) (hactive : (s.active && pressed) = false) :
    processUcis cfg keycode pressed s = .ok (s, {}) := by
  simp [processUcis, hactive]

theorem processUcis_finish (hactive : s.active = true)
    (hkey : keycode = kcSpace ∨ keycode = kcEnter) :
    processUcis cfg keycode true s = ucisFinish cfg s := by
  rcases hkey with rfl | rfl <;>
    simp [processUcis, hactive, special, ucisAdd, keycodeToChar, kcSpace, kcEnter, kcEscape,
      kcBackspace, kcA, kcZ, kc1, kc9, kc0]

theorem processUcis_escape (hactive : s.active = true) :
    processUcis cfg kcEscape true s = .ok (ucisCancel s, { continues := false }) := by
  simp [processUcis, hactive, special, ucisAdd, keycodeToChar, kcSpace, kcEnter, kcEscape,
    kcBackspace, kcA, kcZ, kc1, kc9, kc0]

theorem processUcis_backspace (hactive : s.active = true) :
    processUcis cfg kcBackspace true s =
      .ok ((ucisRemoveLast s).1, { continues := (ucisRemoveLast s).2 }) := by
  simp [processUcis, hactive, special, ucisAdd, keycodeToChar, kcSpace, kcEnter, kcEscape,
    kcBackspace, kcA, kcZ, kc1, kc9, kc0]

/-- A key that is not special writes its character below the limit, and does nothing else. -/
theorem processUcis_other (hactive : s.active = true) (hspecial : special keycode = false)
    (hlength : s.input.length = cfg.maxInputLength) :
    ∃ effect, effect.registered = none ∧
      processUcis cfg keycode true s =
        .ok (if keycodeToChar keycode ≠ 0 ∧ s.count < cfg.maxInputLength then
          { s with
            input := s.input.set s.count (keycodeToChar keycode)
            count := s.count + 1 }
        else s, effect) := by
  have hkeys : keycode ≠ kcSpace ∧ keycode ≠ kcEnter ∧ keycode ≠ kcEscape ∧
      keycode ≠ kcBackspace := by
    simpa [special, not_or, and_assoc] using hspecial
  have hlimit := cfg.maxInputLength_le
  unfold processUcis
  rw [if_pos (by simp [hactive])]
  by_cases hfull : s.count ≥ cfg.maxInputLength
  · rw [if_pos ⟨hfull, by simp [hspecial]⟩, if_neg (by omega)]
    exact ⟨{ continues := false }, rfl, rfl⟩
  · rw [if_neg (fun h => hfull h.1)]
    by_cases hchar : keycodeToChar keycode = 0
    · refine ⟨{}, rfl, ?_⟩
      simp [ucisAdd, hchar, hkeys]
    · refine ⟨{}, rfl, ?_⟩
      have hmod : (s.count + 1) % 256 = s.count + 1 := Nat.mod_eq_of_lt (by omega)
      have hlt : s.count < s.input.length := by omega
      have hlt' : s.count < cfg.maxInputLength := by omega
      simp [ucisAdd, hchar, hlt, hlt', hmod]

theorem ucisFinish_state {state : State} {effect : Effect}
    (h : ucisFinish cfg s = .ok (state, effect)) : state = { s with active := false } := by
  unfold ucisFinish at h
  split at h <;> cases h <;> rfl

end Steps

section Simulation

variable {typing : Typing} {typed : List Nat}

theorem Tracks.write (h : Tracks cfg typing) (htyped : typing.session = some typed) {c : Nat}
    (hc : c ≠ 0) (hlt : typing.state.count < cfg.maxInputLength) :
    Tracks cfg ⟨{ typing.state with
      input := typing.state.input.set typing.state.count c
      count := typing.state.count + 1 }, some (typed ++ [c])⟩ where
  length_eq := by simpa using h.length_eq
  count_le := hlt
  active_eq := by simpa [htyped] using h.active_eq
  typed_eq := by
    have hn : typing.state.count < typing.state.input.length := by
      rw [h.length_eq]
      exact hlt
    rintro _ ⟨⟩
    rw [take_set_succ c hn, ← h.typed_eq typed htyped]
  nonzero := by
    rintro _ ⟨⟩
    simpa [h.nonzero typed htyped] using hc.symm

theorem Tracks.removeLast (h : Tracks cfg typing) (htyped : typing.session = some typed) :
    Tracks cfg ⟨(ucisRemoveLast typing.state).1, some typed.dropLast⟩ := by
  have hcount := h.typed_length htyped
  have hdrop : typed.dropLast = typing.state.input.take (typing.state.count - 1) := by
    have hle : typing.state.count ≤ typing.state.input.length := by
      rw [h.length_eq]
      exact h.count_le
    rw [h.typed_eq typed htyped, dropLast_take_eq hle]
  have hnonzero : 0 ∉ typed.dropLast :=
    fun hzero => h.nonzero typed htyped (List.dropLast_subset _ hzero)
  have hle := h.count_le
  unfold ucisRemoveLast
  split
  · exact ⟨h.length_eq, by dsimp only; omega, by simpa [htyped] using h.active_eq,
      by rintro _ ⟨⟩; exact hdrop, by rintro _ ⟨⟩; exact hnonzero⟩
  · have hzero : typing.state.count - 1 = typing.state.count := by omega
    exact ⟨h.length_eq, hle, by simpa [htyped] using h.active_eq,
      by rintro _ ⟨⟩; rw [hdrop, hzero], by rintro _ ⟨⟩; exact hnonzero⟩

theorem Tracks.leave (h : Tracks cfg typing) {state : State}
    (hinput : state.input = typing.state.input) (hcount : state.count ≤ typing.state.count)
    (hactive : state.active = false) : Tracks cfg ⟨state, none⟩ where
  length_eq := by simpa [hinput] using h.length_eq
  count_le := Nat.le_trans hcount h.count_le
  active_eq := hactive
  typed_eq := by simp
  nonzero := by simp

/-- A key pressed in a session that is not a finish: it ends the session, takes its last
character away or may add one. -/
theorem Tracks.press (h : Tracks cfg typing) (htyped : typing.session = some typed)
    {keycode : Nat} (hkey : ¬(keycode = kcSpace ∨ keycode = kcEnter)) :
    ∃ state effect, processUcis cfg keycode true typing.state = .ok (state, effect) ∧
      effect.registered = none ∧
      Tracks cfg ⟨state, sessionStep cfg.maxInputLength (some typed) (.key keycode true)⟩ := by
  have hactive : typing.state.active = true := by simpa [htyped] using h.active_eq
  by_cases hescape : keycode = kcEscape
  · subst hescape
    refine ⟨_, _, processUcis_escape hactive, rfl, ?_⟩
    exact h.leave rfl (Nat.zero_le _) rfl
  by_cases hbackspace : keycode = kcBackspace
  · subst hbackspace
    exact ⟨_, _, processUcis_backspace hactive, rfl, h.removeLast htyped⟩
  have hspecial : special keycode = false := by
    simp only [not_or] at hkey
    simp [special, hkey, hescape, hbackspace]
  obtain ⟨effect, heffect, hstep⟩ := processUcis_other hactive hspecial h.length_eq
  refine ⟨_, effect, hstep, heffect, ?_⟩
  have hleave : ¬(keycode = kcEscape ∨ keycode = kcSpace ∨ keycode = kcEnter) := by
    rintro (hesc | hfinish)
    · exact hescape hesc
    · exact hkey hfinish
  rw [sessionStep, if_neg hleave, if_neg hbackspace, h.typed_length htyped]
  split
  · rename_i hchar
    exact h.write htyped hchar.1 hchar.2
  · rw [← htyped]
    exact h

/-- A step that does not finish a session is correct. -/
theorem Tracks.step_other (h : Tracks cfg typing) {event : Event}
    (hevent : typing.finished event = none) :
    ∃ state effect, step cfg typing.state event = .ok (state, effect) ∧
      effect.registered = none ∧
      Tracks cfg ⟨state, sessionStep cfg.maxInputLength typing.session event⟩ := by
  cases event with
  | start =>
      refine ⟨_, _, rfl, rfl, h.length_eq, Nat.zero_le _, rfl, ?_, ?_⟩
      · rintro _ ⟨⟩
        rfl
      · rintro _ ⟨⟩
        simp
  | key keycode pressed =>
      cases hsession : typing.session with
      | none =>
          have hactive : typing.state.active = false := by simpa [hsession] using h.active_eq
          refine ⟨_, _, processUcis_inactive pressed (by simp [hactive]), rfl, ?_⟩
          have hnone : sessionStep cfg.maxInputLength none (.key keycode pressed) = none := by
            cases pressed <;> rfl
          rw [hnone, ← hsession]
          exact h
      | some typed =>
          cases pressed with
          | false =>
              refine ⟨_, _, processUcis_inactive false (by simp), rfl, ?_⟩
              change Tracks cfg ⟨typing.state, some typed⟩
              rwa [← hsession]
          | true =>
              have hkey : ¬(keycode = kcSpace ∨ keycode = kcEnter) := by
                intro hkey
                simp [Typing.finished, hkey, hsession] at hevent
              exact h.press hsession hkey

theorem finished_eq_some {event : Event} (h : typing.finished event = some typed) :
    ∃ keycode, event = .key keycode true ∧ (keycode = kcSpace ∨ keycode = kcEnter) ∧
      typing.session = some typed := by
  cases event with
  | start => simp [Typing.finished] at h
  | key keycode pressed =>
      cases pressed with
      | false => simp [Typing.finished] at h
      | true =>
          simp only [Typing.finished] at h
          split at h
          · rename_i hkey
            exact ⟨keycode, rfl, hkey, h⟩
          · cases h

/-- A step is correct exactly under the condition on its finish. -/
theorem Tracks.correct_iff (h : Tracks cfg typing) (event : Event) :
    Correct cfg typing event ↔ FinishesSelectably cfg typing event := by
  unfold Correct FinishesSelectably
  cases hfinished : typing.finished event with
  | none =>
      obtain ⟨state, effect, hstep, heffect, -⟩ := h.step_other hfinished
      constructor
      · rintro - typed ⟨⟩
      · exact fun _ => ⟨state, effect, hstep, heffect⟩
  | some typed =>
      obtain ⟨keycode, rfl, hkey, hsession⟩ := finished_eq_some hfinished
      have hactive : typing.state.active = true := by simpa [hsession] using h.active_eq
      have hstep : step cfg typing.state (.key keycode true) = ucisFinish cfg typing.state :=
        processUcis_finish hactive hkey
      rw [hstep]
      constructor
      · rintro hcorrect _ ⟨⟩
        obtain ⟨found, hfound, hselects⟩ := ucisFinish_ok_iff (P := Selects cfg typed) |>.mp hcorrect
        exact h.selectable hsession hfound hselects
      · exact fun hselectable => ucisFinish_ok_iff.mpr (h.selects hsession (hselectable typed rfl))

/-- A correct step keeps the buffer and the session together. -/
theorem Tracks.step (h : Tracks cfg typing) {event : Event} (hcorrect : Correct cfg typing event) :
    Tracks cfg (typingStep cfg typing event) := by
  obtain ⟨state, effect, hstep, heffect⟩ := hcorrect
  have hnext : next cfg typing.state event = state := by simp only [next, hstep]
  rw [typingStep, hnext]
  cases hfinished : typing.finished event with
  | none =>
      obtain ⟨other, effect', hother, -, htracks⟩ := h.step_other hfinished
      obtain ⟨rfl, -⟩ : other = state ∧ effect' = effect := by
        simpa [hother] using hstep
      exact htracks
  | some typed =>
      obtain ⟨keycode, rfl, hkey, hsession⟩ := finished_eq_some hfinished
      have hactive : typing.state.active = true := by simpa [hsession] using h.active_eq
      have hfinish : ucisFinish cfg typing.state = .ok (state, effect) :=
        (processUcis_finish hactive hkey).symm.trans hstep
      have hnone : sessionStep cfg.maxInputLength typing.session (.key keycode true) = none := by
        rw [hsession, sessionStep, if_pos (.inr hkey)]
      rw [hnone, ucisFinish_state hfinish]
      exact h.leave rfl (Nat.le_refl _) rfl

end Simulation

/-- Over every run of starts and key presses: all accesses are inside the buffer and each finish
registers a symbol of the table exactly when its mnemonic is what was typed, if and only if
each finish meets the condition. -/
theorem selects_iff (cfg : Config) (events : List Event) :
    Meets (typingStep cfg) (Correct cfg) (.initial cfg) events ↔
      Meets (typingStep cfg) (FinishesSelectably cfg) (.initial cfg) events := by
  constructor
  · intro h
    apply h.imp_of_invariant (Tracks cfg) _ _ tracks_initial
    · exact fun typing event htracks hcorrect => htracks.step hcorrect
    · exact fun typing event htracks hcorrect => (htracks.correct_iff event).mp hcorrect
  · intro h
    apply h.imp_of_invariant (Tracks cfg) _ _ tracks_initial
    · exact fun typing event htracks hfinish =>
        htracks.step ((htracks.correct_iff event).mpr hfinish)
    · exact fun typing event htracks hfinish => (htracks.correct_iff event).mpr hfinish

/-- One mnemonic, and a buffer of four characters. -/
def tinyTable : Config where
  table := [{ mnemonic := [97, 98], codePoints := [0x1F4A9], mnemonic_ne := by decide }]
  maxInputLength := 4
  maxInputLength_le := by decide
  maxCodePoints := 3

/-- "abc", a backspace and Enter: the deleted character keeps "ab" from being found. -/
theorem deletedCharacter_not_correct :
    ¬Meets (typingStep tinyTable) (Correct tinyTable) (.initial tinyTable)
      [.start, .key 0x04 true, .key 0x05 true, .key 0x06 true, .key kcBackspace true,
        .key kcEnter true] := by
  rintro ⟨-, -, -, -, -, ⟨state, effect, hstep, hselects⟩, -⟩
  cases hstep
  have hnone : ∀ symbol ∈ tinyTable.table, symbol.mnemonic ≠ [97, 98] := hselects
  exact hnone _ (List.mem_singleton.mpr rfl) rfl

end Qmk.Ucis
