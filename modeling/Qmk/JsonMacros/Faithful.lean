import Qmk.JsonMacros.Read

/-!
# Which macros are compiled

Between two fragments the reader is outside of a literal, or in one whose end is pending, or behind
the backslash of a quotation mark that was dropped with the end of its literal.
-/

namespace Qmk.JsonMacros

open Qmk.KeymapC (Text isWordChar isBlank)

/-! ## Between fragments -/

inductive Place where
  | outside
  | literal
  | quoted
  deriving DecidableEq

/-- The reader stands here and has read these items, but for a quotation mark that is dropped. -/
inductive Stands : Place → Bool → List Item → Paired → Prop where
  | outside (started : Bool) (items : List Item) :
      Stands .outside started items (false, ⟨.outside, items, started⟩)
  | literal (items : List Item) : Stands .literal true items (true, ⟨.literal, items, true⟩)
  | quoted (items : List Item) :
      Stands .quoted true (items ++ [.char '"']) (false, ⟨.escape, items, true⟩)

/-- Within a literal; a quotation mark of its text may be pending. -/
inductive Within : Bool → List Item → Paired → Prop where
  | plain (items : List Item) : Within false items (false, ⟨.literal, items, true⟩)
  | quote (items : List Item) :
      Within true (items ++ [.char '"']) (true, ⟨.escape, items, true⟩)

theorem within_flush {quote : Bool} {items : List Item} {s : Paired} (h : Within quote items s) :
    flush s = some ⟨.literal, items, true⟩ := by
  cases h <;> rfl

/-- What the reader does with the escape of a character. -/
theorem step_escapeChar {c : Char} (hquote : c ≠ '"') (items : List Item) :
    (escapeChar c).foldlM Reader.step ⟨.literal, items, true⟩ =
      some ⟨.literal, items ++ [.char c], true⟩ := by
  by_cases hback : c = '\\'
  · subst hback
    rfl
  · by_cases hn : c = '\n'
    · subst hn
      rfl
    · by_cases ht : c = '\t'
      · subst ht
        rfl
      · simp [escapeChar, hback, hn, ht, hquote, Reader.step]

theorem within_escapeChar {quote : Bool} {items : List Item} {s : Paired}
    (h : Within quote items s) (c : Char) :
    ∃ s', (escapeChar c).foldlM pairStep s = some s' ∧
      Within (c = '"') (items ++ [.char c]) s' := by
  have hflush := within_flush h
  by_cases hquote : c = '"'
  · subst hquote
    refine ⟨(true, ⟨.escape, items, true⟩), ?_, .quote items⟩
    have hback : pairStep s '\\' = some (false, ⟨.escape, items, true⟩) := by
      rw [pairStep, if_neg (by decide), hflush]
      rfl
    have hescape : escapeChar '"' = ['\\', '"'] := rfl
    rw [hescape, foldlM_cons_some hback]
    rfl
  · have hplain : ∀ d ∈ escapeChar c, d ≠ '"' := by
      unfold escapeChar
      simp only [if_neg hquote]
      split_ifs <;> simp [hquote]
    have hne : escapeChar c ≠ [] := by
      unfold escapeChar
      split_ifs <;> simp
    refine ⟨(false, ⟨.literal, items ++ [.char c], true⟩), ?_, ?_⟩
    · rw [foldlM_pairStep_plain hne hplain, hflush, Option.bind_some, step_escapeChar hquote items]
      rfl
    · rw [decide_eq_false hquote]
      exact .plain _

/-- The body of a literal. -/
theorem within_body {quote : Bool} {items : List Item} {s : Paired} (h : Within quote items s)
    (text : Text) :
    ∃ s', (text.flatMap escapeChar).foldlM pairStep s = some s' ∧
      Within ((text.getLast?.map fun c => decide (c = '"')).getD quote)
        (items ++ text.map .char) s' := by
  induction text generalizing quote items s with
  | nil => exact ⟨s, rfl, by simpa using h⟩
  | cons c text ih =>
      obtain ⟨t, ht, hwithin⟩ := within_escapeChar h c
      obtain ⟨s', hs', hbody⟩ := ih hwithin
      refine ⟨s', ?_, ?_⟩
      · rw [List.flatMap_cons, foldlM_append_some ht]
        exact hs'
      · rw [List.map_cons, List.append_cons]
        cases text with
        | nil => simpa using hbody
        | cons d text =>
            rw [List.getLast?_cons_cons]
            rw [List.getLast?_eq_getLast_of_ne_nil (List.cons_ne_nil d text)] at hbody ⊢
            exact hbody

/-- The end of a literal. -/
theorem stands_close {quote : Bool} {items : List Item} {s : Paired} (h : Within quote items s) :
    ∃ s', pairStep s '"' = some s' ∧ Stands (if quote then .quoted else .literal) true items s' := by
  cases h with
  | plain items => exact ⟨_, rfl, .literal items⟩
  | quote items => exact ⟨_, rfl, .quoted items⟩

/-- The start of a literal; outside of one its quotation mark is read with what comes next. -/
theorem within_open {place : Place} {started : Bool} {items : List Item} {s : Paired}
    (h : Stands place started items s) :
    ∃ quote s', Within quote items s' ∧ ∀ c, c ≠ '"' → ∀ text,
      ('"' :: c :: text).foldlM pairStep s = (c :: text).foldlM pairStep s' := by
  cases h with
  | outside started => exact ⟨_, _, .plain items, fun c hc text => by
      simp [pairStep, hc, flush, Reader.step]⟩
  | literal => exact ⟨_, _, .plain items, fun _ _ _ => rfl⟩
  | quoted items => exact ⟨_, _, .quote items, fun _ _ _ => rfl⟩

/-! ## The fragments -/

theorem escapeChar_ne_quote (c : Char) (text : Text) :
    ∃ d rest, d ≠ '"' ∧ escapeChar c ++ text = d :: rest := by
  by_cases hquote : c = '"'
  · subst hquote
    exact ⟨'\\', _, by decide, rfl⟩
  · cases hescape : escapeChar c with
    | nil =>
        unfold escapeChar at hescape
        split_ifs at hescape
    | cons d rest =>
        refine ⟨d, rest ++ text, ?_, rfl⟩
        unfold escapeChar at hescape
        split_ifs at hescape <;>
          · obtain ⟨rfl, -⟩ := List.cons.inj hescape
            first | decide | exact hquote

theorem unixLines_eq_nil {text : Text} : unixLines text = [] ↔ text = [] := by
  fun_cases unixLines text <;> simp

theorem unixLines_getLast? (text : Text) :
    (unixLines text).getLast? = some '"' ↔ text.getLast? = some '"' := by
  fun_induction unixLines text with
  | case1 text ih =>
      by_cases hnil : text = []
      · subst hnil
        decide
      · rw [List.getLast?_cons_of_ne_nil (mt unixLines_eq_nil.mp hnil), List.getLast?_cons_cons,
          List.getLast?_cons_of_ne_nil hnil, ih]
  | case2 text _ ih =>
      by_cases hnil : text = []
      · subst hnil
        decide
      · rw [List.getLast?_cons_of_ne_nil (mt unixLines_eq_nil.mp hnil),
          List.getLast?_cons_of_ne_nil hnil, ih]
  | case3 c text _ _ ih =>
      by_cases hnil : text = []
      · subst hnil
        rfl
      · rw [List.getLast?_cons_of_ne_nil (mt unixLines_eq_nil.mp hnil),
          List.getLast?_cons_of_ne_nil hnil, ih]
  | case4 => rfl

theorem foldlM_literal {place : Place} {started : Bool} {items : List Item} {s : Paired}
    (h : Stands place started items s) {text : Text} (hne : text ≠ []) :
    ∃ s', ('"' :: text.flatMap escapeChar ++ ['"']).foldlM pairStep s = some s' ∧
      Stands (if text.getLast? = some '"' then .quoted else .literal) true
        (items ++ text.map .char) s' := by
  obtain ⟨quote, t, hwithin, hopen⟩ := within_open h
  obtain ⟨u, hu, hbody⟩ := within_body hwithin text
  obtain ⟨s', hs', hclose⟩ := stands_close hbody
  refine ⟨s', ?_, ?_⟩
  · cases text with
    | nil => exact absurd rfl hne
    | cons c text =>
        obtain ⟨d, rest, hd, hrest⟩ := escapeChar_ne_quote c (text.flatMap escapeChar)
        have hbody : ('"' :: (c :: text).flatMap escapeChar).foldlM pairStep s = some u := by
          rw [List.flatMap_cons, hrest, hopen d hd, ← hrest, ← List.flatMap_cons, hu]
        rw [foldlM_append_some hbody, foldlM_cons_some hs']
        rfl
  · cases hlast : text.getLast? with
    | none => exact absurd (List.getLast?_eq_none_iff.mp hlast) hne
    | some c => simpa [hlast] using hclose

theorem foldlM_beep {place : Place} {started : Bool} {items : List Item} {s : Paired}
    (h : Stands place started items s) :
    ∃ s', (generateFragment .beep).1.foldlM pairStep s = some s' ∧
      Stands .literal true (items ++ [.char bell]) s' := by
  obtain ⟨quote, t, hwithin, hopen⟩ := within_open h
  refine ⟨(true, ⟨.literal, items ++ [.char bell], true⟩), ?_, .literal _⟩
  have htext : (generateFragment .beep).1 = '"' :: '\\' :: ['a', '"'] := by decide
  have hback : pairStep t '\\' = some (false, ⟨.escape, items, true⟩) := by
    rw [pairStep, if_neg (by decide), within_flush hwithin]
    rfl
  rw [htext, hopen _ (by decide), foldlM_cons_some hback]
  rfl

/-- The two quotation marks of an empty text. -/
theorem foldlM_empty (s : Paired) : ['"', '"'].foldlM pairStep s = some s := by
  obtain ⟨pending, reader⟩ := s
  cases pending <;> rfl

/-! ### The calls -/

theorem not_quote_of_wordChar {c : Char} (h : isWordChar c = true) : c ≠ '"' := fun hc => by
  rw [hc] at h
  revert h
  decide

theorem step_outside_wordChar {c : Char} (h : isWordChar c = true) (items : List Item)
    (started : Bool) :
    Reader.step ⟨.outside, items, started⟩ c = some ⟨.name [c], items, started⟩ := by
  have hblank : isBlank c = false := by
    by_contra hblank
    rw [Bool.not_eq_false] at hblank
    simp only [isBlank, Bool.or_eq_true, decide_eq_true_eq] at hblank
    rcases hblank with (rfl | rfl) | rfl <;> revert h <;> decide
  simp [Reader.step, not_quote_of_wordChar h, hblank, h]

theorem foldlM_name {text : Text} (h : ∀ c ∈ text, isWordChar c = true) (w : Text)
    (items : List Item) (started : Bool) :
    text.foldlM Reader.step ⟨.name w, items, started⟩ =
      some ⟨.name (w ++ text), items, started⟩ := by
  induction text generalizing w with
  | nil => simp [pure]
  | cons c text ih =>
      have hstep : Reader.step ⟨.name w, items, started⟩ c =
          some ⟨.name (w ++ [c]), items, started⟩ := by
        simp [Reader.step, h c List.mem_cons_self]
      rw [foldlM_cons_some hstep, ih (fun d hd => h d (List.mem_cons_of_mem c hd)),
        List.append_assoc, List.singleton_append]

theorem foldlM_argument {text : Text} (h : ∀ c ∈ text, isWordChar c = true) (name w : Text)
    (items : List Item) (started : Bool) :
    text.foldlM Reader.step ⟨.argument name w, items, started⟩ =
      some ⟨.argument name (w ++ text), items, started⟩ := by
  induction text generalizing w with
  | nil => simp [pure]
  | cons c text ih =>
      have hstep : Reader.step ⟨.argument name w, items, started⟩ c =
          some ⟨.argument name (w ++ [c]), items, started⟩ := by
        simp [Reader.step, h c List.mem_cons_self]
      rw [foldlM_cons_some hstep, ih (fun d hd => h d (List.mem_cons_of_mem c hd)),
        List.append_assoc, List.singleton_append]

/-- `name(argument)` outside of a literal. -/
theorem foldlM_call {name argument : Text} {item : Item} (hne : name ≠ [])
    (hname : ∀ c ∈ name, isWordChar c = true) (hargument : ∀ c ∈ argument, isWordChar c = true)
    (hitem : callItem name argument = some item) (items : List Item) (started : Bool) :
    (name ++ '(' :: (argument ++ [')'])).foldlM Reader.step ⟨.outside, items, started⟩ =
      some ⟨.outside, items ++ [item], true⟩ := by
  cases name with
  | nil => exact absurd rfl hne
  | cons c name =>
      have hopen : Reader.step ⟨.name (c :: name), items, started⟩ '(' =
          some ⟨.argument (c :: name) [], items, started⟩ := by
        have hparen : isWordChar '(' = false := by decide
        simp [Reader.step, hparen]
      have hclose : Reader.step ⟨.argument (c :: name) argument, items, started⟩ ')' =
          some ⟨.outside, items ++ [item], true⟩ := by
        have hparen : isWordChar ')' = false := by decide
        simp [Reader.step, hparen, hitem]
      have hrest := foldlM_name (fun d hd => hname d (List.mem_cons_of_mem c hd)) [c] items started
      have hargs := foldlM_argument hargument (c :: name) [] items started
      rw [List.cons_append,
        foldlM_cons_some (step_outside_wordChar (hname c List.mem_cons_self) items started),
        foldlM_append_some hrest, List.singleton_append, foldlM_cons_some hopen,
        foldlM_append_some hargs, List.nil_append, foldlM_cons_some hclose]
      rfl

theorem callItem_key (kind : Kind) (keycode : Text) :
    callItem ("SS_".toList ++ kind.upper) ('X' :: '_' :: keycode) = some (.key kind keycode) := by
  have hdelay : "SS_".toList ++ kind.upper ≠ "SS_DELAY".toList := by
    cases kind <;> decide
  have hkind : kindOf ("SS_".toList ++ kind.upper) = some kind := by cases kind <;> decide
  simp only [callItem, if_neg hdelay, hkind]

theorem delayName_eq : "SS_DELAY".toList = ['S', 'S', '_', 'D', 'E', 'L', 'A', 'Y'] := by
  decide

theorem callItem_delay (duration : Nat) :
    callItem ['S', 'S', '_', 'D', 'E', 'L', 'A', 'Y'] (Nat.toDigits 10 duration) =
      some (.delay duration) := by
  have hdigits : (Nat.toDigits 10 duration).all Char.isDigit = true :=
    List.all_eq_true.mpr fun c hc => Nat.isDigit_of_mem_toDigits (b := 10) (by decide) (by decide) hc
  have hne : Nat.toDigits 10 duration ≠ [] := Nat.toDigits_ne_nil
  unfold callItem
  rw [if_pos delayName_eq.symm, if_pos ⟨hne, hdigits⟩, Nat.ofDigitChars_ten_toDigits]

/-- The text of an `SS_` macro, that stands for this item. -/
structure Calls (text : Text) (item : Item) : Prop where
  starts : text.head? = some 'S'
  plain : ∀ c ∈ text, c ≠ '"'
  reads : ∀ items started, text.foldlM Reader.step ⟨.outside, items, started⟩ =
    some ⟨.outside, items ++ [item], true⟩

theorem calls_of {name argument : Text} {item : Item}
    (hname : ∀ c ∈ 'S' :: name, isWordChar c = true)
    (hargument : ∀ c ∈ argument, isWordChar c = true)
    (hitem : callItem ('S' :: name) argument = some item) :
    Calls ('S' :: name ++ '(' :: (argument ++ [')'])) item where
  starts := rfl
  plain c hc := by
    rcases List.mem_append.mp hc with hc | hc
    · exact not_quote_of_wordChar (hname c hc)
    · rcases List.mem_cons.mp hc with rfl | hc
      · decide
      · rcases List.mem_append.mp hc with hc | hc
        · exact not_quote_of_wordChar (hargument c hc)
        · rw [List.mem_singleton.mp hc]
          decide
  reads := foldlM_call (List.cons_ne_nil 'S' name) hname hargument hitem

theorem calls_keyCall (kind : Kind) {keycode : Text} (h : ∀ c ∈ keycode, isWordChar c = true) :
    Calls (keyCall kind keycode) (.key kind keycode) := by
  have hname : ∀ c ∈ 'S' :: 'S' :: '_' :: kind.upper, isWordChar c = true := by
    cases kind <;> decide
  have hargument : ∀ c ∈ 'X' :: '_' :: keycode, isWordChar c = true :=
    List.forall_mem_cons.mpr ⟨by decide, List.forall_mem_cons.mpr ⟨by decide, h⟩⟩
  have hcalls := calls_of hname hargument (callItem_key kind keycode)
  have htext : keyCall kind keycode =
      'S' :: ('S' :: '_' :: kind.upper) ++ '(' :: ('X' :: '_' :: keycode ++ [')']) := by
    simp [keyCall]
  rwa [htext]

theorem calls_delayCall (duration : Nat) : Calls (delayCall duration) (.delay duration) := by
  have hargument : ∀ c ∈ Nat.toDigits 10 duration, isWordChar c = true := by
    intro c hc
    have hdigit := Nat.isDigit_of_mem_toDigits (b := 10) (by decide) (by decide) hc
    simp [isWordChar, Char.isAlphanum, hdigit]
  have hcalls := calls_of (by decide) hargument (callItem_delay duration)
  have hopen : "SS_DELAY(".toList = ['S', 'S', '_', 'D', 'E', 'L', 'A', 'Y'] ++ ['('] := by
    decide
  unfold delayCall
  generalize Nat.toDigits 10 duration = digits at hcalls
  rw [hopen]
  simpa using hcalls

/-- Outside of a literal, or at the pending end of one. -/
theorem foldlM_calls {place : Place} {started : Bool} {items : List Item} {s : Paired}
    (h : Stands place started items s) (hplace : place ≠ .quoted) {text : Text} {item : Item}
    (hcalls : Calls text item) :
    text.foldlM pairStep s = some (false, ⟨.outside, items ++ [item], true⟩) := by
  have hne : text ≠ [] := fun hnil => by
    have hstarts := hcalls.starts
    rw [hnil] at hstarts
    cases hstarts
  rw [foldlM_pairStep_plain hne hcalls.plain]
  cases h with
  | outside started => simp [flush, hcalls.reads]
  | literal => simp [flush, Reader.step, hcalls.reads]
  | quoted => exact absurd rfl hplace

/-- The backslash does not go with what follows. -/
theorem foldlM_calls_quoted {started : Bool} {items : List Item} {s : Paired}
    (h : Stands .quoted started items s) {text : Text} {item : Item} (hcalls : Calls text item) :
    text.foldlM pairStep s = none := by
  cases h with
  | quoted items =>
      cases text with
      | nil => cases hcalls.starts
      | cons c text =>
          obtain rfl : c = 'S' := Option.some.inj hcalls.starts
          rfl

/-! ### The keycodes of an action -/

/-- The keys that go down, are tapped and go up. -/
def strokes : Kind → List Text → List (Kind × Text)
  | .tap, keycodes =>
      match keycodes.getLast? with
      | none => []
      | some lastKeycode => keycodes.dropLast.map (Prod.mk .down) ++ (.tap, lastKeycode) ::
          keycodes.dropLast.reverse.map (Prod.mk .up)
  | kind, keycodes => keycodes.map (Prod.mk kind)

theorem generateFragment_keys (kind : Kind) (keycodes : List Text) :
    (generateFragment (.keys kind keycodes)).1 =
      (strokes kind keycodes).flatMap fun stroke => keyCall stroke.1 stroke.2 := by
  cases kind with
  | tap =>
      rcases List.eq_nil_or_concat' keycodes with rfl | ⟨others, lastKeycode, rfl⟩
      · rfl
      · cases others with
        | nil => simp [generateFragment, strokes]
        | cons other others =>
            have hlength : 1 < (other :: others ++ [lastKeycode]).length := by simp
            simp only [generateFragment, if_pos hlength, strokes, List.getLast?_concat,
              List.getLastD_concat, List.dropLast_concat, List.flatMap_append, List.flatMap_map,
              List.flatMap_cons, List.append_assoc]
  | down => simp [generateFragment, strokes, List.flatMap_map]
  | up => simp [generateFragment, strokes, List.flatMap_map]

theorem sequence_keys (kind : Kind) (keycodes : List Text) :
    (Fragment.keys kind keycodes).sequence =
      (strokes kind keycodes).map fun stroke => .key stroke.1 stroke.2 := by
  cases kind with
  | tap =>
      cases hlast : keycodes.getLast? with
      | none => simp [Fragment.sequence, strokes, hlast]
      | some lastKeycode => simp [Fragment.sequence, strokes, hlast, Function.comp_def]
  | down => simp [Fragment.sequence, strokes, Function.comp_def]
  | up => simp [Fragment.sequence, strokes, Function.comp_def]

/-- Every keycode is among the strokes, and no other. -/
theorem mem_strokes {kind : Kind} {keycodes : List Text} {keycode : Text} :
    (∃ stroke ∈ strokes kind keycodes, stroke.2 = keycode) ↔ keycode ∈ keycodes := by
  cases kind with
  | tap =>
      rcases List.eq_nil_or_concat' keycodes with rfl | ⟨others, lastKeycode, rfl⟩
      · simp [strokes]
      · simp only [strokes, List.getLast?_concat, List.dropLast_concat, List.mem_append,
          List.mem_cons, List.mem_map, List.mem_reverse, List.not_mem_nil, or_false]
        constructor
        · rintro ⟨stroke, ⟨other, hother, rfl⟩ | rfl | ⟨other, hother, rfl⟩, rfl⟩
          · exact .inl hother
          · exact .inr rfl
          · exact .inl hother
        · rintro (hother | rfl)
          · exact ⟨_, .inl ⟨keycode, hother, rfl⟩, rfl⟩
          · exact ⟨_, .inr (.inl rfl), rfl⟩
  | down => simp [strokes]
  | up => simp [strokes]

theorem strokes_ne_nil {kind : Kind} {keycodes : List Text} (h : keycodes ≠ []) :
    strokes kind keycodes ≠ [] := by
  intro hnil
  obtain ⟨keycode, hkeycode⟩ := List.exists_mem_of_ne_nil keycodes h
  obtain ⟨stroke, hstroke, -⟩ := (@mem_strokes kind _ _).mpr hkeycode
  rw [hnil] at hstroke
  cases hstroke

theorem foldlM_strokes {strokes : List (Kind × Text)}
    (h : ∀ stroke ∈ strokes, ∀ c ∈ stroke.2, isWordChar c = true) (items : List Item) :
    (strokes.flatMap fun stroke => keyCall stroke.1 stroke.2).foldlM pairStep
        (false, ⟨.outside, items, true⟩) =
      some (false, ⟨.outside, items ++ strokes.map fun stroke => .key stroke.1 stroke.2, true⟩) := by
  induction strokes generalizing items with
  | nil => simp [pure]
  | cons stroke strokes ih =>
      have hcall := foldlM_calls (.outside true items) (by decide)
        (calls_keyCall stroke.1 (h stroke List.mem_cons_self))
      rw [List.flatMap_cons, foldlM_append_some hcall,
        ih (fun other hother => h other (List.mem_cons_of_mem _ hother))]
      simp

/-! ## The run of the reader -/

def Place.after (fragment : Fragment) : Place :=
  if fragment.isLiteral then if fragment.endsInQuote then .quoted else .literal else .outside

/-- Whether the reader gets through the rest of the macro from here. -/
def accepts : Place → Bool → Macro → Bool
  | place, started, [] => place ≠ .quoted && started
  | place, started, fragment :: rest =>
      if fragment.Silent then accepts place started rest
      else (fragment.isLiteral || place ≠ .quoted) && accepts (Place.after fragment) true rest

theorem foldlM_silent {fragment : Fragment} (h : fragment.Silent = true) (s : Paired) :
    (generateFragment fragment).1.foldlM pairStep s = some s ∧ fragment.sequence = [] := by
  cases fragment with
  | text t =>
      obtain rfl : t = [] := List.isEmpty_iff.mp h
      exact ⟨foldlM_empty s, rfl⟩
  | delay duration => cases h
  | beep => cases h
  | keys kind keycodes =>
      obtain rfl : keycodes = [] := List.isEmpty_iff.mp h
      cases kind <;> exact ⟨rfl, rfl⟩

/-- The keycodes are the ends of identifiers. -/
def Fragment.Named (fragment : Fragment) : Prop :=
  ∀ keycode ∈ fragment.keycodes, ∀ c ∈ keycode, isWordChar c = true

/-- A fragment for which there is text. -/
theorem foldlM_fragment {fragment : Fragment} (hsilent : fragment.Silent = false)
    (hnamed : fragment.Named) {place : Place} {started : Bool} {items : List Item} {s : Paired}
    (h : Stands place started items s) (hplace : fragment.isLiteral = true ∨ place ≠ .quoted) :
    ∃ s', (generateFragment fragment).1.foldlM pairStep s = some s' ∧
      Stands (Place.after fragment) true (items ++ fragment.sequence) s' := by
  cases fragment with
  | text t =>
      have hne : t ≠ [] := by simpa [Fragment.Silent] using hsilent
      obtain ⟨s', hs', hstands⟩ := foldlM_literal h (mt unixLines_eq_nil.mp hne)
      refine ⟨s', ?_, ?_⟩
      · rw [generateFragment, escapeText_eq]
        exact hs'
      · simpa [Place.after, Fragment.isLiteral, Fragment.endsInQuote, Fragment.sequence,
          unixLines_getLast?] using hstands
  | delay duration =>
      have hne := hplace.resolve_left fun h => Bool.noConfusion h
      exact ⟨_, foldlM_calls h hne (calls_delayCall duration), .outside true _⟩
  | beep => exact foldlM_beep h
  | keys kind keycodes =>
      have hne := hplace.resolve_left fun h => Bool.noConfusion h
      have hwords : ∀ stroke ∈ strokes kind keycodes, ∀ c ∈ stroke.2, isWordChar c = true :=
        fun stroke hstroke => hnamed stroke.2 (mem_strokes.mp ⟨stroke, hstroke, rfl⟩)
      rw [generateFragment_keys, sequence_keys]
      refine ⟨_, ?_, .outside true _⟩
      cases hstrokes : strokes kind keycodes with
      | nil =>
          have hne : keycodes ≠ [] := by simpa [Fragment.Silent] using hsilent
          exact absurd hstrokes (strokes_ne_nil hne)
      | cons stroke others =>
          rw [hstrokes] at hwords
          have hcall := foldlM_calls h hne
            (calls_keyCall stroke.1 (hwords stroke List.mem_cons_self))
          rw [List.flatMap_cons, foldlM_append_some hcall,
            foldlM_strokes fun other hother => hwords other (List.mem_cons_of_mem _ hother)]
          simp

/-- Behind the backslash only a literal can be read. -/
theorem foldlM_fragment_quoted {fragment : Fragment} (hsilent : fragment.Silent = false)
    (hnamed : fragment.Named) {started : Bool} {items : List Item} {s : Paired}
    (h : Stands .quoted started items s) (hliteral : fragment.isLiteral = false) :
    (generateFragment fragment).1.foldlM pairStep s = none := by
  cases fragment with
  | text t => cases hliteral
  | delay duration => exact foldlM_calls_quoted h (calls_delayCall duration)
  | beep => cases hliteral
  | keys kind keycodes =>
      rw [generateFragment_keys]
      cases hstrokes : strokes kind keycodes with
      | nil =>
          have hne : keycodes ≠ [] := by simpa [Fragment.Silent] using hsilent
          exact absurd hstrokes (strokes_ne_nil hne)
      | cons stroke others =>
          have hword : ∀ c ∈ stroke.2, isWordChar c = true :=
            hnamed stroke.2 (mem_strokes.mp ⟨stroke, hstrokes ▸ List.mem_cons_self, rfl⟩)
          rw [List.flatMap_cons, List.foldlM_append,
            foldlM_calls_quoted h (calls_keyCall stroke.1 hword)]
          rfl

/-- What is read from here to the end. -/
def readFrom (s : Paired) (macroArray : Macro) : Option (List Item) :=
  (((rawMacro macroArray).foldlM pairStep s).bind flush).bind Reader.finish

theorem readFrom_eq {macroArray : Macro} (hnamed : ∀ fragment ∈ macroArray, fragment.Named)
    {place : Place} {started : Bool} {items : List Item} {s : Paired}
    (h : Stands place started items s) :
    readFrom s macroArray =
      if accepts place started macroArray then some (items ++ sequence macroArray) else none := by
  induction macroArray generalizing place started items s with
  | nil =>
      have hraw : rawMacro [] = [] := rfl
      rw [readFrom, hraw]
      cases h with
      | outside started items =>
          cases started <;> simp [flush, Reader.finish, accepts, sequence, pure]
      | literal items => simp [flush, Reader.step, Reader.finish, accepts, sequence, pure]
      | quoted items => simp [flush, Reader.finish, accepts, pure]
  | cons fragment rest ih =>
      have hrest : ∀ other ∈ rest, other.Named := fun other hother =>
        hnamed other (List.mem_cons_of_mem _ hother)
      have hfragment := hnamed fragment List.mem_cons_self
      have hraw : rawMacro (fragment :: rest) = (generateFragment fragment).1 ++ rawMacro rest := rfl
      have hsequence : sequence (fragment :: rest) = fragment.sequence ++ sequence rest := rfl
      have hnext {t : Paired} (ht : (generateFragment fragment).1.foldlM pairStep s = some t) :
          readFrom s (fragment :: rest) = readFrom t rest := by
        rw [readFrom, hraw, foldlM_append_some ht]
        rfl
      cases hsilent : fragment.Silent with
      | true =>
          obtain ⟨hrun, hempty⟩ := foldlM_silent hsilent s
          rw [hnext hrun, ih hrest h, hsequence, hempty, List.nil_append]
          simp [accepts, hsilent]
      | false =>
          by_cases hplace : fragment.isLiteral = true ∨ place ≠ .quoted
          · obtain ⟨t, hrun, ht⟩ := foldlM_fragment hsilent hfragment h hplace
            rw [hnext hrun, ih hrest ht, hsequence, List.append_assoc]
            have hgoes : (fragment.isLiteral || decide (place ≠ .quoted)) = true := by
              simpa using hplace
            simp only [accepts, hsilent, hgoes, Bool.true_and, Bool.false_eq_true, if_false]
          · rw [not_or, not_not, Bool.not_eq_true] at hplace
            obtain ⟨hliteral, rfl⟩ := hplace
            have hnone := foldlM_fragment_quoted hsilent hfragment h hliteral
            rw [readFrom, hraw, List.foldlM_append, hnone]
            simp [accepts, hsilent, hliteral]

theorem accepts_eq (macroArray : Macro) (place : Place) (started : Bool)
    (h : place ≠ .outside → started = true) :
    accepts place started macroArray =
      ((place ≠ .quoted || opensLiteral macroArray) && quotesFollowed macroArray &&
        (started || macroArray.any fun fragment => !fragment.Silent)) := by
  induction macroArray generalizing place started with
  | nil => simp [accepts, opensLiteral, quotesFollowed]
  | cons fragment rest ih =>
      cases hsilent : fragment.Silent with
      | true =>
          have hquote : fragment.endsInQuote = false := by
            cases fragment with
            | text t =>
                obtain rfl : t = [] := List.isEmpty_iff.mp hsilent
                rfl
            | delay duration => rfl
            | beep => rfl
            | keys kind keycodes => rfl
          simp [accepts, hsilent, ih place started h, opensLiteral, quotesFollowed, hquote]
      | false =>
          have hrest := ih (Place.after fragment) true fun _ => rfl
          simp only [accepts, hsilent, hrest, opensLiteral, quotesFollowed, List.any_cons,
            Bool.false_eq_true, if_false, Bool.not_false, Bool.true_or, Bool.or_true, Bool.and_true]
          cases hliteral : fragment.isLiteral with
          | false =>
              have hquote : fragment.endsInQuote = false := by
                cases fragment with
                | text t => cases hliteral
                | delay duration => rfl
                | beep => rfl
                | keys kind keycodes => rfl
              simp [Place.after, hliteral, hquote]
          | true => cases hquote : fragment.endsInQuote <;> simp [Place.after, hliteral, hquote]

theorem readArgument_iff {macroArray : Macro} (hnamed : ∀ fragment ∈ macroArray, fragment.Named) :
    readArgument (newMacro macroArray) = some (sequence macroArray) ↔
      quotesFollowed macroArray = true ∧ ∃ fragment ∈ macroArray, fragment.Silent = false := by
  have hread := readFrom_eq hnamed (.outside false [])
  rw [readFrom] at hread
  rw [readArgument_newMacro, Reader.initial, hread, accepts_eq _ _ _ fun h => absurd rfl h,
    List.nil_append]
  simp

/-! ## Keycodes that cannot be read -/

def Wordy : Item → Prop
  | .key _ keycode => ∀ c ∈ keycode, isWordChar c = true
  | .char _ | .delay _ => True

/-- The reader only takes keycodes that are the ends of identifiers. -/
structure Reader.Words (s : Reader) : Prop where
  items : ∀ item ∈ s.items, Wordy item
  argument : ∀ name w, s.mode = .argument name w → ∀ c ∈ w, isWordChar c = true

theorem callItem_wordy {name argument : Text} {item : Item}
    (hargument : ∀ c ∈ argument, isWordChar c = true) (h : callItem name argument = some item) :
    Wordy item := by
  unfold callItem at h
  split at h
  · split at h
    · rw [← Option.some.inj h]
      trivial
    · cases h
  · split at h
    · rw [← Option.some.inj h]
      exact fun c hc => hargument c (List.mem_cons_of_mem _ (List.mem_cons_of_mem _ hc))
    · cases h

theorem Reader.Words.push {s : Reader} (h : s.Words) {item : Item} (hitem : Wordy item) :
    ∀ other ∈ s.items ++ [item], Wordy other := by
  intro other hother
  rcases List.mem_append.mp hother with hother | hother
  · exact h.items other hother
  · rwa [List.mem_singleton.mp hother]

theorem step_words {s t : Reader} {c : Char} (h : s.Words) (hstep : s.step c = some t) :
    t.Words := by
  unfold Reader.step at hstep
  cases hmode : s.mode with
  | outside =>
      simp only [hmode] at hstep
      split_ifs at hstep <;> obtain rfl := Option.some.inj hstep
      · exact ⟨h.items, fun _ _ hother => Mode.noConfusion hother⟩
      · exact h
      · exact ⟨h.items, fun _ _ hother => Mode.noConfusion hother⟩
  | literal =>
      simp only [hmode] at hstep
      split_ifs at hstep <;> obtain rfl := Option.some.inj hstep
      · exact ⟨h.items, fun _ _ hother => Mode.noConfusion hother⟩
      · exact ⟨h.items, fun _ _ hother => Mode.noConfusion hother⟩
      · exact ⟨h.push trivial, fun _ _ hother => Mode.noConfusion hother⟩
  | escape =>
      simp only [hmode] at hstep
      obtain ⟨value, -, rfl⟩ := Option.map_eq_some_iff.mp hstep
      exact ⟨h.push trivial, fun _ _ hother => Mode.noConfusion hother⟩
  | name w =>
      simp only [hmode] at hstep
      split_ifs at hstep <;> obtain rfl := Option.some.inj hstep
      · exact ⟨h.items, fun _ _ hother => Mode.noConfusion hother⟩
      · refine ⟨h.items, fun _ _ hother => ?_⟩
        obtain ⟨rfl, rfl⟩ := Mode.argument.inj hother
        exact fun d hd => absurd hd List.not_mem_nil
  | argument name w =>
      simp only [hmode] at hstep
      split_ifs at hstep with hword hclose
      · obtain rfl := Option.some.inj hstep
        refine ⟨h.items, fun _ _ hother => ?_⟩
        obtain ⟨rfl, rfl⟩ := Mode.argument.inj hother
        intro d hd
        rcases List.mem_append.mp hd with hd | hd
        · exact h.argument name w hmode d hd
        · rwa [List.mem_singleton.mp hd]
      · obtain ⟨item, hitem, rfl⟩ := Option.map_eq_some_iff.mp hstep
        exact ⟨h.push (callItem_wordy (h.argument name w hmode) hitem),
          fun _ _ hother => Mode.noConfusion hother⟩

theorem foldlM_words {text : Text} {s t : Reader} (h : s.Words)
    (hrun : text.foldlM Reader.step s = some t) : t.Words := by
  induction text generalizing s with
  | nil =>
      obtain rfl := Option.some.inj hrun
      exact h
  | cons c text ih =>
      rw [List.foldlM_cons] at hrun
      obtain ⟨next, hnext, hrest⟩ := Option.bind_eq_some_iff.mp hrun
      exact ih (step_words h hnext) hrest

theorem readArgument_wordy {argument : Text} {items : List Item}
    (h : readArgument argument = some items) : ∀ item ∈ items, Wordy item := by
  obtain ⟨t, hrun, hfinish⟩ := Option.bind_eq_some_iff.mp h
  have hwords := foldlM_words
    ⟨fun _ hitem => absurd hitem List.not_mem_nil, fun _ _ hother => Mode.noConfusion hother⟩ hrun
  unfold Reader.finish at hfinish
  split at hfinish
  · rw [← Option.some.inj hfinish]
    exact hwords.items
  · cases hfinish

theorem named_of_sequence {macroArray : Macro} (h : ∀ item ∈ sequence macroArray, Wordy item) :
    ∀ fragment ∈ macroArray, fragment.Named := by
  intro fragment hfragment
  cases fragment with
  | keys kind keycodes =>
      intro keycode hkeycode
      obtain ⟨stroke, hstroke, rfl⟩ := (@mem_strokes kind _ _).mpr hkeycode
      have hitem : Item.key stroke.1 stroke.2 ∈ (Fragment.keys kind keycodes).sequence := by
        rw [sequence_keys]
        exact List.mem_map.mpr ⟨stroke, hstroke, rfl⟩
      exact h _ (List.mem_flatMap.mpr ⟨_, hfragment, hitem⟩)
  | text t => exact fun _ hkeycode => absurd hkeycode List.not_mem_nil
  | delay duration => exact fun _ hkeycode => absurd hkeycode List.not_mem_nil
  | beep => exact fun _ hkeycode => absurd hkeycode List.not_mem_nil

/-! ## The whole list -/

theorem generateFragment_unchanged (fragment : Fragment) :
    (generateFragment fragment).2 = fragment ↔ ¬ fragment.Chord := by
  cases fragment with
  | text t => simp [generateFragment, Fragment.Chord]
  | delay duration => simp [generateFragment, Fragment.Chord]
  | beep => simp [generateFragment, Fragment.Chord]
  | keys kind keycodes =>
      cases kind with
      | tap =>
          by_cases hchord : 1 < keycodes.length
          · have hshort : keycodes.dropLast ≠ keycodes := fun h => by
              have hlength := congrArg List.length h
              rw [List.length_dropLast] at hlength
              omega
            simp [generateFragment, Fragment.Chord, hchord, hshort]
          · simp [generateFragment, Fragment.Chord, hchord]
      | down => simp [generateFragment, Fragment.Chord]
      | up => simp [generateFragment, Fragment.Chord]

theorem map_eq_self_iff {α : Type} {f : α → α} {xs : List α} :
    xs.map f = xs ↔ ∀ x ∈ xs, f x = x := by
  conv_lhs => rw [← List.map_id xs, List.map_map]
  exact List.map_inj_left

theorem generateMacrosFunction_unchanged (macros : List Macro) :
    (generateMacrosFunction macros).2 = macros ↔
      ∀ macroArray ∈ macros, ∀ fragment ∈ macroArray, ¬ fragment.Chord := by
  simp only [generateMacrosFunction, map_eq_self_iff, generateFragment_unchanged]

theorem getElem?_macroLines {macros : List Macro} {i : Nat} {macroArray : Macro}
    (h : macros[i]? = some macroArray) (start : Nat) (foot : List Text) {k : Nat} (hk : k < 3) :
    (((macros.zipIdx start).flatMap fun (macroArray, i) => macroLines macroArray i) ++
      foot)[3 * i + k]? = (macroLines macroArray (start + i))[k]? := by
  induction macros generalizing i start with
  | nil => cases h
  | cons first macros ih =>
      have hlength (m : Macro) (j : Nat) : (macroLines m j).length = 3 := rfl
      rw [List.zipIdx_cons, List.flatMap_cons, List.append_assoc]
      cases i with
      | zero =>
          obtain rfl := Option.some.inj h
          rw [List.getElem?_append_left (by rw [hlength]; omega)]
          simp
      | succ i =>
          have hnext := ih h (start + 1)
          rw [List.getElem?_append_right (by rw [hlength]; omega), hlength,
            show 3 * (i + 1) + k - 3 = 3 * i + k by omega, hnext,
            show start + 1 + i = start + (i + 1) by omega]

theorem macroLines_at {macros : List Macro} {i : Nat} {macroArray : Macro}
    (h : macros[i]? = some macroArray) :
    (generateMacrosFunction macros).1[3 * i + 3]? = some (caseLine i) ∧
      (generateMacrosFunction macros).1[3 * i + 4]? = some (sendLine (newMacro macroArray)) := by
  have hat {k : Nat} (hk : k < 3) : (generateMacrosFunction macros).1[3 * i + (k + 3)]? =
      (macroLines macroArray i)[k]? := by
    have hlines := getElem?_macroLines h 0 footLines hk
    rw [Nat.zero_add] at hlines
    have hhead : headLines.length = 3 := rfl
    rw [generateMacrosFunction, List.append_assoc,
      List.getElem?_append_right (by rw [hhead]; omega), hhead,
      show 3 * i + (k + 3) - 3 = 3 * i + k by omega, hlines]
  exact ⟨hat (by omega : 0 < 3), hat (by omega : 1 < 3)⟩

theorem sendLine_injective : Function.Injective sendLine := by
  intro a b h
  exact List.append_cancel_left (List.append_cancel_right h)

/-- The generator compiles exactly these macros. -/
theorem faithful_iff (macros : List Macro) :
    Faithful macros ↔ ∀ macroArray ∈ macros, Compilable macroArray := by
  constructor
  · rintro ⟨hread, hkept⟩ macroArray hcompiled
    obtain ⟨i, hi⟩ := List.mem_iff_getElem?.mp hcompiled
    obtain ⟨argument, -, hline, hargument⟩ := hread i macroArray hi
    have heq : argument = newMacro macroArray :=
      sendLine_injective (Option.some.inj (hline.symm.trans (macroLines_at hi).2))
    rw [heq] at hargument
    have hnamed := named_of_sequence (readArgument_wordy hargument)
    obtain ⟨hquotes, hheard⟩ := (readArgument_iff hnamed).mp hargument
    exact ⟨hheard, hquotes, hnamed,
      (generateMacrosFunction_unchanged macros).mp hkept macroArray hcompiled⟩
  · intro h
    refine ⟨fun i macroArray hi => ?_, ?_⟩
    · have hcompiled := h macroArray (List.mem_of_getElem? hi)
      exact ⟨_, (macroLines_at hi).1, (macroLines_at hi).2,
        (readArgument_iff hcompiled.keycodes).mpr ⟨hcompiled.followed, hcompiled.heard⟩⟩
    · exact (generateMacrosFunction_unchanged macros).mpr fun macroArray hcompiled =>
        (h macroArray hcompiled).noChord

/-- `say "`, and then the key A. -/
def quotedMacro : Macro := [.text "say \"".toList, .keys .tap ["A".toList]]

theorem quotedMacro_not_faithful :
    newMacro quotedMacro = "\"say \\SS_TAP(X_A)".toList ∧ ¬ Faithful [quotedMacro] := by
  refine ⟨by decide, fun h => ?_⟩
  obtain ⟨argument, -, hline, hargument⟩ := h.1 0 quotedMacro rfl
  have heq : argument = newMacro quotedMacro :=
    sendLine_injective (Option.some.inj (hline.symm.trans rfl))
  have hnone : readArgument (newMacro quotedMacro) = none := by decide
  rw [heq, hnone] at hargument
  cases hargument

end Qmk.JsonMacros
