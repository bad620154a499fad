import Qmk.JsonMacros.Generate

/-!
# Reading what is left after the clean-up

The clean-up drops the quotation marks in pairs.  Whether one is pending is the only thing that it
has to know of the text before, so it can be run together with the reader.
-/

namespace Qmk.JsonMacros

open Qmk.KeymapC (Text replace replaceFrom replaceFrom_skip isWordChar isBlank)

/-! ## Replacing -/

theorem replace_cons_of_not_prefix {old text : Text} {c : Char} (new : Text)
    (h : ¬ old <+: c :: text) : replace (c :: text) old new = c :: replace text old new := by
  have hstart : ¬ old.isPrefixOf (c :: text) = true := fun hp => h (List.isPrefixOf_iff_prefix.mp hp)
  rw [replace, replaceFrom, if_neg hstart]
  rfl

theorem replace_append {old : Text} (hold : old ≠ []) (new text : Text) :
    replace (old ++ text) old new = new ++ replace text old new := by
  cases old with
  | nil => exact absurd rfl hold
  | cons first old =>
      have hstart : (first :: old).isPrefixOf (first :: (old ++ text)) = true :=
        List.isPrefixOf_iff_prefix.mpr (List.prefix_append (first :: old) text)
      rw [replace, List.cons_append, replaceFrom, if_pos hstart, List.length_cons,
        Nat.add_sub_cancel, replaceFrom_skip, List.drop_left]
      rfl

theorem replace_single (a : Char) (new text : Text) :
    replace text [a] new = text.flatMap fun c => if c = a then new else [c] := by
  induction text with
  | nil => rfl
  | cons c text ih =>
      rw [List.flatMap_cons, ← ih]
      by_cases hc : c = a
      · subst hc
        rw [if_pos rfl, ← replace_append (List.cons_ne_nil c []) new text]
        rfl
      · have hstart : ¬ [a] <+: c :: text := fun h => hc (List.cons_prefix_cons.mp h).1.symm
        rw [if_neg hc, replace_cons_of_not_prefix new hstart]
        rfl

/-! ## The escapes of a text -/

def escapeChar (c : Char) : Text :=
  if c = '\\' then ['\\', '\\']
  else if c = '\n' then ['\\', 'n']
  else if c = '\t' then ['\\', 't']
  else if c = '"' then ['\\', '"']
  else [c]

/-- What becomes of a character after the backslashes and the CR LF are done. -/
def escapeRest (c : Char) : Text :=
  if c = '\n' ∨ c = '\r' then ['\\', 'n']
  else if c = '\t' then ['\\', 't']
  else if c = '"' then ['\\', '"']
  else [c]

theorem escapeText_eq_flatMap (text : Text) :
    escapeText text =
      (replace (text.flatMap fun c => if c = '\\' then ['\\', '\\'] else [c]) ['\r', '\n']
        ['\\', 'n']).flatMap escapeRest := by
  simp only [escapeText, replace_single, List.flatMap_assoc]
  refine List.flatMap_congr fun c _ => ?_
  by_cases hn : c = '\n'
  · subst hn
    rfl
  · by_cases hr : c = '\r'
    · subst hr
      rfl
    · by_cases ht : c = '\t'
      · subst ht
        rfl
      · simp [escapeRest, hn, hr, ht]

theorem replace_crlf_backslashes (text : Text) (h : ∀ rest, text ≠ '\n' :: rest) :
    replace ('\r' :: text.flatMap fun c => if c = '\\' then ['\\', '\\'] else [c]) ['\r', '\n']
      ['\\', 'n'] =
    '\r' :: replace (text.flatMap fun c => if c = '\\' then ['\\', '\\'] else [c]) ['\r', '\n']
      ['\\', 'n'] := by
  refine replace_cons_of_not_prefix _ fun hstart => ?_
  have hline := (List.cons_prefix_cons.mp hstart).2
  cases text with
  | nil => simp at hline
  | cons c text =>
      rw [List.flatMap_cons] at hline
      by_cases hc : c = '\\'
      · simp [hc] at hline
      · rw [if_neg hc] at hline
        have heq := (List.cons_prefix_cons.mp hline).1
        exact h text (by rw [heq])

theorem escapeText_eq (text : Text) : escapeText text = (unixLines text).flatMap escapeChar := by
  rw [escapeText_eq_flatMap]
  fun_induction unixLines text with
  | case1 text ih =>
      rw [List.flatMap_cons, List.flatMap_cons, List.flatMap_cons, ← ih]
      have hcrlf := replace_append (List.cons_ne_nil '\r' ['\n']) ['\\', 'n']
        (text.flatMap fun c => if c = '\\' then ['\\', '\\'] else [c])
      rw [if_neg (by decide), if_neg (by decide)]
      exact (congrArg (List.flatMap escapeRest) hcrlf).trans List.flatMap_append
  | case2 text hline ih =>
      rw [List.flatMap_cons, List.flatMap_cons, if_neg (by decide), List.singleton_append,
        replace_crlf_backslashes text hline, List.flatMap_cons, ih]
      rfl
  | case3 c text hcrlf hr ih =>
      have hc : c ≠ '\r' := fun h => hr h
      have hstart (d : Char) (hd : d ≠ '\r') (rest : Text) : ¬ ['\r', '\n'] <+: d :: rest :=
        fun h => hd (List.cons_prefix_cons.mp h).1.symm
      rw [List.flatMap_cons, List.flatMap_cons, ← ih]
      by_cases hback : c = '\\'
      · subst hback
        rw [if_pos rfl, List.cons_append, List.cons_append, List.nil_append,
          replace_cons_of_not_prefix _ (hstart _ (by decide) _),
          replace_cons_of_not_prefix _ (hstart _ (by decide) _)]
        rfl
      · rw [if_neg hback, List.singleton_append,
          replace_cons_of_not_prefix _ (hstart c hc _), List.flatMap_cons]
        have hescape : escapeRest c = escapeChar c := by simp [escapeRest, escapeChar, hback, hc]
        rw [hescape]
  | case4 => rfl

/-! ## Runs -/

theorem foldlM_cons_some {α β : Type} {f : β → α → Option β} {s t : β} {x : α}
    (h : f s x = some t) (xs : List α) : (x :: xs).foldlM f s = xs.foldlM f t := by
  rw [List.foldlM_cons, h]
  rfl

theorem foldlM_append_some {α β : Type} {f : β → α → Option β} {s t : β} {xs : List α}
    (h : xs.foldlM f s = some t) (ys : List α) : (xs ++ ys).foldlM f s = ys.foldlM f t := by
  rw [List.foldlM_append, h]
  rfl

/-! ## Quotation marks in pairs -/

/-- Drops the quotation marks in pairs; one may be pending. -/
def squash : Bool → Text → Text
  | pending, [] => if pending then ['"'] else []
  | pending, c :: text =>
      if c = '"' then squash (!pending) text
      else (if pending then ['"'] else []) ++ c :: squash false text

theorem replace_pair (text : Text) :
    replace text ['"', '"'] [] = squash false text ∧
      replace ('"' :: text) ['"', '"'] [] = squash true text := by
  induction text with
  | nil => exact ⟨rfl, rfl⟩
  | cons c text ih =>
      by_cases hc : c = '"'
      · subst hc
        have hpair := replace_append (List.cons_ne_nil '"' ['"']) [] text
        exact ⟨ih.2, hpair.trans ih.1⟩
      · have hplain : replace (c :: text) ['"', '"'] [] = c :: replace text ['"', '"'] [] :=
          replace_cons_of_not_prefix [] fun h => hc (List.cons_prefix_cons.mp h).1.symm
        have hquote : replace ('"' :: c :: text) ['"', '"'] [] =
            '"' :: replace (c :: text) ['"', '"'] [] :=
          replace_cons_of_not_prefix [] fun h =>
            hc (List.cons_prefix_cons.mp (List.cons_prefix_cons.mp h).2).1.symm
        rw [hquote, hplain, ih.1]
        simp [squash, hc]

/-- The reader, and whether a quotation mark is pending. -/
abbrev Paired := Bool × Reader

def flush (s : Paired) : Option Reader := if s.1 then s.2.step '"' else some s.2

def pairStep (s : Paired) (c : Char) : Option Paired :=
  if c = '"' then some (!s.1, s.2)
  else (flush s).bind fun reader => (reader.step c).map fun reader => (false, reader)

theorem foldlM_squash (text : Text) (s : Paired) :
    (squash s.1 text).foldlM Reader.step s.2 = (text.foldlM pairStep s).bind flush := by
  induction text generalizing s with
  | nil => cases hs : s.1 <;> simp [squash, flush, hs]
  | cons c text ih =>
      obtain ⟨pending, reader⟩ := s
      rw [List.foldlM_cons]
      by_cases hc : c = '"'
      · rw [squash, if_pos hc, pairStep, if_pos hc]
        exact ih (!pending, reader)
      · have hrest (reader : Reader) : (c :: squash false text).foldlM Reader.step reader =
            ((reader.step c).map fun reader => (false, reader)).bind fun s =>
              (text.foldlM pairStep s).bind flush := by
          rw [List.foldlM_cons]
          cases reader.step c with
          | none => rfl
          | some reader => exact ih (false, reader)
        have hpending : ((if pending then ['"'] else []) ++ c :: squash false text).foldlM
            Reader.step reader =
            (flush (pending, reader)).bind fun reader =>
              (c :: squash false text).foldlM Reader.step reader := by
          cases pending <;> rfl
        rw [squash, if_neg hc, pairStep, if_neg hc, hpending]
        cases flush (pending, reader) with
        | none => rfl
        | some reader =>
            simp only [Option.bind_some, hrest]
            cases reader.step c <;> rfl

theorem readArgument_newMacro (macroArray : Macro) :
    readArgument (newMacro macroArray) =
      (((rawMacro macroArray).foldlM pairStep (false, Reader.initial)).bind flush).bind
        Reader.finish := by
  rw [readArgument, newMacro, (replace_pair _).1, foldlM_squash _ (false, Reader.initial)]

/-- Text without quotation marks. -/
theorem foldlM_pairStep_plain {text : Text} (hne : text ≠ []) (h : ∀ c ∈ text, c ≠ '"')
    (s : Paired) :
    text.foldlM pairStep s =
      (flush s).bind fun reader => (text.foldlM Reader.step reader).map fun reader =>
        (false, reader) := by
  induction text generalizing s with
  | nil => exact absurd rfl hne
  | cons c text ih =>
      have hc := h c List.mem_cons_self
      rw [List.foldlM_cons, pairStep, if_neg hc]
      cases flush s with
      | none => rfl
      | some reader =>
          simp only [Option.bind_some, List.foldlM_cons]
          cases reader.step c with
          | none => rfl
          | some reader =>
              cases text with
              | nil => rfl
              | cons d text =>
                  exact ih (List.cons_ne_nil d text)
                    (fun d hd => h d (List.mem_cons_of_mem c hd)) (false, reader)

end Qmk.JsonMacros
