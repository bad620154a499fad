import Mathlib.Data.List.GetD
import Qmk.Ucis.Input

/-!
# The symbol that UCIS finds

The comparison with one mnemonic and the search through the table, for any buffer and count.
-/

namespace Qmk.Ucis

section Matching

/-- What the buffer holds up to its first zero. -/
def State.text (s : State) : List Nat := s.input.takeWhile (· ≠ 0)

/-- The text agrees with the mnemonic from the index on, without going past the character that
`match_mnemonic` still accepts after the last one counted. -/
def Agrees (count : Nat) (mnemonic : List Nat) (i : Nat) (text : List Nat) : Prop :=
  text <+: mnemonic.drop i ∧ (text = [] ∨ i + text.length ≤ count + 1)

theorem agrees_nil (count : Nat) (mnemonic : List Nat) (i : Nat) :
    Agrees count mnemonic i [] := ⟨List.nil_prefix, .inl rfl⟩

theorem agrees_cons_iff {count c i : Nat} {mnemonic text : List Nat} (hc : c ≠ 0) :
    Agrees count mnemonic i (c :: text) ↔
      i ≤ count ∧ c = mnemonic.getD i 0 ∧ Agrees count mnemonic (i + 1) text := by
  have hbegins : c :: text <+: mnemonic.drop i ↔
      c = mnemonic.getD i 0 ∧ text <+: mnemonic.drop (i + 1) := by
    rcases Nat.lt_or_ge i mnemonic.length with hi | hi
    · rw [List.drop_eq_getElem_cons hi, List.cons_prefix_cons, List.getD_eq_getElem _ _ hi]
    · rw [List.drop_eq_nil_of_le hi, List.getD_eq_default _ _ hi]
      simp [hc]
  have hlength : (c :: text = [] ∨ i + (c :: text).length ≤ count + 1) ↔
      i ≤ count ∧ (text = [] ∨ i + 1 + text.length ≤ count + 1) := by
    cases text <;> simp <;> omega
  unfold Agrees
  rw [hbegins, hlength]
  constructor
  · exact fun ⟨⟨hmem, htext⟩, hle, hrest⟩ => ⟨hle, hmem, htext, hrest⟩
  · exact fun ⟨hle, hmem, htext, hrest⟩ => ⟨⟨hmem, htext⟩, hle, hrest⟩

theorem takeWhile_cons_ne {c : Nat} (hc : c ≠ 0) (rest : List Nat) :
    (c :: rest).takeWhile (· ≠ 0) = c :: rest.takeWhile (· ≠ 0) := by
  simp [hc]

/-- On an agreement the loop goes on to the zero after the text, if the buffer has one. -/
theorem matchLoop_of_agrees {count i : Nat} {mnemonic rest : List Nat}
    (h : Agrees count mnemonic i (rest.takeWhile (· ≠ 0))) :
    matchLoop count mnemonic i rest =
      if (rest.takeWhile (· ≠ 0)).length = rest.length then .error .outOfBounds
      else .ok true := by
  induction rest generalizing i with
  | nil => rfl
  | cons c rest ih =>
      by_cases hc : c = 0
      · simp [matchLoop, hc]
      · rw [takeWhile_cons_ne hc] at h ⊢
        obtain ⟨hle, hmem, hrest⟩ := (agrees_cons_iff hc).mp h
        have hpass : ¬(i > count ∨ c ≠ mnemonic.getD i 0) := by
          rintro (hgt | hne)
          · omega
          · exact hne hmem
        rw [matchLoop, if_neg hc, if_neg hpass, ih hrest]
        simp

theorem matchLoop_of_not_agrees {count i : Nat} {mnemonic rest : List Nat}
    (h : ¬Agrees count mnemonic i (rest.takeWhile (· ≠ 0))) :
    matchLoop count mnemonic i rest = .ok false := by
  induction rest generalizing i with
  | nil => exact (h (agrees_nil count mnemonic i)).elim
  | cons c rest ih =>
      by_cases hc : c = 0
      · exact (h (by simpa [hc] using agrees_nil count mnemonic i)).elim
      · rw [takeWhile_cons_ne hc, agrees_cons_iff hc] at h
        rw [matchLoop, if_neg hc]
        by_cases hfail : i > count ∨ c ≠ mnemonic.getD i 0
        · rw [if_pos hfail]
        · rw [if_neg hfail]
          apply ih
          intro hrest
          apply h
          have hle : i ≤ count := Nat.le_of_not_lt fun hgt => hfail (.inl hgt)
          have hmem : c = mnemonic.getD i 0 := Decidable.of_not_not fun hne => hfail (.inr hne)
          exact ⟨hle, hmem, hrest⟩

theorem matchMnemonic_of_agrees {s : State} {mnemonic : List Nat}
    (h : Agrees s.count mnemonic 0 s.text) :
    matchMnemonic s mnemonic =
      if s.text.length = s.input.length then .error .outOfBounds else .ok true :=
  matchLoop_of_agrees h

theorem matchMnemonic_of_not_agrees {s : State} {mnemonic : List Nat}
    (h : ¬Agrees s.count mnemonic 0 s.text) : matchMnemonic s mnemonic = .ok false :=
  matchLoop_of_not_agrees h

theorem matchMnemonic_eq_false_iff {s : State} {mnemonic : List Nat} :
    matchMnemonic s mnemonic = .ok false ↔ ¬Agrees s.count mnemonic 0 s.text := by
  by_cases h : Agrees s.count mnemonic 0 s.text
  · rw [matchMnemonic_of_agrees h]
    split <;> simp [h]
  · simp [matchMnemonic_of_not_agrees h, h]

theorem matchMnemonic_eq_true_iff {s : State} {mnemonic : List Nat} :
    matchMnemonic s mnemonic = .ok true ↔
      Agrees s.count mnemonic 0 s.text ∧ s.text.length ≠ s.input.length := by
  by_cases h : Agrees s.count mnemonic 0 s.text
  · rw [matchMnemonic_of_agrees h]
    split <;> rename_i hfull <;> simp [hfull, h]
  · simp [matchMnemonic_of_not_agrees h, h]

end Matching

section Table

variable {cfg : Config} {s : State}

/-- There is a symbol at the index, and the buffer does not agree with it. -/
def Skips (cfg : Config) (s : State) (i : Nat) : Prop :=
  ∃ symbol, cfg.table[i]? = some symbol ∧ ¬Agrees s.count symbol.mnemonic 0 s.text

theorem findSymbol_of_skips {i : Nat} (h : Skips cfg s i) (rounds : Nat) :
    findSymbol cfg s (rounds + 1) i = findSymbol cfg s rounds ((i + 1) % 256) := by
  obtain ⟨symbol, hsymbol, hnot⟩ := h
  simp only [findSymbol, hsymbol, matchMnemonic_eq_false_iff.mpr hnot]

/-- The search goes past the symbols that do not agree. -/
theorem findSymbol_skip {i k : Nat} (rounds : Nat) (hik : i ≤ k) (hk : k + rounds = 256)
    (hrounds : 0 < rounds) (hskips : ∀ j, i ≤ j → j < k → Skips cfg s j) :
    findSymbol cfg s (k - i + rounds) i = findSymbol cfg s rounds k := by
  obtain ⟨steps, rfl⟩ := Nat.exists_eq_add_of_le hik
  induction steps generalizing i with
  | zero => simp
  | succ steps ih =>
      have hnext : (i + 1) % 256 = i + 1 := Nat.mod_eq_of_lt (by omega)
      have hlater := ih (i := i + 1) (by omega) (by omega)
        (fun j hj hlt => hskips j (by omega) (by omega))
      have hsteps : i + (steps + 1) - i + rounds = steps + rounds + 1 := by omega
      rw [hsteps, findSymbol_of_skips (hskips i (Nat.le_refl i) (by omega)), hnext]
      have hfrom : i + 1 + steps - (i + 1) + rounds = steps + rounds := by omega
      have hto : i + 1 + steps = i + (steps + 1) := by omega
      rw [← hfrom, hlater, hto]

/-- A search that ends has skipped all the symbols before its end, and has not come round. -/
theorem findSymbol_ok {rounds i : Nat} {found : Option Nat} (hrounds : i + rounds = 256)
    (h : findSymbol cfg s rounds i = .ok found) :
    ∃ k, i ≤ k ∧ k < 256 ∧ (∀ j, i ≤ j → j < k → Skips cfg s j) ∧
      findSymbol cfg s (256 - k) k = .ok found ∧ ¬Skips cfg s k := by
  induction rounds generalizing i with
  | zero => cases h
  | succ rounds ih =>
      by_cases hskip : Skips cfg s i
      · rw [findSymbol_of_skips hskip] at h
        cases rounds with
        | zero => cases h
        | succ rounds =>
            rw [Nat.mod_eq_of_lt (by omega)] at h
            obtain ⟨k, hle, hlt, hskips, hend, hstop⟩ := ih (by omega) h
            refine ⟨k, by omega, hlt, fun j hj hjk => ?_, hend, hstop⟩
            rcases Nat.eq_or_lt_of_le hj with rfl | hgt
            · exact hskip
            · exact hskips j hgt hjk
      · refine ⟨i, Nat.le_refl i, by omega, fun j hj hjk => by omega, ?_, hskip⟩
        rwa [show 256 - i = rounds + 1 by omega]

/-- Where nothing is skipped, the search ends at a match or at the terminator of the table. -/
theorem findSymbol_here {rounds i : Nat} {found : Option Nat} (hstop : ¬Skips cfg s i)
    (h : findSymbol cfg s (rounds + 1) i = .ok found) :
    (found = none ∧ cfg.table[i]? = none) ∨
      (found = some i ∧ ∃ symbol, cfg.table[i]? = some symbol ∧
        Agrees s.count symbol.mnemonic 0 s.text ∧ s.text.length ≠ s.input.length) := by
  rw [findSymbol] at h
  cases hsymbol : cfg.table[i]? with
  | none => exact .inl ⟨by simpa [hsymbol] using h.symm, rfl⟩
  | some symbol =>
      simp only [hsymbol] at h
      cases hmatch : matchMnemonic s symbol.mnemonic with
      | error fault => simp [hmatch] at h
      | ok agrees =>
          cases agrees with
          | true =>
              have hfound : some i = found := by simpa [hmatch] using h
              exact .inr ⟨hfound.symm, symbol, rfl, matchMnemonic_eq_true_iff.mp hmatch⟩
          | false => exact (hstop ⟨symbol, hsymbol, matchMnemonic_eq_false_iff.mp hmatch⟩).elim

theorem findSymbol_eq_some {k : Nat} {symbol : Symbol} (hk : k < 256)
    (hskips : ∀ j, j < k → Skips cfg s j) (hsymbol : cfg.table[k]? = some symbol)
    (hagrees : Agrees s.count symbol.mnemonic 0 s.text)
    (hfull : s.text.length ≠ s.input.length) :
    findSymbol cfg s 256 0 = .ok (some k) := by
  have hskip := findSymbol_skip (i := 0) (k := k) (255 - k + 1) (Nat.zero_le k)
    (by omega) (by omega) (fun j _ hj => hskips j hj)
  rw [show k - 0 + (255 - k + 1) = 256 by omega] at hskip
  rw [hskip, findSymbol]
  simp only [hsymbol, matchMnemonic_eq_true_iff.mpr ⟨hagrees, hfull⟩]

theorem findSymbol_eq_none (hlength : cfg.table.length ≤ 255)
    (hskips : ∀ j, j < cfg.table.length → Skips cfg s j) :
    findSymbol cfg s 256 0 = .ok none := by
  have hskip := findSymbol_skip (i := 0) (k := cfg.table.length)
    (255 - cfg.table.length + 1) (Nat.zero_le _) (by omega) (by omega)
    (fun j _ hj => hskips j hj)
  rw [show cfg.table.length - 0 + (255 - cfg.table.length + 1) = 256 by omega] at hskip
  rw [hskip, findSymbol]
  simp

theorem skips_of_hang {rounds i : Nat} (hrounds : i + rounds = 256)
    (h : findSymbol cfg s rounds i = .error .hang) {j : Nat} (hij : i ≤ j) (hj : j < 256) :
    Skips cfg s j := by
  induction rounds generalizing i with
  | zero => omega
  | succ rounds ih =>
      have hskip : Skips cfg s i := by
        rw [findSymbol] at h
        cases hsymbol : cfg.table[i]? with
        | none => simp [hsymbol] at h
        | some symbol =>
            refine ⟨symbol, hsymbol, fun hagrees => ?_⟩
            by_cases hfull : s.text.length = s.input.length <;>
              simp [hsymbol, matchMnemonic_of_agrees hagrees, hfull] at h
      rcases Nat.eq_or_lt_of_le hij with rfl | hlt
      · exact hskip
      · rw [findSymbol_of_skips hskip, Nat.mod_eq_of_lt (by omega)] at h
        exact ih (by omega) h hlt

/-- The 256 rounds decide: a search that has not ended by then never does. -/
theorem findSymbol_hang (h : findSymbol cfg s 256 0 = .error .hang) (rounds i : Nat)
    (hi : i < 256) : findSymbol cfg s rounds i = .error .hang := by
  induction rounds generalizing i with
  | zero => rfl
  | succ rounds ih =>
      rw [findSymbol_of_skips (skips_of_hang (by omega) h (Nat.zero_le i) hi)]
      exact ih _ (Nat.mod_lt _ (by omega))

end Table

end Qmk.Ucis
