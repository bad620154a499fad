import Mathlib.Data.List.Forall2
import Qmk.Unicode.Input

/-!
# What a Unicode string types

The digits of `register_hex32` read back as its number, and a string types one group of digits for
each scalar value in it.
-/

namespace Qmk.Unicode

open Qmk.Lib
open Qmk.Lib.Access

/-! ## Digits -/

def hexValueFrom (v : Nat) (digits : List Nat) : Nat := digits.foldl (fun v d => 16 * v + d) v

def hexValue (digits : List Nat) : Nat := hexValueFrom 0 digits

/-- The digits that `register_hex32` sends, from digit `i - 1` down. -/
def hexDigitsFrom (needsLeadingZero : Bool) (hex : Nat) : Nat → Bool → List Nat
  | 0, _ => []
  | i + 1, firstDigit =>
      let digit := hex / 16 ^ i % 16
      (if firstDigit ∧ needsLeadingZero ∧ digit > 9 then [0] else []) ++
        if digit ≠ 0 ∨ ¬firstDigit ∨ i < 4 then
          digit :: hexDigitsFrom needsLeadingZero hex i false
        else hexDigitsFrom needsLeadingZero hex i firstDigit

def hexDigits (needsLeadingZero : Bool) (hex : Nat) : List Nat :=
  hexDigitsFrom needsLeadingZero hex 8 true

def digitKeys (mode : InputMode) (digits : List Nat) : List KeyEvent :=
  digits.map fun digit => .tap (nibbleKey mode digit)

theorem nibble_eq (hex i : Nat) : (hex >>> (i * 4)) &&& 0xF = hex / 16 ^ i % 16 := by
  rw [Nat.and_two_pow_sub_one_eq_mod _ 4, Nat.shiftRight_eq_div_pow, Nat.mul_comm, Nat.pow_mul]

namespace Keyboard

theorem send_nil (k : Keyboard) : k.send [] = k := by
  rw [send, List.append_nil]

theorem send_send (k : Keyboard) (first second : List KeyEvent) :
    (k.send first).send second = k.send (first ++ second) := by
  rw [send, send, send, List.append_assoc]

end Keyboard

theorem registerHex32From_eq (needsLeadingZero : Bool) (hex i : Nat) (firstDigit : Bool)
    (k : Keyboard) :
    registerHex32From needsLeadingZero hex i firstDigit k =
      k.send (digitKeys k.inputMode (hexDigitsFrom needsLeadingZero hex i firstDigit)) := by
  induction i generalizing firstDigit k with
  | zero => exact k.send_nil.symm
  | succ i ih =>
      unfold registerHex32From hexDigitsFrom sendNibbleWrapper digitKeys
      rw [nibble_eq]
      dsimp only
      by_cases hlead : firstDigit = true ∧ needsLeadingZero = true ∧ hex / 16 ^ i % 16 > 9
      · rw [if_pos hlead, if_pos hlead]
        split <;> simp only [ih, Keyboard.send_send, Keyboard.send_inputMode, digitKeys,
          List.map_cons, List.cons_append, List.nil_append]
      · rw [if_neg hlead, if_neg hlead]
        split <;> simp only [ih, Keyboard.send_send, Keyboard.send_inputMode, digitKeys,
          List.map_cons, List.cons_append, List.nil_append]

theorem hexDigitsFrom_lt (needsLeadingZero : Bool) (hex i : Nat) (firstDigit : Bool) :
    ∀ d ∈ hexDigitsFrom needsLeadingZero hex i firstDigit, d < 16 := by
  induction i generalizing firstDigit with
  | zero => exact List.forall_mem_nil _
  | succ i ih =>
      intro d hd
      rw [hexDigitsFrom, List.mem_append] at hd
      rcases hd with hd | hd
      · split at hd
        · rw [List.mem_singleton.mp hd]
          decide
        · cases hd
      · split at hd
        · rcases List.mem_cons.mp hd with rfl | hd
          · exact Nat.mod_lt _ (by decide)
          · exact ih false d hd
        · exact ih firstDigit d hd

theorem hexValueFrom_hexDigitsFrom (needsLeadingZero : Bool) (hex i : Nat) (firstDigit : Bool)
    (hfirst : firstDigit = true → hex / 16 ^ i = 0) :
    hexValueFrom (hex / 16 ^ i) (hexDigitsFrom needsLeadingZero hex i firstDigit) = hex := by
  induction i generalizing firstDigit with
  | zero => rw [hexDigitsFrom, Nat.pow_zero, Nat.div_one]; rfl
  | succ i ih =>
      have hstep : 16 * (hex / 16 ^ (i + 1)) + hex / 16 ^ i % 16 = hex / 16 ^ i := by
        rw [Nat.pow_succ, ← Nat.div_div_eq_div_mul, Nat.div_add_mod]
      rw [hexDigitsFrom, hexValueFrom, List.foldl_append]
      have hlead : List.foldl (fun v d => 16 * v + d) (hex / 16 ^ (i + 1))
          (if firstDigit = true ∧ needsLeadingZero = true ∧ hex / 16 ^ i % 16 > 9 then [0]
            else []) = hex / 16 ^ (i + 1) := by
        split
        · rename_i h
          rw [hfirst h.1]
          rfl
        · rfl
      rw [hlead]
      split
      · rw [List.foldl_cons, hstep]
        exact ih false (fun h => absurd h (by decide))
      · rename_i hzero
        rw [not_or, not_or, not_not, not_not] at hzero
        have hnext : hex / 16 ^ i = 0 := by
          rw [← hstep, hfirst hzero.2.1, hzero.1]
        rw [hfirst hzero.2.1]
        have := ih firstDigit (fun _ => hnext)
        rwa [hnext] at this

theorem hexValue_hexDigits (needsLeadingZero : Bool) {hex : Nat} (h : hex < 2 ^ 32) :
    hexValue (hexDigits needsLeadingZero hex) = hex := by
  have hzero : hex / 16 ^ 8 = 0 := Nat.div_eq_of_lt (Nat.lt_of_lt_of_le h (by decide))
  have := hexValueFrom_hexDigitsFrom needsLeadingZero hex 8 true fun _ => hzero
  rwa [hzero] at this

/-- Something is sent, and with a leading zero where the first digit would be a letter. -/
theorem hexDigitsFrom_cons (needsLeadingZero : Bool) (hex i : Nat) :
    ∃ d ds, hexDigitsFrom needsLeadingZero hex (i + 1) true = d :: ds ∧
      (needsLeadingZero = true → d ≤ 9) := by
  induction i with
  | zero =>
      rw [hexDigitsFrom]
      split
      · exact ⟨0, _, rfl, fun _ => by decide⟩
      · rename_i h
        rw [if_pos (.inr (.inr (by decide)))]
        exact ⟨_, _, rfl, fun hneeds => Nat.le_of_not_lt fun hlt => h ⟨rfl, hneeds, hlt⟩⟩
  | succ i ih =>
      rw [hexDigitsFrom]
      split
      · exact ⟨0, _, rfl, fun _ => by decide⟩
      · rename_i h
        split
        · exact ⟨_, _, rfl, fun hneeds => Nat.le_of_not_lt fun hlt => h ⟨rfl, hneeds, hlt⟩⟩
        · exact ih

theorem hexDigitsFrom_length (hex : Nat) (firstDigit : Bool) {i : Nat} (hi : i ≤ 4) :
    (hexDigitsFrom false hex i firstDigit).length = i := by
  induction i generalizing firstDigit with
  | zero => rfl
  | succ i ih =>
      rw [hexDigitsFrom, if_neg (by simp), if_pos (.inr (.inr hi)), List.nil_append,
        List.length_cons, ih false (by omega)]

theorem hexDigits_length {hex : Nat} (h : hex < 2 ^ 16) :
    (hexDigits false hex).length = 4 := by
  have hskip (i : Nat) (hi : 4 ≤ i) :
      hexDigitsFrom false hex (i + 1) true = hexDigitsFrom false hex i true := by
    have hzero : hex / 16 ^ i = 0 :=
      Nat.div_eq_of_lt (Nat.lt_of_lt_of_le h (Nat.pow_le_pow_right (show 0 < 16 by decide) hi))
    rw [hexDigitsFrom, if_neg (by simp), hzero, if_neg (by simp; omega), List.nil_append]
  rw [hexDigits, hskip 7 (by decide), hskip 6 (by decide), hskip 5 (by decide),
    hskip 4 (by decide), hexDigitsFrom_length hex true (Nat.le_refl 4)]

/-! ## What the host reads -/

def utf16Decode : List Nat → Option Nat
  | [unit] => if 0xD800 ≤ unit ∧ unit ≤ 0xDFFF then none else some unit
  | [hi, lo] =>
      if (0xD800 ≤ hi ∧ hi < 0xDC00) ∧ 0xDC00 ≤ lo ∧ lo < 0xE000 then
        some (0x10000 + (hi - 0xD800) * 0x400 + (lo - 0xDC00))
      else none
  | _ => none

/-- The values of consecutive groups of four digits. -/
def hexUnits : List Nat → Option (List Nat)
  | [] => some []
  | a :: b :: c :: d :: digits => (hexUnits digits).map (hexValue [a, b, c, d] :: ·)
  | _ => none

/-- The scalar value that the digits of one group enter. -/
def readDigits : InputMode → List Nat → Option Nat
  | .macos, digits => (hexUnits digits).bind utf16Decode
  | _, [] => none
  | .wincompose, d :: ds => if d ≤ 9 then some (hexValue (d :: ds)) else none
  | _, d :: ds => some (hexValue (d :: ds))

theorem hexUnits_append {first second : List Nat} (h : first.length = 4) :
    hexUnits (first ++ second) = (hexUnits second).map (hexValue first :: ·) := by
  match first, h with
  | [_, _, _, _], _ => rfl

/-- The digits of a code point. -/
def typedDigits (mode : InputMode) (codePoint : Nat) : List Nat :=
  if codePoint > 0xFFFF ∧ mode = .macos then
    let codePoint := codePoint - 0x10000
    hexDigits false (((codePoint &&& 0xFFC00) >>> 10) + 0xD800) ++
      hexDigits false ((codePoint &&& 0x3FF) + 0xDC00)
  else hexDigits (mode = .wincompose) codePoint

theorem typedDigits_lt (mode : InputMode) (codePoint : Nat) :
    ∀ d ∈ typedDigits mode codePoint, d < 16 := by
  intro d hd
  rw [typedDigits] at hd
  split at hd
  · rcases List.mem_append.mp hd with hd | hd
    · exact hexDigitsFrom_lt _ _ _ _ d hd
    · exact hexDigitsFrom_lt _ _ _ _ d hd
  · exact hexDigitsFrom_lt _ _ _ _ d hd

theorem readDigits_pair {codePoint : Nat} (hlow : 0xFFFF < codePoint)
    (hhigh : codePoint ≤ 0x10FFFF) :
    readDigits .macos (typedDigits .macos codePoint) = some codePoint := by
  have hhi : ((codePoint - 0x10000) &&& 0xFFC00) >>> 10 = (codePoint - 0x10000) / 1024 := by
    rw [Nat.shiftRight_and_distrib, Nat.shiftRight_eq_div_pow]
    change _ &&& 2 ^ 10 - 1 = _
    rw [Nat.and_two_pow_sub_one_eq_mod, Nat.mod_eq_of_lt (by omega)]
  have hlo : (codePoint - 0x10000) &&& 0x3FF = (codePoint - 0x10000) % 1024 :=
    Nat.and_two_pow_sub_one_eq_mod _ 10
  rw [typedDigits, if_pos ⟨hlow, rfl⟩, readDigits]
  dsimp only
  rw [hhi, hlo, hexUnits_append (hexDigits_length (by omega)),
    ← List.append_nil (hexDigits false ((codePoint - 0x10000) % 1024 + 0xDC00)),
    hexUnits_append (hexDigits_length (by omega)), hexValue_hexDigits false (by omega),
    hexValue_hexDigits false (by omega)]
  rw [hexUnits, Option.map_some, Option.map_some, Option.bind_some, utf16Decode,
    if_pos ⟨⟨by omega, by omega⟩, by omega, by omega⟩]
  exact congrArg some (by omega)

theorem readDigits_typedDigits {mode : InputMode} {codePoint : Nat} (hhigh : codePoint ≤ 0x10FFFF)
    (hscalar : ¬(0xD800 ≤ codePoint ∧ codePoint ≤ 0xDFFF)) :
    readDigits mode (typedDigits mode codePoint) = some codePoint := by
  by_cases hmac : mode = .macos
  · subst hmac
    by_cases hpair : 0xFFFF < codePoint
    · exact readDigits_pair hpair hhigh
    · have hdigits : typedDigits .macos codePoint = hexDigits false codePoint ++ [] := by
        rw [typedDigits, if_neg fun h => hpair h.1, List.append_nil]
        rfl
      rw [hdigits, readDigits, hexUnits_append (hexDigits_length (by omega)),
        hexValue_hexDigits false (by omega), hexUnits, Option.map_some, Option.bind_some,
        utf16Decode, if_neg hscalar]
  · obtain ⟨d, ds, hdigits, hd⟩ := hexDigitsFrom_cons (mode = .wincompose) codePoint 7
    have hvalue := hexValue_hexDigits (mode = .wincompose) (show codePoint < 2 ^ 32 by omega)
    rw [hexDigits, hdigits] at hvalue
    rw [typedDigits, if_neg fun h => hmac h.2, hexDigits, hdigits]
    cases mode with
    | macos => exact absurd rfl hmac
    | wincompose => rw [readDigits, if_pos (hd rfl), hvalue]
    | linux => exact congrArg some hvalue
    | windows => exact congrArg some hvalue
    | bsd => exact congrArg some hvalue
    | emacs => exact congrArg some hvalue

/-! ## One code point -/

/-- What one code point types when the host says `led` of its LEDs. -/
def groupKeys (keys : UnicodeKeys) (mode : InputMode) (led : Led) (digits : List Nat) :
    List KeyEvent :=
  inputStartKeys keys led mode ++ digitKeys mode digits ++ inputFinishKeys keys led mode

def groupsKeys (keys : UnicodeKeys) (mode : InputMode) : (Nat → Led) → List (List Nat) →
    List KeyEvent
  | _, [] => []
  | leds, digits :: groups =>
      groupKeys keys mode (leds 0) digits ++ groupsKeys keys mode (fun n => leds (n + 1)) groups

theorem registerHex32_eq (hex : Nat) (k : Keyboard) :
    registerHex32 hex k =
      k.send (digitKeys k.inputMode (hexDigits (k.inputMode = .wincompose) hex)) :=
  registerHex32From_eq _ hex 8 true k

theorem registerUnicode_eq {codePoint : Nat} {k : Keyboard} (hhigh : codePoint ≤ 0x10FFFF)
    (hmode : k.inputMode ≠ .windows) :
    registerUnicode codePoint k =
      { k with
        weakMods := 0
        savedMods := k.mods
        savedLedState := k.hostLeds 0
        hostLeds := fun n => k.hostLeds (n + 1)
        sent := k.sent ++
          groupKeys k.keys k.inputMode (k.hostLeds 0) (typedDigits k.inputMode codePoint) } := by
  have hin : ¬(codePoint > 0x10FFFF ∨ codePoint > 0xFFFF ∧ k.inputMode = .windows) :=
    fun h => h.elim (fun h => Nat.not_lt_of_le hhigh h) fun h => hmode h.2
  rw [registerUnicode, if_neg hin]
  by_cases hpair : codePoint > 0xFFFF ∧ k.inputMode = .macos
  · rw [typedDigits, if_pos hpair]
    simp only [registerHex32_eq, unicodeInputStart, unicodeInputFinish, Keyboard.send, groupKeys,
      digitKeys, hpair, and_self, if_true, List.map_append, List.append_assoc]
    rfl
  · rw [typedDigits, if_neg hpair]
    simp only [registerHex32_eq, unicodeInputStart, unicodeInputFinish, Keyboard.send, groupKeys,
      digitKeys, if_neg hpair, List.append_assoc]

/-! ## Strings -/

/-- The bytes of a number that need not be a scalar value. -/
def encode (v : Nat) : List Byte :=
  if v ≤ 0x7F then [.ofNat 8 v]
  else if v ≤ 0x7FF then [.ofNat 8 (0xC0 + v / 64), .ofNat 8 (0x80 + v % 64)]
  else if v ≤ 0xFFFF then
    [.ofNat 8 (0xE0 + v / 4096), .ofNat 8 (0x80 + v / 64 % 64), .ofNat 8 (0x80 + v % 64)]
  else
    [.ofNat 8 (0xF0 + v / 262144), .ofNat 8 (0x80 + v / 4096 % 64),
      .ofNat 8 (0x80 + v / 64 % 64), .ofNat 8 (0x80 + v % 64)]

theorem utf8EncodeChar_eq (c : Char) :
    (String.utf8EncodeChar c).map UInt8.toBitVec = encode c.toNat := by
  have hc : c.toNat < 0x110000 := by
    rcases c.valid with h | h
    · exact Nat.lt_trans h (by decide)
    · exact h.2
  unfold String.utf8EncodeChar encode
  simp only [Char.toNat] at hc ⊢
  split
  · rfl
  split
  · rw [Nat.mod_eq_of_lt (by omega), Nat.add_comm _ 0xC0, Nat.add_comm _ 0x80]
    rfl
  split
  · rw [Nat.mod_eq_of_lt (a := c.val.toNat / 4096) (by omega), Nat.add_comm _ 0xE0,
      Nat.add_comm _ 0x80, Nat.add_comm _ 0x80]
    rfl
  · rw [Nat.mod_eq_of_lt (a := c.val.toNat / 262144) (by omega), Nat.add_comm _ 0xF0,
      Nat.add_comm _ 0x80, Nat.add_comm _ 0x80, Nat.add_comm _ 0x80]
    rfl

variable {buffer : Nat → Byte} {str : Nat}

theorem toNat_of_held {n i : Nat} {bytes : List Byte} (hheld : Held buffer str bytes)
    (hi : bytes[i]? = some (.ofNat 8 n)) (hn : n < 256) : (buffer (str + i)).toNat = n := by
  rw [hheld i _ hi, BitVec.toNat_ofNat, Nat.mod_eq_of_lt hn]

theorem decodedAt_encode {v : Nat} (hv : v < 0x140000) (hheld : Held buffer str (encode v)) :
    decodedAt buffer str = noSurrogate v ∧ announced (buffer str) = (encode v).length := by
  unfold encode at hheld ⊢
  split_ifs at hheld ⊢ with hone htwo hthree
  · have h0 : (buffer str).toNat = v := toNat_of_held (i := 0) hheld rfl (by omega)
    have hdecoded := @decodedAt_one buffer str (by omega)
    rwa [h0] at hdecoded
  · have hdecoded := decodedAt_two (toNat_of_held (i := 0) hheld rfl (by omega)) (by omega)
      (toNat_of_held (i := 1) hheld rfl (by omega)) (Nat.mod_lt v (by decide))
    rwa [show v / 64 * 64 + v % 64 = v by omega] at hdecoded
  · have hdecoded := decodedAt_three (toNat_of_held (i := 0) hheld rfl (by omega)) (by omega)
      (toNat_of_held (i := 1) hheld rfl (by omega)) (Nat.mod_lt (v / 64) (by decide))
      (toNat_of_held (i := 2) hheld rfl (by omega)) (Nat.mod_lt v (by decide))
    rwa [show v / 4096 * 4096 + v / 64 % 64 * 64 + v % 64 = v by omega] at hdecoded
  · have hdecoded := decodedAt_four (toNat_of_held (i := 0) hheld rfl (by omega)) (by omega)
      (toNat_of_held (i := 1) hheld rfl (by omega)) (Nat.mod_lt (v / 4096) (by decide))
      (toNat_of_held (i := 2) hheld rfl (by omega)) (Nat.mod_lt (v / 64) (by decide))
      (toNat_of_held (i := 3) hheld rfl (by omega)) (Nat.mod_lt v (by decide))
    rwa [show v / 262144 * 262144 + v / 4096 % 64 * 4096 + v / 64 % 64 * 64 + v % 64 = v by
      omega] at hdecoded

/-- A part of a string: a character, half of a surrogate pair, a number beyond the scalar values,
or a byte that begins nothing. -/
inductive Chunk where
  | scalar (c : Char) (h : c.toNat ≠ 0)
  | surrogate (v : Nat) (h : 0xD800 ≤ v ∧ v ≤ 0xDFFF)
  | beyond (v : Nat) (h : 0x10FFFF < v ∧ v < 0x140000)
  | stray (b : Byte) (h : IsStray b)

namespace Chunk

def bytes : Chunk → List Byte
  | scalar c _ => (String.utf8EncodeChar c).map UInt8.toBitVec
  | surrogate v _ => encode v
  | beyond v _ => encode v
  | stray b _ => [b]

/-- The character that a chunk is. -/
def char? : Chunk → Option Char
  | scalar c _ => some c
  | _ => none

/-- What `decode_utf8` makes of a chunk. -/
def decoded : Chunk → Option Nat
  | scalar c _ => some c.toNat
  | beyond v _ => some v
  | _ => none

end Chunk

theorem char_not_surrogate (c : Char) : ¬(0xD800 ≤ c.toNat ∧ c.toNat ≤ 0xDFFF) := by
  have hc := c.valid
  rcases hc with h | h
  · exact fun hs => absurd hs.1 (Nat.not_le_of_lt h)
  · exact fun hs => absurd hs.2 (Nat.not_le_of_lt h.1)

theorem char_le (c : Char) : c.toNat ≤ 0x10FFFF := by
  rcases c.valid with h | h
  · exact Nat.le_of_lt (Nat.lt_trans h (by decide))
  · exact Nat.le_of_lt_succ h.2

theorem decodedAt_chunk {c : Chunk} (hheld : Held buffer str c.bytes) :
    decodedAt buffer str = c.decoded ∧ announced (buffer str) = c.bytes.length := by
  cases c with
  | scalar c h =>
      rw [Chunk.bytes, utf8EncodeChar_eq] at hheld ⊢
      have hdecoded := decodedAt_encode (Nat.lt_of_le_of_lt (char_le c) (by decide)) hheld
      rwa [noSurrogate, if_neg (char_not_surrogate c)] at hdecoded
  | surrogate v h =>
      have hdecoded := decodedAt_encode (Nat.lt_of_le_of_lt h.2 (by decide)) hheld
      rwa [noSurrogate, if_pos h] at hdecoded
  | beyond v h =>
      have hdecoded := decodedAt_encode h.2 hheld
      rwa [noSurrogate, if_neg fun hs => absurd hs.2 (by omega)] at hdecoded
  | stray b h =>
      exact decodedAt_stray ((hheld 0 b rfl).symm ▸ h)

theorem chunk_ne_zero {c : Chunk} (hheld : Held buffer str c.bytes) : buffer str ≠ 0 := by
  intro hzero
  have hnul := (@decodedAt_one buffer str (by rw [hzero]; decide)).1
  rw [(decodedAt_chunk hheld).1, hzero] at hnul
  cases c with
  | scalar c h => exact h (Option.some.inj hnul)
  | surrogate v h => cases hnul
  | beyond v h => exact absurd (Option.some.inj hnul) (by change v ≠ 0; omega)
  | stray b h => cases hnul

/-- What a chunk does to the keyboard: a character is typed, and nothing else is. -/
theorem registerDecoded_chunk (c : Chunk) {k : Keyboard} (hmode : k.inputMode ≠ .windows) :
    registerDecoded c.decoded k =
      match c.char? with
      | some char =>
          { k with
            weakMods := 0
            savedMods := k.mods
            savedLedState := k.hostLeds 0
            hostLeds := fun n => k.hostLeds (n + 1)
            sent := k.sent ++ groupKeys k.keys k.inputMode (k.hostLeds 0)
              (typedDigits k.inputMode char.toNat) }
      | none => k := by
  cases c with
  | scalar c h => exact registerUnicode_eq (char_le c) hmode
  | surrogate v h => rfl
  | beyond v h => exact if_pos (.inl h.1)
  | stray b h => rfl

/-- The groups that chunks type. -/
def typedGroups (mode : InputMode) (chunks : List Chunk) : List (List Nat) :=
  (chunks.filterMap Chunk.char?).map fun c => typedDigits mode c.toNat

theorem sendUnicodeString_chunks {s : Traced Byte Keyboard} {chunks : List Chunk}
    (hheld : Held s.buffer str (chunks.flatMap Chunk.bytes ++ [0]))
    (hmode : s.rest.inputMode ≠ .windows) :
    let after := sendUnicodeString (chunks.length + 1) str s
    after.1 = some (str + (chunks.flatMap Chunk.bytes).length) ∧
      after.2.rest.mods = s.rest.mods ∧
      after.2.rest.sent = s.rest.sent ++ groupsKeys s.rest.keys s.rest.inputMode s.rest.hostLeds
        (typedGroups s.rest.inputMode chunks) := by
  induction chunks generalizing str s with
  | nil =>
      rw [List.length_nil, sendUnicodeString_stop 0 (held_cons.mp hheld).1]
      exact ⟨rfl, rfl, (List.append_nil _).symm⟩
  | cons c chunks ih =>
      rw [List.flatMap_cons, List.append_assoc, held_append] at hheld
      obtain ⟨hdecoded, hannounced⟩ := decodedAt_chunk hheld.1
      rw [List.length_cons, sendUnicodeString_next _ (chunk_ne_zero hheld.1), hdecoded, hannounced,
        registerDecoded_chunk c hmode, List.flatMap_cons, List.length_append, ← Nat.add_assoc]
      cases hchar : c.char? with
      | none =>
          rw [typedGroups, List.filterMap_cons_none hchar]
          exact ih hheld.2 hmode
      | some char =>
          rw [typedGroups, List.filterMap_cons_some hchar, List.map_cons, groupsKeys,
            ← List.append_assoc]
          exact ih (by exact hheld.2) hmode

/-- A string types, for each character of it in turn, one group of digits that reads back as the
character, and nothing for the rest of it. -/
theorem sendUnicodeString_typed (chunks : List Chunk) (buffer : Nat → Byte) (str : Nat)
    (hheld : Held buffer str (chunks.flatMap Chunk.bytes ++ [0])) (k : Keyboard)
    (hmode : k.inputMode ∈ [.macos, .linux, .wincompose, .emacs]) :
    ∃ fuel, ∃ groups : List (List Nat),
      let after := sendUnicodeString fuel str ⟨buffer, [], k⟩
      after.1 = some (str + (chunks.flatMap Chunk.bytes).length) ∧
      after.2.rest.mods = k.mods ∧
      after.2.rest.sent = k.sent ++ groupsKeys k.keys k.inputMode k.hostLeds groups ∧
      List.Forall₂ (fun digits (c : Char) =>
        (∀ d ∈ digits, d < 16) ∧ readDigits k.inputMode digits = some c.toNat)
        groups (chunks.filterMap Chunk.char?) := by
  have hwindows : k.inputMode ≠ .windows := by
    intro h
    rw [h] at hmode
    exact absurd hmode (by decide)
  obtain ⟨hstop, hmods, hsent⟩ :=
    sendUnicodeString_chunks (s := ⟨buffer, [], k⟩) hheld hwindows
  refine ⟨chunks.length + 1, typedGroups k.inputMode chunks, hstop, hmods, hsent, ?_⟩
  rw [typedGroups, List.forall₂_map_left_iff, List.forall₂_same]
  intro c _
  exact ⟨typedDigits_lt _ _, readDigits_typedDigits (char_le c) (char_not_surrogate c)⟩

/-- A letter, half a pair, a character that takes a whole one, and a byte of none. -/
def mixedChunks : List Chunk :=
  [.scalar 'é' (by decide), .surrogate 0xD83D (by decide), .scalar '😀' (by decide),
    .stray 0xFF (.inr (by decide))]

theorem sendUnicodeString_typed_mixed :
    ∃ fuel, ∃ groups : List (List Nat),
      let after := sendUnicodeString fuel 0
        ⟨fun i => (mixedChunks.flatMap Chunk.bytes ++ [0]).getD i 0, [], .idle .macos⟩
      after.1 = some (0 + (mixedChunks.flatMap Chunk.bytes).length) ∧
      after.2.rest.mods = 0 ∧
      after.2.rest.sent = [] ++ groupsKeys .default .macos (fun _ => ⟨false, false⟩) groups ∧
      List.Forall₂ (fun digits (c : Char) =>
        (∀ d ∈ digits, d < 16) ∧ readDigits .macos digits = some c.toNat)
        groups ['é', '😀'] :=
  sendUnicodeString_typed mixedChunks _ 0 (held_getD _) (.idle .macos) (by decide)

end Qmk.Unicode
