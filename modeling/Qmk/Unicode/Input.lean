import Qmk.Unicode.Utf8

/-!
# Unicode input

The keys that `register_unicode` taps in each input mode, and `send_unicode_string` over a string
in memory.
-/

namespace Qmk.Unicode

open Qmk.Lib
open Qmk.Lib.Access

inductive InputMode where
  | macos
  | linux
  | windows
  | bsd
  | wincompose
  | emacs
  deriving DecidableEq

/-- The keys that start the input, where the configuration may change them. -/
structure UnicodeKeys where
  mac : Nat
  lnx : Nat
  winc : Nat

def kcA : Nat := 0x04
def kcU : Nat := 0x18
def kcX : Nat := 0x1B
def kc1 : Nat := 0x1E
def kc8 : Nat := 0x25
def kc0 : Nat := 0x27
def kcEnter : Nat := 0x28
def kcSpc : Nat := 0x2C
def kcCapsLock : Nat := 0x39
def kcNumLock : Nat := 0x53
def kcKpPlus : Nat := 0x57
def kcKp1 : Nat := 0x59
def kcLeftAlt : Nat := 0xE2
def kcRightAltKey : Nat := 0xE6

/-- Key codes with modifiers. -/
def lctl (kc : Nat) : Nat := 0x0100 ||| kc
def lsft (kc : Nat) : Nat := 0x0200 ||| kc

def UnicodeKeys.default : UnicodeKeys where
  mac := kcLeftAlt
  lnx := lctl (lsft kcU)
  winc := kcRightAltKey

/-- What the keyboard does to the keys of the host. -/
inductive KeyEvent where
  | register (kc : Nat)
  | unregister (kc : Nat)
  | tap (kc : Nat)
  deriving DecidableEq

structure Led where
  capsLock : Bool
  numLock : Bool

structure Keyboard where
  keys : UnicodeKeys
  inputMode : InputMode
  mods : Byte
  weakMods : Byte
  savedMods : Byte
  savedLedState : Led
  /-- What the host says of its LEDs each time that it is asked, from now on. -/
  hostLeds : Nat → Led
  sent : List KeyEvent

namespace Keyboard

/-- A keyboard with no modifiers held and no LEDs lit. -/
def idle (inputMode : InputMode) : Keyboard where
  keys := .default
  inputMode := inputMode
  mods := 0
  weakMods := 0
  savedMods := 0
  savedLedState := ⟨false, false⟩
  hostLeds := fun _ => ⟨false, false⟩
  sent := []

def send (k : Keyboard) (events : List KeyEvent) : Keyboard :=
  { k with sent := k.sent ++ events }

@[simp] theorem send_keys (k : Keyboard) (events : List KeyEvent) :
    (k.send events).keys = k.keys := rfl

@[simp] theorem send_inputMode (k : Keyboard) (events : List KeyEvent) :
    (k.send events).inputMode = k.inputMode := rfl

@[simp] theorem send_sent (k : Keyboard) (events : List KeyEvent) :
    (k.send events).sent = k.sent ++ events := rfl

end Keyboard

/-- What starts the input of a code point. -/
def inputStartKeys (keys : UnicodeKeys) (led : Led) : InputMode → List KeyEvent
  | .macos => [.register keys.mac]
  | .linux => (if led.capsLock then [.tap kcCapsLock] else []) ++ [.tap keys.lnx]
  | .windows =>
      (if led.numLock then [] else [.tap kcNumLock]) ++ [.register kcLeftAlt, .tap kcKpPlus]
  | .bsd => []
  | .wincompose => [.tap keys.winc, .tap kcU]
  | .emacs => [.tap (lctl kcX), .tap kc8, .tap kcEnter]

/-- What ends it. -/
def inputFinishKeys (keys : UnicodeKeys) (led : Led) : InputMode → List KeyEvent
  | .macos => [.unregister keys.mac]
  | .linux => .tap kcSpc :: if led.capsLock then [.tap kcCapsLock] else []
  | .windows => .unregister kcLeftAlt :: if led.numLock then [] else [.tap kcNumLock]
  | .bsd => []
  | .wincompose => [.tap kcEnter]
  | .emacs => [.tap kcEnter]

def unicodeInputStart (k : Keyboard) : Keyboard :=
  let led := k.hostLeds 0
  let k := { k with
    savedLedState := led
    hostLeds := fun n => k.hostLeds (n + 1)
    savedMods := k.mods
    mods := 0
    weakMods := 0 }
  k.send (inputStartKeys k.keys led k.inputMode)

def unicodeInputFinish (k : Keyboard) : Keyboard :=
  { k.send (inputFinishKeys k.keys k.savedLedState k.inputMode) with mods := k.savedMods }

/-- The key of a hexadecimal digit. -/
def nibbleKey (mode : InputMode) (digit : Nat) : Nat :=
  if mode = .windows then
    if digit < 10 then kcKp1 + (10 + digit - 1) % 10 else kcA + (digit - 10)
  else if digit = 0 then kc0
  else if digit < 10 then kc1 + (digit - 1)
  else kcA + (digit - 10)

def sendNibbleWrapper (digit : Nat) (k : Keyboard) : Keyboard :=
  k.send [.tap (nibbleKey k.inputMode digit)]

/-- The digits of `hex` from digit `i - 1` down. -/
def registerHex32From (needsLeadingZero : Bool) (hex : Nat) :
    Nat → Bool → Keyboard → Keyboard
  | 0, _, k => k
  | i + 1, firstDigit, k =>
      let digit := (hex >>> (i * 4)) &&& 0xF
      let k :=
        if firstDigit ∧ needsLeadingZero ∧ digit > 9 then sendNibbleWrapper 0 k else k
      -- The last two bytes are always sent.
      if digit ≠ 0 ∨ ¬firstDigit ∨ i < 4 then
        registerHex32From needsLeadingZero hex i false (sendNibbleWrapper digit k)
      else
        registerHex32From needsLeadingZero hex i firstDigit k

def registerHex32 (hex : Nat) (k : Keyboard) : Keyboard :=
  registerHex32From (k.inputMode = .wincompose) hex 8 true k

def registerUnicode (codePoint : Nat) (k : Keyboard) : Keyboard :=
  if codePoint > 0x10FFFF ∨ codePoint > 0xFFFF ∧ k.inputMode = .windows then k
  else
    let k := unicodeInputStart k
    let k :=
      if codePoint > 0xFFFF ∧ k.inputMode = .macos then
        let codePoint := codePoint - 0x10000
        let lo := codePoint &&& 0x3FF
        let hi := (codePoint &&& 0xFFC00) >>> 10
        registerHex32 (lo + 0xDC00) (registerHex32 (hi + 0xD800) k)
      else registerHex32 codePoint k
    unicodeInputFinish k

/-- `if (code_point >= 0)`. -/
def registerDecoded : Option Nat → Keyboard → Keyboard
  | some codePoint, k => registerUnicode codePoint k
  | none, k => k

/-- The string at `str`, with fuel for so many code points; where its walk stopped, if it did. -/
def sendUnicodeString : Nat → Nat → Access Byte Keyboard (Option Nat)
  | 0, _ => pure none
  | fuel + 1, str => do
      if (← read str) = 0 then
        pure (some str)
      else
        let (codePoint, next) ← decodeUtf8 str
        tell (registerDecoded codePoint)
        sendUnicodeString fuel next

/-! ## The walk -/

variable {s : Traced Byte Keyboard} {str : Nat}

theorem sendUnicodeString_stop (fuel : Nat) (h : s.buffer str = 0) :
    sendUnicodeString (fuel + 1) str s = (some str, { s with accessed := str :: s.accessed }) := by
  rw [sendUnicodeString, bind_run, read_run, ite_run, if_pos h, pure_run]

theorem sendUnicodeString_next (fuel : Nat) (h : s.buffer str ≠ 0) :
    sendUnicodeString (fuel + 1) str s =
      sendUnicodeString fuel (str + announced (s.buffer str))
        { buffer := s.buffer
          accessed := (List.range' str (announced (s.buffer str))).reverse ++ str :: s.accessed
          rest := registerDecoded (decodedAt s.buffer str) s.rest } := by
  rw [sendUnicodeString, bind_run, read_run, ite_run, if_neg h, bind_run, decodeUtf8_run]
  rfl

theorem sendUnicodeString_le {fuel stop : Nat}
    (h : (sendUnicodeString fuel str s).1 = some stop) :
    str ≤ stop := by
  induction fuel generalizing str s with
  | zero => cases h
  | succ fuel ih =>
      by_cases hnul : s.buffer str = 0
      · rw [sendUnicodeString_stop fuel hnul] at h
        cases h
        exact Nat.le_refl _
      · rw [sendUnicodeString_next fuel hnul] at h
        exact Nat.le_trans (Nat.le_add_right _ _) (ih h)

/-- The string `bytes` lies at `str`. -/
def Held (buffer : Nat → Byte) (str : Nat) (bytes : List Byte) : Prop :=
  ∀ i b, bytes[i]? = some b → buffer (str + i) = b

theorem held_append {buffer : Nat → Byte} {first second : List Byte} :
    Held buffer str (first ++ second) ↔
      Held buffer str first ∧ Held buffer (str + first.length) second := by
  constructor
  · intro h
    constructor
    · intro i b hi
      exact h i b (by rw [List.getElem?_append_left (List.getElem?_eq_some_iff.mp hi).1, hi])
    · intro i b hi
      rw [Nat.add_assoc]
      exact h (first.length + i) b (by rw [List.getElem?_append_right (by omega),
        Nat.add_sub_cancel_left, hi])
  · rintro ⟨hfirst, hsecond⟩ i b hi
    by_cases hlt : i < first.length
    · exact hfirst i b (by rwa [List.getElem?_append_left hlt] at hi)
    · rw [List.getElem?_append_right (by omega)] at hi
      have := hsecond (i - first.length) b hi
      rwa [Nat.add_assoc, Nat.add_sub_cancel' (by omega)] at this

theorem held_cons {buffer : Nat → Byte} {b : Byte} {bytes : List Byte} :
    Held buffer str (b :: bytes) ↔ buffer str = b ∧ Held buffer (str + 1) bytes := by
  rw [show b :: bytes = [b] ++ bytes from rfl, held_append]
  refine and_congr_left' ⟨fun h => h 0 b rfl, ?_⟩
  rintro rfl i b' hi
  match i, hi with
  | 0, hi => exact Option.some.inj hi

theorem held_getD (bytes : List Byte) : Held (fun i => bytes.getD i 0) 0 bytes := by
  intro i b hi
  change bytes.getD (0 + i) 0 = b
  rw [Nat.zero_add, List.getD_eq_getElem?_getD, hi, Option.getD_some]

/-- As many bytes as the first of them announces. -/
def Piece : List Byte → Prop
  | [] => False
  | b :: bytes => (b :: bytes).length = announced b

/-- A walk that meets the terminator splits the string into what was announced. -/
theorem pieces_of_stop {fuel : Nat} {bytes : List Byte} (hbytes : ∀ b ∈ bytes, b ≠ 0)
    (hheld : Held s.buffer str bytes)
    (h : (sendUnicodeString fuel str s).1 = some (str + bytes.length)) :
    ∃ pieces : List (List Byte), bytes = pieces.flatten ∧ ∀ p ∈ pieces, Piece p := by
  induction fuel generalizing str s bytes with
  | zero => cases h
  | succ fuel ih =>
      cases bytes with
      | nil => exact ⟨[], rfl, List.forall_mem_nil _⟩
      | cons b rest =>
          have hb := (held_cons.mp hheld).1
          have hne : s.buffer str ≠ 0 := hb ▸ hbytes b List.mem_cons_self
          rw [sendUnicodeString_next fuel hne, hb] at h
          have hfits : announced b ≤ (b :: rest).length :=
            Nat.le_of_add_le_add_left (sendUnicodeString_le h)
          have hsplit := List.take_append_drop (announced b) (b :: rest)
          have hlength : ((b :: rest).take (announced b)).length = announced b := by
            rw [List.length_take, Nat.min_eq_left hfits]
          rw [← hsplit, held_append, hlength] at hheld
          have hstop : str + (b :: rest).length =
              str + announced b + ((b :: rest).drop (announced b)).length := by
            rw [List.length_drop]
            omega
          obtain ⟨pieces, hpieces, hall⟩ := ih
            (fun c hc => hbytes c (List.mem_of_mem_drop hc)) (by exact hheld.2) (hstop ▸ h)
          refine ⟨(b :: rest).take (announced b) :: pieces, ?_, ?_⟩
          · rw [List.flatten_cons, ← hpieces, hsplit]
          · refine List.forall_mem_cons.mpr ⟨?_, hall⟩
            obtain ⟨n, hn⟩ := Nat.exists_eq_add_of_lt (announced_pos b)
            rw [Nat.zero_add] at hn
            rw [hn, List.take_succ_cons]
            rw [hn, List.take_succ_cons] at hlength
            rw [Piece, hlength, hn]

/-- And a string of such pieces is walked up to its terminator, and not beyond it. -/
theorem stop_of_pieces {bytes : List Byte} {pieces : List (List Byte)}
    (hbytes : ∀ b ∈ bytes, b ≠ 0) (hheld : Held s.buffer str (bytes ++ [0]))
    (hflatten : bytes = pieces.flatten) (hall : ∀ p ∈ pieces, Piece p)
    (haccessed : ∀ i ∈ s.accessed, i ≤ str + bytes.length) :
    let after := sendUnicodeString (pieces.length + 1) str s
    after.1 = some (str + bytes.length) ∧ ∀ i ∈ after.2.accessed, i ≤ str + bytes.length := by
  induction pieces generalizing str s bytes with
  | nil =>
      cases hflatten
      rw [List.length_nil, sendUnicodeString_stop 0 (held_cons.mp hheld).1]
      exact ⟨rfl, List.forall_mem_cons.mpr ⟨Nat.le_refl str, haccessed⟩⟩
  | cons p pieces ih =>
      obtain ⟨hp, hpieces⟩ := List.forall_mem_cons.mp hall
      cases p with
      | nil => exact hp.elim
      | cons b rest =>
          have hlength : (b :: rest).length = announced b := hp
          rw [List.flatten_cons] at hflatten
          subst hflatten
          rw [List.append_assoc, held_append] at hheld
          have hb := (held_cons.mp hheld.1).1
          have hne : s.buffer str ≠ 0 := hb ▸ hbytes b List.mem_cons_self
          rw [List.length_cons, sendUnicodeString_next _ hne, hb, List.length_append, hlength,
            ← Nat.add_assoc]
          rw [hlength] at hheld
          rw [List.length_append, hlength] at haccessed
          refine ih (fun c hc => hbytes c (List.mem_append_right _ hc)) hheld.2 rfl hpieces ?_
          intro i hi
          rw [List.mem_append, List.mem_reverse, List.mem_range'_1, List.mem_cons] at hi
          rcases hi with hi | rfl | hi
          · omega
          · omega
          · have := haccessed i hi
            omega

/-- The walk of a string stops at its terminator, and reads nothing beyond it, just when the string
is cut into what its first bytes announce. -/
theorem sendUnicodeString_safe_iff (bytes : List Byte) (hbytes : ∀ b ∈ bytes, b ≠ 0)
    (buffer : Nat → Byte) (hheld : Held buffer 0 (bytes ++ [0])) (k : Keyboard) :
    (∃ fuel, let after := sendUnicodeString fuel 0 ⟨buffer, [], k⟩
      after.1 = some bytes.length ∧ ∀ i ∈ after.2.accessed, i ≤ bytes.length) ↔
    ∃ pieces : List (List Byte), bytes = pieces.flatten ∧ ∀ p ∈ pieces, Piece p := by
  constructor
  · rintro ⟨fuel, hstop, -⟩
    exact pieces_of_stop (s := ⟨buffer, [], k⟩) hbytes (held_append.mp hheld).1
      (by rwa [Nat.zero_add])
  · rintro ⟨pieces, hflatten, hall⟩
    have hafter := stop_of_pieces (s := ⟨buffer, [], k⟩) hbytes hheld hflatten hall
      (List.forall_mem_nil _)
    rw [Nat.zero_add] at hafter
    exact ⟨pieces.length + 1, hafter⟩

def eAcute (i : Nat) : Byte := ([0xC3, 0xA9, 0] : List Byte).getD i 0

theorem sendUnicodeString_safe_eAcute :
    (∃ fuel, let after := sendUnicodeString fuel 0 ⟨eAcute, [], .idle .linux⟩
      after.1 = some 2 ∧ ∀ i ∈ after.2.accessed, i ≤ 2) ↔
    ∃ pieces : List (List Byte), [0xC3, 0xA9] = pieces.flatten ∧ ∀ p ∈ pieces, Piece p :=
  sendUnicodeString_safe_iff [0xC3, 0xA9] (by decide) eAcute (held_getD [0xC3, 0xA9, 0])
    (.idle .linux)

/-- A string that ends in the first of two bytes: its terminator is taken for the second. -/
def cutShort (i : Nat) : Byte := ([0xC3, 0, 0x41] : List Byte).getD i 0

theorem cutShort_overruns :
    Held cutShort 0 [0xC3, 0] ∧
      ¬∃ fuel, let after := sendUnicodeString fuel 0 ⟨cutShort, [], .idle .linux⟩
        after.1 = some 1 ∧ ∀ i ∈ after.2.accessed, i ≤ 1 := by
  constructor
  · exact held_cons.mpr ⟨rfl, held_cons.mpr ⟨rfl, fun _ _ h => by cases h⟩⟩
  · rintro ⟨fuel, hstop, -⟩
    cases fuel with
    | zero => cases hstop
    | succ fuel =>
        rw [sendUnicodeString_next fuel (by decide)] at hstop
        exact absurd (sendUnicodeString_le hstop) (by decide)

end Qmk.Unicode
