import Mathlib.Algebra.Group.Nat.Defs
import Mathlib.Data.List.Basic

/-!
# The macro string interpreter

`send_string_with_delay_impl` pulls the bytes of a string through a getter: a byte
is a character, unless it is the prefix of a command.  What it does is a list of
events, the calls of the getter and the reads of the look-up tables among them.
-/

namespace Qmk.Macros

abbrev Byte := BitVec 8

def ssQmkPrefix : Byte := 1
def ssTapCode : Byte := 1
def ssDownCode : Byte := 2
def ssUpCode : Byte := 3
def ssDelayCode : Byte := 4

def kcSpace : Byte := 0x2C
def kcLeftShift : Byte := 0xE1
def kcRightAlt : Byte := 0xE6

inductive Table
  | asciiToKeycode
  | asciiToShift
  | asciiToAltgr
  | asciiToDead
  deriving DecidableEq

def Table.size : Table → Nat
  | .asciiToKeycode => 128
  | .asciiToShift => 16
  | .asciiToAltgr => 16
  | .asciiToDead => 16

inductive Event
  | getter (offset : Nat)
  | read (address : Nat)
  | lookup (table : Table) (index : Nat)
  | registerCode (keycode : Byte)
  | unregisterCode (keycode : Byte)
  | tapCode (keycode : Byte)
  | tapCodeDelay (keycode interval : Byte)
  | waitMs (ms : Nat)
  deriving DecidableEq

/-- The flash memory from each of the tables on. -/
abbrev Luts := Table → Nat → Byte

/-! ## Characters -/

/-- `PGM_LOADBIT`. -/
def loadBit (luts : Luts) (table : Table) (pos : Nat) : Bool :=
  (luts table (pos / 8) >>> (pos % 8)) &&& 1 = 1

def sendCharWithDelay (luts : Luts) (asciiCode interval : Byte) : List Event :=
  let pos := asciiCode.toNat
  let keycode := luts .asciiToKeycode pos
  let isShifted := loadBit luts .asciiToShift pos
  let isAltgred := loadBit luts .asciiToAltgr pos
  let isDead := loadBit luts .asciiToDead pos
  let wait := Event.waitMs interval.toNat
  [.lookup .asciiToKeycode pos, .lookup .asciiToShift (pos / 8),
    .lookup .asciiToAltgr (pos / 8), .lookup .asciiToDead (pos / 8)] ++
  (if isShifted then [.registerCode kcLeftShift, wait] else []) ++
  (if isAltgred then [.registerCode kcRightAlt, wait] else []) ++
  [.tapCodeDelay keycode interval, wait] ++
  (if isAltgred then [.unregisterCode kcRightAlt, wait] else []) ++
  (if isShifted then [.unregisterCode kcLeftShift, wait] else []) ++
  (if isDead then [.tapCode kcSpace, wait] else [])

/-! ## Strings -/

/-- What a call of the getter, or several of them, came to. -/
structure Got (σ : Type _) where
  byte : Byte
  next : σ
  events : List Event

abbrev Getter (σ : Type _) := σ → Got σ

def isdigit (c : Byte) : Bool :=
  48 ≤ c.toNat && c.toNat ≤ 57

section Interpreter

variable {σ : Type _} (getter : Getter σ)

/-- The digits of a delay, up to the byte that ends them. -/
def readDigits : Nat → Nat → σ → Option (Nat × Got σ)
  | 0, _, _ => none
  | fuel + 1, ms, s =>
      let got := getter s
      if isdigit got.byte then
        (readDigits fuel (ms * 10 + (got.byte.toNat - 48)) got.next).map fun done =>
          (done.1, { done.2 with events := got.events ++ done.2.events })
      else
        some (ms, got)

/-- A command that takes the keycode behind the action byte. -/
def keyCommand (call : Byte → Event) (action : Got σ) : Got σ :=
  let keycode := getter action.next
  { byte := action.byte
    next := keycode.next
    events := action.events ++ keycode.events ++ [call keycode.byte] }

/-- The command behind a prefix; its byte is the last one in `ascii_code`. -/
def command (fuel : Nat) (s : σ) : Option (Got σ) :=
  let action := getter s
  if action.byte = ssTapCode then
    some (keyCommand getter .tapCode action)
  else if action.byte = ssDownCode then
    some (keyCommand getter .registerCode action)
  else if action.byte = ssUpCode then
    some (keyCommand getter .unregisterCode action)
  else if action.byte = ssDelayCode then
    (readDigits getter fuel 0 action.next).map fun done =>
      { done.2 with events := action.events ++ done.2.events ++ [.waitMs done.1] }
  else
    some action

/-- With fuel for the bytes that it reads. -/
def sendStringWithDelayImpl (luts : Luts) (interval : Byte) : Nat → σ → Option (List Event)
  | 0, _ => none
  | fuel + 1, s =>
      let got := getter s
      if got.byte = 0 then
        some got.events
      else if got.byte = ssQmkPrefix then
        (command getter fuel got.next).bind fun done =>
          let events := got.events ++ done.events ++ [.waitMs interval.toNat]
          -- a delay that ends with the string ends the loop as well
          if done.byte = 0 then
            some events
          else
            (sendStringWithDelayImpl luts interval fuel done.next).map (events ++ ·)
      else
        (sendStringWithDelayImpl luts interval fuel got.next).map
          (got.events ++ sendCharWithDelay luts got.byte interval ++ ·)

end Interpreter

/-! ## Strings that keep to their end -/

/-- What the next byte is taken as. -/
inductive Mode
  | text
  | action
  | keycode
  | delay
  deriving DecidableEq

/-- No character is outside ASCII, and the string does not end before a keycode. -/
def Mode.interpretable : Mode → List Byte → Bool
  | mode, [] => mode ≠ .keycode
  | .text, c :: rest =>
      if c = ssQmkPrefix then interpretable .action rest
      else c.toNat < 128 && interpretable .text rest
  | .action, a :: rest =>
      if a = ssTapCode ∨ a = ssDownCode ∨ a = ssUpCode then interpretable .keycode rest
      else if a = ssDelayCode then interpretable .delay rest
      else interpretable .text rest
  | .keycode, _ :: rest => interpretable .text rest
  | .delay, d :: rest =>
      if isdigit d then interpretable .delay rest else interpretable .text rest

/-- A condition on events that asks lookups to stay inside their tables, and nothing
of the calls that send keys or wait. -/
structure ChecksTables (P : Event → Prop) : Prop where
  lookup : ∀ table index, P (.lookup table index) ↔ index < table.size
  registerCode : ∀ keycode, P (.registerCode keycode)
  unregisterCode : ∀ keycode, P (.unregisterCode keycode)
  tapCode : ∀ keycode, P (.tapCode keycode)
  tapCodeDelay : ∀ keycode interval, P (.tapCodeDelay keycode interval)
  waitMs : ∀ ms, P (.waitMs ms)

theorem forall_mem_optional {P : Event → Prop} (flag : Bool) {keys : List Event}
    (h : ∀ e ∈ keys, P e) : ∀ e ∈ if flag then keys else [], P e := by
  cases flag with
  | false => simp
  | true => exact h

theorem ChecksTables.sendCharWithDelay {P : Event → Prop} (hP : ChecksTables P)
    (luts : Luts) (asciiCode interval : Byte) :
    (∀ e ∈ sendCharWithDelay luts asciiCode interval, P e) ↔ asciiCode.toNat < 128 := by
  have hdiv : asciiCode.toNat / 8 < 16 ↔ asciiCode.toNat < 128 := by omega
  have hwait := hP.waitMs interval.toNat
  have hpress : ∀ keycode, ∀ e ∈ [Event.registerCode keycode, .waitMs interval.toNat], P e :=
    fun keycode => by simp [hP.registerCode keycode, hwait]
  have hrelease : ∀ keycode,
      ∀ e ∈ [Event.unregisterCode keycode, .waitMs interval.toNat], P e :=
    fun keycode => by simp [hP.unregisterCode keycode, hwait]
  have htap : ∀ e ∈ [Event.tapCode kcSpace, .waitMs interval.toNat], P e := by
    simp [hP.tapCode, hwait]
  rw [Qmk.Macros.sendCharWithDelay]
  simp only [List.forall_mem_append]
  constructor
  · intro h
    exact (hP.lookup .asciiToKeycode asciiCode.toNat).mp (h.1.1.1.1.1.1 _ (by simp))
  · intro h
    refine ⟨⟨⟨⟨⟨⟨?_, forall_mem_optional _ (hpress _)⟩, forall_mem_optional _ (hpress _)⟩,
      ?_⟩, forall_mem_optional _ (hrelease _)⟩, forall_mem_optional _ (hrelease _)⟩,
      forall_mem_optional _ htap⟩
    · simp [hP.lookup, Table.size, hdiv, h]
    · simp [hP.tapCodeDelay, hwait]

end Qmk.Macros
