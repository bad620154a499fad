import Mathlib.Data.List.Basic

/-!
# Steno keys

`process_steno.c`, as it is built with `VIRTSER_ENABLE`: steno keys form a chord, which goes to the
host over the virtual serial port when no key of it is down any more.
-/

namespace Qmk.Steno

abbrev Byte := BitVec 8

/-- `STENO_PROTOCOL`. -/
inductive Protocol
  | geminipr
  | txbolt
  | all

structure Config where
  protocol : Protocol
  /-- `STENO_COMBINEDMAP`. -/
  combinedmap : Bool

namespace Config

def enableGemini (cfg : Config) : Bool :=
  match cfg.protocol with
  | .txbolt => false
  | _ => true

def enableBolt (cfg : Config) : Bool :=
  match cfg.protocol with
  | .geminipr => false
  | _ => true

def enableAll (cfg : Config) : Bool :=
  match cfg.protocol with
  | .all => true
  | _ => false

def maxStrokeSize (cfg : Config) : Nat := if cfg.enableGemini then 6 else 4

end Config

/-! ## Keycodes -/

def qkSteno : Nat := 0x74C0
def qkStenoMax : Nat := 0x74FF
def qkStenoBolt : Nat := 0x74F0
def qkStenoGemini : Nat := 0x74F1
def qkStenoComb : Nat := 0x74F2
def qkStenoCombMax : Nat := 0x74FC

/-- `STN__MIN` and `STN__MAX`, which is `STN_ZR`. -/
def stnMin : Nat := qkSteno
def stnMax : Nat := qkSteno + 41

/-- From `STN_S1`, `STN_TL`, `STN_PL`, `STN_HL`, `STN_FR` to `STN_E`. -/
def combinedmapFirst : List Nat :=
  [7, 9, 11, 13, 26, 28, 30, 32, 34, 15, 24].map (qkSteno + ·)

/-- From `STN_S2`, `STN_KL`, `STN_WL`, `STN_RL`, `STN_RR` to `STN_U`. -/
def combinedmapSecond : List Nat :=
  [8, 10, 12, 14, 27, 29, 31, 33, 41, 16, 25].map (qkSteno + ·)

/-- The 42 entries that `boltmap` is given; the other 22 are 0. -/
def boltmap : List Byte :=
  [0, 0xD0, 0xD0, 0xD0, 0xD0, 0xD0, 0xD0,
    0x01, 0x01, 0x02, 0x04, 0x08, 0x10, 0x20,
    0x41, 0x42, 0x44, 0x48, 0x48, 0, 0,
    0, 0x48, 0x48, 0x50, 0x60, 0x81, 0x82,
    0x84, 0x88, 0x90, 0xA0, 0xC1, 0xC2, 0xC4,
    0xD0, 0xD0, 0xD0, 0xD0, 0xD0, 0xD0, 0xC8]

/-! ## The chord -/

/-- `steno_mode_t`, as `mode` and the EEPROM hold it. -/
abbrev Mode := BitVec 8

def stenoModeGemini : Mode := 0
def stenoModeBolt : Mode := 1

/-- The static variables, the byte of the EEPROM, and what was sent. -/
structure State where
  chord : List Byte
  /-- `int8_t`. -/
  nPressedKeys : BitVec 8
  mode : Mode
  stenomode : Mode
  sent : List Byte

def emptyChord (cfg : Config) : List Byte := List.replicate cfg.maxStrokeSize 0

def stenoClearChord (cfg : Config) (s : State) : State := { s with chord := emptyChord cfg }

/-- `STENO_ENABLE_ALL` reads the mode in `steno_init`; otherwise it is a constant. -/
def stenoInit (cfg : Config) (stenomode : Mode) : State where
  chord := emptyChord cfg
  nPressedKeys := 0
  mode :=
    match cfg.protocol with
    | .geminipr => stenoModeGemini
    | .txbolt => stenoModeBolt
    | .all => stenomode
  stenomode := stenomode
  sent := []

def stenoSetMode (cfg : Config) (newMode : Mode) (s : State) : State :=
  { stenoClearChord cfg s with mode := newMode, stenomode := newMode }

/-- `chord[group] |= bits`; a group beyond the chord is dropped. -/
def addToChord (group : Nat) (bits : Byte) (s : State) : State :=
  { s with chord := s.chord.modify group (· ||| bits) }

def geminiBit (key : Nat) : Byte := 1#8 <<< (6 - (key - key / 7 * 7))

def addGeminiKeyToChord (key : Nat) (s : State) : State :=
  addToChord (key / 7) (geminiBit key) s

/-- `TXB_GET_GROUP`. -/
def txbGetGroup (code : Byte) : Nat := ((code &&& 0xC0#8) >>> 6).toNat

def boltcode (key : Nat) : Byte := boltmap.getD key 0

def addBoltKeyToChord (key : Nat) (s : State) : State :=
  addToChord (txbGetGroup (boltcode key)) (boltcode key) s

def virtserSend (bytes : List Byte) (s : State) : State := { s with sent := s.sent ++ bytes }

def geminiStrokeSize : Nat := 6
def boltStrokeSize : Nat := 4

def sendStenoChordGemini (s : State) : State :=
  let s := addToChord 0 0x80 s
  virtserSend ((List.range geminiStrokeSize).map fun i => s.chord.getD i 0) s

def sendStenoChordBolt (s : State) : State :=
  let bytes := (List.range boltStrokeSize).map fun i => s.chord.getD i 0
  virtserSend (bytes.filter (· ≠ 0) ++ [0]) s

/-! ## Key events -/

/-- What the code reads of a `keyrecord_t`. -/
structure Record where
  /-- `IS_NOEVENT`. -/
  noevent : Bool
  pressed : Bool

/-- The weak functions, each with the chord it is handed and may change. -/
structure Hooks where
  processStenoUser : Nat → Record → Bool
  postProcessStenoUser : Nat → Record → Mode → List Byte → BitVec 8 → Bool × List Byte
  sendStenoChordUser : Mode → List Byte → Bool × List Byte

def Hooks.weak : Hooks where
  processStenoUser _ _ := true
  postProcessStenoUser _ _ _ chord _ := (true, chord)
  sendStenoChordUser _ chord := (true, chord)

variable (cfg : Config) (hooks : Hooks)

def pressStenoKey (keycode : Nat) (record : Record) (s : State) : State :=
  let s := { s with nPressedKeys := s.nPressedKeys + 1 }
  let post (s : State) : State :=
    { s with
      chord := (hooks.postProcessStenoUser keycode record s.mode s.chord s.nPressedKeys).2 }
  if cfg.enableBolt && s.mode == stenoModeBolt then
    post (addBoltKeyToChord (keycode - qkSteno) s)
  else if cfg.enableGemini && s.mode == stenoModeGemini then
    post (addGeminiKeyToChord (keycode - qkSteno) s)
  else
    s

def sendStenoChord (s : State) : State :=
  if cfg.enableBolt && s.mode == stenoModeBolt then sendStenoChordBolt s
  else if cfg.enableGemini && s.mode == stenoModeGemini then sendStenoChordGemini s
  else s

def releaseStenoKey (keycode : Nat) (record : Record) (s : State) : State :=
  let s := { s with nPressedKeys := s.nPressedKeys - 1 }
  let (goesOn, chord) :=
    hooks.postProcessStenoUser keycode record s.mode s.chord s.nPressedKeys
  let s := { s with chord := chord }
  if goesOn = false then s
  else if 0 < s.nPressedKeys.toInt then s
  else
    let s := { s with nPressedKeys := 0 }
    let (sends, chord) := hooks.sendStenoChordUser s.mode s.chord
    let s := { s with chord := chord }
    if sends = false then stenoClearChord cfg s
    else stenoClearChord cfg (sendStenoChord cfg s)

/-- `process_steno`, which calls `again` for the two keys of a combined key. -/
def processStenoBody (again : Nat → Record → State → Bool × State) (keycode : Nat)
    (record : Record) (s : State) : Bool × State :=
  if keycode < qkSteno ∨ qkStenoMax < keycode then (true, s)
  else if record.noevent then (true, s)
  else if hooks.processStenoUser keycode record = false then (false, s)
  else if cfg.enableAll ∧ keycode = qkStenoBolt then
    (false, if record.pressed then stenoSetMode cfg stenoModeBolt s else s)
  else if cfg.enableAll ∧ keycode = qkStenoGemini then
    (false, if record.pressed then stenoSetMode cfg stenoModeGemini s else s)
  else if cfg.combinedmap ∧ qkStenoComb ≤ keycode ∧ keycode ≤ qkStenoCombMax then
    let first := again (combinedmapFirst.getD (keycode - qkStenoComb) 0) record s
    let second := again (combinedmapSecond.getD (keycode - qkStenoComb) 0) record first.2
    (first.1 && second.1, second.2)
  else if stnMin ≤ keycode ∧ keycode ≤ stnMax then
    (false, if record.pressed then pressStenoKey cfg hooks keycode record s
      else releaseStenoKey cfg hooks keycode record s)
  else
    (false, s)

/-- The keys of a combined key are none themselves, so the calls are two deep. -/
def processSteno : Nat → Record → State → Bool × State :=
  processStenoBody cfg hooks (processStenoBody cfg hooks fun _ _ s => (false, s))

end Qmk.Steno
