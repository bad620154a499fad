import Qmk.Painter.Graphics

/-!
# Drawing a frame

The frame is read from the stream block by block, then its pixels are decoded and
handed to the driver of the display.  A call that stops early keeps what it did.
-/

namespace Qmk.Painter

open Qmk.Lib

/-- `hsv_t`. -/
structure Hsv where
  h : BitVec 8
  s : BitVec 8
  v : BitVec 8
  deriving DecidableEq

/-- `qgf_palette_entry_v1_t`, of 3 bytes. -/
def Hsv.ofBytes (bytes : List (BitVec 8)) : Hsv where
  h := .ofNat 8 (leField 0 1 bytes)
  s := .ofNat 8 (leField 1 1 bytes)
  v := .ofNat 8 (leField 2 1 bytes)

/-- `qp_pixel_t`: a color, or what a driver made of it. -/
inductive Pixel (ν : Type)
  | hsv888 (color : Hsv)
  | native (value : ν)

/-- The globals behind the palette. -/
structure Palette (ν : Type) where
  generatedPalette : Bool
  generatedSteps : Int
  interpolatedFg : Hsv
  interpolatedBg : Hsv
  lookupTable : Nat → Pixel ν

def Palette.invalidate {ν : Type} (palette : Palette ν) : Palette ν :=
  { palette with generatedPalette := false, generatedSteps := -1 }

/-- The options of the build. -/
structure Build where
  supports256Palette : Bool
  supportsNativeColors : Bool
  pixdataBufferSize : Nat

def Build.bppCapable (build : Build) (bpp : Nat) : Bool :=
  if build.supportsNativeColors = true then
    true
  else if build.supports256Palette = false ∧ 4 < bpp then
    false
  else
    !decide (8 < bpp)

/-- `painter_driver_t` for a device with state `τ`. -/
structure Driver (τ ν : Type) where
  nativeBitsPerPixel : Nat
  commsStart : τ → Bool × τ
  commsStop : τ → τ
  paletteConvert : Nat → (Nat → Pixel ν) → τ → Bool × (Nat → Pixel ν) × τ
  viewport : BitVec 16 → BitVec 16 → BitVec 16 → BitVec 16 → τ → Bool × τ
  appendPixels : (Nat → Pixel ν) → Nat → BitVec 8 → τ → Bool × τ
  appendPixdata : Nat → BitVec 8 → τ → Bool × τ
  pixdata : Nat → τ → Bool × τ

/-- What a drawing does that the device does not see. -/
inductive Event
  | frameDescriptor (position : Nat)
  | palette (bpp : Nat) (entries : List Hsv)
  | division (divisor : Int)
  | decoder (bpp : Nat)

structure DrawState (τ ν : Type) where
  stream : MemoryStream
  palette : Palette ν
  device : τ
  events : List Event

/-- A call returns false, divides by zero, or never returns. -/
inductive Stop
  | failed
  | divided
  | endless

abbrev Draw (τ ν : Type) := EStateM Stop (DrawState τ ν)

section Steps

variable {τ ν : Type}

def log (event : Event) : Draw τ ν Unit :=
  modify fun s => { s with events := s.events ++ [event] }

def divide (divisor : Int) : Draw τ ν Unit := do
  log (.division divisor)
  if divisor = 0 then throw .divided

def streamRead (size : Nat) : Draw τ ν (List (BitVec 8)) := fun s =>
  let read := s.stream.read size
  match read.1 with
  | none => .error .failed { s with stream := read.2 }
  | some bytes => .ok bytes { s with stream := read.2 }

def callDevice (call : τ → Bool × τ) : Draw τ ν Bool := fun s =>
  let called := call s.device
  .ok called.1 { s with device := called.2 }

end Steps

variable {τ ν : Type} (build : Build) (driver : Driver τ ν)

/-- The calls that stop the drawing on a failure tell the device first. -/
def stopComms : Draw τ ν Unit := do
  modify fun s => { s with device := driver.commsStop s.device }
  throw .failed

/-! ## The palette -/

def interpolateEntry (fg bg : Hsv) (steps i : Int) : Hsv :=
  let hueFg : Int := fg.h.toNat
  let hueBg : Int :=
    if 128 ≤ hueFg - bg.h.toNat then bg.h.toNat + 256
    else if hueFg - bg.h.toNat ≤ -128 then bg.h.toNat - 256
    else bg.h.toNat
  { h := .ofInt 8 (((hueFg - hueBg) * i).tdiv (steps - 1) + hueBg)
    s := .ofInt 8 (((fg.s.toNat - bg.s.toNat : Int) * i).tdiv (steps - 1) + bg.s.toNat)
    v := .ofInt 8 (((fg.v.toNat - bg.v.toNat : Int) * i).tdiv (steps - 1) + bg.v.toNat) }

/-- Whether a palette was generated. -/
def qpInternalInterpolatePalette (fg bg : Hsv) (steps : Int) : Draw τ ν Bool := do
  let palette := (← get).palette
  if palette.generatedPalette = true ∧ palette.generatedSteps = steps ∧
      palette.interpolatedFg = fg ∧ palette.interpolatedBg = bg then
    return false
  -- every entry is divided by the same number
  if 0 < steps then divide (steps - 1)
  let palette : Palette ν :=
    { generatedPalette := true
      generatedSteps := steps
      interpolatedFg := fg
      interpolatedBg := bg
      lookupTable := fun i =>
        if (i : Int) < steps then .hsv888 (interpolateEntry fg bg steps i)
        else palette.lookupTable i }
  modify fun s => { s with palette }
  return true

/-- The entries of the block, up to the first that the stream does not hold. -/
def readEntries : Nat → MemoryStream → List Hsv × Bool × MemoryStream
  | 0, stream => ([], true, stream)
  | count + 1, stream =>
      let read := stream.read 3
      match read.1 with
      | none => ([], false, read.2)
      | some bytes =>
          let rest := readEntries count read.2
          (.ofBytes bytes :: rest.1, rest.2)

def qpInternalLoadQgfPalette (bpp : Nat) : Draw τ ν Unit := do
  let _ ← streamRead 5
  modify fun s => { s with palette := s.palette.invalidate }
  let s ← get
  let entries := readEntries (2 ^ bpp % 2 ^ 16) s.stream
  let lookupTable := fun i =>
    match entries.1[i]? with
    | none => s.palette.lookupTable i
    | some color => .hsv888 color
  set { s with stream := entries.2.2, palette := { s.palette with lookupTable } }
  log (.palette bpp entries.1)
  if entries.2.1 = false then throw .failed

def convertPalette (paletteEntries : Nat) : Draw τ ν Unit := do
  let s ← get
  let converted := driver.paletteConvert paletteEntries s.palette.lookupTable s.device
  set { s with
    palette := { s.palette with lookupTable := converted.2.1 }, device := converted.2.2 }
  if converted.1 = false then stopComms driver

/-! ## The appender -/

def numPixelsInBuffer : Nat := build.pixdataBufferSize * 8 / driver.nativeBitsPerPixel

def qpInternalPixelAppender (lookupTable : Nat → Pixel ν) (index : BitVec 8)
    (t : τ × Nat) : Bool × τ × Nat :=
  let appended := driver.appendPixels lookupTable t.2 index t.1
  if appended.1 = false then
    (false, appended.2, t.2 + 1)
  else if t.2 + 1 = numPixelsInBuffer build driver then
    let sent := driver.pixdata (t.2 + 1) appended.2
    if sent.1 = false then (false, sent.2, t.2 + 1) else (true, sent.2, 0)
  else
    (true, appended.2, t.2 + 1)

def qpInternalByteAppender (byteval : BitVec 8) (t : τ × Nat) : Bool × τ × Nat :=
  let appended := driver.appendPixdata t.2 byteval t.1
  if appended.1 = false then
    (false, appended.2, t.2 + 1)
  else if t.2 + 1 = numPixelsInBuffer build driver * driver.nativeBitsPerPixel / 8 then
    let sent := driver.pixdata ((t.2 + 1) * 8 / driver.nativeBitsPerPixel) appended.2
    if sent.1 = false then (false, sent.2, t.2 + 1) else (true, sent.2, 0)
  else
    (true, appended.2, t.2 + 1)

/-- `qp_internal_send_bytes`. -/
def sendBytes {σ : Type} (input : σ → BitVec 16 × σ) (output : BitVec 8 → τ × Nat → Bool × τ × Nat) :
    Nat → σ → τ × Nat → Bool × σ × τ × Nat
  | 0, s, t => (true, s, t)
  | remaining + 1, s, t =>
      let read := input s
      if read.1.msb then
        (false, read.2, t)
      else
        let sent := output (read.1.setWidth 8) t
        if sent.1 = false then (false, read.2, sent.2)
        else sendBytes input output remaining read.2 sent.2

def qpInternalPrepareInputState (compression : BitVec 8) : Option Compression :=
  if compression = 0 then some .uncompressed else if compression = 1 then some .rle else none

/-- The state after a decoder; what is left in the buffer is sent as so many pixels. -/
def finishDecoder (ok : Bool) (input : ByteInputState) (device : τ) (writePos pixels : Nat) :
    Draw τ ν Unit := do
  modify fun s => { s with stream := input.srcStream, device }
  if ok = false then throw .failed
  if 0 < writePos then
    if (← callDevice (driver.pixdata pixels)) = false then throw .failed

def qpInternalAppender (bpp pixelCount : Nat) (input : ByteInputCallback) : Draw τ ν Unit := do
  if bpp ≤ 8 then
    log (.decoder bpp)
    divide bpp
    let s ← get
    match decodePalette pixelCount bpp input
        (qpInternalPixelAppender build driver s.palette.lookupTable)
        { srcStream := s.stream } (s.device, 0) with
    | none => throw .endless
    | some (ok, input, device, writePos) =>
        finishDecoder driver ok input device writePos writePos
  else if bpp ≠ driver.nativeBitsPerPixel then
    throw .failed
  else
    log (.decoder bpp)
    let s ← get
    let sent := sendBytes input (qpInternalByteAppender build driver)
      (pixelCount * bpp % 2 ^ 32 / 8) { srcStream := s.stream } (s.device, 0)
    finishDecoder driver sent.1 sent.2.1 sent.2.2.1 sent.2.2.2
      (sent.2.2.2 * 8 / driver.nativeBitsPerPixel)

/-! ## The frame -/

def readFrameDescriptor (info : FrameInfo) : Draw τ ν FrameInfo := do
  let position := (← get).stream.position
  let bytes ← streamRead 11
  log (.frameDescriptor position)
  return qgfParseFrameDescriptor (.ofBytes bytes) info

def readPalette (fg bg : Hsv) (info : FrameInfo) : Draw τ ν Unit := do
  modify fun s => { s with palette := s.palette.invalidate }
  if build.bppCapable info.bpp = false then stopComms driver
  let paletteEntries := 2 ^ info.bpp % 2 ^ 16
  if info.hasPalette = true then
    qpInternalLoadQgfPalette info.bpp
    convertPalette driver paletteEntries
  else if info.bpp ≤ 8 then
    if (← qpInternalInterpolatePalette fg bg paletteEntries) = true then
      convertPalette driver paletteEntries

def readDelta (info : FrameInfo) : Draw τ ν FrameInfo := do
  if info.isDelta = true then
    let bytes ← streamRead 13
    let desc := DeltaDescriptor.ofBytes bytes
    return { info with
      left := desc.left, top := desc.top, right := desc.right, bottom := desc.bottom }
  else
    return info

def qpDrawimagePrepareFrameForStreamRead (frameNumber : Nat) (fg bg : Hsv)
    (info : FrameInfo) : Draw τ ν FrameInfo := do
  modify fun s => { s with stream := qgfSeekToFrameDescriptor s.stream frameNumber }
  let info ← readFrameDescriptor info
  readPalette build driver fg bg info
  let info ← readDelta info
  let _ ← streamRead 5
  return info

/-- The corners of the frame on the display, both inclusive. -/
structure Viewport where
  l : BitVec 16
  t : BitVec 16
  r : BitVec 16
  b : BitVec 16

def FrameInfo.viewport (info : FrameInfo) (x y width height : BitVec 16) : Viewport :=
  if info.isDelta = true then
    ⟨x + info.left, y + info.top, x + info.right, y + info.bottom⟩
  else
    ⟨x, y, x + width - 1, y + height - 1⟩

def Viewport.pixelCount (v : Viewport) : Nat :=
  ((v.r.setWidth 32 - v.l.setWidth 32 + 1 : BitVec 32) *
    (v.b.setWidth 32 - v.t.setWidth 32 + 1)).toNat

/-- The device is told whether the decoder failed or not. -/
def thenStopComms (decode : Draw τ ν Unit) : Draw τ ν Unit := fun s =>
  match decode s with
  | .ok _ s => .ok () { s with device := driver.commsStop s.device }
  | .error .failed s => .error .failed { s with device := driver.commsStop s.device }
  | .error stop s => .error stop s

/-- The rest of the drawing, with the stream at the data of the frame. -/
def drawFrame (x y width height : BitVec 16) (info : FrameInfo) : Draw τ ν Unit := do
  if (← callDevice driver.commsStart) = false then throw .failed
  let v := info.viewport x y width height
  if (← callDevice (driver.viewport v.l v.t v.r v.b)) = false then stopComms driver
  match qpInternalPrepareInputState info.compressionScheme with
  | none => stopComms driver
  | some compression =>
      thenStopComms driver
        (qpInternalAppender build driver info.bpp v.pixelCount compression.decoder)

/-- For a device and an image that were validated. -/
def qpDrawimageRecolorImpl (x y width height : BitVec 16) (frameNumber : Nat)
    (info : FrameInfo) (fg bg : Hsv) : Draw τ ν Unit := do
  let info ← qpDrawimagePrepareFrameForStreamRead build driver frameNumber fg bg info
  drawFrame build driver x y width height info

end Qmk.Painter
