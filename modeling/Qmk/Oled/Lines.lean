import Qmk.Oled.Dirty

/-!
# Characters in lines

In a geometry whose lines make up the buffer and hold a character, the cursor stays where a
character fits as long as it is only moved there.
-/

namespace Qmk.Oled

open Qmk.Lib

variable {c : Config}

/-- The lines make up the buffer, and a character fits into a line and into two blocks. -/
structure Regular (c : Config) : Prop where
  lines : c.rotationWidth ∣ c.matrixSize
  fontWidth_le_line : c.fontWidth ≤ c.rotationWidth
  fontWidth_le_block : c.fontWidth ≤ c.blockSize + 1
  mapsCover : c.rotation.has90 = true → MapsCover c

/-- A character fits into the line from this index on. -/
def InLine (c : Config) (index : Nat) : Prop :=
  index < c.matrixSize ∧ index % c.rotationWidth + c.fontWidth ≤ c.rotationWidth

/-- The cursor is set to a place for a character, and bytes are written into the buffer only. -/
def PlainCall (c : Config) : Call → Prop
  | .setCursor col line =>
      (line.toNat * c.rotationWidth + col.toNat * c.fontWidth) % 65536 % c.rotationWidth +
        c.fontWidth ≤ c.rotationWidth
  | .writeRawByte _ index => index.toNat < c.matrixSize
  | _ => True

theorem rotationWidth_pos (c : Config) : 0 < c.rotationWidth := by
  have hwidth := c.displayWidth_pos
  have hheight := c.displayHeight_ge
  unfold Config.rotationWidth
  split_ifs <;> omega

theorem matrixSize_lt (c : Config) : c.matrixSize < 65536 := by
  have hwidth := c.displayWidth_lt
  have hheight : c.displayHeight / 8 < 256 := by
    have := c.displayHeight_lt
    omega
  have hmul := Nat.mul_lt_mul'' hheight hwidth
  exact Nat.lt_of_lt_of_le hmul (by decide)

theorem nextLine_mod (c : Config) (index : Nat) :
    (index + (c.rotationWidth - index % c.rotationWidth)) % c.rotationWidth = 0 := by
  have hmod := Nat.mod_lt index (rotationWidth_pos c)
  have hdiv := Nat.div_add_mod index c.rotationWidth
  have hnext : index + (c.rotationWidth - index % c.rotationWidth) =
      c.rotationWidth * (index / c.rotationWidth + 1) := by
    rw [Nat.mul_succ]
    omega
  rw [hnext, Nat.mul_mod_right]

/-- Steps that leave the cursor at a place for a character fit, one after the other. -/
theorem meets_of_inLine {step : State c → BitVec 8 → State c} {Cond : State c → BitVec 8 → Prop}
    (hcond : ∀ s data, InLine c s.cursor → Cond s data)
    (hstep : ∀ s data, InLine c s.cursor → InLine c (step s data).cursor)
    (data : List (BitVec 8)) {s : State c} (h : InLine c s.cursor) :
    Meets step Cond s data ∧ InLine c (run step s data).cursor := by
  have hall : Meets step (fun _ _ => True) s data :=
    Meets.of_forall (fun _ => True) (fun _ _ _ => trivial) (fun _ _ => trivial) s
  exact ⟨hall.imp_of_invariant (fun s => InLine c s.cursor) (fun s data hs _ => hstep s data hs)
    (fun s data hs _ => hcond s data hs) h,
    hall.preserves (fun s => InLine c s.cursor) (fun s data hs _ => hstep s data hs) h⟩

/-! ## What leaves the cursor alone -/

theorem run_cursor {ι : Type _} {step : State c → ι → State c}
    (hstep : ∀ s input, (step s input).cursor = s.cursor) (s : State c) (inputs : List ι) :
    (run step s inputs).cursor = s.cursor := by
  induction inputs generalizing s with
  | nil => rfl
  | cons input inputs ih => exact (ih (step s input)).trans (hstep s input)

theorem writeChanged_cursor (index : Nat) (data : BitVec 8) (s : State c) :
    (writeChanged index data s).cursor = s.cursor := by
  unfold writeChanged
  split_ifs <;> rfl

theorem touchBlock_cursor (block : Nat) (s : State c) :
    (touchBlock block s).cursor = s.cursor := by
  unfold touchBlock
  split_ifs
  · rfl
  · generalize c.maps = maps
    induction maps generalizing s with
    | nil => rfl
    | cons tile maps ih => exact ih (touch (c.blockSize * block + tile.source.toNat) 8 s)

theorem renderBlocks_cursor (all : Bool) (blocks : List Nat) (numProcessed : UInt8)
    (s : State c) : (renderBlocks all blocks numProcessed s).cursor = s.cursor := by
  induction blocks generalizing numProcessed s with
  | nil => rfl
  | cons block blocks ih =>
      rw [renderBlocks]
      split_ifs
      · exact ih numProcessed s
      · exact (ih (numProcessed + 1) (renderBlock block s)).trans (touchBlock_cursor block s)
      · rfl

theorem oledRenderDirty_cursor (all : Bool) (s : State c) :
    (oledRenderDirty all s).cursor = s.cursor := by
  unfold oledRenderDirty
  dsimp only
  split_ifs
  · rfl
  · exact renderBlocks_cursor all _ 0 _

/-! ## Regular geometries -/

section Regular

variable {s : State c} (hc : Regular c)

include hc

theorem Regular.inLine_zero : InLine c 0 :=
  ⟨matrixSize_pos c, by
    rw [Nat.zero_mod, Nat.zero_add]
    exact hc.fontWidth_le_line⟩

theorem Regular.inLine_wrapped {index : Nat}
    (h : index % c.rotationWidth + c.fontWidth ≤ c.rotationWidth) :
    InLine c (if c.matrixSize ≤ index then 0 else index) := by
  split_ifs with hend
  · exact hc.inLine_zero
  · exact ⟨Nat.lt_of_not_le hend, h⟩

theorem Regular.lineEnd_le {index : Nat} (h : index < c.matrixSize) :
    index + (c.rotationWidth - index % c.rotationWidth) ≤ c.matrixSize := by
  obtain ⟨lines, hlines⟩ := hc.lines
  have hline : index / c.rotationWidth < lines :=
    Nat.div_lt_of_lt_mul (hlines ▸ h)
  have hmod := Nat.mod_lt index (rotationWidth_pos c)
  have hdiv := Nat.div_add_mod index c.rotationWidth
  have hend := Nat.mul_le_mul_left c.rotationWidth hline
  rw [Nat.mul_succ, ← hlines] at hend
  omega

theorem Regular.glyphFits (h : InLine c s.cursor) (data : BitVec 8) : GlyphFits s data := by
  have hend := hc.lineEnd_le h.1
  have hline := h.2
  have hblock := hc.fontWidth_le_block
  refine ⟨by omega, ?_⟩
  rw [← Nat.add_div_right _ (blockSize_pos c)]
  exact Nat.div_le_div_right (by omega)

theorem Regular.advanceChar (h : InLine c s.cursor) : InLine c (oledAdvanceChar s).cursor := by
  have hend := hc.lineEnd_le h.1
  have hline := h.2
  have hsize := matrixSize_lt c
  have hfont := hc.fontWidth_le_line
  have hmod := Nat.mod_lt (s.cursor + c.fontWidth) (rotationWidth_pos c)
  refine hc.inLine_wrapped ?_
  rw [Nat.mod_eq_of_lt (show s.cursor + c.fontWidth < 65536 by omega)]
  split_ifs with hspace
  · have hnext : s.cursor + c.fontWidth < c.matrixSize := by
      refine Nat.lt_of_le_of_ne (by omega) fun hlast => ?_
      rw [hlast, Nat.mod_eq_zero_of_dvd hc.lines] at hspace
      omega
    have hnextEnd := hc.lineEnd_le hnext
    rw [Nat.mod_eq_of_lt (Nat.lt_of_le_of_lt hnextEnd hsize), nextLine_mod, Nat.zero_add]
    exact hfont
  · omega

theorem Regular.writeGlyph (h : InLine c s.cursor) (invert : Bool) (data : BitVec 8) :
    InLine c (writeGlyph invert s data).cursor := by
  unfold Oled.writeGlyph
  dsimp only
  split_ifs
  · exact hc.advanceChar h
  · exact hc.advanceChar h

theorem Regular.pageFits (h : InLine c s.cursor) :
    PageFits s ∧ InLine c (oledAdvancePage true s).cursor :=
  meets_of_inLine (fun _ data hs => hc.glyphFits hs data)
    (fun _ data hs => hc.writeGlyph hs false data) (pageRemainder s) h

theorem Regular.nextPage (s : State c) : InLine c (oledAdvancePage false s).cursor := by
  refine hc.inLine_wrapped ?_
  rw [remainingSpace, nextLine_mod, Nat.zero_add]
  exact hc.fontWidth_le_line

theorem Regular.charFits (h : InLine c s.cursor) (data : BitVec 8) : CharFits s data := by
  unfold CharFits
  split_ifs
  · exact (hc.pageFits h).1
  · exact hc.glyphFits h data

theorem Regular.writeChar (h : InLine c s.cursor) (invert : Bool) (data : BitVec 8) :
    InLine c (oledWriteChar invert s data).cursor := by
  unfold oledWriteChar
  split_ifs
  · exact (hc.pageFits h).2
  · exact hc.nextPage s
  · exact hc.writeGlyph h invert data

theorem Regular.textFits (h : InLine c s.cursor) (data : List (BitVec 8)) (invert : Bool) :
    TextFits invert s data ∧ InLine c (oledWrite data invert s).cursor :=
  meets_of_inLine (fun _ data hs => hc.charFits hs data)
    (fun _ data hs => hc.writeChar hs invert data) (data.takeWhile (· ≠ 0)) h

theorem Regular.callFits (h : InLine c s.cursor) {call : Call} (hplain : PlainCall c call) :
    CallFits s call := by
  cases call with
  | setCursor col line => trivial
  | writeChar data invert => exact hc.charFits h data
  | write data invert => exact (hc.textFits h data invert).1
  | writeLn data invert =>
      obtain ⟨hfits, hline⟩ := hc.textFits h data invert
      exact ⟨hfits, (hc.pageFits hline).1⟩
  | advancePage clearPageRemainder => exact fun _ => (hc.pageFits h).1
  | writeRaw data size => trivial
  | writeRawByte data index => exact hplain
  | writePixel x y on => trivial
  | pan left => trivial
  | clear => trivial
  | renderDirty all => exact hc.mapsCover

theorem Regular.perform (h : InLine c s.cursor) {call : Call} (hplain : PlainCall c call) :
    InLine c (perform s call).cursor := by
  have hkept : ∀ t : State c, t.cursor = s.cursor → InLine c t.cursor :=
    fun t ht => ht.symm ▸ h
  cases call with
  | setCursor col line => exact hc.inLine_wrapped hplain
  | writeChar data invert => exact hc.writeChar h invert data
  | write data invert => exact (hc.textFits h data invert).2
  | writeLn data invert => exact (hc.pageFits (hc.textFits h data invert).2).2
  | advancePage clearPageRemainder =>
      cases clearPageRemainder with
      | true => exact (hc.pageFits h).2
      | false => exact hc.nextPage s
  | writeRaw data size =>
      exact hkept _ (run_cursor (fun t i => writeChanged_cursor (s.cursor + i) (data i) t) s _)
  | writeRawByte data index => exact hkept _ (writeChanged_cursor _ data s)
  | writePixel x y on =>
      refine hkept _ ?_
      unfold Oled.perform oledWritePixel
      dsimp only
      split_ifs
      · rfl
      · rfl
      · exact writeChanged_cursor _ _ s
      · exact writeChanged_cursor _ _ s
  | pan left => exact hkept _ (@run_cursor c (Nat × Nat) (fun s move => copyByte move.1 move.2 s)
        (fun _ _ => rfl) s (panMoves c left))
  | clear => exact hc.inLine_zero
  | renderDirty all => exact hkept _ (oledRenderDirty_cursor all s)

/-- In a regular geometry, text and pixels of any kind keep the buffer and the map consistent. -/
theorem Regular.meets {calls : List Call} (hcalls : ∀ call ∈ calls, PlainCall c call)
    (memory : Nat → BitVec 8) : Meets Oled.perform CallFits (State.init c memory) calls := by
  have hplain : Meets Oled.perform (fun _ call => PlainCall c call) (State.init c memory) calls :=
    Meets.of_forall (PlainCall c) (fun _ _ h => h) hcalls _
  exact hplain.imp_of_invariant (fun s => InLine c s.cursor)
    (fun _ _ hs hcall => hc.perform hs hcall) (fun _ _ hs hcall => hc.callFits hs hcall)
    hc.inLine_zero

theorem Regular.sound {calls : List Call} (hcalls : ∀ call ∈ calls, PlainCall c call)
    (memory : Nat → BitVec 8) : Sound (run Oled.perform (State.init c memory) calls) :=
  Meets.preserves Sound (fun _ _ hs hfits => perform_sound hs hfits) (hc.meets hcalls memory)
    (init_sound c memory)

end Regular

theorem display128x32_regular (rotation : Rotation) : Regular (display128x32 rotation) where
  lines := by cases rotation <;> decide
  fontWidth_le_line := by cases rotation <;> decide
  fontWidth_le_block := by cases rotation <;> decide
  mapsCover _ := display128x32_mapsCover rotation

end Qmk.Oled
