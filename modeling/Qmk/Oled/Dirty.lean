import Qmk.Oled.Rotation

/-!
# The dirty map

A byte of the frame buffer that is not what the display has of it lies in a block that is marked.
Two calls can leave the buffer: `oled_write_raw_byte` at its end, and a character that has no room
before its end.  A character that lies in more than two blocks marks the first and the last only.
-/

namespace Qmk.Oled

open Qmk.Lib

variable {c : Config}

/-- The bytes of the blocks that are not dirty are what the display last received. -/
def Consistent (s : State c) : Prop :=
  ∀ index < c.matrixSize, s.dirty.getLsbD (index / c.blockSize) = false →
    ∃ transfers, s.sent (index / c.blockSize) = some transfers ∧
      Shows c transfers (index % c.blockSize) (s.buffer index)

/-! ## Calls that stay in the buffer -/

/-- A character at the cursor ends in the buffer, and lies in one block or two. -/
def GlyphFits (s : State c) (_ : BitVec 8) : Prop :=
  s.cursor + c.fontWidth ≤ c.matrixSize ∧
    (s.cursor + c.fontWidth - 1) / c.blockSize ≤ s.cursor / c.blockSize + 1

/-- The spaces up to the next line fit. -/
def PageFits (s : State c) : Prop := Meets (writeGlyph false) GlyphFits s (pageRemainder s)

def CharFits (s : State c) (data : BitVec 8) : Prop :=
  if data = 0x0A then PageFits s
  else if data = 0x0D then True
  else GlyphFits s data

def TextFits (invert : Bool) (s : State c) (data : List (BitVec 8)) : Prop :=
  Meets (oledWriteChar invert) CharFits s (data.takeWhile (· ≠ 0))

/-- The condition under which a call keeps the buffer and the map consistent. -/
def CallFits (s : State c) : Call → Prop
  | .writeChar data _ => CharFits s data
  | .write data invert => TextFits invert s data
  | .writeLn data invert => TextFits invert s data ∧ PageFits (oledWrite data invert s)
  | .advancePage clearPageRemainder => clearPageRemainder = true → PageFits s
  | .writeRawByte _ index => index.toNat < c.matrixSize
  | .renderDirty _ => c.rotation.has90 = true → MapsCover c
  | .setCursor _ _ | .writeRaw _ _ | .writePixel _ _ _ | .pan _ | .clear => True

/-! ## Geometry -/

theorem matrixSize_pos (c : Config) : 0 < c.matrixSize :=
  Nat.mul_pos (Nat.div_pos c.displayHeight_ge (by decide)) c.displayWidth_pos

theorem blocks_matrixSize (c : Config) : c.blockSize * c.blockCount = c.matrixSize := c.blocks

theorem blockCount_pos (c : Config) : 0 < c.blockCount := by
  refine Nat.pos_of_ne_zero fun hzero => ?_
  have hblocks := blocks_matrixSize c
  rw [hzero, Nat.mul_zero] at hblocks
  exact Nat.ne_of_lt (matrixSize_pos c) hblocks

theorem blockSize_pos (c : Config) : 0 < c.blockSize := by
  refine Nat.pos_of_ne_zero fun hzero => ?_
  have hblocks := blocks_matrixSize c
  rw [hzero, Nat.zero_mul] at hblocks
  exact Nat.ne_of_lt (matrixSize_pos c) hblocks

theorem div_blockSize_lt {index : Nat} (h : index < c.matrixSize) :
    index / c.blockSize < c.blockCount :=
  Nat.div_lt_of_lt_mul (blocks_matrixSize c ▸ h)

theorem getLsbD_twoPow_sub_one {w n i : Nat} (hn : n < w) :
    (BitVec.twoPow w n - 1).getLsbD i = decide (i < n) := by
  have hsub : BitVec.twoPow w n - 1 = BitVec.ofNat w (2 ^ n - 1) := by
    rw [← BitVec.ofNat_sub_ofNat_of_le _ _ (Nat.one_lt_two_pow (Nat.ne_zero_of_lt hn))
      Nat.one_le_two_pow]
    congr 1
    apply BitVec.eq_of_toNat_eq
    rw [BitVec.toNat_twoPow, BitVec.toNat_ofNat]
  rw [hsub, BitVec.getLsbD_ofNat, Nat.testBit_two_pow_sub_one, Bool.eq_iff_iff]
  simp only [Bool.and_eq_true, decide_eq_true_eq]
  omega

theorem getLsbD_allBlocksMask (c : Config) (block : Nat) :
    c.allBlocksMask.getLsbD block = decide (block < c.blockCount) := by
  have hpos := blockCount_pos c
  have hle := c.blockCount_le
  rw [Config.allBlocksMask, BitVec.getLsbD_or, BitVec.getLsbD_shiftLeft,
    getLsbD_twoPow_sub_one (by omega), BitVec.ofNat_eq_ofNat, BitVec.getLsbD_one,
    Bool.eq_iff_iff]
  simp only [Bool.or_eq_true, Bool.and_eq_true, decide_eq_true_eq, Bool.not_eq_true',
    decide_eq_false_iff_not]
  omega

/-! ## What has changed is marked -/

/-- The step stays in the buffer and marks the block of every byte that it changes. -/
structure Tracks (s s' : State c) : Prop where
  inBounds : s'.inBounds = s.inBounds
  cursor : s.cursor < c.matrixSize → s'.cursor < c.matrixSize
  sent : s'.sent = s.sent
  dirty : ∀ block < c.blockCount, s.dirty.getLsbD block = true → s'.dirty.getLsbD block = true
  buffer : ∀ index < c.matrixSize, s'.buffer index = s.buffer index ∨
    s'.dirty.getLsbD (index / c.blockSize) = true

/-- The state after `oled_init` and after every call that fits. -/
structure Sound (s : State c) : Prop where
  inBounds : s.inBounds = true
  cursor : s.cursor < c.matrixSize
  consistent : Consistent s

variable {s s' s'' : State c}

theorem Tracks.refl (s : State c) : Tracks s s :=
  ⟨rfl, id, rfl, fun _ _ h => h, fun _ _ => .inl rfl⟩

theorem Tracks.trans (h : Tracks s s') (h' : Tracks s' s'') : Tracks s s'' where
  inBounds := h'.inBounds.trans h.inBounds
  cursor hcursor := h'.cursor (h.cursor hcursor)
  sent := h'.sent.trans h.sent
  dirty block hblock hdirty := h'.dirty block hblock (h.dirty block hblock hdirty)
  buffer index hindex := by
    rcases h'.buffer index hindex with hsame' | hmarked
    · rcases h.buffer index hindex with hsame | hmarked
      · exact .inl (hsame'.trans hsame)
      · exact .inr (h'.dirty _ (div_blockSize_lt hindex) hmarked)
    · exact .inr hmarked

theorem Tracks.run {ι : Type _} {step : State c → ι → State c} {Cond : State c → ι → Prop}
    (hstep : ∀ s input, Cond s input → Tracks s (step s input)) {inputs : List ι}
    (h : Meets step Cond s inputs) : Tracks s (Lib.run step s inputs) := by
  induction inputs generalizing s with
  | nil => exact .refl s
  | cons input inputs ih => exact (hstep s input h.1).trans (ih h.2)

theorem Sound.of_tracks (h : Sound s) (htracks : Tracks s s') : Sound s' where
  inBounds := htracks.inBounds.trans h.inBounds
  cursor := htracks.cursor h.cursor
  consistent index hindex hclean := by
    have hdirty : s.dirty.getLsbD (index / c.blockSize) = false := by
      refine (Bool.not_eq_true _).mp fun hdirty => ?_
      rw [htracks.dirty _ (div_blockSize_lt hindex) hdirty] at hclean
      cases hclean
    rw [htracks.sent, (htracks.buffer index hindex).resolve_right (by simp [hclean])]
    exact h.consistent index hindex hdirty

/-! ## The calls that write -/

theorem touch_eq_self {start count : Nat} (h : start + count ≤ c.matrixSize) (s : State c) :
    touch start count s = s := by
  rw [touch, decide_eq_true h, Bool.and_true]

theorem touch_inBounds (start count : Nat) (h : start + count ≤ c.matrixSize) (s : State c) :
    (touch start count s).inBounds = s.inBounds := by
  rw [touch_eq_self h]

theorem markDirty_getLsbD (index block : Nat) (s : State c) :
    (markDirty index s).dirty.getLsbD block = true ↔
      s.dirty.getLsbD block = true ∨ block < c.blockBits ∧ block = index / c.blockSize := by
  rw [markDirty, BitVec.getLsbD_or, BitVec.getLsbD_twoPow, Bool.or_eq_true, Bool.and_eq_true,
    decide_eq_true_eq, decide_eq_true_eq]
  refine or_congr_right ⟨?_, ?_⟩
  · rintro ⟨hlt, rfl⟩
    exact ⟨hlt, rfl⟩
  · rintro ⟨hlt, rfl⟩
    exact ⟨hlt, rfl⟩

theorem tracks_setCursor {cursor : Nat} (hcursor : s.cursor < c.matrixSize → cursor < c.matrixSize) :
    Tracks s { s with cursor } :=
  ⟨rfl, hcursor, rfl, fun _ _ h => h, fun _ _ => .inl rfl⟩

theorem wrapped_lt (index : Nat) : (if c.matrixSize ≤ index then 0 else index) < c.matrixSize := by
  have := matrixSize_pos c
  split_ifs <;> omega

theorem oledSetCursor_tracks (col line : UInt8) (s : State c) :
    Tracks s (oledSetCursor col line s) :=
  tracks_setCursor fun _ => wrapped_lt _

theorem oledAdvanceChar_tracks (s : State c) : Tracks s (oledAdvanceChar s) :=
  tracks_setCursor fun _ => wrapped_lt _

/-- The bytes of a character lie in the block of the first or in that of the last. -/
theorem GlyphFits.block {data : BitVec 8} (h : GlyphFits s data) {index : Nat}
    (hstart : s.cursor ≤ index) (hend : index < s.cursor + c.fontWidth) :
    index / c.blockSize = s.cursor / c.blockSize ∨
      index / c.blockSize = (s.cursor + c.fontWidth - 1) / c.blockSize := by
  have hfirst := Nat.div_le_div_right (c := c.blockSize) hstart
  have hlast : index / c.blockSize ≤ (s.cursor + c.fontWidth - 1) / c.blockSize :=
    Nat.div_le_div_right (by omega)
  have htwo := h.2
  omega

theorem writeGlyph_tracks (invert : Bool) (s : State c) (data : BitVec 8) (h : GlyphFits s data) :
    Tracks s (writeGlyph invert s data) := by
  have hbits := c.blockCount_le
  have htouch : (touch s.cursor c.fontWidth s).inBounds = s.inBounds :=
    touch_inBounds _ _ h.1 s
  unfold writeGlyph
  dsimp only
  refine Tracks.trans ?_ (oledAdvanceChar_tracks _)
  split_ifs with hchanged
  · refine ⟨htouch, id, rfl, ?_, ?_⟩
    · intro block hblock hdirty
      rw [markDirty_getLsbD, markDirty_getLsbD]
      exact .inl (.inl hdirty)
    · intro index hindex
      have hblock := div_blockSize_lt hindex
      by_cases hglyph : s.cursor ≤ index ∧ index < s.cursor + c.fontWidth
      · rw [markDirty_getLsbD, markDirty_getLsbD]
        have hspan := h.block hglyph.1 hglyph.2
        omega
      · exact .inl (if_neg hglyph)
  · refine ⟨htouch, id, rfl, fun _ _ hdirty => hdirty, ?_⟩
    intro index hindex
    by_cases hglyph : s.cursor ≤ index ∧ index < s.cursor + c.fontWidth
    · refine .inl ((if_pos hglyph).trans ?_)
      by_contra hne
      refine hchanged (List.any_eq_true.mpr ⟨index - s.cursor, List.mem_range.mpr (by omega), ?_⟩)
      rw [Nat.add_sub_cancel' hglyph.1]
      exact decide_eq_true (Ne.symm hne)
    · exact .inl (if_neg hglyph)

theorem oledAdvancePage_tracks {clearPageRemainder : Bool}
    (h : clearPageRemainder = true → PageFits s) :
    Tracks s (oledAdvancePage clearPageRemainder s) := by
  cases clearPageRemainder with
  | true => exact Tracks.run (writeGlyph_tracks false) (h rfl)
  | false => exact tracks_setCursor fun _ => wrapped_lt _

theorem oledWriteChar_tracks (invert : Bool) (s : State c) (data : BitVec 8)
    (h : CharFits s data) : Tracks s (oledWriteChar invert s data) := by
  unfold CharFits at h
  unfold oledWriteChar
  split_ifs at h ⊢
  · exact oledAdvancePage_tracks fun _ => h
  · exact oledAdvancePage_tracks fun hclear => nomatch hclear
  · exact writeGlyph_tracks invert s data h

theorem oledWrite_tracks {data : List (BitVec 8)} {invert : Bool} (h : TextFits invert s data) :
    Tracks s (oledWrite data invert s) :=
  Tracks.run (oledWriteChar_tracks invert) h

theorem writeByte_marked_tracks {index : Nat} (hindex : index < c.matrixSize) (data : BitVec 8)
    (s : State c) : Tracks s (markDirty index (writeByte index data s)) := by
  have hbits := c.blockCount_le
  refine ⟨touch_inBounds index 1 hindex s, id, rfl, ?_, ?_⟩
  · intro block _ hdirty
    exact (markDirty_getLsbD index block _).mpr (.inl hdirty)
  · intro other hother
    have hblock := div_blockSize_lt hother
    by_cases hsame : other = index
    · subst hsame
      exact .inr ((markDirty_getLsbD other _ _).mpr (.inr ⟨by omega, rfl⟩))
    · exact .inl (Function.update_of_ne hsame _ _)

theorem writeChanged_tracks {index : Nat} (hindex : index < c.matrixSize) (data : BitVec 8)
    (s : State c) : Tracks s (writeChanged index data s) := by
  unfold writeChanged
  split_ifs
  · rw [touch_eq_self hindex]
    exact .refl s
  · exact writeByte_marked_tracks hindex data s

theorem oledWriteRaw_tracks (data : Nat → BitVec 8) (size : UInt16) (s : State c) :
    Tracks s (oledWriteRaw data size s) := by
  have hstep : ∀ (t : State c) i, s.cursor + i < c.matrixSize →
      Tracks t (writeChanged (s.cursor + i) (data i) t) :=
    fun t i hi => writeChanged_tracks hi (data i) t
  refine Tracks.run hstep
    (Meets.of_forall (fun i => s.cursor + i < c.matrixSize) (fun _ _ h => h) ?_ s)
  intro i hi
  have hi := List.mem_range.mp hi
  split_ifs at hi <;> omega

theorem oledWritePixel_tracks (x y : UInt8) (on : Bool) (s : State c) :
    Tracks s (oledWritePixel x y on s) := by
  unfold oledWritePixel
  dsimp only
  split_ifs with hx hindex
  · exact .refl s
  · exact .refl s
  · exact writeChanged_tracks (Nat.lt_of_not_le hindex) _ s
  · exact writeChanged_tracks (Nat.lt_of_not_le hindex) _ s

/-! ## The calls that mark every block -/

theorem tracks_of_mask (hbounds : s'.inBounds = s.inBounds)
    (hcursor : s.cursor < c.matrixSize → s'.cursor < c.matrixSize) (hsent : s'.sent = s.sent)
    (hdirty : s'.dirty = c.allBlocksMask) : Tracks s s' where
  inBounds := hbounds
  cursor := hcursor
  sent := hsent
  dirty block hblock _ := by
    rw [hdirty, getLsbD_allBlocksMask, decide_eq_true hblock]
  buffer index hindex := by
    rw [hdirty, getLsbD_allBlocksMask, decide_eq_true (div_blockSize_lt hindex)]
    exact .inr rfl

theorem oledClear_tracks (s : State c) : Tracks s (oledClear s) :=
  tracks_of_mask (touch_inBounds 0 _ (by omega) s) (fun _ => matrixSize_pos c) rfl rfl

theorem mem_panMoves {left : Bool} {move : Nat × Nat} (h : move ∈ panMoves c left) :
    move.1 < c.matrixSize ∧ move.2 < c.matrixSize := by
  obtain ⟨y, hy, hmove⟩ := List.mem_flatMap.mp h
  have hy := List.mem_range.mp hy
  have hrow : ∀ x < c.displayWidth, y * c.displayWidth + x < c.matrixSize := by
    intro x hx
    calc y * c.displayWidth + x < y * c.displayWidth + c.displayWidth := by omega
      _ = (y + 1) * c.displayWidth := (Nat.succ_mul y c.displayWidth).symm
      _ ≤ c.matrixSize := Nat.mul_le_mul_right c.displayWidth hy
  split_ifs at hmove
  · obtain ⟨x, hx, rfl⟩ := List.mem_map.mp hmove
    have hx := List.mem_range.mp hx
    exact ⟨hrow (x + 1) (by omega), hrow x (by omega)⟩
  · obtain ⟨x, hx, rfl⟩ := List.mem_map.mp hmove
    have hx := List.mem_range.mp (List.mem_reverse.mp hx)
    exact ⟨hrow x (by omega), hrow (x + 1) (by omega)⟩

/-- What an assignment of `oled_pan` leaves alone. -/
structure Moves (s s' : State c) : Prop where
  inBounds : s'.inBounds = s.inBounds
  cursor : s'.cursor = s.cursor
  sent : s'.sent = s.sent

theorem copyByte_moves {source target : Nat} (hsource : source < c.matrixSize)
    (htarget : target < c.matrixSize) (s : State c) : Moves s (copyByte source target s) :=
  ⟨(touch_inBounds target 1 htarget _).trans
    (touch_inBounds source 1 hsource s), rfl, rfl⟩

theorem oledPan_tracks (left : Bool) (s : State c) : Tracks s (oledPan left s) := by
  have hmoves : Meets (fun (s : State c) move => copyByte move.1 move.2 s)
      (fun _ move => move.1 < c.matrixSize ∧ move.2 < c.matrixSize) s (panMoves c left) :=
    Meets.of_forall _ (fun _ _ h => h) (fun _ => mem_panMoves) s
  have hrun : Moves s (run (fun s move => copyByte move.1 move.2 s) s (panMoves c left)) := by
    refine Meets.preserves (Moves s) (fun t move ht hmove => ?_) hmoves ⟨rfl, rfl, rfl⟩
    have hcopy := copyByte_moves hmove.1 hmove.2 t
    exact ⟨hcopy.inBounds.trans ht.inBounds, hcopy.cursor.trans ht.cursor,
      hcopy.sent.trans ht.sent⟩
  exact tracks_of_mask hrun.inBounds (fun h => hrun.cursor.symm ▸ h) hrun.sent rfl

/-! ## Rendering -/

theorem touchBlock_eq_self {block : Nat} (hblock : block < c.blockCount)
    (hcover : c.rotation.has90 = true → MapsCover c) (s : State c) : touchBlock block s = s := by
  have hend : c.blockSize * block + c.blockSize ≤ c.matrixSize := by
    rw [← blocks_matrixSize, ← Nat.mul_succ]
    exact Nat.mul_le_mul_left c.blockSize hblock
  unfold touchBlock
  split_ifs with h90
  · exact touch_eq_self hend s
  · have hsource := (hcover (by simpa using h90)).source_le
    generalize c.maps = maps at hsource
    induction maps with
    | nil => rfl
    | cons tile maps ih =>
        have htile := hsource tile List.mem_cons_self
        rw [List.foldl_cons, touch_eq_self (by omega)]
        exact ih fun other hother => hsource other (List.mem_cons_of_mem _ hother)

theorem getLsbD_clearBit {w : Nat} (dirty : BitVec w) (block other : Nat) :
    (dirty &&& ~~~BitVec.twoPow w block).getLsbD other = true ↔
      dirty.getLsbD other = true ∧ other ≠ block := by
  rw [BitVec.getLsbD_and, BitVec.getLsbD_not, BitVec.getLsbD_twoPow]
  by_cases hdirty : dirty.getLsbD other = true
  · have hlt := BitVec.lt_of_getLsbD hdirty
    simp only [hdirty, hlt, Bool.true_and, decide_true, Bool.not_eq_true', Bool.and_eq_false_iff,
      decide_eq_false_iff_not, true_and]
    omega
  · simp [hdirty]

theorem renderBlock_sound {block : Nat} (hblock : block < c.blockCount)
    (hcover : c.rotation.has90 = true → MapsCover c) (h : Sound s) :
    Sound (renderBlock block s) := by
  have hrender : renderBlock block s =
      { s with
        sent := Function.update s.sent block (some (blockTransfers c s.buffer block))
        dirty := s.dirty &&& ~~~BitVec.twoPow _ block } := by
    rw [renderBlock, touchBlock_eq_self hblock hcover]
  rw [hrender]
  refine ⟨h.inBounds, h.cursor, fun index hindex hclean => ?_⟩
  have hoffset := Nat.mod_lt index (blockSize_pos c)
  by_cases hsent : index / c.blockSize = block
  · refine ⟨blockTransfers c s.buffer block, ?_, ?_⟩
    · rw [hsent]
      exact Function.update_self block _ _
    · have hshows := blockTransfers_shows hcover s.buffer block hoffset
      rwa [← hsent, Nat.div_add_mod, hsent] at hshows
  · have hdirty : s.dirty.getLsbD (index / c.blockSize) = false := by
      refine (Bool.not_eq_true _).mp fun hdirty => ?_
      rw [(getLsbD_clearBit s.dirty block _).mpr ⟨hdirty, hsent⟩] at hclean
      cases hclean
    obtain ⟨transfers, htransfers, hshows⟩ := h.consistent index hindex hdirty
    exact ⟨transfers, (Function.update_of_ne hsent _ _).trans htransfers, hshows⟩

theorem renderBlocks_sound (all : Bool) (blocks : List Nat) (numProcessed : UInt8)
    (hcover : c.rotation.has90 = true → MapsCover c) (h : Sound s)
    (hmask : ∀ block, s.dirty.getLsbD block = true → block < c.blockCount) :
    Sound (renderBlocks all blocks numProcessed s) := by
  induction blocks generalizing numProcessed s with
  | nil => exact h
  | cons block blocks ih =>
      rw [renderBlocks]
      split_ifs with hclean hlimit
      · exact ih numProcessed h hmask
      · have hblock := hmask block ((Bool.not_eq_false _).mp hclean)
        refine ih (numProcessed + 1) (renderBlock_sound hblock hcover h) fun other hother => ?_
        exact hmask other ((getLsbD_clearBit s.dirty block other).mp hother).1
      · exact h

theorem oledRenderDirty_sound (all : Bool) (hcover : c.rotation.has90 = true → MapsCover c)
    (h : Sound s) : Sound (oledRenderDirty all s) := by
  have hmask : ∀ block, (s.dirty &&& c.allBlocksMask).getLsbD block = true ↔
      s.dirty.getLsbD block = true ∧ block < c.blockCount := by
    intro block
    rw [BitVec.getLsbD_and, getLsbD_allBlocksMask, Bool.and_eq_true, decide_eq_true_eq]
  have hmasked : Sound { s with dirty := s.dirty &&& c.allBlocksMask } := by
    refine h.of_tracks ⟨rfl, id, rfl, fun block hblock hdirty => ?_, fun _ _ => .inl rfl⟩
    exact (hmask block).mpr ⟨hdirty, hblock⟩
  unfold oledRenderDirty
  dsimp only
  split_ifs
  · exact hmasked
  · refine renderBlocks_sound all _ 0 hcover ⟨hmasked.inBounds, hmasked.cursor,
      hmasked.consistent⟩ fun block hblock => ((hmask block).mp hblock).2

/-! ## Runs -/

theorem init_sound (c : Config) (memory : Nat → BitVec 8) : Sound (State.init c memory) := by
  refine ⟨?_, matrixSize_pos c, fun index hindex hclean => ?_⟩
  · have hend : 0 + c.matrixSize ≤ c.matrixSize := Nat.le_of_eq (Nat.zero_add _)
    exact decide_eq_true hend
  · have hmask : c.allBlocksMask.getLsbD (index / c.blockSize) = false := hclean
    rw [getLsbD_allBlocksMask, decide_eq_true (div_blockSize_lt hindex)] at hmask
    cases hmask

theorem perform_sound (h : Sound s) {call : Call} (hfits : CallFits s call) :
    Sound (perform s call) := by
  cases call with
  | setCursor col line => exact h.of_tracks (oledSetCursor_tracks col line s)
  | writeChar data invert => exact h.of_tracks (oledWriteChar_tracks invert s data hfits)
  | write data invert => exact h.of_tracks (oledWrite_tracks hfits)
  | writeLn data invert =>
      have hline : Tracks (oledWrite data invert s) (oledWriteLn data invert s) :=
        oledAdvancePage_tracks fun _ => hfits.2
      exact h.of_tracks ((oledWrite_tracks hfits.1).trans hline)
  | advancePage clearPageRemainder => exact h.of_tracks (oledAdvancePage_tracks hfits)
  | writeRaw data size => exact h.of_tracks (oledWriteRaw_tracks data size s)
  | writeRawByte data index =>
      have hchanged : oledWriteRawByte data index s = writeChanged index.toNat data s := by
        rw [oledWriteRawByte, if_neg (Nat.lt_asymm hfits)]
      refine h.of_tracks ?_
      rw [perform, hchanged]
      exact writeChanged_tracks hfits data s
  | writePixel x y on => exact h.of_tracks (oledWritePixel_tracks x y on s)
  | pan left => exact h.of_tracks (oledPan_tracks left s)
  | clear => exact h.of_tracks (oledClear_tracks s)
  | renderDirty all => exact oledRenderDirty_sound all hfits h

/-- In a run whose calls fit, no access leaves the buffer, and every byte that is not what the
display last received is in a dirty block. -/
theorem oled_consistent (c : Config) (memory : Nat → BitVec 8) (calls : List Call)
    (h : Meets perform CallFits (State.init c memory) calls) :
    (run perform (State.init c memory) calls).inBounds = true ∧
      Consistent (run perform (State.init c memory) calls) := by
  have hsound := Meets.preserves Sound (fun _ _ hs hfits => perform_sound hs hfits) h
    (init_sound c memory)
  exact ⟨hsound.inBounds, hsound.consistent⟩

/-- A display of 128 by 32 pixels with the default settings and a font of full columns. -/
def display128x32 (rotation : Rotation) : Config where
  ic := .ssd1306
  rotation := rotation
  displayWidth := 128
  displayHeight := 32
  columnOffset := 0
  blockBits := 16
  blockCount := 16
  blockSize := 32
  maps := [⟨0, 24⟩, ⟨8, 16⟩, ⟨16, 8⟩, ⟨24, 0⟩]
  fontStart := 0
  fontEnd := 223
  fontWidth := 6
  font _ := 0xFF
  updateProcessLimit := 1
  displayWidth_pos := Nat.two_pow_pos 7
  displayWidth_lt := by decide
  displayHeight_ge := by decide
  displayHeight_lt := by decide
  blockCount_le := by decide
  fontWidth_pos := by decide
  blocks := by decide

theorem display128x32_mapsCover (rotation : Rotation) : MapsCover (display128x32 rotation) where
  source_le := by cases rotation <;> decide
  target_le := by cases rotation <;> decide
  apart := by cases rotation <;> decide
  covers := by cases rotation <;> decide
  pages := fun h => nomatch h

/-- A character is written at the start of a turned display, and all blocks are sent. -/
theorem turned_consistent :
    (run perform (State.init (display128x32 .rotation90) fun _ => 0)
        [.writeChar 0x41 false, .renderDirty true]).inBounds = true ∧
      Consistent (run perform (State.init (display128x32 .rotation90) fun _ => 0)
        [.writeChar 0x41 false, .renderDirty true]) :=
  oled_consistent (display128x32 .rotation90) (fun _ => 0)
    [.writeChar 0x41 false, .renderDirty true]
    ⟨⟨by decide, by decide⟩, fun _ => display128x32_mapsCover _, trivial⟩

/-- The byte behind the buffer is written. -/
theorem rawByte_outside :
    ¬ ∀ (c : Config) (memory : Nat → BitVec 8) (calls : List Call),
      (run perform (State.init c memory) calls).inBounds = true ∧
        Consistent (run perform (State.init c memory) calls) := by
  intro h
  have hbounds := (h (display128x32 .rotation0) (fun _ => 0) [.writeRawByte 1 512]).1
  exact absurd hbounds (by decide)

end Qmk.Oled
