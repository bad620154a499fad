import Qmk.Painter.Decoder

/-!
# Reading from a memory stream

A seek that leaves the buffer is refused and moves nothing.
-/

namespace Qmk.Painter

inductive Origin
  | seekSet
  | seekCur
  | seekEnd

namespace MemoryStream

variable (stream : MemoryStream)

/-- `mem_seek`, which returns 0 or -1. -/
def seek (offset : BitVec 32) (origin : Origin) : Bool × MemoryStream :=
  let position : Int :=
    match origin with
    | .seekSet => offset.toInt
    | .seekCur => stream.position + offset.toInt
    | .seekEnd => stream.buffer.length + offset.toInt
  if position < 0 then
    (false, stream)
  else if (stream.buffer.length : Int) < position then
    (false, stream)
  else
    (true, { stream with position := position.toNat, isEof := false })

def setpos (offset : BitVec 32) : Bool × MemoryStream := stream.seek offset .seekSet

/-- `qp_stream_read` of one member of `size` bytes: the bytes, unless the stream ends
before the last of them. -/
def read : Nat → MemoryStream → Option (List (BitVec 8)) × MemoryStream
  | 0, stream => (some [], stream)
  | size + 1, stream =>
      let got := stream.get
      if got.1.msb then
        (none, got.2)
      else
        let rest := read size got.2
        (rest.1.map (got.1.setWidth 8 :: ·), rest.2)

/-! ## Seeking -/

@[simp] theorem seek_buffer (offset : BitVec 32) (origin : Origin) :
    (stream.seek offset origin).2.buffer = stream.buffer := by
  unfold seek
  extract_lets position
  split
  · rfl
  · split <;> rfl

@[simp] theorem setpos_buffer (offset : BitVec 32) :
    (stream.setpos offset).2.buffer = stream.buffer :=
  stream.seek_buffer offset .seekSet

/-- A position that a seek from the start can reach. -/
def Reaches (offset : BitVec 32) : Prop :=
  offset.toNat < 2 ^ 31 ∧ offset.toNat ≤ stream.buffer.length

instance (offset : BitVec 32) : Decidable (stream.Reaches offset) :=
  inferInstanceAs (Decidable (_ ∧ _))

theorem setpos_eq (offset : BitVec 32) :
    (stream.setpos offset).2 =
      if stream.Reaches offset then
        { stream with position := offset.toNat, isEof := false }
      else stream := by
  have hint : offset.toInt =
      if offset.toNat < 2 ^ 31 then (offset.toNat : Int) else (offset.toNat : Int) - 2 ^ 32 := by
    rw [BitVec.toInt_eq_toNat_cond]
    have hlt := offset.isLt
    split <;> split <;> omega
  have hlt := offset.isLt
  unfold setpos seek
  dsimp only
  rw [hint]
  by_cases hsmall : offset.toNat < 2 ^ 31
  · rw [if_pos hsmall, if_neg (by omega)]
    by_cases hinside : offset.toNat ≤ stream.buffer.length
    · have hreaches : stream.Reaches offset := ⟨hsmall, hinside⟩
      rw [if_neg (by omega), if_pos hreaches, Int.toNat_natCast]
    · have hbeyond : ¬ stream.Reaches offset := fun h => hinside h.2
      rw [if_pos (by omega), if_neg hbeyond]
  · have hnegative : ¬ stream.Reaches offset := fun h => hsmall h.1
    rw [if_neg hsmall, if_pos (by omega), if_neg hnegative]

theorem setpos_zero : (stream.setpos 0).2 = { buffer := stream.buffer } := by
  have hzero : stream.Reaches 0 := ⟨by decide, Nat.zero_le _⟩
  rw [setpos_eq, if_pos hzero]
  rfl

theorem seekCur_eq {offset : BitVec 32} (hsmall : offset.toNat < 2 ^ 31) :
    (stream.seek offset .seekCur).2 =
      if stream.position + offset.toNat ≤ stream.buffer.length then
        { stream with position := stream.position + offset.toNat, isEof := false }
      else stream := by
  have hint : offset.toInt = offset.toNat := by
    rw [BitVec.toInt_eq_toNat_cond, if_pos (by omega)]
  unfold seek
  dsimp only
  rw [hint, if_neg (by omega)]
  by_cases hinside : stream.position + offset.toNat ≤ stream.buffer.length
  · rw [if_neg (by omega), if_pos hinside]
    rfl
  · rw [if_pos (by omega), if_neg hinside]

/-! ## Reading -/

theorem get_buffer : stream.get.2.buffer = stream.buffer := by
  unfold get
  split <;> rfl

theorem get_inside {byte : BitVec 8} (h : stream.buffer[stream.position]? = some byte) :
    stream.get = (byte.setWidth 16, { stream with position := stream.position + 1 }) := by
  rw [get, h]

theorem get_outside (h : stream.buffer.length ≤ stream.position) :
    stream.get = (streamEof, { stream with isEof := true }) := by
  rw [get, List.getElem?_eq_none h]

theorem setWidth_msb (byte : BitVec 8) : (byte.setWidth 16).msb = false := by
  rw [BitVec.msb_eq_decide, BitVec.toNat_setWidth]
  have hlt := byte.isLt
  exact decide_eq_false (by omega)

variable {stream}

theorem read_buffer (size : Nat) : (read size stream).2.buffer = stream.buffer := by
  induction size generalizing stream with
  | zero => rfl
  | succ size ih =>
      unfold read
      dsimp only
      split
      · exact stream.get_buffer
      · exact ih.trans stream.get_buffer

theorem read_inside {size : Nat} (h : stream.position + size ≤ stream.buffer.length) :
    read size stream = (some ((stream.buffer.drop stream.position).take size),
      { stream with position := stream.position + size }) := by
  induction size generalizing stream with
  | zero => rw [read, List.take_zero]; rfl
  | succ size ih =>
      have hlt : stream.position < stream.buffer.length := by omega
      have hget := stream.get_inside (List.getElem?_eq_getElem hlt)
      unfold read
      dsimp only
      have hrest := @ih { stream with position := stream.position + 1 } (by dsimp only; omega)
      dsimp only at hrest
      rw [hget, setWidth_msb, if_neg Bool.false_ne_true, hrest,
        List.drop_eq_getElem_cons hlt, List.take_succ_cons, Option.map_some,
        BitVec.setWidth_setWidth_of_le _ (by decide), BitVec.setWidth_eq, Nat.add_assoc,
        Nat.add_comm 1 size]

theorem read_outside {size : Nat} (hpos : 0 < size)
    (h : stream.buffer.length < stream.position + size) : (read size stream).1 = none := by
  induction size generalizing stream with
  | zero => exact absurd hpos (Nat.lt_irrefl 0)
  | succ size ih =>
      unfold read
      dsimp only
      by_cases hlt : stream.position < stream.buffer.length
      · have hget := stream.get_inside (List.getElem?_eq_getElem hlt)
        have hrest : (read size { stream with position := stream.position + 1 }).1 = none :=
          ih (by omega) (show stream.buffer.length < stream.position + 1 + size by omega)
        rw [hget, setWidth_msb, if_neg Bool.false_ne_true, hrest, Option.map_none]
      · have hmsb : streamEof.msb = true := by decide
        rw [stream.get_outside (Nat.le_of_not_lt hlt), if_pos hmsb]

theorem read_some {size : Nat} (hpos : 0 < size) {bytes : List (BitVec 8)}
    (h : (read size stream).1 = some bytes) :
    stream.position + size ≤ stream.buffer.length ∧
      bytes = (stream.buffer.drop stream.position).take size ∧
      (read size stream).2 = { stream with position := stream.position + size } := by
  by_cases hinside : stream.position + size ≤ stream.buffer.length
  · rw [read_inside hinside] at h ⊢
    exact ⟨hinside, (Option.some.inj h).symm, rfl⟩
  · rw [read_outside hpos (by omega)] at h
    cases h

end MemoryStream

end Qmk.Painter
