import ClusterGo.Rpc.Bytes

/-!
# The buffer reader of the frame codec

`codec/buffer/buffer.go`, the part that `SSCodec` uses.  The reader keeps
the slice and an offset into it.  A read that runs out of bytes answers
zero and does not move the offset.  `reset` keeps the old slice when it is
given an empty one.

`Reads` is the view the proofs take: a reader that still has `b` to read.
The lemmas `Reads.getByte`, `Reads.getUint16`, `Reads.getUint32` and
`Reads.getAll` say what each method answers on enough bytes.
-/

namespace ClusterGo.Codec

open BigEndian Rpc

/-- `buffer.BufferReader` with big-endian order. -/
structure BufferReader where
  bs : Bytes := []
  offset : Nat := 0
deriving DecidableEq, Repr

namespace BufferReader

/-- `BufferReader.Reset`. -/
def reset (r : BufferReader) (b : Bytes) : BufferReader :=
  { bs := if b.length > 0 then b else r.bs, offset := 0 }

/-- `BufferReader.GetAll`. -/
def getAll (r : BufferReader) : Bytes := r.bs.drop r.offset

/-- `BufferReader.GetByte`. -/
def getByte (r : BufferReader) : UInt8 × BufferReader :=
  match r.bs[r.offset]? with
  | none => (0, r)
  | some v => (v, { r with offset := r.offset + 1 })

/-- `BufferReader.GetUint16`. -/
def getUint16 (r : BufferReader) : UInt16 × BufferReader :=
  if r.offset + 2 > r.bs.length then (0, r)
  else (UInt16.ofNat (decode ((r.bs.drop r.offset).take 2)),
    { r with offset := r.offset + 2 })

/-- `BufferReader.GetUint32`. -/
def getUint32 (r : BufferReader) : UInt32 × BufferReader :=
  if r.offset + 4 > r.bs.length then (0, r)
  else (UInt32.ofNat (decode ((r.bs.drop r.offset).take 4)),
    { r with offset := r.offset + 4 })

/-- The reader stands in front of the bytes `b`. -/
def Reads (r : BufferReader) (b : Bytes) : Prop :=
  r.offset ≤ r.bs.length ∧ r.bs.drop r.offset = b

variable {r : BufferReader} {b : Bytes}

theorem reads_reset (r : BufferReader) (h : b ≠ []) : (r.reset b).Reads b := by
  have hpos : b.length > 0 := List.length_pos_iff.mpr h
  simp [Reads, reset, hpos]

theorem Reads.length (h : r.Reads b) : r.bs.length = r.offset + b.length := by
  have := congrArg List.length h.2
  rw [List.length_drop] at this
  have := h.1
  omega

theorem Reads.getAll (h : r.Reads b) : r.getAll = b := h.2

/-- Moving the offset over a prefix leaves the rest. -/
theorem Reads.advance {v : Bytes} (h : r.Reads (v ++ b)) :
    ({ r with offset := r.offset + v.length } : BufferReader).Reads b := by
  have hlen := h.length
  rw [List.length_append] at hlen
  refine ⟨by simp only; omega, ?_⟩
  rw [← List.drop_drop, h.2, List.drop_left]

theorem Reads.getByte {v : UInt8} (h : r.Reads (v :: b)) :
    ∃ r', r.getByte = (v, r') ∧ r'.Reads b := by
  have hget : r.bs[r.offset]? = some v := by
    rw [← Nat.add_zero r.offset, ← List.getElem?_drop, h.2]
    rfl
  refine ⟨{ r with offset := r.offset + 1 }, ?_, Reads.advance (v := [v]) h⟩
  rw [BufferReader.getByte, hget]

/-- A word of `n` bytes at the offset. -/
theorem Reads.word {n v : Nat} (h : r.Reads (encode n v ++ b)) (hv : v < 256 ^ n) :
    ¬ r.offset + n > r.bs.length ∧ decode ((r.bs.drop r.offset).take n) = v ∧
      ({ r with offset := r.offset + n } : BufferReader).Reads b := by
  have hlen := h.length
  rw [List.length_append, encode_length] at hlen
  have hadv := h.advance
  rw [encode_length] at hadv
  refine ⟨by omega, ?_, hadv⟩
  rw [h.2, decode_take_append hv]

theorem Reads.getUint16 {v : UInt16} (h : r.Reads (encode 2 v.toNat ++ b)) :
    ∃ r', r.getUint16 = (v, r') ∧ r'.Reads b := by
  obtain ⟨hfits, hword, hrest⟩ := h.word (UInt16.toNat_lt v)
  refine ⟨_, ?_, hrest⟩
  rw [BufferReader.getUint16, if_neg hfits, hword, UInt16.ofNat_toNat]

theorem Reads.getUint32 {v : UInt32} (h : r.Reads (encode 4 v.toNat ++ b)) :
    ∃ r', r.getUint32 = (v, r') ∧ r'.Reads b := by
  obtain ⟨hfits, hword, hrest⟩ := h.word (UInt32.toNat_lt v)
  refine ⟨_, ?_, hrest⟩
  rw [BufferReader.getUint32, if_neg hfits, hword, UInt32.ofNat_toNat]

end BufferReader

/-! ## The writer -/

/-- `BufferWriter.AppendUint16`. -/
def appendUint16 (bs : Bytes) (v : UInt16) : Bytes := bs ++ encode 2 v.toNat

/-- `BufferWriter.AppendUint32`. -/
def appendUint32 (bs : Bytes) (v : UInt32) : Bytes := bs ++ encode 4 v.toNat

end ClusterGo.Codec
