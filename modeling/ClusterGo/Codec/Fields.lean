import ClusterGo.Codec.SS

/-!
# Fields in either byte order

`codec/buffer/buffer.go` as a whole: the writer with all its `Append` methods
and the reader with the `CheckGet` methods that belong to them.  The frame
codec uses a part of it, in big-endian order (`Codec.Buffer`).

A `Value` is what one `Append` call writes and a `Kind` is what one `CheckGet`
call asks for.  `Value.reread` is what the reader makes of a value that was
written.  It differs for `int` only: `AppendInt` writes the low 32 bits and
`CheckGetInt` reads them without a sign.

* `fields_round_trip_iff`: fields that are written one after the other are
  read back as they were if and only if no `int` is negative or needs more
  than 32 bits.
* `fields_cut_short`: on any part of what was written that is cut off at the
  end, some read gives `ErrOutOfBounds`, and none panics.
-/

namespace ClusterGo.Codec

open BigEndian Rpc

/-- `binary.ByteOrder`. -/
inductive ByteOrder where
  | bigEndian
  | littleEndian
deriving DecidableEq, Repr

namespace ByteOrder

/-- `PutUint16`, `PutUint32` and `PutUint64`. -/
def put (width : Nat) (v : Nat) : ByteOrder → Bytes
  | .bigEndian => encode width v
  | .littleEndian => (encode width v).reverse

/-- `Uint16`, `Uint32` and `Uint64`. -/
def word (b : Bytes) : ByteOrder → Nat
  | .bigEndian => decode b
  | .littleEndian => decode b.reverse

@[simp] theorem length_put (o : ByteOrder) (width v : Nat) : (o.put width v).length = width := by
  cases o <;> simp [put]

theorem word_put (o : ByteOrder) {width v : Nat} (h : v < 256 ^ width) :
    o.word (o.put width v) = v := by
  cases o with
  | bigEndian => exact decode_encode_of_lt h
  | littleEndian =>
    show decode (encode width v).reverse.reverse = v
    rw [List.reverse_reverse]
    exact decode_encode_of_lt h

end ByteOrder

/-! ## Writing -/

/-- The argument of an `Append` method.  A Go string is its bytes. -/
inductive Value where
  | byte (v : UInt8)
  | uint16 (v : UInt16)
  | uint32 (v : UInt32)
  | uint64 (v : UInt64)
  | int16 (v : Int16)
  | int32 (v : Int32)
  | int64 (v : Int64)
  | int (v : Int)
  | bytes (v : Bytes)
  | string (v : Bytes)
deriving DecidableEq

/-- The conversion `uint32(i)` of an `int`. -/
def uint32OfInt (i : Int) : UInt32 := UInt32.ofNat (i % 2 ^ 32).toNat

/-- What the method appends. -/
def Value.written (o : ByteOrder) : Value → Bytes
  | .byte v => [v]
  | .uint16 v => o.put 2 v.toNat
  | .uint32 v => o.put 4 v.toNat
  | .uint64 v => o.put 8 v.toNat
  | .int16 v => o.put 2 v.toUInt16.toNat
  | .int32 v => o.put 4 v.toUInt32.toNat
  | .int64 v => o.put 8 v.toUInt64.toNat
  | .int v => o.put 4 (uint32OfInt v).toNat
  | .bytes v => v
  | .string v => v

/-- Calls of `Append` methods one after the other. -/
def appendAll (o : ByteOrder) (bs : Bytes) (vs : List Value) : Bytes :=
  vs.foldl (fun bs v => bs ++ v.written o) bs

/-! ## Reading -/

/-- A `CheckGet` method, with the size that it is given. -/
inductive Kind where
  | byte | uint16 | uint32 | uint64 | int16 | int32 | int64 | int
  | bytes (size : Int)
  | string (size : Int)
deriving DecidableEq

def errOutOfBounds : String := "out of bounds"

namespace BufferReader

/-- The reads of a fixed width: `CheckGetUint16`, `CheckGetUint32` and
`CheckGetUint64`. -/
def checkGetWord (o : ByteOrder) (width : Nat) (r : BufferReader) : Outcome Nat × BufferReader :=
  if r.offset + width > r.bs.length then (.error errOutOfBounds, r)
  else (.value (o.word ((r.bs.drop r.offset).take width)), { r with offset := r.offset + width })

/-- `CheckGetByte`. -/
def checkGetByte (r : BufferReader) : Outcome UInt8 × BufferReader :=
  match r.bs[r.offset]? with
  | none => (.error errOutOfBounds, r)
  | some v => (.value v, { r with offset := r.offset + 1 })

/-- `CheckGetBytes`.  The slice expression panics on a negative size. -/
def checkGetBytes (size : Int) (r : BufferReader) : Outcome Bytes × BufferReader :=
  if (r.bs.length : Int) - r.offset < size then (.error errOutOfBounds, r)
  else if size < 0 then (.panic, r)
  else
    (.value ((r.bs.drop r.offset).take size.toNat), { r with offset := r.offset + size.toNat })

/-- A read, with its result as a value. -/
def checkGet (o : ByteOrder) (r : BufferReader) : Kind → Outcome Value × BufferReader
  | .byte => (r.checkGetByte.1.map .byte, r.checkGetByte.2)
  | .uint16 => word 2 fun n => .uint16 (.ofNat n)
  | .uint32 => word 4 fun n => .uint32 (.ofNat n)
  | .uint64 => word 8 fun n => .uint64 (.ofNat n)
  | .int16 => word 2 fun n => .int16 (UInt16.ofNat n).toInt16
  | .int32 => word 4 fun n => .int32 (UInt32.ofNat n).toInt32
  | .int64 => word 8 fun n => .int64 (UInt64.ofNat n).toInt64
  | .int => word 4 fun n => .int (UInt32.ofNat n).toNat
  | .bytes size => slice size .bytes
  | .string size => slice size .string
where
  word (width : Nat) (f : Nat → Value) : Outcome Value × BufferReader :=
    ((r.checkGetWord o width).1.map f, (r.checkGetWord o width).2)
  slice (size : Int) (f : Bytes → Value) : Outcome Value × BufferReader :=
    ((r.checkGetBytes size).1.map f, (r.checkGetBytes size).2)

/-- Reads one after the other, up to the first that fails. -/
def checkGetAll (o : ByteOrder) (r : BufferReader) : List Kind → Outcome (List Value)
  | [] => .value []
  | k :: ks =>
    match r.checkGet o k with
    | (.value v, r') => (checkGetAll o r' ks).map (v :: ·)
    | (.error text, _) => .error text
    | (.panic, _) => .panic

end BufferReader

/-! ## One field -/

namespace Value

/-- The read that belongs to a value. -/
def kind : Value → Kind
  | .byte _ => .byte
  | .uint16 _ => .uint16
  | .uint32 _ => .uint32
  | .uint64 _ => .uint64
  | .int16 _ => .int16
  | .int32 _ => .int32
  | .int64 _ => .int64
  | .int _ => .int
  | .bytes v => .bytes v.length
  | .string v => .string v.length

/-- What the reader makes of the value. -/
def reread : Value → Value
  | .int v => .int (v % 2 ^ 32)
  | v => v

theorem reread_eq_iff (v : Value) :
    v.reread = v ↔ ∀ i, v = .int i → 0 ≤ i ∧ i < 2 ^ 32 := by
  cases v with
  | int i =>
    simp only [reread, Value.int.injEq, forall_eq']
    omega
  | _ => simp [reread]

end Value

theorem toNat_uint32OfInt (i : Int) : ((uint32OfInt i).toNat : Int) = i % 2 ^ 32 := by
  rw [uint32OfInt, UInt32.toNat_ofNat']
  omega

section

variable {o : ByteOrder} {r : BufferReader} {b : Bytes}

theorem BufferReader.Reads.checkGetWord {width n : Nat} (h : r.Reads (o.put width n ++ b))
    (hn : n < 256 ^ width) :
    ∃ r', r.checkGetWord o width = (.value n, r') ∧ r'.Reads b := by
  have hlen := h.length
  rw [List.length_append, ByteOrder.length_put] at hlen
  have hadv := h.advance
  rw [ByteOrder.length_put] at hadv
  have htake : (o.put width n ++ b).take width = o.put width n := by
    rw [List.take_append_of_le_length (by simp), List.take_of_length_le (by simp)]
  refine ⟨_, ?_, hadv⟩
  rw [BufferReader.checkGetWord, if_neg (by omega), h.2, htake, ByteOrder.word_put o hn]

theorem BufferReader.Reads.checkGetBytes {v : Bytes} (h : r.Reads (v ++ b)) :
    ∃ r', r.checkGetBytes v.length = (.value v, r') ∧ r'.Reads b := by
  have hlen := h.length
  rw [List.length_append] at hlen
  refine ⟨_, ?_, h.advance⟩
  rw [BufferReader.checkGetBytes, if_neg (by omega), if_neg (by omega), Int.toNat_natCast, h.2,
    List.take_left]

theorem BufferReader.checkGet_word {width n : Nat} {r' : BufferReader}
    (h : r.checkGetWord o width = (.value n, r')) (f : Nat → Value) :
    BufferReader.checkGet.word o r width f = (.value (f n), r') := by
  rw [BufferReader.checkGet.word, h]
  rfl

theorem BufferReader.checkGet_slice {size : Int} {v : Bytes} {r' : BufferReader}
    (h : r.checkGetBytes size = (.value v, r')) (f : Bytes → Value) :
    BufferReader.checkGet.slice r size f = (.value (f v), r') := by
  rw [BufferReader.checkGet.slice, h]
  rfl

/-- Reading what was written. -/
theorem BufferReader.Reads.checkGet {v : Value} (h : r.Reads (v.written o ++ b)) :
    ∃ r', r.checkGet o v.kind = (.value v.reread, r') ∧ r'.Reads b := by
  cases v with
  | byte v =>
    have hget : r.bs[r.offset]? = some v := by
      rw [← Nat.add_zero r.offset, ← List.getElem?_drop, h.2]
      rfl
    refine ⟨{ r with offset := r.offset + 1 }, ?_, Reads.advance (v := [v]) h⟩
    simp [BufferReader.checkGet, BufferReader.checkGetByte, Value.kind, Value.reread, hget,
      Outcome.map]
  | uint16 v =>
    obtain ⟨r', hword, hr'⟩ := h.checkGetWord (UInt16.toNat_lt v)
    exact ⟨r', (checkGet_word hword _).trans (by simp [Value.reread]), hr'⟩
  | uint32 v =>
    obtain ⟨r', hword, hr'⟩ := h.checkGetWord (UInt32.toNat_lt v)
    exact ⟨r', (checkGet_word hword _).trans (by simp [Value.reread]), hr'⟩
  | uint64 v =>
    obtain ⟨r', hword, hr'⟩ := h.checkGetWord (UInt64.toNat_lt v)
    exact ⟨r', (checkGet_word hword _).trans (by simp [Value.reread]), hr'⟩
  | int16 v =>
    obtain ⟨r', hword, hr'⟩ := h.checkGetWord (UInt16.toNat_lt v.toUInt16)
    exact ⟨r', (checkGet_word hword _).trans (by simp [Value.reread]), hr'⟩
  | int32 v =>
    obtain ⟨r', hword, hr'⟩ := h.checkGetWord (UInt32.toNat_lt v.toUInt32)
    exact ⟨r', (checkGet_word hword _).trans (by simp [Value.reread]), hr'⟩
  | int64 v =>
    obtain ⟨r', hword, hr'⟩ := h.checkGetWord (UInt64.toNat_lt v.toUInt64)
    exact ⟨r', (checkGet_word hword _).trans (by simp [Value.reread]), hr'⟩
  | int v =>
    obtain ⟨r', hword, hr'⟩ := h.checkGetWord (UInt32.toNat_lt (uint32OfInt v))
    refine ⟨r', (checkGet_word hword _).trans ?_, hr'⟩
    rw [UInt32.ofNat_toNat, toNat_uint32OfInt]
    rfl
  | bytes v =>
    obtain ⟨r', hslice, hr'⟩ := BufferReader.Reads.checkGetBytes (v := v) h
    exact ⟨r', checkGet_slice hslice _, hr'⟩
  | string v =>
    obtain ⟨r', hslice, hr'⟩ := BufferReader.Reads.checkGetBytes (v := v) h
    exact ⟨r', checkGet_slice hslice _, hr'⟩

theorem BufferReader.Reads.checkGetWord_short {width : Nat} (h : r.Reads b)
    (hlt : b.length < width) : r.checkGetWord o width = (.error errOutOfBounds, r) := by
  have hlen := h.length
  rw [BufferReader.checkGetWord, if_pos (by omega)]

theorem BufferReader.Reads.checkGetBytes_short {size : Nat} (h : r.Reads b)
    (hlt : b.length < size) : r.checkGetBytes size = (.error errOutOfBounds, r) := by
  have hlen := h.length
  rw [BufferReader.checkGetBytes, if_pos (by omega)]

/-- Reading a value that is not there in full. -/
theorem BufferReader.Reads.checkGet_short {v : Value} (h : r.Reads b)
    (hlt : b.length < (v.written o).length) :
    r.checkGet o v.kind = (.error errOutOfBounds, r) := by
  cases v with
  | byte v =>
    have hlen := h.length
    have hnone : r.bs[r.offset]? = none := by
      rw [List.getElem?_eq_none_iff]
      simp only [Value.written, List.length_singleton] at hlt
      omega
    simp [BufferReader.checkGet, BufferReader.checkGetByte, Value.kind, hnone, Outcome.map]
  | bytes v | string v =>
    have hshort : r.checkGetBytes v.length = _ := h.checkGetBytes_short hlt
    simp [BufferReader.checkGet, BufferReader.checkGet.slice, Value.kind, hshort, Outcome.map]
  | _ =>
    simp only [Value.written, ByteOrder.length_put] at hlt
    simp [BufferReader.checkGet, BufferReader.checkGet.word, Value.kind,
      h.checkGetWord_short hlt, Outcome.map]

end

/-! ## Fields one after the other -/

theorem appendAll_eq (o : ByteOrder) (bs : Bytes) (vs : List Value) :
    appendAll o bs vs = bs ++ vs.flatMap (·.written o) := by
  induction vs generalizing bs with
  | nil => simp [appendAll]
  | cons v vs ih =>
    show appendAll o (bs ++ v.written o) vs = _
    rw [ih, List.flatMap_cons, List.append_assoc]

theorem checkGetAll_written {o : ByteOrder} {r : BufferReader} {vs : List Value}
    (h : r.Reads (vs.flatMap (·.written o))) :
    r.checkGetAll o (vs.map Value.kind) = .value (vs.map Value.reread) := by
  induction vs generalizing r with
  | nil => rfl
  | cons v vs ih =>
    rw [List.flatMap_cons] at h
    obtain ⟨r', hget, hr'⟩ := h.checkGet
    rw [List.map_cons, BufferReader.checkGetAll, hget]
    show ((r'.checkGetAll o (vs.map Value.kind)).map (v.reread :: ·)) = _
    rw [ih hr']
    rfl

theorem checkGetAll_short {o : ByteOrder} {r : BufferReader} {vs : List Value} {b : Bytes}
    (h : r.Reads b) (hpart : b <+: vs.flatMap (·.written o))
    (hlt : b.length < (vs.flatMap (·.written o)).length) :
    r.checkGetAll o (vs.map Value.kind) = .error errOutOfBounds := by
  induction vs generalizing r b with
  | nil => simp at hlt
  | cons v vs ih =>
    rw [List.map_cons, BufferReader.checkGetAll]
    by_cases hfirst : b.length < (v.written o).length
    · rw [h.checkGet_short hfirst]
    · -- The first field is there in full, and the cut is in a later one.
      rw [List.flatMap_cons] at hpart hlt
      obtain ⟨rest, rfl⟩ := List.prefix_of_prefix_length_le (List.prefix_append _ _) hpart
        (Nat.le_of_not_lt hfirst)
      rw [List.length_append, List.length_append] at hlt
      obtain ⟨r', hget, hr'⟩ := h.checkGet
      rw [hget]
      show ((r'.checkGetAll o (vs.map Value.kind)).map (v.reread :: ·)) = _
      rw [ih hr' ((List.prefix_append_right_inj _).mp hpart) (by omega)]
      rfl

/-- A reader at the start of a slice. -/
def newReader (b : Bytes) : BufferReader := { bs := b }

theorem reads_newReader (b : Bytes) : (newReader b).Reads b := ⟨Nat.zero_le _, rfl⟩

/-- In either byte order, fields that were written are read back as they were if
and only if every `int` among them is from 0 to `2 ^ 32 - 1`. -/
theorem fields_round_trip_iff (o : ByteOrder) (vs : List Value) :
    (newReader (appendAll o [] vs)).checkGetAll o (vs.map Value.kind) = .value vs ↔
      ∀ i, Value.int i ∈ vs → 0 ≤ i ∧ i < 2 ^ 32 := by
  rw [appendAll_eq, List.nil_append, checkGetAll_written (reads_newReader _)]
  have hmap : Outcome.value (vs.map Value.reread) = .value vs ↔ ∀ v ∈ vs, v.reread = v := by
    rw [Outcome.value.injEq]
    nth_rewrite 2 [← List.map_id vs]
    rw [List.map_inj_left]
    rfl
  rw [hmap]
  constructor
  · intro h i hi
    exact (Value.reread_eq_iff _).mp (h _ hi) i rfl
  · intro h v hv
    refine (Value.reread_eq_iff v).mpr fun i heq => h i ?_
    rw [← heq]
    exact hv

/-- A field of each sort. -/
def someFields : List Value :=
  [.byte 7, .uint16 258, .int32 (-1), .bytes [1, 2], .int 5, .string []]

/-- A negative `int32` comes back, and a negative `int` does not. -/
theorem fields_round_trip_someFields :
    (newReader (appendAll .littleEndian [] someFields)).checkGetAll .littleEndian
        (someFields.map Value.kind) = .value someFields ∧
      (newReader (appendAll .bigEndian [] [.int (-1)])).checkGetAll .bigEndian [.int] ≠
        .value [.int (-1)] := by
  refine ⟨(fields_round_trip_iff .littleEndian someFields).mpr ?_, fun h => ?_⟩
  · simp [someFields]
  · have hrange := (fields_round_trip_iff .bigEndian [.int (-1)]).mp h (-1) List.mem_cons_self
    omega

/-- The same reads on what is left after the end was cut off give
`ErrOutOfBounds`, wherever the cut is. -/
theorem fields_cut_short (o : ByteOrder) (vs : List Value) (n : Nat)
    (hn : n < (appendAll o [] vs).length) :
    (newReader ((appendAll o [] vs).take n)).checkGetAll o (vs.map Value.kind) =
      .error errOutOfBounds := by
  rw [appendAll_eq, List.nil_append] at hn ⊢
  refine checkGetAll_short (reads_newReader _) (List.take_prefix _ _) ?_
  rw [List.length_take]
  omega

theorem fields_cut_short_someFields :
    (appendAll .littleEndian [] someFields).length = 13 ∧
    (newReader ((appendAll .littleEndian [] someFields).take 12)).checkGetAll .littleEndian
      (someFields.map Value.kind) = .error errOutOfBounds := by
  have hlen : (appendAll .littleEndian [] someFields).length = 13 := by decide +kernel
  exact ⟨hlen, fields_cut_short .littleEndian someFields 12 (by rw [hlen]; decide)⟩

end ClusterGo.Codec
