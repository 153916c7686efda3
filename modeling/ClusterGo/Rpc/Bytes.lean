import ClusterGo.Lib.BigEndian

/-!
# The byte writer and the byte reader of the RPC wire format

`rpc/bytes.go`.  A writer is the slice it appends to, so each `Write`
method is a function from the old slice to the new one.  A reader is the
slice that is still unread, so each `Read` method answers the value and
the rest, or the error text of the source.

Two writers shorten a length silently.  `writeBytes` stores the length in
16 bits but keeps up to 65536 bytes, and `writeMessage` patches the low 16
bits of the body length in after the codec has appended the body.  The
lemmas below therefore give the exact bytes for every input, and the read
lemmas ask for a length that 16 bits hold.
-/

namespace ClusterGo.Rpc

open BigEndian

/-- A Go byte slice or string. -/
abbrev Bytes := List UInt8

/-- An `interface{}` that carries an argument or a result.  `decodeInto`
tells the same three forms apart: nil, a byte slice from the wire, and a
live object. -/
inductive Payload (V : Type) where
  | nil
  | bytes (b : Bytes)
  | object (v : V)
deriving DecidableEq, Repr

/-- The encoding half of `rpc.Codec`: append the marshalled form of a value
to `dst`, or answer an error. -/
structure Codec (V : Type) where
  encode : Bytes → Payload V → Except String Bytes

/-- The contract the callers of a codec rely on: what it returns is the
slice it was given with its output appended. -/
def Codec.Appends {V : Type} (codec : Codec V) : Prop :=
  ∀ dst v b, codec.encode dst v = .ok b → dst <+: b

variable {V : Type}

/-! ## BytesWriter -/

/-- `BytesWriter.WriteBool`. -/
def writeBool (b : Bytes) (v : Bool) : Bytes := b ++ [if v then 1 else 0]

/-- `BytesWriter.WriteUint16`. -/
def writeUint16 (b : Bytes) (v : UInt16) : Bytes := b ++ encode 2 v.toNat

/-- `BytesWriter.WriteUint64`. -/
def writeUint64 (b : Bytes) (v : UInt64) : Bytes := b ++ encode 8 v.toNat

/-- `BytesWriter.WriteBytes`.  The size is cut to 65536, one more than the
16-bit length field holds. -/
def writeBytes (b v : Bytes) : Bytes :=
  let size := if v.length > 65536 then 65536 else v.length
  let b := writeUint16 b (UInt16.ofNat size)
  if v.length > 0 then b ++ v.take size else b

/-- `BytesWriter.WriteMessage`.  The slice is returned with the error too,
as the callers cut it back themselves. -/
def writeMessage (b : Bytes) (codec : Codec V) (v : Payload V) :
    Bytes × Option String :=
  match v with
  | .nil => (b ++ [0, 0], none)
  | v =>
    let mark := b.length
    let b := b ++ [0, 0]
    let start := b.length
    match codec.encode b v with
    | .error err => (b, some err)
    | .ok b' => (patch b' mark (encode 2 (UInt16.ofNat (b'.length - start)).toNat), none)

/-! ## BytesReader -/

/-- The error of every read that runs out of bytes. -/
def errNotEnough : String := "not enough data for read"

/-- `BytesReader.ReadByte`. -/
def readByte : Bytes → Except String (UInt8 × Bytes)
  | [] => .error errNotEnough
  | v :: b => .ok (v, b)

/-- `BytesReader.ReadBool`. -/
def readBool (b : Bytes) : Except String (Bool × Bytes) := do
  let (v, b) ← readByte b
  return (v == 1, b)

/-- `BytesReader.ReadUint16`. -/
def readUint16 (b : Bytes) : Except String (UInt16 × Bytes) :=
  if b.length < 2 then .error errNotEnough
  else .ok (UInt16.ofNat (decode (b.take 2)), b.drop 2)

/-- `BytesReader.ReadUint64`. -/
def readUint64 (b : Bytes) : Except String (UInt64 × Bytes) :=
  if b.length < 8 then .error errNotEnough
  else .ok (UInt64.ofNat (decode (b.take 8)), b.drop 8)

/-- `BytesReader.ReadBytes`. -/
def readBytes (b : Bytes) : Except String (Bytes × Bytes) := do
  let (size, b) ← readUint16 b
  if size > 0 then
    if b.length < size.toNat then .error errNotEnough
    else return (b.take size.toNat, b.drop size.toNat)
  else return ([], b)

/-- `BytesReader.ReadString`.  A string is its bytes here, so the method
computes what `readBytes` does. -/
def readString (b : Bytes) : Except String (Bytes × Bytes) := readBytes b

/-! ## What is appended -/

/-- The field that `writeBytes` appends: the size cut to 16 bits, then the
bytes that were kept. -/
def bytesField (v : Bytes) : Bytes :=
  encode 2 (min v.length 65536 % 65536) ++ v.take 65536

theorem writeBytes_eq (b v : Bytes) : writeBytes b v = b ++ bytesField v := by
  have hsize : (if v.length > 65536 then 65536 else v.length) = min v.length 65536 := by
    split <;> omega
  have htake : v.take (min v.length 65536) = v.take 65536 := by
    rw [Nat.min_comm, ← List.take_take, List.take_length]
  have hword : (UInt16.ofNat (min v.length 65536)).toNat = min v.length 65536 % 65536 := by
    simp
  simp only [writeBytes, hsize, writeUint16, hword, bytesField]
  split
  · rw [htake, List.append_assoc]
  · have hv : v = [] := List.length_eq_zero_iff.mp (by omega)
    subst hv
    simp

/-- The field of a value that 16 bits can measure. -/
theorem bytesField_of_lt {v : Bytes} (h : v.length < 65536) :
    bytesField v = encode 2 v.length ++ v := by
  rw [bytesField, Nat.min_eq_left (by omega), Nat.mod_eq_of_lt h,
    List.take_of_length_le (by omega)]

/-- The bytes a codec produces for `v` when the slice already holds `dst`. -/
def Codec.output (codec : Codec V) (dst : Bytes) (v : Payload V) : Bytes :=
  match codec.encode dst v with
  | .ok b => b.drop dst.length
  | .error _ => []

/-- The body that `writeMessage` appends behind the length field: nothing
for nil, and else the output of the codec. -/
def messageBody (codec : Codec V) (dst : Bytes) : Payload V → Bytes
  | .nil => []
  | v => codec.output (dst ++ [0, 0]) v

/-- A successful `writeMessage` appends the low 16 bits of the body length
and the body. -/
theorem writeMessage_eq {codec : Codec V} (hcodec : codec.Appends) {b b' : Bytes}
    {v : Payload V} (h : writeMessage b codec v = (b', none)) :
    b' = b ++ encode 2 ((messageBody codec b v).length % 65536) ++
      messageBody codec b v := by
  have hsome : ∀ w : Payload V, w ≠ .nil →
      writeMessage b codec w = (b', none) →
      b' = b ++ encode 2 ((codec.output (b ++ [0, 0]) w).length % 65536) ++
        codec.output (b ++ [0, 0]) w := by
    intro w hw hwrite
    cases henc : codec.encode (b ++ [0, 0]) w with
    | error err => cases w <;> simp_all [writeMessage]
    | ok c =>
      obtain ⟨out, rfl⟩ := hcodec _ _ _ henc
      have hout : codec.output (b ++ [0, 0]) w = out := by
        simp [Codec.output, henc]
      have hlen : (b ++ [0, 0] ++ out).length - (b ++ [0, 0]).length = out.length := by
        rw [List.length_append, Nat.add_sub_cancel_left]
      have hwrite' : patch (b ++ [0, 0] ++ out) b.length
          (encode 2 (UInt16.ofNat out.length).toNat) = b' := by
        cases w <;> simp_all [writeMessage]
      rw [← hwrite', patch_append _ _ _ _ (by simp), hout]
      simp
  cases v with
  | nil =>
    have hb : b' = b ++ [0, 0] := by simpa [writeMessage] using h.symm
    simp only [hb, messageBody, List.append_nil]
    rfl
  | bytes v => exact hsome (.bytes v) (by simp) h
  | object v => exact hsome (.object v) (by simp) h

/-! ## What is read back -/

theorem readBool_append (v : Bool) (b : Bytes) :
    readBool ((if v then 1 else 0) :: b) = .ok (v, b) := by
  cases v <;> rfl

/-- A word of `n` bytes is read back. -/
theorem readUint_append {α : Type} (n : Nat) (ofNat : Nat → α) {v : Nat} (hv : v < 256 ^ n)
    (b : Bytes) :
    (if (encode n v ++ b).length < n then .error errNotEnough
      else .ok (ofNat (decode ((encode n v ++ b).take n)), (encode n v ++ b).drop n) :
      Except String (α × Bytes)) = .ok (ofNat v, b) := by
  have hlen : ¬ (encode n v ++ b).length < n := by
    rw [List.length_append, encode_length]
    omega
  rw [if_neg hlen, decode_take_append hv, encode_append_drop]

theorem readUint16_append (v : UInt16) (b : Bytes) :
    readUint16 (encode 2 v.toNat ++ b) = .ok (v, b) := by
  have hread := readUint_append 2 UInt16.ofNat (UInt16.toNat_lt v) b
  rw [UInt16.ofNat_toNat] at hread
  exact hread

theorem readUint64_append (v : UInt64) (b : Bytes) :
    readUint64 (encode 8 v.toNat ++ b) = .ok (v, b) := by
  have hread := readUint_append 8 UInt64.ofNat (UInt64.toNat_lt v) b
  rw [UInt64.ofNat_toNat] at hread
  exact hread

/-- A field whose length 16 bits hold is read back whole. -/
theorem readBytes_append {v : Bytes} (h : v.length < 65536) (b : Bytes) :
    readBytes (encode 2 v.length ++ v ++ b) = .ok (v, b) := by
  have hsize : (UInt16.ofNat v.length).toNat = v.length := by
    simp [Nat.mod_eq_of_lt h]
  have hread : readUint16 (encode 2 v.length ++ v ++ b) =
      .ok (UInt16.ofNat v.length, v ++ b) := by
    have := readUint16_append (UInt16.ofNat v.length) (v ++ b)
    rwa [hsize, ← List.append_assoc] at this
  rw [readBytes, hread]
  by_cases hv : v = []
  · subst hv
    rfl
  · have hpos : (0 : UInt16) < UInt16.ofNat v.length := by
      rw [UInt16.lt_iff_toNat_lt, hsize]
      exact List.length_pos_iff.mpr hv
    simp only [bind, Except.bind, hpos, if_true, hsize]
    rw [if_neg (by simp), List.take_left, List.drop_left]
    rfl

/-- Whatever is read, it is shorter than 65536 bytes. -/
theorem readBytes_length {b v rest : Bytes} (h : readBytes b = .ok (v, rest)) :
    v.length < 65536 := by
  unfold readBytes at h
  cases hread : readUint16 b with
  | error err => simp [hread, bind, Except.bind] at h
  | ok p =>
    obtain ⟨size, c⟩ := p
    have hsize := UInt16.toNat_lt size
    simp only [hread, bind, Except.bind] at h
    split at h
    · split at h
      · cases h
      · obtain ⟨rfl, _⟩ := Prod.mk.inj (Except.ok.inj h)
        rw [List.length_take]
        omega
    · obtain ⟨rfl, _⟩ := Prod.mk.inj (Except.ok.inj h)
      simp

end ClusterGo.Rpc
