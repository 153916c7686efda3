import ClusterGo.Codec.Batch
import ClusterGo.Codec.Payload
import ClusterGo.Lib.Guarded

/-!
# The codec on untrusted input

`Decode`, `GetRpcRequest` and `Encode` of a protobuf message once more, with
every index expression, slice expression and pointer that the source uses
spelled out as something that can panic.  `Bounds` holds these versions.
Each of them ends as the model without checks does (the `_returns` and `_eq`
lemmas), so no index and no slice is ever out of range, whatever the bytes
are.

What is left is the pointer to the registry.  `GetMeta` answers nil for a
namespace in which nothing was registered, and the codec dereferences it:
`codec_total_iff`.
-/

namespace ClusterGo.Codec

open BigEndian Rpc

variable {V T P : Type}

def nameSpaceSS : String := "ss"

/-- `NewCodec`. -/
def newCodec (lib : ProtoLib T P) (nameSpace : NameSpace T) (selfAddr : LogicAddr)
    (rpcCodec : Codec V) : SSCodec V T P :=
  { selfAddr, rpcCodec, pbMeta := getMeta nameSpace nameSpaceSS, lib }

namespace Bounds

open Guarded

abbrev Call (α : Type) := Guarded String α

/-! ## BytesReader -/

def readByte (b : Bytes) : Call (UInt8 × Bytes) :=
  if b.length < 1 then throw errNotEnough
  else do
    let v ← check (index b 0)
    let b ← check (slice b 1 b.length)
    return (v, b)

def readBool (b : Bytes) : Call (Bool × Bytes) := do
  let (v, b) ← readByte b
  return (v == 1, b)

def readUint16 (b : Bytes) : Call (UInt16 × Bytes) :=
  if b.length < 2 then throw errNotEnough
  else do
    let v ← check (uint 2 b)
    let b ← check (slice b 2 b.length)
    return (UInt16.ofNat v, b)

def readUint64 (b : Bytes) : Call (UInt64 × Bytes) :=
  if b.length < 8 then throw errNotEnough
  else do
    let v ← check (uint 8 b)
    let b ← check (slice b 8 b.length)
    return (UInt64.ofNat v, b)

def readBytes (b : Bytes) : Call (Bytes × Bytes) := do
  let (size, b) ← readUint16 b
  if size > 0 then
    if b.length < size.toNat then throw errNotEnough
    else do
      let v ← check (slice b 0 size.toNat)
      let b ← check (slice b size.toNat b.length)
      return (v, b)
  else return ([], b)

theorem readByte_returns (b : Bytes) : Returns (readByte b) (Rpc.readByte b) := by
  cases b with
  | nil => exact returns_throw _
  | cons v b =>
    rw [readByte, if_neg (by simp)]
    exact returns_check_bind rfl
      (returns_check_bind (slice_to_end (Nat.le_add_left 1 _)) (returns_pure _))

theorem readBool_returns (b : Bytes) : Returns (readBool b) (Rpc.readBool b) :=
  returns_bind (readByte_returns b) fun _ _ => returns_pure _

/-- A read of `n` bytes at the front. -/
theorem readUint_returns {α : Type} (n : Nat) (ofNat : Nat → α) (b : Bytes) :
    Returns
      (if b.length < n then throw errNotEnough
        else do
          let v ← check (uint n b)
          let b ← check (slice b n b.length)
          return (ofNat v, b))
      (if b.length < n then .error errNotEnough
        else .ok (ofNat (decode (b.take n)), b.drop n)) := by
  refine Returns.ite (fun _ => returns_throw _) fun hlen => ?_
  have hle := Nat.le_of_not_lt hlen
  exact returns_check_bind (uint_of_le hle)
    (returns_check_bind (slice_to_end hle) (returns_pure _))

theorem readUint16_returns (b : Bytes) : Returns (readUint16 b) (Rpc.readUint16 b) :=
  readUint_returns 2 UInt16.ofNat b

theorem readUint64_returns (b : Bytes) : Returns (readUint64 b) (Rpc.readUint64 b) :=
  readUint_returns 8 UInt64.ofNat b

theorem readBytes_returns (b : Bytes) : Returns (readBytes b) (Rpc.readBytes b) := by
  refine returns_bind (readUint16_returns b) fun p _ => ?_
  refine Returns.ite (fun _ => ?_) fun _ => returns_pure _
  refine Returns.ite (fun _ => returns_throw _) fun hlen => ?_
  have hle := Nat.le_of_not_lt hlen
  exact returns_check_bind (slice_from_start hle)
    (returns_check_bind (slice_to_end hle) (returns_pure _))

/-! ## DecodeRequest and DecodeResponse -/

def decodeRequest (buff : Bytes) : Call (RequestMsg V) := do
  let (seq, b) ← readUint64 buff
  let (oneway, b) ← readBool b
  let (method, b) ← readBytes b
  let (userData, b) ← readBytes b
  let (arg, _) ← readBytes b
  return { seq, oneway, method, userData, arg := .bytes arg }

def readError (b : Bytes) : Call (Option Error × Bytes) := do
  let (errCode, b) ← readUint16 b
  if errCode ≠ 0 then
    let (errStr, b) ← readBytes b
    return (newError errCode.toNat errStr, b)
  else return (none, b)

def decodeResponse (buff : Bytes) : Call (ResponseMsg V) := do
  let (seq, b) ← readUint64 buff
  let (userData, b) ← readBytes b
  let (err, b) ← readError b
  let (ret, _) ← readBytes b
  return { seq, err, userData, ret := .bytes ret }

theorem decodeRequest_returns (b : Bytes) :
    Returns (decodeRequest b : Call (RequestMsg V)) (Rpc.decodeRequest b) := by
  refine returns_bind (readUint64_returns b) fun _ _ => ?_
  refine returns_bind (readBool_returns _) fun _ _ => ?_
  refine returns_bind (readBytes_returns _) fun _ _ => ?_
  refine returns_bind (readBytes_returns _) fun _ _ => ?_
  exact returns_bind (readBytes_returns _) fun _ _ => returns_pure _

theorem readError_returns (b : Bytes) : Returns (readError b) (Rpc.readError b) := by
  refine returns_bind (readUint16_returns b) fun _ _ => ?_
  refine Returns.ite (fun _ => ?_) fun _ => returns_pure _
  exact returns_bind (readBytes_returns _) fun _ _ => returns_pure _

theorem decodeResponse_returns (b : Bytes) :
    Returns (decodeResponse b : Call (ResponseMsg V)) (Rpc.decodeResponse b) := by
  refine returns_bind (readUint64_returns b) fun _ _ => ?_
  refine returns_bind (readBytes_returns _) fun _ _ => ?_
  refine returns_bind (readError_returns _) fun _ _ => ?_
  exact returns_bind (readBytes_returns _) fun _ _ => returns_pure _

/-! ## BufferReader -/

def getByte (r : BufferReader) : Option (UInt8 × BufferReader) :=
  if r.offset + 1 > r.bs.length then some (0, r)
  else do
    let v ← index r.bs r.offset
    return (v, { r with offset := r.offset + 1 })

def getUint16 (r : BufferReader) : Option (UInt16 × BufferReader) :=
  if r.offset + 2 > r.bs.length then some (0, r)
  else do
    let w ← slice r.bs r.offset (r.offset + 2)
    let v ← uint 2 w
    return (UInt16.ofNat v, { r with offset := r.offset + 2 })

def getUint32 (r : BufferReader) : Option (UInt32 × BufferReader) :=
  if r.offset + 4 > r.bs.length then some (0, r)
  else do
    let w ← slice r.bs r.offset (r.offset + 4)
    let v ← uint 4 w
    return (UInt32.ofNat v, { r with offset := r.offset + 4 })

def getAll (r : BufferReader) : Option Bytes := slice r.bs r.offset r.bs.length

/-- The offset is inside the slice or at its end. -/
def InRange (r : BufferReader) : Prop := r.offset ≤ r.bs.length

theorem inRange_reset (r : BufferReader) (b : Bytes) : InRange (r.reset b) := Nat.zero_le _

theorem getByte_eq (r : BufferReader) (hr : InRange r) :
    getByte r = some r.getByte ∧ InRange r.getByte.2 := by
  unfold getByte BufferReader.getByte InRange at *
  by_cases h : r.offset + 1 > r.bs.length
  · have hnone : r.bs[r.offset]? = none := List.getElem?_eq_none (by omega)
    rw [if_pos h, hnone]
    exact ⟨rfl, hr⟩
  · have hsome := List.getElem?_eq_getElem (l := r.bs) (i := r.offset) (by omega)
    rw [if_neg h, index, hsome]
    refine ⟨rfl, ?_⟩
    show r.offset + 1 ≤ r.bs.length
    omega

/-- A read of `n` bytes at the offset. -/
theorem slice_uint {r : BufferReader} {n : Nat} (h : ¬ r.offset + n > r.bs.length) :
    ∃ w, slice r.bs r.offset (r.offset + n) = some w ∧
      uint n w = some (decode ((r.bs.drop r.offset).take n)) := by
  have hle := Nat.le_of_not_lt h
  refine ⟨(r.bs.drop r.offset).take n, ?_, ?_⟩
  · rw [slice_of_le (Nat.le_add_right _ _) hle, Nat.add_sub_cancel_left]
  · rw [uint_of_le, List.take_take, Nat.min_self]
    rw [List.length_take, List.length_drop]
    omega

/-- A word of `n` bytes at the offset, or zero when they are missing. -/
theorem getUint_eq {α : Type} (n : Nat) (zero : α) (ofNat : Nat → α) (r : BufferReader)
    (hr : InRange r) {got : α × BufferReader}
    (hgot : got = if r.offset + n > r.bs.length then (zero, r)
      else (ofNat (decode ((r.bs.drop r.offset).take n)), { r with offset := r.offset + n })) :
    (if r.offset + n > r.bs.length then some (zero, r)
      else do
        let w ← slice r.bs r.offset (r.offset + n)
        let v ← uint n w
        return (ofNat v, { r with offset := r.offset + n })) = some got ∧ InRange got.2 := by
  subst hgot
  by_cases h : r.offset + n > r.bs.length
  · rw [if_pos h, if_pos h]
    exact ⟨rfl, hr⟩
  · obtain ⟨w, hw, hv⟩ := slice_uint h
    rw [if_neg h, if_neg h, hw]
    refine ⟨?_, Nat.le_of_not_lt h⟩
    rw [Option.bind_eq_bind, Option.bind_some, hv]
    rfl

theorem getUint16_eq (r : BufferReader) (hr : InRange r) :
    getUint16 r = some r.getUint16 ∧ InRange r.getUint16.2 :=
  getUint_eq 2 0 UInt16.ofNat r hr rfl

theorem getUint32_eq (r : BufferReader) (hr : InRange r) :
    getUint32 r = some r.getUint32 ∧ InRange r.getUint32.2 :=
  getUint_eq 4 0 UInt32.ofNat r hr rfl

theorem getAll_eq (r : BufferReader) (hr : InRange r) : getAll r = some r.getAll :=
  slice_to_end hr

/-! ## The registry -/

def newMessage (m : PbMeta T) (id : UInt32) : Call T :=
  let invalid := throw ("invaild id:" ++ toString id.toNat)
  if id < UInt32.ofNat m.metaArray.length then do
    match ← check (index m.metaArray id.toNat) with
    | none => invalid
    | some tt => return tt
  else
    match m.idToMeta id with
    | some tt => return tt
    | none => invalid

/-- `Unmarshal` through a pointer to the registry. -/
def unmarshal (lib : ProtoLib T P) (m : Option (PbMeta T)) (id : UInt32) (buff : Bytes) :
    Call P := do
  let m ← check m
  let tt ← newMessage m id
  if buff.length > 0 then call (lib.unmarshal buff tt) else return lib.new tt

theorem newMessage_returns (m : PbMeta T) (id : UInt32) :
    Returns (newMessage m id) (m.newMessage id) := by
  refine Returns.ite (fun hlt => ?_) fun _ => ?_
  · -- the length is at least what its low 32 bits say
    have hid : id.toNat < m.metaArray.length := by
      rw [UInt32.lt_iff_toNat_lt, UInt32.toNat_ofNat'] at hlt
      exact Nat.lt_of_lt_of_le hlt (Nat.mod_le _ _)
    rw [List.getElem?_eq_getElem hid]
    refine returns_check_bind (List.getElem?_eq_getElem hid) ?_
    cases m.metaArray[id.toNat] with
    | none => exact returns_throw _
    | some tt => exact returns_pure _
  · cases m.idToMeta id with
    | none => exact returns_throw _
    | some tt => exact returns_pure _

theorem unmarshal_returns (lib : ProtoLib T P) (m : PbMeta T) (id : UInt32) (buff : Bytes) :
    Returns (unmarshal lib (some m) id buff) (m.unmarshal lib id buff) := by
  refine returns_check_bind rfl (returns_bind (newMessage_returns m id) fun _ _ => ?_)
  exact Returns.ite (fun _ => returns_call _) fun _ => returns_pure _

/-! ## The writers -/

def appendUint16 (bs : Bytes) (v : UInt16) : Option Bytes :=
  put (bs ++ [0, 0]) bs.length (encode 2 v.toNat)

def appendUint32 (bs : Bytes) (v : UInt32) : Option Bytes :=
  put (bs ++ [0, 0, 0, 0]) bs.length (encode 4 v.toNat)

def newRelayMessage (toAddr fromAddr : LogicAddr) (payload : Bytes) : Option RelayMessage := do
  let b ← appendUint32 [] (UInt32.ofNat payload.length)
  return { toAddr, fromAddr, payload := b ++ payload }

def appendSSHeader (dst : Bytes) (m : Message V P) (flag : UInt8) : Option (Bytes × Nat) := do
  let mark := dst.length
  let dst := dst ++ [0, 0, 0, 0]
  let dst := dst ++ [flag]
  let dst ← appendUint32 dst m.toAddr.val
  let dst ← appendUint32 dst m.fromAddr.val
  return (dst, mark)

def finalizeFrame (maxPacketSize : Int) (dst : Bytes) (mark : Nat) : Option (Bytes × Nat) :=
  let totalLen := dst.length - mark
  if (totalLen : Int) > maxPacketSize then do
    let dst ← slice dst 0 mark
    return (dst, 0)
  else do
    let dst ← put dst mark (encode 4 (UInt32.ofNat (totalLen - sizeLen)).toNat)
    return (dst, totalLen)

theorem appendUint16_eq (bs : Bytes) (v : UInt16) :
    appendUint16 bs v = some (Codec.appendUint16 bs v) :=
  put_placeholder bs _ _ (by simp)

theorem appendUint32_eq (bs : Bytes) (v : UInt32) :
    appendUint32 bs v = some (Codec.appendUint32 bs v) :=
  put_placeholder bs _ _ (by simp)

theorem newRelayMessage_eq (toAddr fromAddr : LogicAddr) (payload : Bytes) :
    newRelayMessage toAddr fromAddr payload =
      some (Codec.newRelayMessage toAddr fromAddr payload) := by
  rw [newRelayMessage, appendUint32_eq]
  rfl

theorem appendSSHeader_eq (dst : Bytes) (m : Message V P) (flag : UInt8) :
    appendSSHeader dst m flag = some (Codec.appendSSHeader dst m flag) := by
  simp only [appendSSHeader, appendUint32_eq, Option.bind_eq_bind, Option.bind_some]
  rfl

theorem finalizeFrame_eq (maxPacketSize : Int) {dst : Bytes} {mark : Nat}
    (h : mark + 4 ≤ dst.length) :
    finalizeFrame maxPacketSize dst mark = some (Codec.finalizeFrame maxPacketSize dst mark) := by
  unfold finalizeFrame Codec.finalizeFrame
  by_cases hmax : ((dst.length - mark : Nat) : Int) > maxPacketSize
  · simp only [if_pos hmax]
    rw [slice_from_start (by omega)]
    rfl
  · simp only [if_neg hmax]
    rw [put_of_le (by rw [encode_length]; exact h)]
    rfl

/-! ## Decode -/

def decodeBody (ss : SSCodec V T P) (flag : UInt8) (toAddr fromAddr : LogicAddr)
    (reader : BufferReader) : Call (Message V P) :=
  if getMsgType flag = binMsg then do
    let (cmd, reader) ← check (getUint16 reader)
    let data ← check (getAll reader)
    return { toAddr, fromAddr, payload := .bytes data, cmd }
  else if getMsgType flag = pbMsg then do
    let (cmd, reader) ← check (getUint16 reader)
    let data ← check (getAll reader)
    let msg ← unmarshal ss.lib ss.pbMeta (UInt32.ofNat cmd.toNat) data
    return { toAddr, fromAddr, payload := .proto msg, cmd }
  else if getMsgType flag = rpcReq then do
    let data ← check (getAll reader)
    let req ← decodeRequest data
    return { toAddr, fromAddr, payload := .request req }
  else if getMsgType flag = rpcResp then do
    let data ← check (getAll reader)
    let resp ← decodeResponse data
    return { toAddr, fromAddr, payload := .response resp }
  else throw "invaild packet type"

def decode (ss : SSCodec V T P) (payload : Bytes) : Call (Decoded V P) := do
  let reader := ss.reader.reset payload
  let (flag, reader) ← check (getByte reader)
  let (toAddr, reader) ← check (getUint32 reader)
  let (fromAddr, reader) ← check (getUint32 reader)
  if ss.isTarget ⟨toAddr⟩ then do
    let m ← decodeBody ss flag ⟨toAddr⟩ ⟨fromAddr⟩ reader
    return .message m
  else do
    let m ← check (newRelayMessage ⟨toAddr⟩ ⟨fromAddr⟩ payload)
    return .relay m

/-- The three ends of a call as a guarded computation. -/
def ends {α : Type} : Outcome α → Option (Except String α)
  | .value a => some (.ok a)
  | .error text => some (.error text)
  | .panic => none

theorem ends_ofExcept {α : Type} (e : Except String α) : ends (.ofExcept e) = some e := by
  cases e <;> rfl

theorem ends_map {α β : Type} {x : Call α} {o : Outcome α} (h : x.run = ends o) (f : α → β) :
    (do let a ← x; return f a : Call β).run = ends (o.map f) := by
  rw [ExceptT.run_bind, h]
  cases o <;> rfl

theorem decodeBody_run (ss : SSCodec V T P) (flag : UInt8) (toAddr fromAddr : LogicAddr)
    {r : BufferReader} (hr : InRange r) :
    (decodeBody ss flag toAddr fromAddr r).run =
      ends (Codec.decodeBody ss flag toAddr fromAddr r) := by
  obtain ⟨hcmd, hr'⟩ := getUint16_eq r hr
  unfold decodeBody
  simp only [hcmd, check_some_bind, getAll_eq _ hr', getAll_eq r hr]
  by_cases hbin : getMsgType flag = binMsg
  · rw [if_pos hbin, decodeBody_of_bin _ _ _ _ hbin]
    rfl
  rw [if_neg hbin]
  by_cases hpb : getMsgType flag = pbMsg
  · rw [if_pos hpb]
    cases hmeta : ss.pbMeta with
    | none =>
      rw [decodeBody_of_pb_none _ _ _ _ hpb hmeta]
      rfl
    | some pbMeta =>
      rw [decodeBody_of_pb _ _ _ _ hpb hmeta, ends_ofExcept]
      exact returns_bind (unmarshal_returns ss.lib pbMeta _ _) fun _ _ => returns_pure _
  rw [if_neg hpb]
  by_cases hreq : getMsgType flag = rpcReq
  · rw [if_pos hreq, decodeBody_of_req _ _ _ _ hreq, ends_ofExcept]
    exact returns_bind (decodeRequest_returns _) fun _ _ => returns_pure _
  rw [if_neg hreq]
  by_cases hresp : getMsgType flag = rpcResp
  · rw [if_pos hresp, decodeBody_of_resp _ _ _ _ hresp, ends_ofExcept]
    exact returns_bind (decodeResponse_returns _) fun _ _ => returns_pure _
  · rw [if_neg hresp, decodeBody_of_other _ _ _ _ hbin hpb hreq hresp]
    rfl

/-- `Decode` with its checks ends as the model does. -/
theorem decode_run (ss : SSCodec V T P) (payload : Bytes) :
    (decode ss payload).run = ends (ss.decode payload).2 := by
  obtain ⟨hflag, hr₁⟩ := getByte_eq _ (inRange_reset ss.reader payload)
  obtain ⟨hto, hr₂⟩ := getUint32_eq _ hr₁
  obtain ⟨hfrom, hr₃⟩ := getUint32_eq _ hr₂
  simp only [decode, hflag, hto, hfrom, check_some_bind, newRelayMessage_eq, SSCodec.decode]
  split_ifs
  · exact ends_map (decodeBody_run ss _ _ _ hr₃) _
  · rfl

/-! ## GetRpcRequest -/

def getRpcRequest (m : RelayMessage) : Option (Option (RequestMsg V)) :=
  if m.payload.length < minSize then some none
  else do
    let flag ← index m.payload 4
    if getMsgType flag ≠ rpcReq then some none
    else do
      let body ← slice m.payload minSize m.payload.length
      let req ← (decodeRequest body : Call (RequestMsg V)).run
      return req.toOption

theorem getRpcRequest_eq (m : RelayMessage) :
    (getRpcRequest m : Option (Option (RequestMsg V))) = some m.getRpcRequest := by
  unfold getRpcRequest RelayMessage.getRpcRequest
  by_cases hlen : m.payload.length < minSize
  · rw [if_pos hlen, if_pos hlen]
  · have hflag : index m.payload 4 = some (m.payload.getD 4 0) := by
      rw [minSize] at hlen
      rw [index, List.getD_eq_getElem?_getD, List.getElem?_eq_getElem (by omega)]
      rfl
    rw [if_neg hlen, if_neg hlen, hflag, Option.bind_eq_bind, Option.bind_some]
    by_cases htype : getMsgType (m.payload.getD 4 0) ≠ rpcReq
    · rw [if_pos htype, if_pos htype]
    · rw [if_neg htype, if_neg htype, slice_to_end (Nat.le_of_not_lt hlen), Option.bind_eq_bind,
        Option.bind_some, decodeRequest_returns]
      rfl

/-! ## Encode of a protobuf message -/

def encodeProto (maxPacketSize : Int) (ss : SSCodec V T P) (dst : Bytes) (o : Message V P)
    (msg : P) : Option (Bytes × Nat) := do
  let (dst, mark) ← appendSSHeader dst o (setMsgType 0 pbMsg)
  let cmdMark := dst.length
  let dst ← appendUint16 dst 0
  let pbMeta ← ss.pbMeta
  match pbMeta.marshal ss.lib dst msg with
  | .error _ => do
    let dst ← slice dst 0 mark
    return (dst, 0)
  | .ok (dst, cmd) => do
    let dst ← put dst cmdMark (encode 2 (UInt16.ofNat cmd.toNat).toNat)
    finalizeFrame maxPacketSize dst mark

/-- `Encode` of a protobuf message with its checks ends as the model
does. -/
theorem encodeProto_eq (maxPacketSize : Int) {ss : SSCodec V T P} (hlib : ss.lib.Appends)
    (dst : Bytes) {o : Message V P} {msg : P} (hp : o.payload = .proto msg) :
    encodeProto maxPacketSize ss dst o msg = encodeMessage maxPacketSize ss dst o := by
  have hstart : dst.length + 4 ≤
      (dst ++ [0, 0, 0, 0] ++ header o (setMsgType 0 pbMsg)).length := by
    simp only [List.length_append, List.length_cons, List.length_nil]
    omega
  simp only [encodeProto, encodeMessage, hp, appendSSHeader_eq, appendUint16_eq,
    Codec.appendSSHeader_eq, Option.bind_eq_bind, Option.bind_some]
  generalize dst ++ [0, 0, 0, 0] ++ header o (setMsgType 0 pbMsg) = start at hstart ⊢
  cases ss.pbMeta with
  | none => rfl
  | some pbMeta =>
    rw [Option.bind_some, Option.map_some]
    cases hmarshal : pbMeta.marshal ss.lib (Codec.appendUint16 start 0) msg with
    | error text =>
      have hle : dst.length ≤ (Codec.appendUint16 start 0).length := by
        rw [Codec.appendUint16, List.length_append]
        omega
      dsimp only
      rw [slice_from_start hle]
      rfl
    | ok p =>
      obtain ⟨b, id⟩ := p
      obtain ⟨out, rfl⟩ := PbMeta.marshal_append hlib hmarshal
      have hput := patch_append start (encode 2 (0 : UInt16).toNat)
        (encode 2 (UInt16.ofNat id.toNat).toNat) out (by simp)
      dsimp only
      rw [Codec.appendUint16, put_of_le (by simp), Option.bind_some, hput, finalizeFrame_eq]
      rw [List.length_append, List.length_append]
      omega

end Bounds

/-! ## Totality -/

/-- A call with untrusted input: `Decode` of bytes, `GetRpcRequest` of the
relay message that `Decode` returned for bytes, and `Encode` of a protobuf
message. -/
inductive CodecCall (V P : Type) where
  | decode (payload : Bytes)
  | getRpcRequest (payload : Bytes)
  | encode (maxPacketSize : Int) (dst : Bytes) (toAddr fromAddr : LogicAddr) (cmd : UInt16)
      (msg : P)

/-- The call returns a value or an error. -/
def CodecCall.Returns (ss : SSCodec V T P) : CodecCall V P → Prop
  | .decode payload => (Bounds.decode ss payload).run ≠ none
  | .getRpcRequest payload => ∀ m, (Bounds.decode ss payload).run = some (.ok (.relay m)) →
      (Bounds.getRpcRequest m : Option (Option (RequestMsg V))) ≠ none
  | .encode maxPacketSize dst toAddr fromAddr cmd msg =>
      Bounds.encodeProto maxPacketSize ss dst { toAddr, fromAddr, payload := .proto msg, cmd }
        msg ≠ none

/-- The call looks a message type up: bytes that name this node and are
flagged as a protobuf message, and every protobuf message. -/
def CodecCall.LooksUp (ss : SSCodec V T P) : CodecCall V P → Prop
  | .decode payload => ss.selfAddr = ⟨wordAt (ss.held payload) 1⟩ ∧
      getMsgType ((ss.held payload).getD 0 0) = pbMsg
  | .getRpcRequest _ => False
  | .encode .. => True

theorem ends_eq_none_iff {α : Type} (o : Outcome α) : Bounds.ends o = none ↔ o = .panic := by
  cases o <;> simp [Bounds.ends]

theorem decode_eq_panic_iff (ss : SSCodec V T P) (payload : Bytes) :
    (ss.decode payload).2 = .panic ↔
      ss.pbMeta = none ∧ CodecCall.LooksUp ss (.decode payload : CodecCall V P) := by
  obtain ⟨hflag, hto⟩ := readHead_target (ss.held payload)
  rw [decode_eq_held, hflag, hto]
  by_cases hself : ss.selfAddr = ⟨wordAt (ss.held payload) 1⟩
  · have hmap : ∀ o : Outcome (Message V P), o.map Decoded.message = .panic ↔ o = .panic := by
      intro o
      cases o <;> simp [Outcome.map]
    rw [if_pos hself, hmap, decodeBody_eq_panic_iff]
    exact ⟨fun h => ⟨h.2, hself, h.1⟩, fun h => ⟨h.2.2, h.1⟩⟩
  · rw [if_neg hself]
    exact ⟨fun h => (nomatch h), fun h => absurd h.2.1 hself⟩

/-- A call with untrusted input returns if and only if it does not look a
message type up in a registry that is not there. -/
theorem codec_total_iff {ss : SSCodec V T P} (hlib : ss.lib.Appends) (call : CodecCall V P) :
    call.Returns ss ↔ ss.pbMeta ≠ none ∨ ¬ call.LooksUp ss := by
  cases call with
  | decode payload =>
    rw [CodecCall.Returns, Bounds.decode_run, Ne, ends_eq_none_iff, decode_eq_panic_iff]
    exact not_and_or
  | getRpcRequest payload =>
    refine ⟨fun _ => Or.inr fun h => h, fun _ m _ => ?_⟩
    rw [Bounds.getRpcRequest_eq]
    exact Option.some_ne_none _
  | encode maxPacketSize dst toAddr fromAddr cmd msg =>
    rw [CodecCall.Returns, Bounds.encodeProto_eq maxPacketSize hlib dst rfl]
    have hnone := encode_eq_none_iff maxPacketSize ss dst
      (.message { toAddr, fromAddr, payload := .proto msg, cmd })
    rw [SSCodec.encode] at hnone
    rw [Ne, hnone]
    refine ⟨fun h => Or.inl fun hmeta => h ⟨hmeta, _, msg, rfl, rfl⟩, fun h hand => ?_⟩
    rcases h with hmeta | hnot
    · exact hmeta hand.1
    · exact hnot trivial

/-! ## A node on which nothing is registered -/

/-- The codec that a node creates before any type is registered. -/
def bareCodec : SSCodec Bytes String (String × Bytes) :=
  newCodec rawProto (registerAll rawProto []) ⟨1⟩ rawCodec

/-- It has no registry, and a binary message for the node does not need one. -/
theorem codec_total_bare :
    bareCodec.pbMeta = none ∧ bareCodec.selfAddr = ⟨1⟩ ∧
      CodecCall.Returns bareCodec (.decode [2, 0, 0, 0, 1, 0, 0, 0, 2, 0, 3, 104]) := by
  refine ⟨rfl, rfl, (codec_total_iff rawProto_appends _).mpr (Or.inr ?_)⟩
  intro hlooks
  exact absurd hlooks.2 (by decide)

/-- Eleven bytes from any peer make it panic, and so does a protobuf
message of its own. -/
theorem bareCodec_panics :
    (Bounds.decode bareCodec [1, 0, 0, 0, 1, 0, 0, 0, 2, 0, 1]).run = none ∧
      Bounds.encodeProto 4096 bareCodec []
        { toAddr := ⟨2⟩, fromAddr := ⟨1⟩, payload := .proto ("*ss.Echo", [7]) }
        ("*ss.Echo", [7]) = none := by
  decide +kernel

end ClusterGo.Codec
