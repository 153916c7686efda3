import ClusterGo.Codec.SS

/-!
# Decoding any payload

`decode_header_append` is about payloads that start with a whole header.
The frame reader also lets shorter ones through, down to a single byte.  The
buffer reader answers zero for a field that is cut off and does not move, so
such a payload has a target and a body as well.

`Head` is what `Decode` reads before it looks at the target, and `decode_eq`
splits `Decode` there.  `BodyRead` says how each kind of message was read
from its body.  `getRpcRequest_eq` says that the request which a
relay node finds at fixed offsets is the one that the target decodes.
-/

namespace ClusterGo.Codec

open BigEndian Rpc

variable {V T P : Type}

/-! ## The head of a payload -/

/-- The fields in front of the body, and the reader behind them. -/
structure Head where
  flag : UInt8
  toAddr : LogicAddr
  fromAddr : LogicAddr
  body : BufferReader

def readHead (payload : Bytes) : Head :=
  let reader : BufferReader := { bs := payload }
  let (flag, reader) := reader.getByte
  let (toAddr, reader) := reader.getUint32
  let (fromAddr, reader) := reader.getUint32
  { flag, toAddr := ⟨toAddr⟩, fromAddr := ⟨fromAddr⟩, body := reader }

/-- The message for which a node other than the target takes a payload. -/
def Head.relayMessage (h : Head) (payload : Bytes) : RelayMessage :=
  newRelayMessage h.toAddr h.fromAddr payload

/-- The slice that `Decode` reads.  An empty payload leaves the last one in
place. -/
def SSCodec.held (ss : SSCodec V T P) (payload : Bytes) : Bytes := (ss.reader.reset payload).bs

theorem SSCodec.held_of_ne (ss : SSCodec V T P) {payload : Bytes} (hne : payload ≠ []) :
    ss.held payload = payload :=
  if_pos (List.length_pos_iff.mpr hne)

theorem decode_eq_held (ss : SSCodec V T P) (payload : Bytes) :
    (ss.decode payload).2 =
      if ss.selfAddr = (readHead (ss.held payload)).toAddr then
        (decodeBody ss (readHead (ss.held payload)).flag (readHead (ss.held payload)).toAddr
          (readHead (ss.held payload)).fromAddr (readHead (ss.held payload)).body).map .message
      else .value (.relay ((readHead (ss.held payload)).relayMessage payload)) := by
  have hreset : ss.reader.reset payload = { bs := ss.held payload } := rfl
  simp only [SSCodec.decode, hreset, SSCodec.isTarget, beq_iff_eq]
  rfl

theorem decode_eq (ss : SSCodec V T P) {payload : Bytes} (hne : payload ≠ []) :
    (ss.decode payload).2 =
      if ss.selfAddr = (readHead payload).toAddr then
        (decodeBody ss (readHead payload).flag (readHead payload).toAddr
          (readHead payload).fromAddr (readHead payload).body).map .message
      else .value (.relay ((readHead payload).relayMessage payload)) := by
  rw [decode_eq_held, ss.held_of_ne hne]

theorem decode_relay (ss : SSCodec V T P) {payload : Bytes} (hne : payload ≠ [])
    (haddr : ss.selfAddr ≠ (readHead payload).toAddr) :
    (ss.decode payload).2 = .value (.relay ((readHead payload).relayMessage payload)) := by
  rw [decode_eq ss hne, if_neg haddr]

/-- The four bytes at an offset, or zero when they are not all there. -/
def wordAt (payload : Bytes) (i : Nat) : UInt32 :=
  if i + 4 ≤ payload.length then UInt32.ofNat (decode ((payload.drop i).take 4)) else 0

/-- Where `Decode` goes on behind the header.  A field that is cut off is
not skipped, so the body of a short payload begins where that field did. -/
def bodyOffset (payload : Bytes) : Nat :=
  if payload.length < 5 then 1 else if payload.length < 9 then 5 else 9

theorem BufferReader.getUint32_eq (payload : Bytes) (i : Nat) :
    ({ bs := payload, offset := i } : BufferReader).getUint32 =
      (wordAt payload i,
        { bs := payload, offset := if i + 4 ≤ payload.length then i + 4 else i }) := by
  unfold getUint32 wordAt
  by_cases h : i + 4 ≤ payload.length
  · rw [if_neg (Nat.not_lt.mpr h), if_pos h, if_pos h]
  · rw [if_pos (Nat.lt_of_not_le h), if_neg h, if_neg h]

theorem readHead_eq {payload : Bytes} (hne : payload ≠ []) :
    readHead payload =
      { flag := payload.getD 0 0, toAddr := ⟨wordAt payload 1⟩, fromAddr := ⟨wordAt payload 5⟩,
        body := { bs := payload, offset := bodyOffset payload } } := by
  have hbyte : ({ bs := payload } : BufferReader).getByte =
      (payload.getD 0 0, { bs := payload, offset := 1 }) := by
    cases payload with
    | nil => exact absurd rfl hne
    | cons v rest => rfl
  simp only [readHead, hbyte, BufferReader.getUint32_eq]
  unfold bodyOffset
  by_cases hto : payload.length < 5
  · -- neither address is there
    have h1 : ¬ 1 + 4 ≤ payload.length := by omega
    have h5 : ¬ 5 + 4 ≤ payload.length := by omega
    simp only [if_neg h1, if_pos hto, wordAt, if_neg h5]
  · have h1 : 1 + 4 ≤ payload.length := by omega
    by_cases hfrom : payload.length < 9
    · have h5 : ¬ 5 + 4 ≤ payload.length := by omega
      simp only [if_pos h1, if_neg hto, if_pos hfrom, if_neg h5]
    · have h5 : 5 + 4 ≤ payload.length := by omega
      simp only [if_pos h1, if_neg hto, if_neg hfrom, if_pos h5]

/-- Flag and target of any slice. -/
theorem readHead_target (b : Bytes) :
    (readHead b).flag = b.getD 0 0 ∧ (readHead b).toAddr = ⟨wordAt b 1⟩ := by
  cases b with
  | nil => exact ⟨rfl, rfl⟩
  | cons v rest =>
    rw [readHead_eq (List.cons_ne_nil v rest)]
    exact ⟨rfl, rfl⟩

/-- A payload with a whole header. -/
theorem readHead_of_le {payload : Bytes} (h : 9 ≤ payload.length) :
    (readHead payload).flag = payload.getD 0 0 ∧
      (readHead payload).body = { bs := payload, offset := 9 } := by
  have hne : payload ≠ [] := List.ne_nil_of_length_pos (by omega)
  rw [readHead_eq hne, bodyOffset, if_neg (by omega), if_neg (by omega)]
  exact ⟨rfl, rfl⟩

/-- A payload without a whole header has hardly a body. -/
theorem readHead_of_lt {payload : Bytes} (hne : payload ≠ []) (h : payload.length < 9) :
    (readHead payload).body.getAll.length < 8 := by
  have hpos := List.length_pos_iff.mpr hne
  have hoffset : 1 ≤ bodyOffset payload := by
    unfold bodyOffset
    split_ifs <;> decide
  rw [readHead_eq hne, BufferReader.getAll, List.length_drop]
  show payload.length - bodyOffset payload < 8
  omega

/-! ## A body by its type -/

section Body

variable (ss : SSCodec V T P) {flag : UInt8} (toAddr fromAddr : LogicAddr) (r : BufferReader)

theorem decodeBody_of_bin (h : getMsgType flag = binMsg) :
    decodeBody ss flag toAddr fromAddr r =
      .value { toAddr, fromAddr, payload := .bytes r.getUint16.2.getAll, cmd := r.getUint16.1 } :=
  if_pos h

theorem decodeBody_of_pb_none (h : getMsgType flag = pbMsg) (hmeta : ss.pbMeta = none) :
    decodeBody ss flag toAddr fromAddr r = .panic := by
  have hbin : ¬ getMsgType flag = binMsg := by rw [h]; decide
  simp only [decodeBody, if_neg hbin, if_pos h, hmeta]

theorem decodeBody_of_pb {pbMeta : PbMeta T} (h : getMsgType flag = pbMsg)
    (hmeta : ss.pbMeta = some pbMeta) :
    decodeBody ss flag toAddr fromAddr r =
      .ofExcept (do
        let msg ← pbMeta.unmarshal ss.lib (UInt32.ofNat r.getUint16.1.toNat) r.getUint16.2.getAll
        return { toAddr, fromAddr, payload := .proto msg, cmd := r.getUint16.1 }) := by
  have hbin : ¬ getMsgType flag = binMsg := by rw [h]; decide
  simp only [decodeBody, if_neg hbin, if_pos h, hmeta]

theorem decodeBody_of_req (h : getMsgType flag = rpcReq) :
    decodeBody ss flag toAddr fromAddr r =
      .ofExcept (do
        let req ← decodeRequest r.getAll
        return { toAddr, fromAddr, payload := .request req }) := by
  have hbin : ¬ getMsgType flag = binMsg := by rw [h]; decide
  have hpb : ¬ getMsgType flag = pbMsg := by rw [h]; decide
  rw [decodeBody, if_neg hbin, if_neg hpb, if_pos h]

theorem decodeBody_of_resp (h : getMsgType flag = rpcResp) :
    decodeBody ss flag toAddr fromAddr r =
      .ofExcept (do
        let resp ← decodeResponse r.getAll
        return { toAddr, fromAddr, payload := .response resp }) := by
  have hbin : ¬ getMsgType flag = binMsg := by rw [h]; decide
  have hpb : ¬ getMsgType flag = pbMsg := by rw [h]; decide
  have hreq : ¬ getMsgType flag = rpcReq := by rw [h]; decide
  rw [decodeBody, if_neg hbin, if_neg hpb, if_neg hreq, if_pos h]

theorem decodeBody_of_other (hbin : getMsgType flag ≠ binMsg) (hpb : getMsgType flag ≠ pbMsg)
    (hreq : getMsgType flag ≠ rpcReq) (hresp : getMsgType flag ≠ rpcResp) :
    decodeBody ss flag toAddr fromAddr r = .error "invaild packet type" := by
  rw [decodeBody, if_neg hbin, if_neg hpb, if_neg hreq, if_neg hresp]

/-- The end of a parser that returns what it has read in a message. -/
theorem ofExcept_eq_value {α β : Type} {e : Except String α} {f : α → β} {b : β} :
    Outcome.ofExcept (do let a ← e; return f a) = .value b ↔ ∃ a, e = .ok a ∧ f a = b := by
  cases e with
  | error text => simp [Outcome.ofExcept]
  | ok a => simp [Outcome.ofExcept, pure, Except.pure]

variable (flag) in
/-- The message that a body was read as, and what was read. -/
inductive BodyRead : Message V P → Prop where
  | bin (htype : getMsgType flag = binMsg) :
      BodyRead { toAddr, fromAddr, payload := .bytes r.getUint16.2.getAll, cmd := r.getUint16.1 }
  | pb (htype : getMsgType flag = pbMsg) {pbMeta : PbMeta T} (hmeta : ss.pbMeta = some pbMeta)
      {msg : P} (hread : pbMeta.unmarshal ss.lib (UInt32.ofNat r.getUint16.1.toNat)
        r.getUint16.2.getAll = .ok msg) :
      BodyRead { toAddr, fromAddr, payload := .proto msg, cmd := r.getUint16.1 }
  | req (htype : getMsgType flag = rpcReq) {req : RequestMsg V}
      (hread : decodeRequest r.getAll = .ok req) :
      BodyRead { toAddr, fromAddr, payload := .request req }
  | resp (htype : getMsgType flag = rpcResp) {resp : ResponseMsg V}
      (hread : decodeResponse r.getAll = .ok resp) :
      BodyRead { toAddr, fromAddr, payload := .response resp }

variable {ss toAddr fromAddr r} in
theorem bodyRead_of_decodeBody {m : Message V P}
    (h : decodeBody ss flag toAddr fromAddr r = .value m) :
    BodyRead ss flag toAddr fromAddr r m := by
  by_cases hbin : getMsgType flag = binMsg
  · rw [decodeBody_of_bin _ _ _ _ hbin] at h
    obtain rfl := Outcome.value.inj h
    exact .bin hbin
  by_cases hpb : getMsgType flag = pbMsg
  · cases hmeta : ss.pbMeta with
    | none =>
      rw [decodeBody_of_pb_none _ _ _ _ hpb hmeta] at h
      cases h
    | some pbMeta =>
      rw [decodeBody_of_pb _ _ _ _ hpb hmeta] at h
      obtain ⟨msg, hread, rfl⟩ := ofExcept_eq_value.mp h
      exact .pb hpb hmeta hread
  by_cases hreq : getMsgType flag = rpcReq
  · rw [decodeBody_of_req _ _ _ _ hreq] at h
    obtain ⟨req, hread, rfl⟩ := ofExcept_eq_value.mp h
    exact .req hreq hread
  by_cases hresp : getMsgType flag = rpcResp
  · rw [decodeBody_of_resp _ _ _ _ hresp] at h
    obtain ⟨resp, hread, rfl⟩ := ofExcept_eq_value.mp h
    exact .resp hresp hread
  · rw [decodeBody_of_other _ _ _ _ hbin hpb hreq hresp] at h
    cases h

@[simp] theorem ofExcept_ne_panic {α : Type} (e : Except String α) :
    Outcome.ofExcept e ≠ .panic := by
  cases e <;> exact fun h => nomatch h

/-- A body panics only for a protobuf message without a registry. -/
theorem decodeBody_eq_panic_iff :
    decodeBody ss flag toAddr fromAddr r = .panic ↔
      getMsgType flag = pbMsg ∧ ss.pbMeta = none := by
  by_cases hpb : getMsgType flag = pbMsg
  · cases hmeta : ss.pbMeta with
    | none => simp [decodeBody_of_pb_none _ _ _ _ hpb hmeta, hpb]
    | some pbMeta => simp [decodeBody_of_pb _ _ _ _ hpb hmeta]
  by_cases hbin : getMsgType flag = binMsg
  · simp [decodeBody_of_bin _ _ _ _ hbin, hpb]
  by_cases hreq : getMsgType flag = rpcReq
  · simp [decodeBody_of_req _ _ _ _ hreq, hpb]
  by_cases hresp : getMsgType flag = rpcResp
  · simp [decodeBody_of_resp _ _ _ _ hresp, hpb]
  · simp [decodeBody_of_other _ _ _ _ hbin hpb hreq hresp, hpb]

end Body

/-! ## The request in a payload -/

/-- The request that a call of `Decode` returns. -/
def requestOf : Outcome (Decoded V P) → Option (RequestMsg V)
  | .value (.message m) =>
    match m.payload with
    | .request req => some req
    | _ => none
  | _ => none

theorem requestOf_decodeBody (ss : SSCodec V T P) (flag : UInt8) (toAddr fromAddr : LogicAddr)
    (r : BufferReader) :
    requestOf ((decodeBody ss flag toAddr fromAddr r).map .message) =
      if getMsgType flag = rpcReq then (decodeRequest r.getAll).toOption else none := by
  by_cases hreq : getMsgType flag = rpcReq
  · rw [if_pos hreq, decodeBody_of_req _ _ _ _ hreq]
    cases (decodeRequest r.getAll : Except String (RequestMsg V)) <;> rfl
  rw [if_neg hreq]
  by_cases hbin : getMsgType flag = binMsg
  · rw [decodeBody_of_bin _ _ _ _ hbin]
    rfl
  by_cases hpb : getMsgType flag = pbMsg
  · cases hmeta : ss.pbMeta with
    | none =>
      rw [decodeBody_of_pb_none _ _ _ _ hpb hmeta]
      rfl
    | some pbMeta =>
      rw [decodeBody_of_pb _ _ _ _ hpb hmeta]
      cases pbMeta.unmarshal ss.lib (UInt32.ofNat r.getUint16.1.toNat) r.getUint16.2.getAll <;>
        rfl
  by_cases hresp : getMsgType flag = rpcResp
  · rw [decodeBody_of_resp _ _ _ _ hresp]
    cases (decodeResponse r.getAll : Except String (ResponseMsg V)) <;> rfl
  · rw [decodeBody_of_other _ _ _ _ hbin hpb hreq hresp]
    rfl

theorem decodeRequest_of_lt {b : Bytes} (h : b.length < 8) :
    (decodeRequest b : Except String (RequestMsg V)) = .error errNotEnough := by
  rw [decodeRequest, readUint64, if_pos h]
  rfl

/-- Where a relay message has its request: the payload that it was made of
starts at the fifth byte. -/
theorem getRpcRequest_newRelayMessage (toAddr fromAddr : LogicAddr) (payload : Bytes) :
    ((newRelayMessage toAddr fromAddr payload).getRpcRequest : Option (RequestMsg V)) =
      if payload.length < 9 then none
      else if getMsgType (payload.getD 0 0) ≠ rpcReq then none
      else (decodeRequest (payload.drop 9)).toOption := by
  have hlen : (newRelayMessage toAddr fromAddr payload).payload.length < minSize ↔
      payload.length < 9 := by
    rw [newRelayMessage, List.length_append, encode_length, minSize]
    omega
  have hflag : (newRelayMessage toAddr fromAddr payload).payload.getD 4 0 = payload.getD 0 0 := by
    rw [newRelayMessage, List.getD_eq_getElem?_getD,
      List.getElem?_append_right (by rw [encode_length]), encode_length, Nat.sub_self,
      ← List.getD_eq_getElem?_getD]
  have hrest : (newRelayMessage toAddr fromAddr payload).payload.drop minSize =
      payload.drop 9 := by
    rw [newRelayMessage, minSize, List.drop_append, encode_length,
      List.drop_of_length_le (by rw [encode_length]; decide), List.nil_append]
  simp only [RelayMessage.getRpcRequest, hlen, hflag, hrest]

/-- The request that a relay node finds is the one that the target
decodes. -/
theorem getRpcRequest_eq {ss : SSCodec V T P} {payload : Bytes} (hne : payload ≠ [])
    (htarget : ss.selfAddr = (readHead payload).toAddr) :
    ((readHead payload).relayMessage payload).getRpcRequest =
      requestOf (ss.decode payload).2 := by
  rw [decode_eq ss hne, if_pos htarget, requestOf_decodeBody, Head.relayMessage,
    getRpcRequest_newRelayMessage]
  by_cases h : payload.length < 9
  · have hshort := decodeRequest_of_lt (V := V) (readHead_of_lt hne h)
    rw [if_pos h, hshort]
    exact (ite_self none).symm
  · obtain ⟨hflag, hbody⟩ := readHead_of_le (Nat.le_of_not_lt h)
    rw [if_neg h, hflag, hbody]
    exact ite_not ..

end ClusterGo.Codec
