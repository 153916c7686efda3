import ClusterGo.Codec.SS
import ClusterGo.Lib.Framing

/-!
# What the frame codec puts on the wire

Every path of `Encode` for a message either leaves the slice as it was or
appends one frame, and never a frame larger than `MaxPacketSize`.
`encodeMessage_spec` says so for all five payload kinds at once and gives
the body of the frame.  The RPC codec and the protobuf library are only
assumed to append to the slice they are given.
-/

namespace ClusterGo.Codec

open BigEndian Framing Rpc

variable {V T P : Type}

/-! ## The header and the length -/

/-- Flag, target and sender. -/
def header (m : Message V P) (flag : UInt8) : Bytes :=
  flag :: (encode 4 m.toAddr.val.toNat ++ encode 4 m.fromAddr.val.toNat)

@[simp] theorem header_length (m : Message V P) (flag : UInt8) :
    (header m flag).length = 9 := by
  simp [header]

theorem appendSSHeader_eq (dst : Bytes) (m : Message V P) (flag : UInt8) :
    appendSSHeader dst m flag = (dst ++ [0, 0, 0, 0] ++ header m flag, dst.length) := by
  simp [appendSSHeader, appendUint32, header]

/-- One frame, or nothing when it would be larger than `MaxPacketSize`. -/
def frameOrNothing (maxPacketSize : Int) (dst body : Bytes) : Bytes × Nat :=
  if ((body.length + 4 : Nat) : Int) > maxPacketSize then (dst, 0)
  else (dst ++ frame body, body.length + 4)

/-- The length field holds the low 32 bits of a length. -/
theorem encode_word (n : Nat) : encode 4 (UInt32.ofNat n).toNat = encode 4 n := by
  rw [UInt32.toNat_ofNat', show (2 : Nat) ^ 32 = 256 ^ 4 by rfl, encode_mod (Nat.le_refl 4)]

theorem newRelayMessage_payload (toAddr fromAddr : LogicAddr) (payload : Bytes) :
    (newRelayMessage toAddr fromAddr payload).payload = frame payload := by
  rw [newRelayMessage, encode_word]
  rfl

theorem finalizeFrame_eq (maxPacketSize : Int) (dst body : Bytes) :
    finalizeFrame maxPacketSize (dst ++ [0, 0, 0, 0] ++ body) dst.length =
      frameOrNothing maxPacketSize dst body := by
  have hlen : (dst ++ [0, 0, 0, 0] ++ body).length - dst.length = body.length + 4 := by
    simp only [List.length_append, List.length_cons, List.length_nil]
    omega
  have htake : (dst ++ [0, 0, 0, 0] ++ body).take dst.length = dst := by
    rw [List.append_assoc, List.take_left]
  simp only [finalizeFrame, frameOrNothing, hlen, htake, sizeLen, Nat.add_sub_cancel,
    encode_word]
  rw [patch_append dst [0, 0, 0, 0] _ body (by simp), List.append_assoc]
  rfl

theorem frameOrNothing_cases {maxPacketSize : Int} {dst body b : Bytes} {n : Nat}
    (h : frameOrNothing maxPacketSize dst body = (b, n)) :
    (b = dst ∧ n = 0) ∨
      (b = dst ++ frame body ∧ n = body.length + 4 ∧ (n : Int) ≤ maxPacketSize) := by
  unfold frameOrNothing at h
  split at h
  · obtain ⟨rfl, rfl⟩ := Prod.mk.inj h
    exact Or.inl ⟨rfl, rfl⟩
  · obtain ⟨rfl, rfl⟩ := Prod.mk.inj h
    exact Or.inr ⟨rfl, rfl, by omega⟩

/-! ## The RPC encoders keep the slice they are given -/

theorem writeMessage_extends {codec : Codec V} (hcodec : codec.Appends) {b b' : Bytes}
    {v : Payload V} {err : Option String} (h : writeMessage b codec v = (b', err)) :
    b <+: b' := by
  cases err with
  | none =>
    rw [writeMessage_eq hcodec h, List.append_assoc]
    exact List.prefix_append _ _
  | some err =>
    unfold writeMessage at h
    split at h
    · cases h
    · dsimp only at h
      split at h
      · obtain ⟨rfl, _⟩ := Prod.mk.inj h
        exact List.prefix_append _ _
      · cases h

/-! ## The body of a message -/

/-- The slice that the body of a message is appended to. -/
def bodyStart (dst : Bytes) (m : Message V P) (flag : UInt8) : Bytes :=
  dst ++ [0, 0, 0, 0] ++ header m flag

/-- The body of a request frame. -/
def requestBody (ss : SSCodec V T P) (dst : Bytes) (m : Message V P) (req : RequestMsg V) :
    Bytes :=
  header m rpcReq ++
    (requestHead req ++ bodyField (requestArg ss.rpcCodec (bodyStart dst m rpcReq) req))

/-- The body of a response frame. -/
def responseBody (ss : SSCodec V T P) (dst : Bytes) (m : Message V P) (resp : ResponseMsg V) :
    Bytes :=
  header m rpcResp ++
    (responseHead resp ++ bodyField (responseRet ss.rpcCodec (bodyStart dst m rpcResp) resp))

/-- `body` is what `Encode` puts into the frame of `m` behind `dst`. -/
def BodyOf (ss : SSCodec V T P) (dst : Bytes) (m : Message V P) (body : Bytes) : Prop :=
  match m.payload with
  | .bytes msg => msg ≠ [] ∧ body = header m binMsg ++ (encode 2 m.cmd.toNat ++ msg)
  | .proto _ => ∃ cmd out : Bytes, cmd.length = 2 ∧ body = header m pbMsg ++ (cmd ++ out)
  | .request req => body = requestBody ss dst m req
  | .response resp => body = responseBody ss dst m resp
  | .other => False

/-- A body is at least a header. -/
theorem BodyOf.length_ge {ss : SSCodec V T P} {dst body : Bytes} {m : Message V P}
    (h : BodyOf ss dst m body) : 9 ≤ body.length := by
  unfold BodyOf at h
  split at h
  · rw [h.2, List.length_append, header_length]
    omega
  · obtain ⟨cmd, out, _, rfl⟩ := h
    rw [List.length_append, header_length]
    omega
  · rw [h, requestBody, List.length_append, header_length]
    omega
  · rw [h, responseBody, List.length_append, header_length]
    omega
  · exact h.elim

/-- How `Encode` of a message ends: nothing is appended, or exactly one
frame that fits `MaxPacketSize`. -/
def Encodes (maxPacketSize : Int) (ss : SSCodec V T P) (dst : Bytes) (m : Message V P)
    (b : Bytes) (n : Nat) : Prop :=
  (b = dst ∧ n = 0) ∨ ∃ body, BodyOf ss dst m body ∧ b = dst ++ frame body ∧
    n = body.length + 4 ∧ (n : Int) ≤ maxPacketSize

section Encode

variable {maxPacketSize : Int} {ss : SSCodec V T P} {dst b : Bytes} {n : Nat}
  {m : Message V P}

theorem encodes_nothing (h : (dst, 0) = (b, n)) : Encodes maxPacketSize ss dst m b n :=
  Or.inl ⟨(Prod.mk.inj h).1.symm, (Prod.mk.inj h).2.symm⟩

theorem encodes_frame {body : Bytes} (hbody : BodyOf ss dst m body)
    (h : finalizeFrame maxPacketSize (dst ++ [0, 0, 0, 0] ++ body) dst.length = (b, n)) :
    Encodes maxPacketSize ss dst m b n := by
  rw [finalizeFrame_eq] at h
  rcases frameOrNothing_cases h with hnone | ⟨hb, hn, hmax⟩
  · exact Or.inl hnone
  · exact Or.inr ⟨body, hbody, hb, hn, hmax⟩

/-- The two RPC cases.  A codec error sends nothing: the slice is cut back
to the mark, and what the encoder has written starts behind it. -/
theorem encodes_rpc {body b' : Bytes} {flag : UInt8} {err : Option String}
    (hbody : BodyOf ss dst m body) (hfirst : bodyStart dst m flag <+: b')
    (hok : err = none → b' = dst ++ [0, 0, 0, 0] ++ body)
    (h : finishRpc maxPacketSize dst.length (b', err) = (b, n)) :
    Encodes maxPacketSize ss dst m b n := by
  cases err with
  | none =>
    rw [finishRpc, hok rfl] at h
    exact encodes_frame hbody h
  | some err =>
    obtain ⟨rest, rfl⟩ := hfirst
    rw [finishRpc, bodyStart, List.append_assoc, List.append_assoc, List.take_left] at h
    exact encodes_nothing h

theorem encodes_request (hcodec : ss.rpcCodec.Appends) {req : RequestMsg V}
    (hp : m.payload = .request req)
    (h : finishRpc maxPacketSize dst.length
      (encodeRequest (bodyStart dst m rpcReq) req ss.rpcCodec) = (b, n)) :
    Encodes maxPacketSize ss dst m b n := by
  obtain ⟨⟨b', err⟩, henc⟩ : ∃ r, encodeRequest (bodyStart dst m rpcReq) req ss.rpcCodec = r :=
    ⟨_, rfl⟩
  have hfirst : bodyStart dst m rpcReq ++ requestHead req <+: b' := by
    rw [encodeRequest_eq_writeMessage] at henc
    exact writeMessage_extends hcodec henc
  rw [henc] at h
  have hbody : BodyOf ss dst m (requestBody ss dst m req) := by
    simp only [BodyOf, hp]
  refine encodes_rpc hbody ((List.prefix_append _ _).trans hfirst) ?_ h
  intro hnone
  rw [hnone] at henc
  rw [encodeRequest_eq hcodec henc, requestBody, bodyStart, List.append_assoc]

theorem encodes_response (hcodec : ss.rpcCodec.Appends) {resp : ResponseMsg V}
    (hp : m.payload = .response resp)
    (h : finishRpc maxPacketSize dst.length
      (encodeResponse (bodyStart dst m rpcResp) resp ss.rpcCodec) = (b, n)) :
    Encodes maxPacketSize ss dst m b n := by
  obtain ⟨⟨b', err⟩, henc⟩ :
      ∃ r, encodeResponse (bodyStart dst m rpcResp) resp ss.rpcCodec = r := ⟨_, rfl⟩
  have hfirst : bodyStart dst m rpcResp ++ responseHead resp <+: b' := by
    rw [encodeResponse_eq_writeMessage] at henc
    exact writeMessage_extends hcodec henc
  rw [henc] at h
  have hbody : BodyOf ss dst m (responseBody ss dst m resp) := by
    simp only [BodyOf, hp]
  refine encodes_rpc hbody ((List.prefix_append _ _).trans hfirst) ?_ h
  intro hnone
  rw [hnone] at henc
  rw [encodeResponse_eq hcodec henc, responseBody, bodyStart, List.append_assoc]

/-- The slice that a protobuf message is marshalled behind. -/
def protoStart (dst : Bytes) (m : Message V P) : Bytes :=
  appendUint16 (bodyStart dst m pbMsg) 0

/-- The body of a protobuf frame: the command holds the low 16 bits of the
id. -/
def protoBody (m : Message V P) (id : UInt32) (out : Bytes) : Bytes :=
  header m pbMsg ++ (encode 2 (UInt16.ofNat id.toNat).toNat ++ out)

/-- The protobuf case: nothing for a message that `Marshal` refuses, and
else the frame of its id and its bytes. -/
theorem encodeMessage_proto (hlib : ss.lib.Appends) {msg : P} (hp : m.payload = .proto msg)
    {pbMeta : PbMeta T} (hmeta : ss.pbMeta = some pbMeta) :
    encodeMessage maxPacketSize ss dst m = some (dst, 0) ∨
      ∃ id out, pbMeta.marshal ss.lib (protoStart dst m) msg = .ok (protoStart dst m ++ out, id) ∧
        encodeMessage maxPacketSize ss dst m =
          some (frameOrNothing maxPacketSize dst (protoBody m id out)) := by
  have hflag : setMsgType 0 pbMsg = pbMsg := rfl
  unfold encodeMessage
  simp only [appendSSHeader_eq, hp, hmeta, hflag, Option.map_some, ← bodyStart.eq_def,
    ← protoStart.eq_def]
  cases hmarshal : pbMeta.marshal ss.lib (protoStart dst m) msg with
  | error text =>
    refine Or.inl (congrArg some (Prod.ext ?_ rfl))
    rw [protoStart, appendUint16, bodyStart, List.append_assoc, List.append_assoc]
    exact List.take_left
  | ok p =>
    obtain ⟨b', id⟩ := p
    obtain ⟨out, rfl⟩ := PbMeta.marshal_append hlib hmarshal
    refine Or.inr ⟨id, out, rfl, ?_⟩
    dsimp only
    rw [← finalizeFrame_eq, protoBody, protoStart, appendUint16, patch_append _ _ _ _ (by simp),
      bodyStart, List.append_assoc, List.append_assoc]

theorem encodes_proto (hlib : ss.lib.Appends) {msg : P} (hp : m.payload = .proto msg)
    {pbMeta : PbMeta T} (hmeta : ss.pbMeta = some pbMeta)
    (h : encodeMessage maxPacketSize ss dst m = some (b, n)) :
    Encodes maxPacketSize ss dst m b n := by
  rcases encodeMessage_proto hlib hp hmeta with hnone | ⟨id, out, _, hframe⟩
  · rw [hnone] at h
    exact encodes_nothing (Option.some.inj h)
  · rw [hframe, ← finalizeFrame_eq] at h
    refine encodes_frame ?_ (Option.some.inj h)
    simp only [BodyOf, hp]
    exact ⟨_, out, encode_length 2 _, rfl⟩

/-- `Encode` of a message appends nothing or exactly one frame that fits
`MaxPacketSize`.  The protobuf library matters for protobuf payloads
only. -/
theorem encodeMessage_spec (hcodec : ss.rpcCodec.Appends)
    (hlib : ∀ msg, m.payload = .proto msg → ss.lib.Appends)
    (h : encodeMessage maxPacketSize ss dst m = some (b, n)) :
    Encodes maxPacketSize ss dst m b n := by
  cases hp : m.payload with
  | bytes msg =>
    simp only [encodeMessage, appendSSHeader_eq, hp] at h
    split at h
    · exact encodes_nothing (Option.some.inj h)
    · rename_i hne
      rw [appendUint16, List.append_assoc, List.append_assoc] at h
      refine encodes_frame ?_ (Option.some.inj h)
      simp only [BodyOf, hp]
      exact ⟨fun h0 => hne (by simp [h0]), rfl⟩
  | proto msg =>
    cases hmeta : ss.pbMeta with
    | none => simp [encodeMessage, hp, hmeta] at h
    | some pbMeta => exact encodes_proto (hlib msg hp) hp hmeta h
  | request req =>
    simp only [encodeMessage, appendSSHeader_eq, hp] at h
    exact encodes_request hcodec hp (Option.some.inj h)
  | response resp =>
    simp only [encodeMessage, appendSSHeader_eq, hp] at h
    exact encodes_response hcodec hp (Option.some.inj h)
  | other =>
    simp only [encodeMessage, hp] at h
    exact encodes_nothing (Option.some.inj h)

end Encode

end ClusterGo.Codec
