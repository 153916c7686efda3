import ClusterGo.Codec.Frame
import ClusterGo.Codec.Payload
import ClusterGo.Rpc.RoundTrip

/-!
# The frame round trip

A frame that `Encode` appends is decoded by its target to the message that
was encoded.  The lengths inside an RPC body are stored in 16 bits and wrap
silently, so the body alone does not survive every round trip.  The frame
does: `Encode` sends nothing above `MaxPacketSize`, every inner field is
part of the frame, and with `MaxPacketSize ≤ 65535` no field can be long
enough to wrap.

`decode_header_append` is the first step: `Decode` reads flag, target and
sender back and goes on with the body, or wraps the payload for a relay.
-/

namespace ClusterGo.Codec

open BigEndian Framing Rpc

variable {V T P : Type}

/-! ## Decoding what starts with a header -/

/-- `Decode` reads the header back and goes on with the rest. -/
theorem decode_header_append (ss : SSCodec V T P) (m : Message V P) (flag : UInt8)
    (rest : Bytes) :
    ∃ r : BufferReader, r.Reads rest ∧
      (ss.decode (header m flag ++ rest)).2 =
        if ss.selfAddr = m.toAddr then
          (decodeBody ss flag m.toAddr m.fromAddr r).map .message
        else .value (.relay (newRelayMessage m.toAddr m.fromAddr (header m flag ++ rest))) := by
  have hreset := BufferReader.reads_reset ss.reader
    (show header m flag ++ rest ≠ [] by simp [header])
  obtain ⟨r₁, hflag, hr₁⟩ := BufferReader.Reads.getByte hreset
  rw [List.append_eq, List.append_assoc] at hr₁
  obtain ⟨r₂, hto, hr₂⟩ := hr₁.getUint32
  obtain ⟨r₃, hfrom, hr₃⟩ := hr₂.getUint32
  refine ⟨r₃, hr₃, ?_⟩
  simp only [SSCodec.decode, hflag, hto, hfrom, SSCodec.isTarget, beq_iff_eq]

/-- `Decode` at the target, for each body that `Encode` can produce. -/
theorem decode_at_target {ss : SSCodec V T P} {m : Message V P} (hself : ss.selfAddr = m.toAddr)
    {flag : UInt8} {rest : Bytes} {m' : Message V P}
    (hbody : ∀ r : BufferReader, r.Reads rest →
      decodeBody ss flag m.toAddr m.fromAddr r = .value m') :
    (ss.decode (header m flag ++ rest)).2 = .value (.message m') := by
  obtain ⟨r, hr, hdecode⟩ := decode_header_append ss m flag rest
  rw [hdecode, if_pos hself, hbody r hr]
  rfl

theorem decodeBody_bytes (ss : SSCodec V T P) (toAddr fromAddr : LogicAddr) (cmd : UInt16)
    (msg : Bytes) {r : BufferReader} (hr : r.Reads (encode 2 cmd.toNat ++ msg)) :
    decodeBody ss binMsg toAddr fromAddr r =
      .value { toAddr, fromAddr, payload := .bytes msg, cmd } := by
  obtain ⟨r', hcmd, hr'⟩ := hr.getUint16
  rw [decodeBody_of_bin _ _ _ _ rfl, hcmd, hr'.getAll]

theorem decodeBody_request (ss : SSCodec V T P) (toAddr fromAddr : LogicAddr)
    {rest : Bytes} {req : RequestMsg V} (hreq : decodeRequest rest = .ok req)
    {r : BufferReader} (hr : r.Reads rest) :
    decodeBody ss rpcReq toAddr fromAddr r =
      .value { toAddr, fromAddr, payload := .request req } := by
  rw [decodeBody_of_req _ _ _ _ rfl, hr.getAll, hreq]
  rfl

theorem decodeBody_response (ss : SSCodec V T P) (toAddr fromAddr : LogicAddr)
    {rest : Bytes} {resp : ResponseMsg V} (hresp : decodeResponse rest = .ok resp)
    {r : BufferReader} (hr : r.Reads rest) :
    decodeBody ss rpcResp toAddr fromAddr r =
      .value { toAddr, fromAddr, payload := .response resp } := by
  rw [decodeBody_of_resp _ _ _ _ rfl, hr.getAll, hresp]
  rfl

/-! ## A small frame has small fields -/

theorem length_bytesField_ge {v : Bytes} (h : (bytesField v).length < 65536) :
    v.length < 65536 ∧ (bytesField v).length = v.length + 2 := by
  rw [bytesField, List.length_append, encode_length, List.length_take] at h ⊢
  omega

theorem length_bodyField (body : Bytes) : (bodyField body).length = body.length + 2 := by
  rw [bodyField, List.length_append, encode_length, Nat.add_comm]

/-- The fields of a request whose body is below 65536 bytes do not wrap. -/
theorem request_fields_lt {req : RequestMsg V} {arg : Bytes}
    (h : (requestHead req ++ bodyField arg).length < 65536) :
    req.method.length < 65536 ∧ req.userData.length < 65536 ∧ arg.length < 65536 := by
  rw [List.length_append, length_bodyField, requestHead, List.length_append,
    List.length_append] at h
  refine ⟨(length_bytesField_ge ?_).1, (length_bytesField_ge ?_).1, ?_⟩ <;> omega

/-- The fields of a response whose body is below 65536 bytes do not wrap. -/
theorem response_fields_lt {resp : ResponseMsg V} {ret : Bytes}
    (h : (responseHead resp ++ bodyField ret).length < 65536) :
    resp.userData.length < 65536 ∧ (∀ e, resp.err = some e → e.str.length < 65536) ∧
      ret.length < 65536 := by
  rw [List.length_append, length_bodyField, responseHead, List.length_append,
    List.length_append] at h
  refine ⟨(length_bytesField_ge ?_).1, ?_, ?_⟩
  · omega
  · intro e he
    apply (length_bytesField_ge _).1
    rw [he, errorField, List.length_append] at h
    omega
  · omega

/-! ## The round trip -/

/-- The payloads of the round trip: a byte slice, a request, or a response
whose error is nil or was built by `NewError`. -/
def RoundTrips : SSPayload V P → Prop
  | .bytes _ => True
  | .request _ => True
  | .response resp => ∃ code str, resp.err = newError code str
  | _ => False

/-- The message as its target sees it: the same addresses and payload, with
the bytes that the RPC codec produced in the place of an argument or a
result.  Only a byte slice travels with its command. -/
def messageOnWire (ss : SSCodec V T P) (dst : Bytes) (m : Message V P) : Message V P :=
  match m.payload with
  | .request req =>
    { m with
      payload := .request
        { req with arg := .bytes (requestArg ss.rpcCodec (bodyStart dst m rpcReq) req) }
      cmd := 0 }
  | .response resp =>
    { m with
      payload := .response
        { resp with ret := .bytes (responseRet ss.rpcCodec (bodyStart dst m rpcResp) resp) }
      cmd := 0 }
  | _ => m

/-- The target decodes the body of a frame below 65536 bytes. -/
theorem decode_body {ss dec : SSCodec V T P} {dst body : Bytes} {m : Message V P}
    (hself : dec.selfAddr = m.toAddr) (hm : RoundTrips m.payload)
    (hbody : BodyOf ss dst m body) (hlen : body.length < 65536) :
    (dec.decode body).2 = .value (.message (messageOnWire ss dst m)) := by
  obtain ⟨toAddr, fromAddr, payload, cmd⟩ := m
  cases payload with
  | bytes msg =>
    obtain ⟨_, rfl⟩ := hbody
    exact decode_at_target hself fun r hr => decodeBody_bytes dec toAddr fromAddr cmd msg hr
  | proto msg => exact hm.elim
  | request req =>
    obtain rfl := hbody
    rw [requestBody, List.length_append, header_length] at hlen
    obtain ⟨hmethod, huser, harg⟩ := request_fields_lt (Nat.lt_of_add_left_lt hlen)
    exact decode_at_target hself fun r hr => decodeBody_request dec toAddr fromAddr
      (decodeRequest_append hmethod huser harg) hr
  | response resp =>
    obtain rfl := hbody
    rw [responseBody, List.length_append, header_length] at hlen
    obtain ⟨huser, hstr, hret⟩ := response_fields_lt (Nat.lt_of_add_left_lt hlen)
    exact decode_at_target hself fun r hr => decodeBody_response dec toAddr fromAddr
      (decodeResponse_append hm hstr huser hret) hr
  | other => exact hm.elim

/-- When `Encode` appends something, it appends one frame of at most
`MaxPacketSize` bytes whose first four bytes are the length of the rest,
and the target decodes the rest to the same message. -/
theorem frame_round_trip {maxPacketSize : Int} (hmax : maxPacketSize ≤ 65535)
    {ss dec : SSCodec V T P} (hcodec : ss.rpcCodec.Appends) {m : Message V P}
    (hm : RoundTrips m.payload) (hself : dec.selfAddr = m.toAddr)
    {dst b : Bytes} {n : Nat} (hencode : ss.encode maxPacketSize dst (.message m) = some (b, n))
    (hn : 0 < n) :
    ∃ f : Bytes, b = dst ++ f ∧ f.length = n ∧ (n : Int) ≤ maxPacketSize ∧
      f.take 4 = encode 4 (n - 4) ∧
      (dec.decode (f.drop 4)).2 = .value (.message (messageOnWire ss dst m)) := by
  have hproto : ∀ msg, m.payload = .proto msg → ss.lib.Appends := by
    intro msg hp
    rw [hp] at hm
    exact hm.elim
  rcases encodeMessage_spec hcodec hproto hencode with
    ⟨_, hzero⟩ | ⟨body, hbody, hb, hlen, hle⟩
  · omega
  · refine ⟨frame body, hb, ?_, hle, ?_, ?_⟩
    · rw [frame_length, hlen]
    · rw [frame_take, hlen, Nat.add_sub_cancel]
    · rw [frame_drop]
      exact decode_body hself hm hbody (by omega)

/-! ## The request of the source's test on the wire -/

/-- No message type is registered. -/
def noProto : ProtoLib Empty Empty where
  typeOf := Empty.elim
  name := Empty.elim
  new := Empty.elim
  marshalAppend := fun _ => Empty.elim
  unmarshal := fun _ => Empty.elim

def quoteSSCodec (selfAddr : LogicAddr) : SSCodec Bytes Empty Empty :=
  { selfAddr, rpcCodec := quoteCodec, pbMeta := none, lib := noProto }

/-- `1.1.1` sends `helloRequest` to `1.1.2`. -/
def helloMessage : Message Bytes Empty :=
  { toAddr := ⟨263170⟩, fromAddr := ⟨263169⟩, payload := .request helloRequest }

theorem frame_round_trip_hello :
    ∃ b n, (quoteSSCodec ⟨263169⟩).encode 4096 [9] (.message helloMessage) = some (b, n) ∧
      0 < n ∧ ∃ f : Bytes, b = [9] ++ f ∧ f.length = n ∧ (n : Int) ≤ 4096 ∧
        f.take 4 = encode 4 (n - 4) ∧
        ((quoteSSCodec ⟨263170⟩).decode (f.drop 4)).2 =
          .value (.message (messageOnWire (quoteSSCodec ⟨263169⟩) [9] helloMessage)) := by
  refine ⟨_, _, rfl, by decide, ?_⟩
  have hm : RoundTrips helloMessage.payload := trivial
  exact frame_round_trip (by decide) quoteCodec_appends hm rfl rfl (by decide)

end ClusterGo.Codec
