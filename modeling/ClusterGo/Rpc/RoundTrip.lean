import ClusterGo.Rpc.Message

/-!
# The RPC body round trip

`EncodeRequest` and `EncodeResponse` cut each text at 65536 bytes and then
store its length in 16 bits, and they patch the length of the argument or
result in without any cut.  A field of 65536 bytes or more is therefore
written with a length that is short by a multiple of 65536, and the
decoder takes what follows for the next field.

`rpc_body_round_trip_iff` gives the exact border: the round trip works if
and only if none of the fields is longer than 65535 bytes.  One direction
reads the fields back one by one.  The other needs no look at the bytes:
a decoded field is never longer than 65535.
-/

namespace ClusterGo.Rpc

variable {V : Type}

/-- The request that the decoder should answer: the texts cut to the limit
of the encoder, and the bytes that the codec appended. -/
def requestOnWire (codec : Codec V) (dst : Bytes) (req : RequestMsg V) : RequestMsg V :=
  { req with
    method := req.method.take maxMethodLen
    userData := req.userData.take maxUserData
    arg := .bytes (requestArg codec dst req) }

/-- The response that the decoder should answer. -/
def responseOnWire (codec : Codec V) (dst : Bytes) (resp : ResponseMsg V) :
    ResponseMsg V :=
  { resp with
    err := resp.err.map fun e => { e with str := e.str.take maxErrStrLen }
    userData := resp.userData.take maxUserData
    ret := .bytes (responseRet codec dst resp) }

/-- No field of the request is longer than a 16-bit length can say. -/
def RequestFits (codec : Codec V) (dst : Bytes) (req : RequestMsg V) : Prop :=
  req.method.length ≤ 65535 ∧ req.userData.length ≤ 65535 ∧
    (requestArg codec dst req).length ≤ 65535

/-- No field of the response is longer than a 16-bit length can say. -/
def ResponseFits (codec : Codec V) (dst : Bytes) (resp : ResponseMsg V) : Prop :=
  resp.userData.length ≤ 65535 ∧ (∀ e, resp.err = some e → e.str.length ≤ 65535) ∧
    (responseRet codec dst resp).length ≤ 65535

/-- A request that fits is not changed by the cuts. -/
theorem requestOnWire_of_fits {codec : Codec V} {dst : Bytes} {req : RequestMsg V}
    (h : RequestFits codec dst req) :
    requestOnWire codec dst req = { req with arg := .bytes (requestArg codec dst req) } := by
  obtain ⟨hmethod, huser, _⟩ := h
  rw [requestOnWire, maxMethodLen, maxUserData, List.take_of_length_le (by omega),
    List.take_of_length_le (by omega)]

/-- A response that fits is not changed by the cuts. -/
theorem responseOnWire_of_fits {codec : Codec V} {dst : Bytes} {resp : ResponseMsg V}
    (h : ResponseFits codec dst resp) :
    responseOnWire codec dst resp =
      { resp with ret := .bytes (responseRet codec dst resp) } := by
  obtain ⟨huser, hstr, _⟩ := h
  have herr : (resp.err.map fun e => ({ e with str := e.str.take maxErrStrLen } : Error)) =
      resp.err := by
    cases he : resp.err with
    | none => rfl
    | some e =>
      have := hstr e he
      rw [Option.map_some, maxErrStrLen, List.take_of_length_le (by omega)]
  rw [responseOnWire, herr, maxUserData, List.take_of_length_le (by omega)]

/-- A field that is short after the cut was short before it. -/
theorem length_le_of_take_lt {v : Bytes} (h : (v.take 65536).length < 65536) :
    v.length ≤ 65535 := by
  rw [List.length_take] at h
  omega

/-- The request half of the round trip. -/
theorem request_round_trip_iff {codec : Codec V} (hcodec : codec.Appends)
    {dst b : Bytes} {req : RequestMsg V} (h : encodeRequest dst req codec = (b, none)) :
    decodeRequest (b.drop dst.length) = .ok (requestOnWire codec dst req) ↔
      RequestFits codec dst req := by
  rw [encodeRequest_eq hcodec h, List.drop_left]
  constructor
  · intro hdecode
    obtain ⟨hmethod, huser, arg, harg, hlen⟩ := decodeRequest_lengths hdecode
    obtain rfl : requestArg codec dst req = arg := Payload.bytes.inj harg
    exact ⟨length_le_of_take_lt hmethod, length_le_of_take_lt huser, by omega⟩
  · intro hfits
    obtain ⟨hmethod, huser, harg⟩ := id hfits
    rw [requestOnWire_of_fits hfits]
    exact decodeRequest_append (by omega) (by omega) (by omega)

/-- The response half of the round trip. -/
theorem response_round_trip_iff {codec : Codec V} (hcodec : codec.Appends)
    {dst b : Bytes} {resp : ResponseMsg V}
    (herr : ∃ code str, resp.err = newError code str)
    (h : encodeResponse dst resp codec = (b, none)) :
    decodeResponse (b.drop dst.length) = .ok (responseOnWire codec dst resp) ↔
      ResponseFits codec dst resp := by
  rw [encodeResponse_eq hcodec h, List.drop_left]
  constructor
  · intro hdecode
    obtain ⟨huser, hstr, ret, hret, hlen⟩ := decodeResponse_lengths hdecode
    obtain rfl : responseRet codec dst resp = ret := Payload.bytes.inj hret
    refine ⟨length_le_of_take_lt huser, ?_, by omega⟩
    intro e he
    refine length_le_of_take_lt (hstr { e with str := e.str.take maxErrStrLen } ?_)
    rw [responseOnWire, he, Option.map_some]
  · intro hfits
    obtain ⟨huser, hstr, hret⟩ := id hfits
    rw [responseOnWire_of_fits hfits]
    refine decodeResponse_append herr ?_ (by omega) (by omega)
    intro e he
    have := hstr e he
    omega

/-- The body of a request or response that was encoded without error
decodes to the same message, with the texts cut to the limit of the
encoder, if and only if every field fits a 16-bit length. -/
theorem rpc_body_round_trip_iff {codec : Codec V} (hcodec : codec.Appends) (dst : Bytes) :
    (∀ req b, encodeRequest dst req codec = (b, none) →
      (decodeRequest (b.drop dst.length) = .ok (requestOnWire codec dst req) ↔
        RequestFits codec dst req)) ∧
    (∀ resp b, (∃ code str, resp.err = newError code str) →
      encodeResponse dst resp codec = (b, none) →
      (decodeResponse (b.drop dst.length) = .ok (responseOnWire codec dst resp) ↔
        ResponseFits codec dst resp)) :=
  ⟨fun _ _ h => request_round_trip_iff hcodec h,
    fun _ _ herr h => response_round_trip_iff hcodec herr h⟩

/-! ## A concrete codec

`JsonCodec` on a text without characters that JSON escapes: the text in
quotes is appended. -/

/-- `JsonCodec.Encode` on plain texts. -/
def quoteCodec : Codec Bytes where
  encode dst
    | .object v => .ok (dst ++ ([34] ++ v ++ [34]))
    | _ => .error "unsupported"

theorem quoteCodec_appends : quoteCodec.Appends := by
  intro dst v b h
  cases v with
  | object v => exact ⟨_, Except.ok.inj h⟩
  | nil => cases h
  | bytes v => cases h

/-- The request of the source's own round-trip test: method `hello`, user
data `ud` and argument `arg-bytes`. -/
def helloRequest : RequestMsg Bytes :=
  { seq := 42, method := [104, 101, 108, 108, 111], userData := [117, 100],
    arg := .object [97, 114, 103, 45, 98, 121, 116, 101, 115], oneway := true }

theorem rpc_body_round_trip_hello :
    quoteCodec.Appends ∧
      (encodeRequest [9] helloRequest quoteCodec).2 = none ∧
      decodeRequest ((encodeRequest [9] helloRequest quoteCodec).1.drop 1) =
        .ok (requestOnWire quoteCodec [9] helloRequest) := by
  refine ⟨quoteCodec_appends, rfl, ?_⟩
  refine ((rpc_body_round_trip_iff quoteCodec_appends [9]).1 helloRequest _ rfl).mpr ?_
  refine ⟨?_, ?_, ?_⟩ <;> decide

/-- A method name of 65536 bytes, one more than a 16-bit length can say. -/
def longMethodRequest : RequestMsg Bytes :=
  { seq := 1, method := List.replicate 65536 97 }

/-- A method name of 65536 bytes is not cut by the encoder, and the decoder
does not answer it. -/
theorem rpc_body_round_trip_fails :
    (encodeRequest [] longMethodRequest quoteCodec).2 = none ∧
      decodeRequest ((encodeRequest [] longMethodRequest quoteCodec).1.drop 0) ≠
        .ok (requestOnWire quoteCodec [] longMethodRequest) := by
  refine ⟨rfl, fun h => ?_⟩
  have hlen := (decodeRequest_lengths h).1
  simp only [requestOnWire, longMethodRequest, maxMethodLen, List.length_take,
    List.length_replicate] at hlen
  omega

end ClusterGo.Rpc
