import ClusterGo.Rpc.Bytes
import ClusterGo.Lib.Fallible

/-!
# RPC messages on the wire

`rpc/rpc.go`: the error value, the request and the response, and the four
functions that write and read them.

* A request is the sequence number, the oneway flag, the method name, the
  user data and the argument.
* A response is the sequence number, the user data, the error code, the
  error text when the code is not zero, and the result.

The method, the user data, the error text, the argument and the result
each have a 16-bit length in front of them.

`EncodeRequest` and `EncodeResponse` also store the shortened user data
back into the message.  A second encoding shortens it the same way, so the
model leaves the message alone.  The codec that the decoders stash on the
message for a later `decodeInto` is an argument of that function here.
-/

namespace ClusterGo.Rpc

open BigEndian Fallible

variable {V : Type}

/-! ## Errors -/

/-- `rpc.Error`. -/
structure Error where
  code : Int
  str : Bytes
deriving DecidableEq, Repr

def errOk : Int := 0
def errInvaildMethod : Int := 1
def errTimeout : Int := 2
def errCancel : Int := 3
def errMethod : Int := 4
def errOther : Int := 5
def errServiceUnavaliable : Int := 6
def errBusy : Int := 7
def errEnd : Int := 8

/-- `rpc.NewError`: nil for a code outside the table. -/
def newError (code : Int) (err : Bytes) : Option Error :=
  if code ≤ errOk ∨ code ≥ errEnd then none else some ⟨code, err⟩

theorem newError_of_range {code : Int} (h : errOk < code ∧ code < errEnd) (str : Bytes) :
    newError code str = some ⟨code, str⟩ := by
  rw [newError, if_neg]
  intro hout
  omega

theorem newError_eq_some {code : Int} {str : Bytes} {e : Error}
    (h : newError code str = some e) : (errOk < code ∧ code < errEnd) ∧ e = ⟨code, str⟩ := by
  obtain ⟨hrange, h⟩ := Option.ite_none_left_eq_some.mp h
  exact ⟨by omega, (Option.some_inj.mp h).symm⟩

/-! ## Messages -/

/-- `rpc.RequestMsg`. -/
structure RequestMsg (V : Type) where
  seq : UInt64
  method : Bytes := []
  arg : Payload V := .nil
  userData : Bytes := []
  oneway : Bool := false
deriving DecidableEq, Repr

/-- `rpc.ResponseMsg`. -/
structure ResponseMsg (V : Type) where
  seq : UInt64
  err : Option Error := none
  ret : Payload V := .nil
  userData : Bytes := []
deriving DecidableEq, Repr

def maxUserData : Nat := 65536
def maxMethodLen : Nat := 65536
def maxErrStrLen : Nat := 65536

/-- Keep at most `limit` bytes, as the encoders do with each text. -/
def truncate (limit : Nat) (v : Bytes) : Bytes :=
  if v.length > limit then v.take limit else v

/-- `rpc.EncodeRequest`: the new slice and the error of the codec. -/
def encodeRequest (dst : Bytes) (req : RequestMsg V) (codec : Codec V) :
    Bytes × Option String :=
  let method := truncate maxMethodLen req.method
  let userData := truncate maxUserData req.userData
  let b := writeUint64 dst req.seq
  let b := writeBool b req.oneway
  let b := writeBytes b method
  let b := writeBytes b userData
  writeMessage b codec req.arg

/-- `rpc.DecodeRequest`. -/
def decodeRequest (buff : Bytes) : Except String (RequestMsg V) := do
  let (seq, b) ← readUint64 buff
  let (oneway, b) ← readBool b
  let (method, b) ← readString b
  let (userData, b) ← readBytes b
  let (arg, _) ← readBytes b
  return { seq, oneway, method, userData, arg := .bytes arg }

/-- `rpc.EncodeResponse`. -/
def encodeResponse (dst : Bytes) (resp : ResponseMsg V) (codec : Codec V) :
    Bytes × Option String :=
  let userData := truncate maxUserData resp.userData
  let b := writeUint64 dst resp.seq
  let b := writeBytes b userData
  let b := match resp.err with
    | some e =>
      let b := writeUint16 b (UInt16.ofInt e.code)
      writeBytes b (truncate maxErrStrLen e.str)
    | none => writeUint16 b 0
  writeMessage b codec resp.ret

/-- The error part of `rpc.DecodeResponse`: a code, and its text unless the
code is zero. -/
def readError (b : Bytes) : Except String (Option Error × Bytes) := do
  let (errCode, b) ← readUint16 b
  if errCode ≠ 0 then
    let (errStr, b) ← readString b
    return (newError errCode.toNat errStr, b)
  else return (none, b)

/-- `rpc.DecodeResponse`. -/
def decodeResponse (buff : Bytes) : Except String (ResponseMsg V) := do
  let (seq, b) ← readUint64 buff
  let (userData, b) ← readBytes b
  let (err, b) ← readError b
  let (ret, _) ← readBytes b
  return { seq, err, userData, ret := .bytes ret }

/-! ## What the encoders append -/

theorem truncate_eq (limit : Nat) (v : Bytes) : truncate limit v = v.take limit := by
  unfold truncate
  split
  · rfl
  · exact (List.take_of_length_le (by omega)).symm

theorem bytesField_take (v : Bytes) : bytesField (v.take 65536) = bytesField v := by
  rw [bytesField, List.length_take, List.take_take, Nat.min_self, bytesField,
    Nat.min_eq_left (Nat.min_le_left _ _), Nat.min_comm]

/-- The fields of a request in front of the argument. -/
def requestHead (req : RequestMsg V) : Bytes :=
  encode 8 req.seq.toNat ++ [if req.oneway then 1 else 0] ++
    bytesField req.method ++ bytesField req.userData

/-- The bytes the codec appends for the argument of a request that is
encoded behind `dst`. -/
def requestArg (codec : Codec V) (dst : Bytes) (req : RequestMsg V) : Bytes :=
  messageBody codec (dst ++ requestHead req) req.arg

/-- The error part of a response. -/
def errorField : Option Error → Bytes
  | some e => encode 2 (UInt16.ofInt e.code).toNat ++ bytesField e.str
  | none => encode 2 0

/-- The fields of a response in front of the result. -/
def responseHead (resp : ResponseMsg V) : Bytes :=
  encode 8 resp.seq.toNat ++ bytesField resp.userData ++ errorField resp.err

/-- The bytes the codec appends for the result of a response that is
encoded behind `dst`. -/
def responseRet (codec : Codec V) (dst : Bytes) (resp : ResponseMsg V) : Bytes :=
  messageBody codec (dst ++ responseHead resp) resp.ret

/-- A 16-bit length and a body. -/
def bodyField (body : Bytes) : Bytes := encode 2 (body.length % 65536) ++ body

theorem encodeRequest_eq_writeMessage (dst : Bytes) (req : RequestMsg V)
    (codec : Codec V) :
    encodeRequest dst req codec = writeMessage (dst ++ requestHead req) codec req.arg := by
  simp only [encodeRequest, truncate_eq, maxMethodLen, maxUserData, writeBytes_eq,
    bytesField_take, writeUint64, writeBool, requestHead, List.append_assoc]

theorem encodeResponse_eq_writeMessage (dst : Bytes) (resp : ResponseMsg V)
    (codec : Codec V) :
    encodeResponse dst resp codec = writeMessage (dst ++ responseHead resp) codec resp.ret := by
  cases herr : resp.err with
  | none =>
    simp [encodeResponse, herr, truncate_eq, maxUserData, writeBytes_eq,
      bytesField_take, writeUint64, writeUint16, responseHead, errorField]
  | some e =>
    simp [encodeResponse, herr, truncate_eq, maxUserData, maxErrStrLen, writeBytes_eq,
      bytesField_take, writeUint64, writeUint16, responseHead, errorField]

/-- A request that is encoded without error is `dst`, the head and the
argument field. -/
theorem encodeRequest_eq {codec : Codec V} (hcodec : codec.Appends) {dst b : Bytes}
    {req : RequestMsg V} (h : encodeRequest dst req codec = (b, none)) :
    b = dst ++ (requestHead req ++ bodyField (requestArg codec dst req)) := by
  rw [encodeRequest_eq_writeMessage] at h
  rw [writeMessage_eq hcodec h]
  simp [bodyField, requestArg]

/-- A response that is encoded without error is `dst`, the head and the
result field. -/
theorem encodeResponse_eq {codec : Codec V} (hcodec : codec.Appends) {dst b : Bytes}
    {resp : ResponseMsg V} (h : encodeResponse dst resp codec = (b, none)) :
    b = dst ++ (responseHead resp ++ bodyField (responseRet codec dst resp)) := by
  rw [encodeResponse_eq_writeMessage] at h
  rw [writeMessage_eq hcodec h]
  simp [bodyField, responseRet]

/-! ## What the decoders read -/

/-- The bytes of a body that its 16-bit length covers. -/
def covered (body : Bytes) : Bytes := body.take (body.length % 65536)

theorem covered_of_lt {body : Bytes} (h : body.length < 65536) : covered body = body := by
  rw [covered, Nat.mod_eq_of_lt h, List.take_length]

/-- Of a body with its length in front, the covered bytes are read. -/
theorem readBytes_bodyField (body : Bytes) :
    ∃ rest, readBytes (bodyField body) = .ok (covered body, rest) := by
  have hmod : body.length % 65536 < 65536 := Nat.mod_lt _ (by omega)
  have hlen : (covered body).length = body.length % 65536 := by
    rw [covered, List.length_take, Nat.min_eq_left (Nat.mod_le _ _)]
  refine ⟨body.drop (body.length % 65536), ?_⟩
  have hread := readBytes_append (v := covered body) (by omega)
    (body.drop (body.length % 65536))
  rw [hlen, List.append_assoc, covered, List.take_append_drop] at hread
  exact hread

/-- The decoder reads a request back when 16 bits hold the lengths of the
method and the user data, up to what its length covers of the argument. -/
theorem decodeRequest_body {req : RequestMsg V} (hmethod : req.method.length < 65536)
    (huser : req.userData.length < 65536) (arg : Bytes) :
    decodeRequest (requestHead req ++ bodyField arg) =
      .ok ({ req with arg := .bytes (covered arg) } : RequestMsg V) := by
  obtain ⟨rest, hlast⟩ := readBytes_bodyField arg
  have huserRead := readBytes_append huser (bodyField arg)
  have hmethodRead := readBytes_append hmethod
    (encode 2 req.userData.length ++ req.userData ++ bodyField arg)
  rw [requestHead, bytesField_of_lt hmethod, bytesField_of_lt huser]
  simp only [List.append_assoc, List.cons_append, List.nil_append] at hmethodRead huserRead ⊢
  simp only [decodeRequest, readString, readUint64_append, readBool_append,
    hmethodRead, huserRead, hlast, ok_bind]
  rfl

/-- The decoder reads a request body back when 16 bits hold the three
lengths. -/
theorem decodeRequest_append {req : RequestMsg V} {arg : Bytes}
    (hmethod : req.method.length < 65536) (huser : req.userData.length < 65536)
    (harg : arg.length < 65536) :
    decodeRequest (requestHead req ++ bodyField arg) =
      .ok ({ req with arg := .bytes arg } : RequestMsg V) := by
  rw [decodeRequest_body hmethod huser, covered_of_lt harg]

/-- What the response decoder makes of an error that `NewError` built. -/
theorem readError_append {err : Option Error}
    (herr : ∃ code str, err = newError code str)
    (hstr : ∀ e, err = some e → e.str.length < 65536) (b : Bytes) :
    readError (errorField err ++ b) = .ok (err, b) := by
  cases err with
  | none =>
    have h : readUint16 (encode 2 0 ++ b) = .ok (0, b) := readUint16_append 0 b
    simp [readError, errorField, h]
    rfl
  | some e =>
    obtain ⟨code, str, hnew⟩ := herr
    obtain ⟨hrange, rfl⟩ := newError_eq_some hnew.symm
    simp only [errOk, errEnd] at hrange
    obtain ⟨n, rfl⟩ : ∃ n : Nat, code = n := ⟨code.toNat, by omega⟩
    have hword : (UInt16.ofInt (n : Int)).toNat = n := by
      simp only [UInt16.ofInt, UInt16.toNat_ofNat']
      omega
    have hne : UInt16.ofInt (n : Int) ≠ 0 := by
      intro h0
      rw [h0] at hword
      simp at hword
      omega
    have htext := readBytes_append (hstr _ rfl) b
    simp only at htext
    simp only [readError, errorField, bytesField_of_lt (hstr _ rfl), List.append_assoc,
      readUint16_append, ok_bind, readString, if_pos hne] at htext ⊢
    rw [htext, ok_bind, hword, hnew]
    rfl

/-- The decoder reads the head of a response back when 16 bits hold the
lengths of the texts, and takes what follows for the result. -/
theorem decodeResponse_head {resp : ResponseMsg V}
    (herr : ∃ code str, resp.err = newError code str)
    (hstr : ∀ e, resp.err = some e → e.str.length < 65536)
    (huser : resp.userData.length < 65536) {tail ret rest : Bytes}
    (htail : readBytes tail = .ok (ret, rest)) :
    decodeResponse (responseHead resp ++ tail) =
      .ok ({ resp with ret := .bytes ret } : ResponseMsg V) := by
  have huserRead := readBytes_append huser (errorField resp.err ++ tail)
  rw [responseHead, bytesField_of_lt huser]
  simp only [List.append_assoc] at huserRead ⊢
  simp only [decodeResponse, readUint64_append, huserRead, readError_append herr hstr,
    htail, ok_bind]
  rfl

/-- Of the result behind it the decoder reads what its length covers. -/
theorem decodeResponse_body {resp : ResponseMsg V}
    (herr : ∃ code str, resp.err = newError code str)
    (hstr : ∀ e, resp.err = some e → e.str.length < 65536)
    (huser : resp.userData.length < 65536) (ret : Bytes) :
    decodeResponse (responseHead resp ++ bodyField ret) =
      .ok ({ resp with ret := .bytes (covered ret) } : ResponseMsg V) := by
  obtain ⟨rest, hlast⟩ := readBytes_bodyField ret
  exact decodeResponse_head herr hstr huser hlast

/-- The decoder reads a response body back when 16 bits hold the lengths. -/
theorem decodeResponse_append {resp : ResponseMsg V} {ret : Bytes}
    (herr : ∃ code str, resp.err = newError code str)
    (hstr : ∀ e, resp.err = some e → e.str.length < 65536)
    (huser : resp.userData.length < 65536) (hret : ret.length < 65536) :
    decodeResponse (responseHead resp ++ bodyField ret) =
      .ok ({ resp with ret := .bytes ret } : ResponseMsg V) := by
  rw [decodeResponse_body herr hstr huser, covered_of_lt hret]

/-- Every text of a decoded request is shorter than 65536 bytes. -/
theorem decodeRequest_lengths {b : Bytes} {req : RequestMsg V}
    (h : decodeRequest b = .ok req) :
    req.method.length < 65536 ∧ req.userData.length < 65536 ∧
      ∃ arg, req.arg = .bytes arg ∧ arg.length < 65536 := by
  simp only [decodeRequest, bind_eq_ok] at h
  obtain ⟨_, _, _, _, ⟨method, _⟩, hmethod, ⟨user, _⟩, huser, ⟨arg, _⟩, harg, h⟩ := h
  obtain rfl := Except.ok.inj h
  exact ⟨readBytes_length hmethod, readBytes_length huser, arg, rfl,
    readBytes_length harg⟩

/-- A decoded error has a code of the table and a text that is shorter than
65536 bytes. -/
theorem readError_bounds {b rest : Bytes} {e : Error}
    (h : readError b = .ok (some e, rest)) :
    (errOk < e.code ∧ e.code < errEnd) ∧ e.str.length < 65536 := by
  simp only [readError, bind_eq_ok] at h
  obtain ⟨⟨code, c⟩, _, h⟩ := h
  dsimp only at h
  split at h
  · obtain ⟨⟨str, _⟩, hstr, h⟩ := bind_eq_ok.mp h
    obtain ⟨hrange, rfl⟩ := newError_eq_some (Prod.mk.inj (Except.ok.inj h)).1
    exact ⟨hrange, readBytes_length hstr⟩
  · cases (Prod.mk.inj (Except.ok.inj h)).1

/-- The error of a decoded response is one that was read. -/
theorem decodeResponse_err {b : Bytes} {resp : ResponseMsg V} {e : Error}
    (h : decodeResponse b = .ok resp) (he : resp.err = some e) :
    ∃ c rest, readError c = .ok (some e, rest) := by
  simp only [decodeResponse, bind_eq_ok] at h
  obtain ⟨_, _, _, _, ⟨err, rest⟩, herr, _, _, h⟩ := h
  obtain rfl := Except.ok.inj h
  obtain rfl : err = some e := he
  exact ⟨_, rest, herr⟩

/-- Every text of a decoded response is shorter than 65536 bytes. -/
theorem decodeResponse_lengths {b : Bytes} {resp : ResponseMsg V}
    (h : decodeResponse b = .ok resp) :
    resp.userData.length < 65536 ∧
      (∀ e, resp.err = some e → e.str.length < 65536) ∧
      ∃ ret, resp.ret = .bytes ret ∧ ret.length < 65536 := by
  have herr : ∀ e, resp.err = some e → e.str.length < 65536 := by
    intro e he
    obtain ⟨_, _, hread⟩ := decodeResponse_err h he
    exact (readError_bounds hread).2
  simp only [decodeResponse, bind_eq_ok] at h
  obtain ⟨_, _, ⟨user, _⟩, huser, _, _, ⟨ret, _⟩, hret, h⟩ := h
  obtain rfl := Except.ok.inj h
  exact ⟨readBytes_length huser, herr, ret, rfl, readBytes_length hret⟩

end ClusterGo.Rpc
