import ClusterGo.Rpc.Message

/-!
# Arguments and results as Go values

`rpc/rpc.go`: `decodeInto` fills the destination of an argument or a result
from one of three forms.  A nil payload leaves it alone.  A byte slice comes
from the wire and goes through the codec of the message.  Anything else is
the live object of a call within the process, and `copyValue` copies it with
`reflect`.

Of the reflection the model keeps what `copyValue` looks at: pointers and
interfaces, which it follows to the end, and the types that it compares
there.  `[]byte` is a type of its own because `decodeInto` tells it apart,
and `base` is any other type, with the values `U`.

The request and response of a call within the process have no codec.  Those
that a decoder built have the one it was given.
-/

namespace ClusterGo.Rpc.Values

/-! ## Types and values -/

inductive GoType where
  | bytes
  | base
  | pointer (elem : GoType)
  | iface
deriving DecidableEq, Repr

/-- A value with its dynamic type.  `iface v` is a variable of an interface
type that holds `v`. -/
inductive GoValue (U : Type) where
  | bytes (b : Bytes)
  | base (u : U)
  | pointer (v : GoValue U)
  | nilPointer (elem : GoType)
  | iface (v : GoValue U)
  | nilIface
deriving DecidableEq, Repr

variable {U : Type}

def GoValue.type : GoValue U → GoType
  | .bytes _ => .bytes
  | .base _ => .base
  | .pointer v => .pointer v.type
  | .nilPointer elem => .pointer elem
  | .iface _ | .nilIface => .iface

/-- `reflect.Type.String`, with a fixed name for the base type. -/
def GoType.string : GoType → String
  | .bytes => "[]uint8"
  | .base => "base"
  | .pointer elem => "*" ++ elem.string
  | .iface => "interface \x7b\x7d"

/-- `reflect.Type.AssignableTo`. -/
def GoType.assignableTo (t dst : GoType) : Bool := t == dst || dst == .iface

/-- What a variable of type `t` holds after `v` was assigned to it. -/
def GoValue.assigned (v : GoValue U) (t : GoType) : GoValue U :=
  if t = .iface then .iface v else v

/-- The loop of `copyValue`: follow pointers and interfaces.  `none` is the
zero `reflect.Value`, which a nil of either kind leads to. -/
def GoValue.deref : GoValue U → Option (GoValue U)
  | .bytes b => some (.bytes b)
  | .base u => some (.base u)
  | .pointer v => v.deref
  | .iface v => v.deref
  | .nilPointer _ => none
  | .nilIface => none

/-! ## Filling a destination -/

/-- The destination after an attempt to fill it, and the error. -/
inductive Filled (U : Type) where
  | done (dst : GoValue U) (err : Option String)
  | panicked
deriving DecidableEq, Repr

/-- The destination and whether there was an error, unless the attempt
panicked. -/
def Filled.status : Filled U → Option (GoValue U × Bool)
  | .done dst err => some (dst, err.isSome)
  | .panicked => none

/-- `copyValue`.  The type of the zero `reflect.Value` panics. -/
def copyValue (dst src : GoValue U) : Filled U :=
  match src.deref with
  | none => .panicked
  | some sv =>
    if sv.type.assignableTo dst.type then .done (sv.assigned dst.type) none
    else
      .done dst (some s!"rpc: payload type mismatch {sv.type.string} vs {dst.type.string}")

/-- A codec whose `Encode` appends the marshalled form of its value, as its
comment says.  `unmarshal` is the destination after `Decode`, and its
error. -/
structure ValueCodec (U : Type) where
  marshal : Payload (GoValue U) → Except String Bytes
  unmarshal : Bytes → GoValue U → GoValue U × Option String

def ValueCodec.codec (c : ValueCodec U) : Codec (GoValue U) where
  encode dst v :=
    match c.marshal v with
    | .ok bs => .ok (dst ++ bs)
    | .error err => .error err

/-- `decodeInto`. -/
def decodeInto (codec : Option (ValueCodec U)) (payload : Payload (GoValue U))
    (dst : GoValue U) : Filled U :=
  match payload with
  | .nil => .done dst none
  | .bytes v =>
    match codec with
    | none => .done dst (some "rpc: no codec to decode payload")
    | some c => .done (c.unmarshal v dst).1 (c.unmarshal v dst).2
  | .object v => copyValue dst v

/-- `RequestMsg.decodeArgInto`. -/
def decodeArgInto (codec : Option (ValueCodec U)) (req : RequestMsg (GoValue U))
    (dst : GoValue U) : Filled U := decodeInto codec req.arg dst

/-- `ResponseMsg.decodeRet`. -/
def decodeRet (codec : Option (ValueCodec U)) (resp : ResponseMsg (GoValue U))
    (dst : GoValue U) : Filled U := decodeInto codec resp.ret dst

/-- The argument of a request that is encoded behind `dst`, sent and
decoded.  An error on the way leaves the destination alone. -/
def argOnWire (c : ValueCodec U) (dst : Bytes) (req : RequestMsg (GoValue U))
    (fresh : GoValue U) : Filled U :=
  match encodeRequest dst req c.codec with
  | (_, some err) => .done fresh (some err)
  | (b, none) =>
    match decodeRequest (b.drop dst.length) with
    | .error err => .done fresh (some err)
    | .ok req => decodeArgInto (some c) req fresh

/-- The result of a response that is encoded behind `dst`, sent and
decoded. -/
def retOnWire (c : ValueCodec U) (dst : Bytes) (resp : ResponseMsg (GoValue U))
    (fresh : GoValue U) : Filled U :=
  match encodeResponse dst resp c.codec with
  | (_, some err) => .done fresh (some err)
  | (b, none) =>
    match decodeResponse (b.drop dst.length) with
    | .error err => .done fresh (some err)
    | .ok resp => decodeRet (some c) resp fresh

/-! ## What the wire does to a payload -/

/-- The body of the last field of a message: empty for nil. -/
def ValueCodec.body (c : ValueCodec U) : Payload (GoValue U) → Except String Bytes
  | .nil => .ok []
  | v => c.marshal v

/-- A payload that is written, cut to what its length covers, and
unmarshalled. -/
def overWire (c : ValueCodec U) (payload : Payload (GoValue U)) (fresh : GoValue U) :
    Filled U :=
  match c.body payload with
  | .error err => .done fresh (some err)
  | .ok bs => .done (c.unmarshal (covered bs) fresh).1 (c.unmarshal (covered bs) fresh).2

theorem codec_appends (c : ValueCodec U) : c.codec.Appends := by
  intro dst v b h
  simp only [ValueCodec.codec] at h
  split at h
  · rw [← Except.ok.inj h]
    exact List.prefix_append _ _
  · cases h

/-- `writeMessage` fails when the value cannot be marshalled. -/
theorem writeMessage_error {c : ValueCodec U} {payload : Payload (GoValue U)} {err : String}
    (h : c.body payload = .error err) (b : Bytes) :
    (writeMessage b c.codec payload).2 = some err := by
  cases payload with
  | nil => cases h
  | bytes v => simp [writeMessage, ValueCodec.codec, show c.marshal (.bytes v) = _ from h]
  | object v => simp [writeMessage, ValueCodec.codec, show c.marshal (.object v) = _ from h]

/-- It appends the body of any other value. -/
theorem writeMessage_ok {c : ValueCodec U} {payload : Payload (GoValue U)} {bs : Bytes}
    (h : c.body payload = .ok bs) (b : Bytes) :
    (writeMessage b c.codec payload).2 = none ∧ messageBody c.codec b payload = bs := by
  cases payload with
  | nil => exact ⟨rfl, Except.ok.inj h⟩
  | bytes v =>
    have h' : c.marshal (.bytes v) = .ok bs := h
    simp [writeMessage, ValueCodec.codec, messageBody, Codec.output, h']
  | object v =>
    have h' : c.marshal (.object v) = .ok bs := h
    simp [writeMessage, ValueCodec.codec, messageBody, Codec.output, h']

/-- The header of a request does not matter to its argument, as long as
16 bits hold the lengths in it. -/
theorem argOnWire_eq {c : ValueCodec U} {req : RequestMsg (GoValue U)}
    (hmethod : req.method.length ≤ 65535) (huser : req.userData.length ≤ 65535) (dst : Bytes)
    (fresh : GoValue U) : argOnWire c dst req fresh = overWire c req.arg fresh := by
  have hwrite := encodeRequest_eq_writeMessage dst req c.codec
  cases hbody : c.body req.arg with
  | error err =>
    have henc : encodeRequest dst req c.codec = (_, some err) :=
      Prod.ext rfl (hwrite ▸ writeMessage_error hbody _)
    rw [argOnWire, henc, overWire, hbody]
  | ok bs =>
    obtain ⟨hnone, hbs⟩ := writeMessage_ok hbody (dst ++ requestHead req)
    obtain ⟨b, henc⟩ : ∃ b, encodeRequest dst req c.codec = (b, none) :=
      ⟨_, Prod.ext rfl (hwrite ▸ hnone)⟩
    have hdecode : decodeRequest (b.drop dst.length) =
        .ok ({ req with arg := .bytes (covered bs) } : RequestMsg (GoValue U)) := by
      rw [encodeRequest_eq (codec_appends c) henc, List.drop_left, requestArg, hbs]
      exact decodeRequest_body (by omega) (by omega) bs
    rw [argOnWire, henc]
    simp only [hdecode, decodeArgInto, decodeInto, overWire, hbody]

/-- Nor does the header of a response to its result. -/
theorem retOnWire_eq {c : ValueCodec U} {resp : ResponseMsg (GoValue U)}
    (herr : ∃ code str, resp.err = newError code str)
    (hstr : ∀ e, resp.err = some e → e.str.length ≤ 65535)
    (huser : resp.userData.length ≤ 65535) (dst : Bytes) (fresh : GoValue U) :
    retOnWire c dst resp fresh = overWire c resp.ret fresh := by
  have hwrite := encodeResponse_eq_writeMessage dst resp c.codec
  cases hbody : c.body resp.ret with
  | error err =>
    have henc : encodeResponse dst resp c.codec = (_, some err) :=
      Prod.ext rfl (hwrite ▸ writeMessage_error hbody _)
    rw [retOnWire, henc, overWire, hbody]
  | ok bs =>
    obtain ⟨hnone, hbs⟩ := writeMessage_ok hbody (dst ++ responseHead resp)
    obtain ⟨b, henc⟩ : ∃ b, encodeResponse dst resp c.codec = (b, none) :=
      ⟨_, Prod.ext rfl (hwrite ▸ hnone)⟩
    have hdecode : decodeResponse (b.drop dst.length) =
        .ok ({ resp with ret := .bytes (covered bs) } : ResponseMsg (GoValue U)) := by
      rw [encodeResponse_eq (codec_appends c) henc, List.drop_left, responseRet, hbs]
      refine decodeResponse_body herr ?_ (by omega) bs
      intro e he
      have := hstr e he
      omega
    rw [retOnWire, henc]
    simp only [hdecode, decodeRet, decodeInto, overWire, hbody]

end ClusterGo.Rpc.Values
