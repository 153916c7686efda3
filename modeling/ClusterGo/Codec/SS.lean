import ClusterGo.Addr
import ClusterGo.Codec.Buffer
import ClusterGo.Codec.Pb
import ClusterGo.Rpc.Message

/-!
# The frame codec between nodes

`codec/ss/message.go` and `codec/ss/codec.go`.  A frame is

    length (4) | flag (1) | to (4) | from (4) | body

with a length that counts everything behind itself.  The low three bits of
the flag say what the body is: a binary message or a protobuf message
behind a 2-byte command, an RPC request, or an RPC response.

`encode` appends a frame to a slice and answers the new slice and the
number of bytes appended, zero when nothing is sent.  `decode` takes the
frame without its length.  A frame for another node becomes a
`RelayMessage` that holds the whole frame again.

A codec that was created while no message type was registered has no
registry, and the protobuf paths then dereference nil.  That is `none` in
`encode` and `panic` in `decode`.
-/

namespace ClusterGo.Codec

open BigEndian Rpc

variable {V T P : Type}

/-! ## Messages -/

/-- The payload of a message, by the dynamic type that `Encode` and
`onMessage` switch on.  `other` is nil or a value of any other type. -/
inductive SSPayload (V P : Type) where
  | bytes (b : Bytes)
  | proto (m : P)
  | request (req : RequestMsg V)
  | response (resp : ResponseMsg V)
  | other
deriving DecidableEq, Repr

/-- `ss.Message`. -/
structure Message (V P : Type) where
  toAddr : LogicAddr
  fromAddr : LogicAddr
  payload : SSPayload V P
  cmd : UInt16 := 0
deriving DecidableEq, Repr

/-- `ss.RelayMessage`: a frame on its way to another node. -/
structure RelayMessage where
  toAddr : LogicAddr
  fromAddr : LogicAddr
  payload : Bytes
deriving DecidableEq, Repr

/-- What is handed to `Socket.Send`. -/
inductive Obj (V P : Type) where
  | message (m : Message V P)
  | relay (m : RelayMessage)
  | other
deriving DecidableEq, Repr

def sizeLen : Nat := 4
def minSize : Nat := 13

def pbMsg : UInt8 := 1
def binMsg : UInt8 := 2
def rpcReq : UInt8 := 3
def rpcResp : UInt8 := 4
def maskMessageType : UInt8 := 7

def setMsgType (flag tt : UInt8) : UInt8 :=
  if tt = pbMsg ∨ tt = binMsg ∨ tt = rpcReq ∨ tt = rpcResp then flag ||| tt else flag

def getMsgType (flag : UInt8) : UInt8 := flag &&& maskMessageType

/-- `ss.NewRelayMessage`.  The pooled buffer it appends to is empty. -/
def newRelayMessage (toAddr fromAddr : LogicAddr) (payload : Bytes) : RelayMessage :=
  { toAddr, fromAddr, payload := encode 4 (UInt32.ofNat payload.length).toNat ++ payload }

/-- `RelayMessage.GetRpcRequest`: the request in the frame, read at fixed
offsets. -/
def RelayMessage.getRpcRequest (m : RelayMessage) : Option (RequestMsg V) :=
  if m.payload.length < minSize then none
  else if getMsgType (m.payload.getD 4 0) ≠ rpcReq then none
  else (decodeRequest (m.payload.drop minSize)).toOption

/-! ## Encoding -/

/-- `ss.SSCodec`.  `lib` stands for the protobuf library that the package
calls. -/
structure SSCodec (V T P : Type) where
  selfAddr : LogicAddr
  rpcCodec : Codec V
  pbMeta : Option (PbMeta T)
  lib : ProtoLib T P
  reader : BufferReader := {}

def appendSSHeader (dst : Bytes) (m : Message V P) (flag : UInt8) : Bytes × Nat :=
  let mark := dst.length
  let dst := dst ++ [0, 0, 0, 0]
  let dst := dst ++ [flag]
  let dst := appendUint32 dst m.toAddr.val
  let dst := appendUint32 dst m.fromAddr.val
  (dst, mark)

/-- Patch the length in, or cut the slice back when the frame is larger
than `MaxPacketSize`. -/
def finalizeFrame (maxPacketSize : Int) (dst : Bytes) (mark : Nat) : Bytes × Nat :=
  let totalLen := dst.length - mark
  if (totalLen : Int) > maxPacketSize then (dst.take mark, 0)
  else (patch dst mark (encode 4 (UInt32.ofNat (totalLen - sizeLen)).toNat), totalLen)

/-- The tail of the two RPC cases: nothing is sent after a codec error. -/
def finishRpc (maxPacketSize : Int) (mark : Nat) : Bytes × Option String → Bytes × Nat
  | (dst, some _) => (dst.take mark, 0)
  | (dst, none) => finalizeFrame maxPacketSize dst mark

/-- The `*Message` case of `SSCodec.Encode`. -/
def encodeMessage (maxPacketSize : Int) (ss : SSCodec V T P) (dst : Bytes)
    (o : Message V P) : Option (Bytes × Nat) :=
  match o.payload with
  | .bytes msg =>
    if msg.length = 0 then some (dst, 0)
    else
      let (dst, mark) := appendSSHeader dst o (setMsgType 0 binMsg)
      let dst := appendUint16 dst o.cmd
      let dst := dst ++ msg
      some (finalizeFrame maxPacketSize dst mark)
  | .proto msg =>
    let (dst, mark) := appendSSHeader dst o (setMsgType 0 pbMsg)
    let cmdMark := dst.length
    let dst := appendUint16 dst 0
    -- a nil registry is dereferenced by `Marshal`
    ss.pbMeta.map fun pbMeta =>
      match pbMeta.marshal ss.lib dst msg with
      | .error _ => (dst.take mark, 0)
      | .ok (dst, cmd) =>
        let dst := patch dst cmdMark (encode 2 (UInt16.ofNat cmd.toNat).toNat)
        finalizeFrame maxPacketSize dst mark
  | .request msg =>
    let (dst, mark) := appendSSHeader dst o (setMsgType 0 rpcReq)
    some (finishRpc maxPacketSize mark (encodeRequest dst msg ss.rpcCodec))
  | .response msg =>
    let (dst, mark) := appendSSHeader dst o (setMsgType 0 rpcResp)
    some (finishRpc maxPacketSize mark (encodeResponse dst msg ss.rpcCodec))
  | .other => some (dst, 0)

/-- `SSCodec.Encode`: the new slice and the number of bytes appended, or
`none` for a panic. -/
def SSCodec.encode (maxPacketSize : Int) (ss : SSCodec V T P) (dst : Bytes) :
    Obj V P → Option (Bytes × Nat)
  | .message o => encodeMessage maxPacketSize ss dst o
  | .relay o => some (dst ++ o.payload, o.payload.length)
  | .other => some (dst, 0)

/-! ## Decoding -/

inductive Decoded (V P : Type) where
  | message (m : Message V P)
  | relay (m : RelayMessage)
deriving DecidableEq, Repr

/-- How a call of `Decode` ends. -/
inductive Outcome (α : Type) where
  | value (a : α)
  | error (text : String)
  | panic
deriving DecidableEq, Repr

def Outcome.ofExcept {α : Type} : Except String α → Outcome α
  | .ok a => .value a
  | .error text => .error text

def Outcome.map {α β : Type} (f : α → β) : Outcome α → Outcome β
  | .value a => .value (f a)
  | .error text => .error text
  | .panic => .panic

/-- The body of a frame whose target is this node. -/
def decodeBody (ss : SSCodec V T P) (flag : UInt8) (toAddr fromAddr : LogicAddr)
    (reader : BufferReader) : Outcome (Message V P) :=
  if getMsgType flag = binMsg then
    let (cmd, reader) := reader.getUint16
    .value { toAddr, fromAddr, payload := .bytes reader.getAll, cmd }
  else if getMsgType flag = pbMsg then
    let (cmd, reader) := reader.getUint16
    match ss.pbMeta with
    | none => .panic
    | some pbMeta =>
      .ofExcept do
        let msg ← pbMeta.unmarshal ss.lib (UInt32.ofNat cmd.toNat) reader.getAll
        return { toAddr, fromAddr, payload := .proto msg, cmd }
  else if getMsgType flag = rpcReq then
    .ofExcept do
      let req ← decodeRequest reader.getAll
      return { toAddr, fromAddr, payload := .request req }
  else if getMsgType flag = rpcResp then
    .ofExcept do
      let resp ← decodeResponse reader.getAll
      return { toAddr, fromAddr, payload := .response resp }
  else .error "invaild packet type"

def SSCodec.isTarget (ss : SSCodec V T P) (toAddr : LogicAddr) : Bool :=
  ss.selfAddr == toAddr

/-- `SSCodec.Decode`, with the codec as the call leaves it.  `reset` clears
the offset of the reader, so only the slice it holds outlives a call. -/
def SSCodec.decode (ss : SSCodec V T P) (payload : Bytes) :
    SSCodec V T P × Outcome (Decoded V P) :=
  let reader := ss.reader.reset payload
  let (flag, reader) := reader.getByte
  let (toAddr, reader) := reader.getUint32
  let (fromAddr, reader) := reader.getUint32
  let toAddr : LogicAddr := ⟨toAddr⟩
  let fromAddr : LogicAddr := ⟨fromAddr⟩
  let result :=
    if ss.isTarget toAddr then
      (decodeBody ss flag toAddr fromAddr reader).map .message
    else .value (.relay (newRelayMessage toAddr fromAddr payload))
  ({ ss with reader }, result)

end ClusterGo.Codec
