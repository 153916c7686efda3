import ClusterGo.Codec.SS
import ClusterGo.Relay.Route

/-!
# Relaying frames

What a node does with a frame that arrives: `Decode` turns a frame for the
node itself into a message, and a frame for another node into a
`RelayMessage`, which `node.onRelayMessage` sends on.  When there is no node
to send it to, and it holds an RPC request that waits for a response,
`onRelayMessage` sends an error response to the node that the request came
from.

A transmission is one frame on the connection between two nodes.  A
`Trace` of a message is the sequence of transmissions that it causes, until
some node keeps the frame or the connection is lost.  Every transmission is
handled by a node with a cache and a codec of its own, and they are not
related to those of the transmission before, so the caches may also change
on the way.
-/

namespace ClusterGo

open Codec Rpc

variable {V T P : Type}

/-- A frame, without its length, on the connection between two nodes. -/
structure Transmission where
  src : LogicAddr
  dst : LogicAddr
  body : Bytes
deriving DecidableEq, Repr

/-- A node while it handles a message, with the codec and the gather buffer
of the connection that it sends on. -/
structure Host (V T P : Type) where
  node : Node
  codec : SSCodec V T P
  gather : Bytes := []
  self : codec.selfAddr = node.localAddr.logicAddr

/-- The error response to the request with number `seq` in a message from
`fromAddr` that `relay` cannot send on to `toAddr`. -/
def errorResponse (relay toAddr fromAddr : LogicAddr) (seq : UInt64) : Message V P :=
  { toAddr := fromAddr
    fromAddr := relay
    payload := .response
      { seq
        err := newError errOther
          ("route message to target:" ++ toAddr.string ++ " failed").toUTF8.toList } }

namespace Host

def addr (h : Host V T P) : LogicAddr := h.node.localAddr.logicAddr

/-- What `sendloop` writes for an object that is sent to `next`, if
anything. -/
def transmit (maxPacketSize : Int) (h : Host V T P) (obj : Obj V P) (next : LogicAddr) :
    Option Transmission :=
  match h.codec.encode maxPacketSize h.gather obj with
  | none => none
  | some (b, n) =>
    if n = 0 then none
    else some { src := h.addr, dst := next, body := b.drop (h.gather.length + sizeLen) }

/-- Send a message to the node that the routing function chooses. -/
def send (maxPacketSize : Int) (h : Host V T P) (m : Message V P) : Option Transmission :=
  match h.node.nextHop m.toAddr with
  | none => none
  | some next => h.transmit maxPacketSize (.message m) next

/-- `node.onRelayMessage`. -/
def onRelayMessage (maxPacketSize : Int) (h : Host V T P) (message : RelayMessage) :
    Option Transmission :=
  match h.node.nextHop message.toAddr with
  | some next => h.transmit maxPacketSize (.relay message) next
  | none =>
    match (message.getRpcRequest : Option (RequestMsg V)) with
    | none => none
    | some rpcReq =>
      if rpcReq.oneway then none
      else h.send maxPacketSize
        (errorResponse h.addr message.toAddr message.fromAddr rpcReq.seq)

/-- A frame arrives.  A message for this node is dispatched and causes no
transmission here, and a frame that cannot be decoded closes the
connection. -/
def receive (maxPacketSize : Int) (h : Host V T P) (body : Bytes) : Option Transmission :=
  match (h.codec.decode body).2 with
  | .value (.relay message) => h.onRelayMessage maxPacketSize message
  | _ => none

/-- What is assumed of a node: its cache is good for routing, and the RPC
codec and the protobuf library append to the slice they are given. -/
structure Sound (h : Host V T P) : Prop where
  routable : h.node.nodeCache.Routable
  rpcCodec : h.codec.rpcCodec.Appends
  lib : h.codec.lib.Appends

end Host

/-! ## What a message causes -/

section

variable (T) (maxPacketSize : Int)

end

end ClusterGo
