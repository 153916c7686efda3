import ClusterGo.Codec.SS
import ClusterGo.Lib.Transition
import ClusterGo.Socket.FrameReader

/-!
# One direction of a connection

The sending end is `Socket.sendloop`: it takes an object from the queue,
appends its encoding to the gather buffer, and writes the buffer when it is
large enough or the queue is empty.  The receiving end is `recvloop`: it
takes payloads from a `FrameReader` and decodes them, until a payload cannot
be decoded.

Each step of either loop is an event of its own, and so is every accepted
call of `Send`, so a run is an interleaving of the two loops and the
callers.  `wire` holds the bytes that are written and not yet read.  A
`read k` event lets the connection deliver any number of them from one up.

A `Conn` also records what was accepted and what each object was encoded
to.  The loops do not look at these two lists.
-/

namespace ClusterGo.Socket

open Codec Rpc

variable {V T P : Type}

/-- The codecs and the sizes of the two ends. -/
structure Link (V T P : Type) where
  sender : SSCodec V T P
  receiver : SSCodec V T P
  maxPacketSize : Int
  batchSendSize : Int
  sendChanSize : Nat

/-- Where `sendloop` stands: at its `select`, behind `Encode`, or before
`write`. -/
inductive SendPc where
  | waiting
  | encoded
  | flushing
deriving DecidableEq, Repr

/-- Where `recvloop` stands: at the head of the loop in `recv`, before
`conn.Read`, or closed. -/
inductive RecvPc where
  | parsing
  | reading
  | closed
deriving DecidableEq, Repr

/-- An object that `sendloop` has taken, the count that `Encode` returned
for it and the bytes that it appended. -/
structure Entry (V P : Type) where
  obj : Obj V P
  n : Nat
  bytes : Bytes

structure Conn (V T P : Type) where
  sendReq : List (Obj V P) := []
  buf : Bytes := []
  total : Int := 0
  sendPc : SendPc := .waiting
  wire : Bytes := []
  reader : FrameReader
  recvPc : RecvPc := .parsing
  decoder : SSCodec V T P
  results : List (Outcome (Decoded V P)) := []
  failed : Option String := none
  accepted : List (Obj V P) := []
  entries : List (Entry V P) := []

def Link.start (link : Link V T P) : Conn V T P where
  reader := newFrameReader link.maxPacketSize
  decoder := link.receiver

inductive Event (V P : Type) where
  | send (o : Obj V P)
  | encode
  | check
  | write
  | parse
  | read (k : Nat)

/-- An event of one of the two loops. -/
def Event.Internal : Event V P → Prop
  | .send _ => False
  | _ => True

namespace Conn

/-- `s.sendReq <- o` in `Send`. -/
def send (link : Link V T P) (o : Obj V P) (s : Conn V T P) : Option (Conn V T P) :=
  if s.sendReq.length < link.sendChanSize then
    some { s with sendReq := s.sendReq ++ [o], accepted := s.accepted ++ [o] }
  else none

/-- `sendloop` takes an object and encodes it. -/
def encode (link : Link V T P) (s : Conn V T P) : Option (Conn V T P) :=
  match s.sendPc, s.sendReq with
  | .waiting, o :: sendReq =>
    match link.sender.encode link.maxPacketSize s.buf o with
    | none => none
    | some (buf, n) =>
      some { s with
        sendReq
        buf
        total := s.total + ((buf.length : Int) - s.buf.length)
        sendPc := .encoded
        entries := s.entries ++ [{ obj := o, n, bytes := buf.drop s.buf.length }] }
  | _, _ => none

/-- `sendloop` decides whether to write. -/
def check (link : Link V T P) (s : Conn V T P) : Option (Conn V T P) :=
  match s.sendPc with
  | .encoded =>
    let full := s.total ≥ link.batchSendSize ∨ (s.total > 0 ∧ s.sendReq.length = 0)
    some { s with sendPc := if full then .flushing else .waiting }
  | _ => none

/-- `sendloop` writes the gather buffer. -/
def write (s : Conn V T P) : Option (Conn V T P) :=
  match s.sendPc with
  | .flushing => some { s with wire := s.wire ++ s.buf, buf := [], total := 0, sendPc := .waiting }
  | _ => none

/-- One round of `recv`, and `Decode` when it returns a payload. -/
def parse (s : Conn V T P) : Option (Conn V T P) :=
  match s.recvPc with
  | .parsing =>
    match s.reader.parse with
    | .error text => some { s with recvPc := .closed, failed := some text }
    | .needRead reader => some { s with reader, recvPc := .reading }
    | .packet payload reader =>
      let (decoder, result) := s.decoder.decode payload
      some { s with
        reader
        decoder
        results := s.results ++ [result]
        recvPc := match result with
          | .value _ => .parsing
          | _ => .closed }
  | _ => none

/-- `conn.Read` in `recv`. -/
def read (k : Nat) (s : Conn V T P) : Option (Conn V T P) :=
  match s.recvPc with
  | .reading =>
    match s.reader.read k s.wire with
    | none => none
    | some reader => some { s with reader, wire := s.wire.drop k, recvPc := .parsing }
  | _ => none

end Conn

def step (link : Link V T P) (s : Conn V T P) : Event V P → Option (Conn V T P)
  | .send o => s.send link o
  | .encode => s.encode link
  | .check => s.check link
  | .write => s.write
  | .parse => s.parse
  | .read k => s.read k

/-- Neither loop can go on by itself. -/
def Quiescent (link : Link V T P) (s : Conn V T P) : Prop :=
  ∀ e : Event V P, e.Internal → step link s e = none

/-! ## What should arrive -/

/-- A list of results up to the first one that is no value. -/
def upToError {α : Type} : List (Outcome α) → List (Outcome α)
  | [] => []
  | .value a :: l => .value a :: upToError l
  | bad :: _ => [bad]

/-- The payloads of the frames of the objects for which `Encode` returned a
positive count. -/
def Conn.payloads (s : Conn V T P) : List Bytes :=
  (s.entries.filter fun e => 0 < e.n).map fun e => e.bytes.drop headLen

/-- The results of `Decode` for these frames, up to the first error. -/
def Link.expected (link : Link V T P) (s : Conn V T P) : List (Outcome (Decoded V P)) :=
  upToError (s.payloads.map fun payload => (link.receiver.decode payload).2)

/-- The objects of the application: a `RelayMessage` holds a payload that
fits into a frame, as `Decode` makes it from an accepted frame. -/
def Sendable (maxPacketSize : Int) : Obj V P → Prop
  | .relay m => ∃ toAddr fromAddr payload, m = newRelayMessage toAddr fromAddr payload ∧
      payload ≠ [] ∧ ((payload.length + headLen : Nat) : Int) ≤ maxPacketSize
  | _ => True

/-- Only such objects are sent. -/
def Event.Sendable (maxPacketSize : Int) : Event V P → Prop
  | .send o => Socket.Sendable maxPacketSize o
  | _ => True

end ClusterGo.Socket
