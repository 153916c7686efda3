import ClusterGo.Addr
import ClusterGo.Lib.Ledger
import ClusterGo.Rpc.Sequence
import ClusterGo.Rpc.SyncCall.Moves

/-!
# Remote calls between nodes

Any number of nodes call each other.  Each has a client with its sequence
numbers and its synchronous calls, and each serves the requests that reach
it.  Between them is the network: connections, queues and relays.

What happens to a request is read off `rpc/client.go`, `rpc/server.go`,
`rpc.go` and `node.go`.

* `Client.Call` makes a sequence number and starts.  When
  `RequestWithContext` accepts the request, the request is on its way.  A
  call without a result sends a oneway request, and its caller does not wait.
* The request may get lost.  It may also be answered with an error by a node
  that has no route for it (`onRelayMessage`) or does not run the method
  (`Server.OnMessage`).
* A server that runs the method answers with the first call of the
  `Replyer`, at any later time, or never.
* A request that is oneway gets no response, from nobody.
* A response carries the sequence number of its request and goes back to the
  node that the request came from, where `Client.OnMessage` takes it.  It
  may get lost too.

Messages overtake each other, and no part of the system copies one.

A client remembers what each of its calls asked for.  The code has this in
the stack frame of the caller.
-/

namespace ClusterGo.Rpc.Network

open Sequence (makeSequence newClient)

variable {V : Type}

/-- A request on its way from the node `client` to the node `target`. -/
structure Envelope (V : Type) where
  client : LogicAddr
  target : LogicAddr
  req : RequestMsg V

/-- The client and the sequence number tell the requests apart. -/
def Envelope.key (e : Envelope V) : LogicAddr × UInt64 := (e.client, e.req.seq)

/-- `rpc.Client` of one node. -/
structure Client (V : Type) where
  seqs : Sequence.Client
  calls : SyncCall.State V
  asked : UInt64 → Option (LogicAddr × RequestMsg V)

/-- The clients, the requests, and the responses on their way back. -/
structure State (V : Type) where
  clients : LogicAddr → Client V
  ledger : Ledger (Envelope V) (ResponseMsg V) := {}
  responses : List (LogicAddr × ResponseMsg V) := []

/-- The clients before their first call.  `ret` stands for the results that
calls will bring along. -/
def start (timeOffset : LogicAddr → UInt32) (ret : V) : State V where
  clients a :=
    { seqs := newClient (timeOffset a), calls := .initial ret, asked := fun _ => none }

inductive Event (V : Type) where
  | call (a : LogicAddr) (timestamp : UInt32) (target : LogicAddr) (method : Bytes)
      (arg : Payload V) (ret : V) (choice : Option SyncCall.Ptr)
  | post (a : LogicAddr) (timestamp : UInt32) (target : LogicAddr) (method : Bytes)
      (arg : Payload V)
  | caller (a : LogicAddr) (e : SyncCall.Event V)
  | accept (a : LogicAddr) (seq : UInt64)
  | loseRequest (k : Nat)
  | refuse (k : Nat) (err : Error)
  | serve (k : Nat)
  | reply (k : Nat) (err : Option Error) (ret : Payload V)
  | silent (k : Nat)
  | loseResponse (k : Nat)
  | deliver (k : Nat)

namespace State

def setClient (s : State V) (a : LogicAddr) (c : Client V) : State V :=
  { s with clients := Function.update s.clients a c }

/-- A request is on its way. -/
def send (s : State V) (e : Envelope V) : State V := { s with ledger := s.ledger.accept e }

/-- A response to a request, unless the request is oneway. -/
def respond (s : State V) (e : Envelope V) (resp : ResponseMsg V) : State V :=
  if e.req.oneway then s
  else
    { s with
      ledger := s.ledger.answer e resp
      responses := (e.client, resp) :: s.responses }

end State

def step (decodeRet : V → ResponseMsg V → V × Option Bytes) (s : State V) :
    Event V → Option (State V)
  | .call a timestamp target method arg ret choice =>
    let c := s.clients a
    let (seq, seqs) := makeSequence c.seqs timestamp
    let req : RequestMsg V := { seq, method, arg }
    (SyncCall.step decodeRet c.calls (.get seq ret choice)).map fun calls =>
      s.setClient a
        { seqs, calls, asked := Function.update c.asked seq (some (target, req)) }
  | .post a timestamp target method arg =>
    let c := s.clients a
    let (seq, seqs) := makeSequence c.seqs timestamp
    let req : RequestMsg V := { seq, method, arg, oneway := true }
    some ((s.setClient a
      { c with seqs, asked := Function.update c.asked seq (some (target, req)) }).send
        ⟨a, target, req⟩)
  | .caller a e =>
    let c := s.clients a
    if e.internal then
      (SyncCall.step decodeRet c.calls e).map fun calls => s.setClient a { c with calls }
    else none
  | .accept a seq =>
    let c := s.clients a
    match c.asked seq with
    | none => none
    | some (target, req) =>
      (SyncCall.step decodeRet c.calls (.accept seq)).map fun calls =>
        (s.setClient a { c with calls }).send ⟨a, target, req⟩
  | .loseRequest k =>
    (Ledger.pick s.ledger.requests k).map fun (_, requests) =>
      { s with ledger := { s.ledger with requests } }
  | .refuse k err =>
    (Ledger.pick s.ledger.requests k).map fun (e, requests) =>
      { s with ledger := { s.ledger with requests } }.respond e
        { seq := e.req.seq, err := some err }
  | .serve k =>
    (Ledger.pick s.ledger.requests k).map fun (e, requests) =>
      { s with ledger := s.ledger.serve e requests }
  | .reply k err ret =>
    (Ledger.pick s.ledger.serving k).map fun (e, serving) =>
      { s with ledger := { s.ledger with serving } }.respond e { seq := e.req.seq, err, ret }
  | .silent k =>
    (Ledger.pick s.ledger.serving k).map fun (_, serving) =>
      { s with ledger := { s.ledger with serving } }
  | .loseResponse k =>
    (Ledger.pick s.responses k).map fun (_, responses) => { s with responses }
  | .deliver k =>
    (Ledger.pick s.responses k).bind fun ((a, resp), responses) =>
      (SyncCall.step decodeRet (s.clients a).calls (.onMessage resp)).map fun calls =>
        { s with responses }.setClient a { s.clients a with calls }

/-- The counter of the client has room for another call in this second. -/
def HasRoom (s : State V) : Event V → Prop
  | .call a timestamp .. | .post a timestamp .. => (s.clients a).seqs.Room timestamp
  | _ => True

instance (c : Sequence.Client) (timestamp : UInt32) : Decidable (c.Room timestamp) :=
  inferInstanceAs (Decidable (_ ∨ _))

instance (s : State V) (e : Event V) : Decidable (HasRoom s e) := by
  cases e <;> simp only [HasRoom] <;> infer_instance

end ClusterGo.Rpc.Network
