import ClusterGo.Rpc.Message
import ClusterGo.Lib.Pool
import ClusterGo.Lib.Transition

/-!
# Synchronous calls

`rpc/client.go`: `Client.Call` with a result to fill, and the synchronous
half of `Client.OnMessage`.

A call waits for its response on a channel with room for one message.  The
channels come from a pool.  A call that gets its response puts the channel
back, and so does one that gives up and finds its entry still in the
pending map.  A call that gives up and finds the entry gone abandons the
channel, because `OnMessage` may be about to send on it.

`step` is one atomic action.  `OnMessage` takes two: it removes the entry,
and then it sends.  The send waits while the channel is full, which is a
step that is not enabled.

`RequestWithContext` is split where the request is accepted.  From there on
it returns nil, and only from there on a response to the request may find
the entry: this is what the callers of the channel rely on.  Late and
repeated responses, and responses to nobody, come at any time.

`Call` without a result sends a oneway request and touches neither the map
nor the pool.
-/

namespace ClusterGo.Rpc.SyncCall

variable {V : Type}

/-! ## What a call returns -/

/-- The errors that `rpcError` tells apart. -/
inductive GoError where
  | canceled
  | deadlineExceeded
  | other (text : Bytes)
deriving DecidableEq

/-- `rpc.rpcError`. -/
def rpcError : GoError → Option Error
  | .canceled => newError errCancel "canceled".toUTF8.toList
  | .deadlineExceeded => newError errTimeout "timeout".toUTF8.toList
  | .other text => newError errOther text

/-- What `Call` makes of a response: the result and the error. -/
def answer (decodeRet : V → ResponseMsg V → V × Option Bytes) (ret : V)
    (resp : ResponseMsg V) : V × Option Error :=
  match resp.err with
  | some e => (ret, some e)
  | none =>
    match decodeRet ret resp with
    | (ret, none) => (ret, none)
    | (ret, some text) => (ret, rpcError (.other text))

/-! ## The state -/

/-- The address of a channel. -/
abbrev Ptr := Nat

/-- Where `Call` stands.  `returned` keeps the response that the call
returned, if it returned one, and `abandoned` is a call that returned
without its channel. -/
inductive CallPc (V : Type) where
  | idle | got | ready | requesting | accepted | waiting
  | received (resp : ResponseMsg V)
  | cancelled (err : GoError)
  | won (err : GoError)
  | retrying
  | failed (err : GoError)
  | deleted (err : GoError)
  | returned (resp : Option (ResponseMsg V)) (result : V × Option Error)
  | abandoned (result : V × Option Error)

/-- `OnMessage` for one call: it has not come, it took the channel from the
pending map, or it sent on it. -/
inductive Sender (V : Type) where
  | none
  | taken (ch : Ptr) (resp : ResponseMsg V)
  | sent

structure Call (V : Type) where
  pc : CallPc V
  ch : Ptr
  ret : V
  sender : Sender V := .none

/-- The calls by sequence number, the pending map, what is in the channels,
and the pool. -/
structure State (V : Type) where
  calls : UInt64 → Call V
  pending : UInt64 → Option Ptr
  chans : Ptr → Option (ResponseMsg V)
  pool : List Ptr
  next : Ptr

def State.initial (ret : V) : State V where
  calls _ := { pc := .idle, ch := 0, ret }
  pending _ := none
  chans _ := none
  pool := []
  next := 0

def State.setCall (s : State V) (i : UInt64) (c : Call V) : State V :=
  { s with calls := Function.update s.calls i c }

def State.setPending (s : State V) (i : UInt64) (p : Option Ptr) : State V :=
  { s with pending := Function.update s.pending i p }

def State.setChan (s : State V) (p : Ptr) (x : Option (ResponseMsg V)) : State V :=
  { s with chans := Function.update s.chans p x }

/-- `Call` goes on at `pc`. -/
def State.goTo (s : State V) (i : UInt64) (pc : CallPc V) : State V :=
  s.setCall i { s.calls i with pc }

/-- `syncCtxPool.Put`, and the return of the call. -/
def State.putChan (s : State V) (i : UInt64) (resp : Option (ResponseMsg V))
    (result : V × Option Error) : State V :=
  { s with pool := (s.calls i).ch :: s.pool }.goTo i (.returned resp result)

/-! ## The steps -/

/-- How a call of `RequestWithContext` ends. -/
inductive Requested where
  | sent
  | retryable
  | failed (err : GoError)

/-- The atomic actions: those of the caller, in the order of the program,
and those of `OnMessage`. -/
inductive Event (V : Type) where
  | get (i : UInt64) (ret : V) (choice : Option Ptr)
  | store (i : UInt64)
  | request (i : UInt64)
  | accept (i : UInt64)
  | requestReturn (i : UInt64) (res : Requested)
  | receive (i : UInt64)
  | cancel (i : UInt64) (err : GoError)
  | cancelDelete (i : UInt64)
  | retry (i : UInt64) (done : Option GoError)
  | errDelete (i : UInt64)
  | put (i : UInt64)
  | onMessage (resp : ResponseMsg V)
  | send (i : UInt64)

/-- A response may find the entry of the call: the request was accepted. -/
def CallPc.answerable : CallPc V → Bool
  | accepted | waiting | received _ | cancelled _ | won _ | returned .. | abandoned _ => true
  | idle | got | ready | requesting | retrying | failed _ | deleted _ => false

def step (decodeRet : V → ResponseMsg V → V × Option Bytes) (s : State V) :
    Event V → Option (State V)
  | .get i ret choice =>
    match (s.calls i).pc with
    | .idle =>
      (Pool.get s.pool s.next choice).map fun (p, pool, next) =>
        { s with pool, next }.setCall i { pc := .got, ch := p, ret }
    | _ => none
  | .store i =>
    match (s.calls i).pc with
    | .got => some ((s.setPending i (some (s.calls i).ch)).goTo i .ready)
    | _ => none
  | .request i =>
    match (s.calls i).pc with
    | .ready => some (s.goTo i .requesting)
    | _ => none
  | .accept i =>
    match (s.calls i).pc with
    | .requesting => some (s.goTo i .accepted)
    | _ => none
  | .requestReturn i res =>
    match (s.calls i).pc, res with
    | .accepted, .sent => some (s.goTo i .waiting)
    | .requesting, .retryable => some (s.goTo i .retrying)
    | .requesting, .failed err => some (s.goTo i (.failed err))
    | _, _ => none
  | .receive i =>
    match (s.calls i).pc, s.chans (s.calls i).ch with
    | .waiting, some resp => some ((s.setChan (s.calls i).ch none).goTo i (.received resp))
    | _, _ => none
  | .cancel i err =>
    -- `select` may choose this also when a response is there
    match (s.calls i).pc with
    | .waiting => some (s.goTo i (.cancelled err))
    | _ => none
  | .cancelDelete i =>
    match (s.calls i).pc, s.pending i with
    | .cancelled err, some _ => some ((s.setPending i none).goTo i (.won err))
    | .cancelled err, none => some (s.goTo i (.abandoned ((s.calls i).ret, rpcError err)))
    | _, _ => none
  | .retry i done =>
    match (s.calls i).pc, done with
    | .retrying, none => some (s.goTo i .ready)
    | .retrying, some err => some (s.goTo i (.failed err))
    | _, _ => none
  | .errDelete i =>
    match (s.calls i).pc with
    | .failed err => some ((s.setPending i none).goTo i (.deleted err))
    | _ => none
  | .put i =>
    match (s.calls i).pc with
    | .received resp =>
      some (s.putChan i (some resp) (answer decodeRet (s.calls i).ret resp))
    | .won err | .deleted err => some (s.putChan i none ((s.calls i).ret, rpcError err))
    | _ => none
  | .onMessage resp =>
    match s.pending resp.seq with
    | none => some s
    | some v =>
      if (s.calls resp.seq).pc.answerable then
        some ((s.setPending resp.seq none).setCall resp.seq
          { s.calls resp.seq with sender := .taken v resp })
      else none
  | .send i =>
    match (s.calls i).sender with
    | .taken v resp =>
      if s.chans v = none then
        some ((s.setChan v (some resp)).setCall i { s.calls i with sender := .sent })
      else none
    | _ => none

end ClusterGo.Rpc.SyncCall
