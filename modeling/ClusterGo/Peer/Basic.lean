import Mathlib.Data.List.Basic
import ClusterGo.Lib.Transition

/-!
# A peer node and the operations that take its mutex

The `node` of `node.go`: a mutex, the socket of the connection to the peer
while there is one, and the messages that wait for a connection.  The
operations are the functions that take the mutex: `sendMessage`,
`sendMessageWithContext`, `dialOK`, `dialError`, `closeSocket`, the close
callback of a socket, and the part of `onNewConnection` that accepts a
connection.

`lock` blocks on a held mutex, which is `none`.  Every function releases
the mutex where the source does and nowhere else.  A deferred `Unlock` is
the `unlock` of the last line.

What the source reads from outside is an argument.  `Env` is the clock and
the contexts that are done at the moment of the call, and the answers of
the socket and of the handshake write come with the operation.  `dials`
counts the calls of `dial` that are queued, running or scheduled.
-/

namespace ClusterGo.Peer

/-- `time.Time` in nanoseconds.  Zero is the zero time, which lies before
every clock reading. -/
abbrev Time := Int

structure PendingMessage (M C : Type) where
  message : M
  deadline : Time := 0
  ctx : Option C := none
deriving DecidableEq, Repr

/-- `node`, without the address and the stream session. -/
structure PeerNode (M C : Type) where
  locked : Bool := false
  socket : Option Nat := none
  pendingMsg : List (PendingMessage M C) := []
  dials : Nat := 0
deriving DecidableEq, Repr

structure Env (C : Type) where
  now : Time
  done : C → Bool

/-- The errors that the operations return. -/
inductive Err where
  | pendingQueueFull
  | sendQueueFull
  | pushToSendQueueTimeout
  | socketClosed
  | context
  | connecttingSimultaneously
  | duplicateConn
  | write
deriving DecidableEq, Repr

/-- What an operation returns, and the messages it handed to the socket. -/
structure Reply (M : Type) where
  err : Option Err := none
  handed : List M := []

variable {M C : Type}

namespace PeerNode

/-! ## The mutex -/

def lock (n : PeerNode M C) : Option (PeerNode M C) :=
  if n.locked then none else some { n with locked := true }

def unlock (n : PeerNode M C) : PeerNode M C := { n with locked := false }

/-! ## The pending queue -/

/-- What `removeFailedMsg` drops: a message whose context is done, whose
deadline is behind the clock, or, with `removeZero`, that has no deadline.
A zero deadline is behind every clock reading. -/
def failed (env : Env C) (removeZero : Bool) (m : PendingMessage M C) : Bool :=
  match m.ctx with
  | some ctx => env.done ctx
  | none => (m.deadline = 0 && removeZero) || env.now > m.deadline

def removeFailedMsg (env : Env C) (removeZero : Bool) (n : PeerNode M C) : PeerNode M C :=
  { n with pendingMsg := n.pendingMsg.filter fun m => !failed env removeZero m }

/-- Push a message and start a dial when it is the only one. -/
def enqueue (m : PendingMessage M C) (n : PeerNode M C) : PeerNode M C :=
  let n := { n with pendingMsg := n.pendingMsg ++ [m] }
  if n.pendingMsg.length = 1 then { n with dials := n.dials + 1 } else n

/-- What `onEstablish` still sends. -/
def deliverable (env : Env C) (m : PendingMessage M C) : Bool :=
  match m.ctx with
  | some ctx => !env.done ctx
  | none => m.deadline = 0 || env.now < m.deadline

/-- `node.onEstablish`: install the socket and drain the queue into it. -/
def onEstablish (env : Env C) (sock : Nat) (n : PeerNode M C) : PeerNode M C × Reply M :=
  ({ n with socket := some sock, pendingMsg := [] },
    { handed := (n.pendingMsg.filter (deliverable env)).map (·.message) })

/-! ## The operations -/

def sendMessage (maxPendingMsgSize : Int) (env : Env C) (msg : M) (deadline : Time)
    (sent : Option Err) (n : PeerNode M C) : Option (PeerNode M C × Reply M) := do
  let n ← n.lock
  match n.socket with
  | some _ => return (n.unlock, { err := sent, handed := [msg] })
  | none =>
    let pm : PendingMessage M C := { message := msg, deadline }
    if n.pendingMsg.length ≥ maxPendingMsgSize then
      if deadline = 0 then
        return (n, { err := some .pendingQueueFull })
      else
        let n := n.removeFailedMsg env true
        if n.pendingMsg.length ≥ maxPendingMsgSize then
          return (n, { err := some .pendingQueueFull })
        else return ((n.enqueue pm).unlock, {})
    else return ((n.enqueue pm).unlock, {})

def sendMessageWithContext (maxPendingMsgSize : Int) (env : Env C) (ctx : C) (msg : M)
    (sent : Option Err) (n : PeerNode M C) : Option (PeerNode M C × Reply M) := do
  let n ← n.lock
  match n.socket with
  | some _ => return (n.unlock, { err := sent, handed := [msg] })
  | none =>
    let pm : PendingMessage M C := { message := msg, ctx := some ctx }
    if n.pendingMsg.length ≥ maxPendingMsgSize then
      let n := n.removeFailedMsg env true
      if n.pendingMsg.length ≥ maxPendingMsgSize then
        return (n, { err := some .pendingQueueFull })
      else return ((n.enqueue pm).unlock, {})
    else return ((n.enqueue pm).unlock, {})

/-- `node.dialError` at the end of a dial.  A retry is scheduled while
messages are left. -/
def dialError (env : Env C) (n : PeerNode M C) : Option (PeerNode M C × Reply M) := do
  let n ← n.lock
  let n := { n with dials := n.dials - 1 }
  match n.socket with
  | some _ => return (n.unlock, {})
  | none =>
    let n := n.removeFailedMsg env false
    let n := if n.pendingMsg.length > 0 then { n with dials := n.dials + 1 } else n
    return (n.unlock, {})

/-- `node.dialOK` at the end of a dial.  The connection is closed when the
other side was faster. -/
def dialOK (env : Env C) (sock : Nat) (n : PeerNode M C) :
    Option (PeerNode M C × Reply M) := do
  let n ← n.lock
  let n := { n with dials := n.dials - 1 }
  match n.socket with
  | some _ => return (n.unlock, {})
  | none =>
    let (n, reply) := n.onEstablish env sock
    return (n.unlock, reply)

def closeSocket (n : PeerNode M C) : Option (PeerNode M C × Reply M) := do
  let n ← n.lock
  match n.socket with
  | some _ => return ({ n with socket := none }.unlock, {})
  | none => return (n.unlock, {})

/-- The function that `onEstablish` installs with `SetCloseCallback`. -/
def closeCallback (n : PeerNode M C) : Option (PeerNode M C × Reply M) := do
  let n ← n.lock
  return ({ n with socket := none }.unlock, {})

/-- The end of `Node.onNewConnection`.  `selfLess` says that the local
logic address is smaller than that of the peer, and `writeFails` that the
reply to the handshake could not be written. -/
def accept (env : Env C) (selfLess writeFails : Bool) (sock : Nat) (n : PeerNode M C) :
    Option (PeerNode M C × Reply M) := do
  let n ← n.lock
  if n.pendingMsg.length ≠ 0 ∧ selfLess then
    return (n.unlock, { err := some .connecttingSimultaneously })
  else if n.pendingMsg.length = 0 ∧ n.socket ≠ none then
    return (n.unlock, { err := some .duplicateConn })
  else if writeFails then
    return (n.unlock, { err := some .write })
  else
    let (n, reply) := n.onEstablish env sock
    return (n.unlock, reply)

end PeerNode

/-- A call of one of the operations. -/
inductive Op (M C : Type) where
  | sendMessage (env : Env C) (msg : M) (deadline : Time) (sent : Option Err)
  | sendMessageWithContext (env : Env C) (ctx : C) (msg : M) (sent : Option Err)
  | dialError (env : Env C)
  | dialOK (env : Env C) (sock : Nat)
  | closeSocket
  | closeCallback
  | accept (env : Env C) (selfLess writeFails : Bool) (sock : Nat)

/-- The state in which a call returns and what it returns.  A call on a
held mutex does not return. -/
def exec (maxPendingMsgSize : Int) (n : PeerNode M C) :
    Op M C → Option (PeerNode M C × Reply M)
  | .sendMessage env msg deadline sent => n.sendMessage maxPendingMsgSize env msg deadline sent
  | .sendMessageWithContext env ctx msg sent =>
    n.sendMessageWithContext maxPendingMsgSize env ctx msg sent
  | .dialError env => n.dialError env
  | .dialOK env sock => n.dialOK env sock
  | .closeSocket => n.closeSocket
  | .closeCallback => n.closeCallback
  | .accept env selfLess writeFails sock => n.accept env selfLess writeFails sock

/-- The transition system of one peer node. -/
def step (maxPendingMsgSize : Int) (n : PeerNode M C) (op : Op M C) :
    Option (PeerNode M C) :=
  (exec maxPendingMsgSize n op).map Prod.fst

end ClusterGo.Peer
