import ClusterGo.Peer.Pair.Basic

/-!
# Draining the pending queues of two connected nodes

`onEstablish` holds the mutex of the peer node while it pushes every
pending message into the send channel of the new socket.  The channel is
bounded.  The send loop empties it into the transport, which is bounded
too, and the receive loop of the other node empties that.  A receive loop
reads on only after the handler of the last frame has returned, and the
handler of an RPC request replies through `rpcChannel.Reply`, which takes
the mutex of the peer node.  Both ends of a connection do all of this at
the same time.

`Line` is the way from one node to the other: the pending queue, the send
channel, the buffer and the position of the send loop, and the transport.
Frames are of equal weight here, and the transport holds a number of them.
A pending message waits for the channel without a limit, as one with a zero
deadline or with a context that never ends does.  A reply waits for one
second only (`Reply` sends with the deadline `now + 1s`), so it can always
give up.
-/

namespace ClusterGo.Peer.Drain

/-- What the receiver does with a frame: a `request` is an RPC request whose
handler replies, and the handler of any `other` frame just returns. -/
inductive Frame where
  | request
  | other
deriving DecidableEq, Repr

/-- Where the send loop is: at its select, at the test after encoding a
message, or in the write. -/
inductive SendLoop where
  | select
  | check
  | write
deriving DecidableEq, Repr

/-- Where the receive loop is: waiting for a frame, in a handler that waits
for the mutex, or in one that pushes its reply. -/
inductive RecvLoop where
  | idle
  | locking
  | replying
deriving DecidableEq, Repr

/-- The sizes of the buffers.  `New` makes the send channel at least one
message large.  `batchFull` is the test of the send loop against
`BatchSendSize`. -/
structure Buffers where
  sendChanSize : Nat
  transport : Side → Nat
  batchFull : List Frame → Bool
  sendChanSize_pos : 0 < sendChanSize
  transport_pos : ∀ x, 0 < transport x

/-- The way of the messages of one node. -/
structure Line where
  pendingMsg : List Frame
  /-- `onEstablish` holds the mutex. -/
  draining : Bool := true
  sendReq : List Frame := []
  buf : List Frame := []
  sendloop : SendLoop := .select
  transport : List Frame := []
deriving DecidableEq, Repr

namespace Line

inductive Event where
  | push
  | unlock
  | take
  | check
  | write
deriving DecidableEq, Repr

/-- The steps of the drain and of the send loop. -/
def step (b : Buffers) (capacity : Nat) (l : Line) : Event → Option Line
  | .push =>
    match l.pendingMsg with
    | m :: rest =>
      if l.draining ∧ l.sendReq.length < b.sendChanSize then
        some { l with pendingMsg := rest, sendReq := l.sendReq ++ [m] }
      else none
    | [] => none
  | .unlock =>
    if l.draining ∧ l.pendingMsg = [] then some { l with draining := false } else none
  | .take =>
    match l.sendReq with
    | m :: rest =>
      if l.sendloop = .select then
        some { l with sendReq := rest, buf := l.buf ++ [m], sendloop := .check }
      else none
    | [] => none
  | .check =>
    if l.sendloop = .check then
      some { l with sendloop := if b.batchFull l.buf || l.sendReq.isEmpty then .write else .select }
    else none
  | .write =>
    match l.buf with
    | m :: rest =>
      if l.sendloop = .write ∧ l.transport.length < capacity then
        some { l with
          buf := rest, transport := l.transport ++ [m]
          sendloop := if rest.isEmpty then .select else .write }
      else none
    | [] => none

/-- Something on the line is not delivered, or the drain is not finished. -/
def Busy (l : Line) : Prop :=
  l.draining = true ∨ l.pendingMsg ≠ [] ∨ l.sendReq ≠ [] ∨ l.buf ≠ [] ∨ l.transport ≠ []

/-- The frames of the line that are not delivered, in the order in which
they will be. -/
def flow (l : Line) : List Frame := l.transport ++ (l.buf ++ (l.sendReq ++ l.pendingMsg))

end Line

/-- Both lines and both receive loops. -/
structure State where
  lines : Side → Line
  recvloop : Side → RecvLoop := fun _ => .idle

/-- Both drains begin, with these messages pending. -/
def start (pending : Side → List Frame) : State :=
  { lines := fun x => { pendingMsg := pending x } }

inductive Event where
  | line (x : Side) (e : Line.Event)
  | read (x : Side)
  | lock (x : Side)
  | reply (x : Side)
  | timeout (x : Side)
deriving DecidableEq, Repr

namespace State

def setLine (s : State) (x : Side) (l : Line) : State :=
  { s with lines := Function.update s.lines x l }

def setRecv (s : State) (x : Side) (p : RecvLoop) : State :=
  { s with recvloop := Function.update s.recvloop x p }

end State

/-- The receive loop of a node after it has taken a frame. -/
def received : Frame → RecvLoop
  | .request => .locking
  | .other => .idle

/-- One step of one of the goroutines. -/
def step (b : Buffers) (s : State) : Event → Option State
  | .line x e => (Line.step b (b.transport x) (s.lines x) e).map fun l => s.setLine x l
  | .read x =>
    match (s.lines x.other).transport with
    | m :: rest =>
      if s.recvloop x = .idle then
        some ((s.setLine x.other { s.lines x.other with transport := rest }).setRecv x
          (received m))
      else none
    | [] => none
  | .lock x =>
    if s.recvloop x = .locking ∧ (s.lines x).draining = false then
      some (s.setRecv x .replying)
    else none
  | .reply x =>
    if s.recvloop x = .replying ∧ (s.lines x).sendReq.length < b.sendChanSize then
      some ((s.setLine x { s.lines x with sendReq := (s.lines x).sendReq ++ [.other] }).setRecv
        x .idle)
    else none
  | .timeout x => if s.recvloop x = .replying then some (s.setRecv x .idle) else none

/-- A message is not delivered, a drain is not finished, or a handler has
not returned. -/
def Busy (s : State) : Prop := ∃ x, (s.lines x).Busy ∨ s.recvloop x ≠ .idle

/-! ## Reading the state after a change -/

namespace State

variable (s : State) (x : Side) (l : Line) (p : RecvLoop)

@[simp] theorem setLine_self : (s.setLine x l).lines x = l := by
  simp only [setLine, Function.update_self]

@[simp] theorem setLine_other : (s.setLine x l).lines x.other = s.lines x.other := by
  simp only [setLine, Function.update_of_ne (Side.other_ne x)]

@[simp] theorem setLine_of_other : (s.setLine x.other l).lines x = s.lines x := by
  simp only [setLine, Function.update_of_ne (Side.ne_other x)]

@[simp] theorem setLine_recvloop : (s.setLine x l).recvloop = s.recvloop := rfl

@[simp] theorem setRecv_lines : (s.setRecv x p).lines = s.lines := rfl

@[simp] theorem setRecv_self : (s.setRecv x p).recvloop x = p := by
  simp only [setRecv, Function.update_self]

@[simp] theorem setRecv_other : (s.setRecv x p).recvloop x.other = s.recvloop x.other := by
  simp only [setRecv, Function.update_of_ne (Side.other_ne x)]

@[simp] theorem setRecv_of_other : (s.setRecv x.other p).recvloop x = s.recvloop x := by
  simp only [setRecv, Function.update_of_ne (Side.ne_other x)]

theorem setRecv_setLine (y : Side) :
    (s.setRecv y p).setLine x l = (s.setLine x l).setRecv y p := rfl

end State

end ClusterGo.Peer.Drain
