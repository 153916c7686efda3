import ClusterGo.Lib.Transition
import ClusterGo.Peer.Basic
import ClusterGo.Socket.FrameReader

/-!
# The life of a socket

`socket/socket.go` as a whole.  `New` starts three goroutines: `sendloop`,
`recvloop` and `finalize`.  Callers push objects with `Send` or
`SendWithContext`, arm a receive with `Recv` and close the socket with
`Close`, and each of the two loops closes it when it meets an error.  When
both loops have returned, `finalize` closes the connection and runs the
close callback.

Each goroutine has a program counter of its own, which stands between two
statements that other goroutines can observe.  A `select` with several
cases that are ready is one event for each of them.

* The function that `closeOnce` guards runs in three steps: it stores the
  reason, closes `die` and closes the connection.  Other callers of `close`
  wait until it has returned, and so do the loops.
* A write puts all of the gather buffer on the wire, or it fails behind any
  part of it.  A read delivers some bytes or fails.  On a closed connection
  both fail.
* The packet handler returns, with or without an error.

`entries`, `wire`, `handled` and `callbacks` record what was encoded, what
was written, which packets the handler got, and the runs of the close
callback.  The code does not look at them.
-/

namespace ClusterGo.Socket.Life

open Peer Rpc

variable {O P E : Type}

/-- `socket.Codec`. -/
structure Codec (O P E : Type) where
  encode : Bytes → O → Bytes × Nat
  decode : Bytes → Except E P

/-- `socket.Options`, and `MaxPacketSize`. -/
structure Options where
  sendChanSize : Int := 0
  batchSendSize : Int := 0
  autoRecv : Bool := false
  autoRecvTimeout : Int := 0
  maxPacketSize : Int := 4096
deriving DecidableEq, Repr

/-- The defaults that `New` fills in. -/
def Options.withDefaults (opts : Options) : Options :=
  { opts with
    sendChanSize := if opts.sendChanSize ≤ 0 then 1 else opts.sendChanSize
    batchSendSize := if opts.batchSendSize ≤ 0 then 65535 else opts.batchSendSize }

/-- What a socket is closed with: `ErrRecvTimeout`, an error of
`frameReader.recv`, or an error of the connection, of the codec, of the
handler or of a caller. -/
inductive Reason (E : Type) where
  | recvTimeout
  | frame (text : String)
  | other (err : E)
deriving DecidableEq, Repr

/-- `closeOnce` and the function that it guards: before the first call, and
before each statement. -/
inductive CloseOnce (E : Type) where
  | idle
  | entered (err : Option (Reason E))
  | stored (err : Option (Reason E))
  | died (err : Option (Reason E))
  | done (err : Option (Reason E))
deriving DecidableEq, Repr

/-- The argument of the call of `close` that came first. -/
def CloseOnce.first : CloseOnce E → Option (Option (Reason E))
  | .idle => none
  | .entered err | .stored err | .died err | .done err => some err

/-- Where `sendloop` stands: at its `select`, behind `Encode`, before a
`write`, in `close`, in the loop that empties the queue, before the two
writes of that part, or behind its return. -/
inductive SendPc (E : Type) where
  | waiting
  | encoded
  | flushing
  | closing (err : Reason E)
  | draining
  | drainFlushing
  | lastFlushing
  | done
deriving DecidableEq, Repr

/-- Where `sendloop` goes on behind a `write`, at each of its three places. -/
def SendPc.written : SendPc E → Option (SendPc E)
  | .flushing => some .waiting
  | .drainFlushing => some .draining
  | .lastFlushing => some .done
  | _ => none

/-- Where it goes on when the `write` fails. -/
def SendPc.torn (err : E) : SendPc E → Option (SendPc E)
  | .flushing => some (.closing (.other err))
  | .drainFlushing | .lastFlushing => some .done
  | _ => none

/-- Where `recvloop` stands: at its `select`, at the head of the loop in
`recv`, before `conn.Read`, behind a failed `recv`, before the handler,
before the `select` that arms the next receive, in `close`, or behind its
return. -/
inductive RecvPc (P E : Type) where
  | waiting
  | parsing (deadline : Time)
  | reading (deadline : Time)
  | failed (err : Reason E)
  | handling (packet : P)
  | rearming
  | closing (err : Reason E)
  | done
deriving DecidableEq, Repr

/-- Where `finalize` stands. -/
inductive FinalPc where
  | waitSend
  | waitRecv
  | closing
  | done
deriving DecidableEq, Repr

/-- `Socket`, with the variables of its goroutines. -/
structure Sock (O P E : Type) where
  die : Bool := false
  sendReq : List O := []
  recvReq : List Time := []
  closeOnce : CloseOnce E := .idle
  closeReason : Option (Reason E) := none
  connClosed : Bool := false
  sendPc : SendPc E := .waiting
  buf : Bytes := []
  total : Int := 0
  recvPc : RecvPc P E := .waiting
  reader : FrameReader
  finalPc : FinalPc := .waitSend
  entries : List (O × Bytes) := []
  wire : Bytes := []
  handled : List P := []
  callbacks : List (Option (Reason E)) := []

/-- `socket.New`. -/
def newSock (opts : Options) : Sock O P E where
  reader := newFrameReader opts.maxPacketSize

/-- How a `conn.Write` ends: with everything written, or behind the first
`k` bytes. -/
inductive Written (E : Type) where
  | all
  | failed (k : Nat) (err : E)
deriving DecidableEq, Repr

inductive Event (O E : Type) where
  -- the callers
  | send (o : O)
  | recv (push : Bool)
  | close (err : Option (Reason E))
  -- the function in `closeOnce`
  | once
  -- `sendloop`
  | sendDie
  | sendTake
  | sendCheck
  | sendWrite (res : Written E)
  | drain
  | sendClose
  -- `recvloop`
  | recvDie
  | recvTake
  | parse
  | read (chunk : Bytes)
  | readErr (timeout : Bool) (err : E)
  | recvFailed
  | handle (err : Option E)
  | rearm (now : Time) (push : Bool)
  | recvClose
  -- `finalize`
  | finalize

namespace Sock

/-! ## Callers -/

/-- The push in `Send` and `SendWithContext`. -/
def send (opts : Options) (s : Sock O P E) (o : O) : Option (Sock O P E) :=
  if s.sendReq.length < opts.sendChanSize then some { s with sendReq := s.sendReq ++ [o] }
  else none

/-- `select { case <-s.die: case s.recvReq <- deadline: default: }`, in the
case that pushes and in the other two. -/
def arm (s : Sock O P E) (deadline : Time) (push : Bool) : Option (Sock O P E) :=
  if push then
    if s.recvReq.length < 1 then some { s with recvReq := s.recvReq ++ [deadline] } else none
  else if s.die ∨ 1 ≤ s.recvReq.length then some s
  else none

/-- The first call of `close` runs the function.  The others change nothing
and are not events. -/
def close (s : Sock O P E) (err : Option (Reason E)) : Option (Sock O P E) :=
  match s.closeOnce with
  | .idle => some { s with closeOnce := .entered err }
  | _ => none

/-- One statement of the function in `closeOnce`. -/
def once (s : Sock O P E) : Option (Sock O P E) :=
  match s.closeOnce with
  | .entered err => some { s with closeOnce := .stored err, closeReason := err }
  | .stored err => some { s with closeOnce := .died err, die := true }
  | .died err => some { s with closeOnce := .done err, connClosed := true }
  | _ => none

/-! ## `sendloop` -/

/-- `case <-s.die` of the `select`. -/
def sendDie (s : Sock O P E) : Option (Sock O P E) :=
  match s.sendPc with
  | .waiting => if s.die then some { s with sendPc := .draining } else none
  | _ => none

/-- Take the object at the head of the queue and encode it. -/
def encodeNext (codec : Codec O P E) (s : Sock O P E) (o : O) (sendReq : List O)
    (sendPc : SendPc E) : Sock O P E :=
  let buf := (codec.encode s.buf o).1
  { s with
    sendReq, sendPc, buf
    total := s.total + ((buf.length : Int) - s.buf.length)
    entries := s.entries ++ [(o, buf.drop s.buf.length)] }

/-- `case o := <-s.sendReq` of the `select`. -/
def sendTake (codec : Codec O P E) (s : Sock O P E) : Option (Sock O P E) :=
  match s.sendPc, s.sendReq with
  | .waiting, o :: sendReq => some (s.encodeNext codec o sendReq .encoded)
  | _, _ => none

def sendCheck (opts : Options) (s : Sock O P E) : Option (Sock O P E) :=
  match s.sendPc with
  | .encoded =>
    let full := s.total ≥ opts.batchSendSize ∨ (s.total > 0 ∧ s.sendReq.length = 0)
    some { s with sendPc := if full then .flushing else .waiting }
  | _ => none

/-- The buffer is written and starts over. -/
def flush (s : Sock O P E) (sendPc : SendPc E) : Sock O P E :=
  { s with wire := s.wire ++ s.buf, buf := [], total := 0, sendPc }

/-- A part of the buffer went out before the write failed. -/
def tear (s : Sock O P E) (k : Nat) (sendPc : SendPc E) : Sock O P E :=
  { s with wire := s.wire ++ s.buf.take k, sendPc }

/-- `s.write(buf)`.  Nothing goes out on a closed connection. -/
def sendWrite (s : Sock O P E) : Written E → Option (Sock O P E)
  | .all => if s.connClosed then none else s.sendPc.written.map s.flush
  | .failed k err => (s.sendPc.torn err).map (s.tear (if s.connClosed then 0 else k))

/-- One round of the loop that empties the queue, and the test behind it. -/
def drain (codec : Codec O P E) (opts : Options) (s : Sock O P E) : Option (Sock O P E) :=
  match s.sendPc, s.sendReq with
  | .draining, o :: sendReq =>
    let s := s.encodeNext codec o sendReq .draining
    some { s with sendPc := if s.total ≥ opts.batchSendSize then .drainFlushing else .draining }
  | .draining, [] => some { s with sendPc := if s.total > 0 then .lastFlushing else .done }
  | _, _ => none

/-- `s.close(err)` in `sendloop`. -/
def sendClose (s : Sock O P E) : Option (Sock O P E) :=
  match s.sendPc, s.closeOnce with
  | .closing err, .idle => some { s with closeOnce := .entered (some err) }
  | .closing _, .done _ => some { s with sendPc := .done }
  | _, _ => none

/-! ## `recvloop` -/

/-- `case <-s.die` of the `select`. -/
def recvDie (s : Sock O P E) : Option (Sock O P E) :=
  match s.recvPc with
  | .waiting => if s.die then some { s with recvPc := .done } else none
  | _ => none

/-- `case deadline := <-s.recvReq` of the `select`. -/
def recvTake (s : Sock O P E) : Option (Sock O P E) :=
  match s.recvPc, s.recvReq with
  | .waiting, deadline :: recvReq => some { s with recvReq, recvPc := .parsing deadline }
  | _, _ => none

/-- One round of `frameReader.recv`, and `Decode` when it returns a
payload. -/
def parse (codec : Codec O P E) (s : Sock O P E) : Option (Sock O P E) :=
  match s.recvPc with
  | .parsing deadline =>
    match s.reader.parse with
    | .error text => some { s with recvPc := .failed (.frame text) }
    | .needRead reader => some { s with reader, recvPc := .reading deadline }
    | .packet payload reader =>
      match codec.decode payload with
      | .error err => some { s with reader, recvPc := .closing (.other err) }
      | .ok packet => some { s with reader, recvPc := .handling packet }
  | _ => none

/-- A `conn.Read` that delivers bytes. -/
def read (s : Sock O P E) (chunk : Bytes) : Option (Sock O P E) :=
  match s.recvPc with
  | .reading deadline =>
    if s.connClosed then none
    else (s.reader.read chunk.length chunk).map fun reader =>
      { s with reader, recvPc := .parsing deadline }
  | _ => none

/-- A `conn.Read` or `conn.SetReadDeadline` that fails.  A read without a
deadline can time out too, when the peer does not answer the keepalives. -/
def readErr (s : Sock O P E) (timeout : Bool) (err : E) : Option (Sock O P E) :=
  match s.recvPc with
  | .reading _ => some { s with recvPc := .failed (if timeout then .recvTimeout else .other err) }
  | _ => none

/-- The `select` behind a failed `recv`. -/
def recvFailed (s : Sock O P E) : Option (Sock O P E) :=
  match s.recvPc with
  | .failed err => some { s with recvPc := if s.die then .done else .closing err }
  | _ => none

/-- The packet handler. -/
def handle (opts : Options) (s : Sock O P E) (err : Option E) : Option (Sock O P E) :=
  match s.recvPc with
  | .handling packet =>
    some { s with
      handled := s.handled ++ [packet]
      recvPc := match err with
        | some err => .closing (.other err)
        | none => if opts.autoRecv then .rearming else .waiting }
  | _ => none

/-- Arm the next receive. -/
def rearm (opts : Options) (s : Sock O P E) (now : Time) (push : Bool) :
    Option (Sock O P E) :=
  match s.recvPc with
  | .rearming =>
    let dl := if opts.autoRecvTimeout > 0 then now + opts.autoRecvTimeout else 0
    (s.arm dl push).map fun s => { s with recvPc := .waiting }
  | _ => none

/-- `s.close(err)` in `recvloop`. -/
def recvClose (s : Sock O P E) : Option (Sock O P E) :=
  match s.recvPc, s.closeOnce with
  | .closing err, .idle => some { s with closeOnce := .entered (some err) }
  | .closing _, .done _ => some { s with recvPc := .done }
  | _, _ => none

/-! ## `finalize` -/

/-- The three statements of `finalize`, with `doClose`. -/
def finalize (s : Sock O P E) : Option (Sock O P E) :=
  match s.finalPc with
  | .waitSend =>
    match s.sendPc with
    | .done => some { s with finalPc := .waitRecv }
    | _ => none
  | .waitRecv =>
    match s.recvPc with
    | .done => some { s with finalPc := .closing }
    | _ => none
  | .closing =>
    some { s with
      finalPc := .done, connClosed := true, callbacks := s.callbacks ++ [s.closeReason] }
  | .done => none

end Sock

/-- One action of a goroutine of a socket that `New` made with the options. -/
def step (codec : Codec O P E) (opts : Options) (s : Sock O P E) :
    Event O E → Option (Sock O P E)
  | .send o => s.send opts.withDefaults o
  | .recv push => s.arm 0 push
  | .close err => s.close err
  | .once => s.once
  | .sendDie => s.sendDie
  | .sendTake => s.sendTake codec
  | .sendCheck => s.sendCheck opts.withDefaults
  | .sendWrite res => s.sendWrite res
  | .drain => s.drain codec opts.withDefaults
  | .sendClose => s.sendClose
  | .recvDie => s.recvDie
  | .recvTake => s.recvTake
  | .parse => s.parse codec
  | .read chunk => s.read chunk
  | .readErr timeout err => s.readErr timeout err
  | .recvFailed => s.recvFailed
  | .handle err => s.handle opts err
  | .rearm now push => s.rearm opts now push
  | .recvClose => s.recvClose
  | .finalize => s.finalize

/-- An action of the goroutines of the socket, or of the caller of `close`
that runs the function in `closeOnce`. -/
def Event.Internal : Event O E → Prop
  | .send _ | .recv _ | .close _ => False
  | _ => True

/-- A codec that neither frames nor checks. -/
def plainCodec : Codec Bytes Bytes Unit where
  encode dst o := (dst ++ o, o.length)
  decode := .ok

end ClusterGo.Socket.Life
