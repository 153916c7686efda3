import ClusterGo.Rpc.Message
import ClusterGo.Lib.Pool
import ClusterGo.Lib.Transition

/-!
# Asynchronous calls

`rpc/client.go`: `Client.AsyncCall` with a result and a callback,
`asynContext`, and the asynchronous half of `Client.OnMessage`.

Any number of calls run at once.  A call is known by the sequence number of
its request, and `makeSequence` gives every call its own.  Three parties
work on one call:

* the caller, which is inside `AsyncCall`;
* the function of the timer, which runs on its own goroutine after the
  deadline;
* `OnMessage`, which runs on the goroutine of the connection that brought a
  response.

They meet in two places.  The entry of the call in the pending map is
removed by the first of them that comes for it.  The word `fired` of the
context is compared and swapped by all three.  The contexts come from a
pool, so the context of a finished call is soon the context of another one.

`step` is one atomic action of one party.  The five plain writes to a fresh
context are one step, and so are the two accesses of one statement to
memory that nobody else reaches.  A response may come at any time, for any
sequence number, and any number of times.

`AsyncCall` without a result or without a callback sends a oneway request
and touches neither the map nor the pool.  The interceptors see the request
and the outcome and are left out.
-/

namespace ClusterGo.Rpc.AsyncCall

variable {V : Type}

/-! ## The state -/

/-- The address of a context. -/
abbrev Ptr := Nat

/-- What `AsyncCall` writes to a context for one call: the callback and the
request, both known by the sequence number, and the result to fill. -/
structure Args (V : Type) where
  seq : UInt64
  ret : V
deriving DecidableEq

/-- `rpc.asynContext`.  The timer is known by the call that started it. -/
structure AsynContext (V : Type) where
  fired : Bool := false
  args : Option (Args V) := none
  timer : Option UInt64 := none

/-- Where `AsyncCall` stands: what it did last. -/
inductive CallerPc where
  | idle | got | ready | stored | armed | assigned | requesting | returnedNil
  | failed | removed | stopped | swapped | returnedErr
deriving DecidableEq, Repr

/-- The order of the program.  The error path comes after the normal
return. -/
def CallerPc.rank : CallerPc → Nat
  | idle => 0
  | got => 1
  | ready => 2
  | stored => 3
  | armed => 4
  | assigned => 5
  | requesting => 6
  | returnedNil => 7
  | failed => 8
  | removed => 9
  | stopped => 10
  | swapped => 11
  | returnedErr => 12

/-- `time.Timer`. -/
inductive TimerState where
  | unset | armed | stopped | expired | finished
deriving DecidableEq, Repr

/-- Who took the entry of a call out of the pending map, other than the
caller itself. -/
inductive Winner (V : Type) where
  | timer
  | response (resp : ResponseMsg V)

/-- Where the timer function or `OnMessage` stands after it took the entry.
`lost` and `gone` are `ran` and `done` for one whose swap failed. -/
inductive ClaimPc where
  | removed | ready | fired | ran | done | lost | gone
deriving DecidableEq, Repr

/-- The timer function or `OnMessage` at work on a call. -/
structure Claim (V : Type) where
  winner : Winner V
  ctx : Ptr
  pc : ClaimPc
  timerStopped : Bool := false

/-- One call: the caller with its local variables, and the party that took
the entry from it.  `released` says that the context went back to the
pool. -/
structure Call (V : Type) where
  caller : CallerPc
  ctx : Ptr
  ret : V
  errWon : Bool := false
  timerStopped : Bool := false
  errFired : Bool := false
  claim : Option (Claim V) := none
  released : Bool := false

def Call.setClaim (c : Call V) (cl : Claim V) : Call V := { c with claim := some cl }

/-- One run of a callback: whose it is and what it was given. -/
structure Callback (V : Type) where
  callee : UInt64
  result : V × Option Error

structure State (V : Type) where
  calls : UInt64 → Call V
  timers : UInt64 → TimerState
  pending : UInt64 → Option Ptr
  ctxs : Ptr → AsynContext V
  pool : List Ptr
  next : Ptr
  log : List (Callback V)

/-- No call was made.  `ret` fills the variables of calls that do not exist
yet. -/
def State.initial (ret : V) : State V where
  calls _ := { caller := .idle, ctx := 0, ret }
  timers _ := .unset
  pending _ := none
  ctxs _ := {}
  pool := []
  next := 0
  log := []

def State.setCall (s : State V) (i : UInt64) (c : Call V) : State V :=
  { s with calls := Function.update s.calls i c }

def State.setPending (s : State V) (i : UInt64) (p : Option Ptr) : State V :=
  { s with pending := Function.update s.pending i p }

def State.setTimer (s : State V) (i : UInt64) (t : TimerState) : State V :=
  { s with timers := Function.update s.timers i t }

def State.setCtx (s : State V) (p : Ptr) (x : AsynContext V) : State V :=
  { s with ctxs := Function.update s.ctxs p x }

/-- Run the callback of `callee`. -/
def State.run (s : State V) (callee : UInt64) (result : V × Option Error) : State V :=
  { s with log := s.log ++ [{ callee, result }] }

/-- `timer.Stop`: whether the call stopped the timer.  A nil timer
panics. -/
def State.stop (s : State V) : Option UInt64 → Option (State V × Bool)
  | none => none
  | some t =>
    if s.timers t = .armed then some (s.setTimer t .stopped, true) else some (s, false)

/-- `atomic.CompareAndSwapInt32(&ctx.fired, 0, 1)`. -/
def State.compareAndSwap (s : State V) (p : Ptr) : State V × Bool :=
  if (s.ctxs p).fired then (s, false)
  else (s.setCtx p { s.ctxs p with fired := true }, true)

/-! ## The outcome -/

variable (decodeRet : V → ResponseMsg V → V × Option Bytes)

/-- What `callOnResponse` gives to the callback: the result, filled in when
the response carries one, and the error. -/
def outcome (ret : V) : Winner V → V × Option Error
  | .timer => (ret, newError errTimeout "timeout".toUTF8.toList)
  | .response resp =>
    match resp.err with
    | some e => (ret, some e)
    | none =>
      match decodeRet ret resp with
      | (ret, none) => (ret, none)
      | (ret, some _) => (ret, newError errOther "decode resp.Ret".toUTF8.toList)

/-! ## The steps -/

/-- The atomic actions.  The first group is the caller, in the order of the
program, then the error path of the caller; the third group is the timer
and `OnMessage`, and the last what both do with an entry they took. -/
inductive Event (V : Type) where
  | get (i : UInt64) (ret : V) (choice : Option Ptr)
  | initialise (i : UInt64)
  | store (i : UInt64)
  | afterFunc (i : UInt64)
  | setTimer (i : UInt64)
  | request (i : UInt64)
  | requestReturn (i : UInt64) (failed : Bool)
  | errDelete (i : UInt64)
  | errStop (i : UInt64)
  | errSwap (i : UInt64)
  | errPut (i : UInt64)
  | expire (i : UInt64)
  | timerDelete (i : UInt64)
  | onMessage (resp : ResponseMsg V)
  | stopTimer (i : UInt64)
  | swap (i : UInt64)
  | callback (i : UInt64)
  | put (i : UInt64)

/-- The caller goes on from `pc`, if that is where it stands. -/
def State.caller (s : State V) (i : UInt64) (pc : CallerPc)
    (f : Call V → Option (State V)) : Option (State V) :=
  if (s.calls i).caller = pc then f (s.calls i) else none

/-- The party that took the entry of `i` goes on from `pc`. -/
def State.claimer (s : State V) (i : UInt64) (pc : ClaimPc)
    (f : Call V → Claim V → Option (State V)) : Option (State V) :=
  match (s.calls i).claim with
  | none => none
  | some cl => if cl.pc = pc then f (s.calls i) cl else none

/-- `asynCtxPool.Put`, after which call `i` is at `c`. -/
def State.putCtx (s : State V) (i : UInt64) (p : Ptr) (c : Call V) : State V :=
  { s with pool := p :: s.pool }.setCall i { c with released := true }

/-- Whether a party that is done with its swap puts the context back:
`onTimeout` when the swap succeeded, `OnMessage` when it stopped the
timer. -/
def Claim.putsBack (cl : Claim V) : Bool :=
  match cl.winner with
  | .timer => cl.pc = .ran
  | .response _ => cl.timerStopped

/-- The last action of the party that took the entry of `i`. -/
def State.finish (s : State V) (i : UInt64) (cl : Claim V) (pc : ClaimPc) : State V :=
  if cl.putsBack then s.putCtx i cl.ctx ((s.calls i).setClaim { cl with pc })
  else s.setCall i ((s.calls i).setClaim { cl with pc })

def step (s : State V) : Event V → Option (State V)
  | .get i ret choice => s.caller i .idle fun _ =>
    (Pool.get s.pool s.next choice).map fun (p, pool, next) =>
      { s with pool, next }.setCall i { caller := .got, ctx := p, ret }
  | .initialise i => s.caller i .got fun c =>
    some <| (s.setCtx c.ctx
      { s.ctxs c.ctx with fired := false, args := some ⟨i, c.ret⟩ }).setCall i
        { c with caller := .ready }
  | .store i => s.caller i .ready fun c =>
    some <| (s.setPending i (some c.ctx)).setCall i { c with caller := .stored }
  | .afterFunc i => s.caller i .stored fun c =>
    some <| (s.setTimer i .armed).setCall i { c with caller := .armed }
  | .setTimer i => s.caller i .armed fun c =>
    -- the timer function may have run by now, and the context may be another
    -- call's
    some <| (s.setCtx c.ctx { s.ctxs c.ctx with timer := some i }).setCall i
      { c with caller := .assigned }
  | .request i => s.caller i .assigned fun c =>
    some <| s.setCall i { c with caller := .requesting }
  | .requestReturn i failed => s.caller i .requesting fun c =>
    some <| s.setCall i { c with caller := if failed then .failed else .returnedNil }
  | .errDelete i => s.caller i .failed fun c =>
    some <| (s.setPending i none).setCall i
      { c with caller := .removed, errWon := (s.pending i).isSome }
  | .errStop i => s.caller i .removed fun c =>
    if c.errWon then
      (s.stop (s.ctxs c.ctx).timer).map fun (s, ok) =>
        s.setCall i { c with caller := .stopped, timerStopped := ok }
    else some <| s.setCall i { c with caller := .stopped }
  | .errSwap i => s.caller i .stopped fun c =>
    -- also when the entry was gone: this is the access that may hit the
    -- context of another call
    some <| (s.compareAndSwap c.ctx).1.setCall i
      { c with caller := .swapped, errFired := (s.compareAndSwap c.ctx).2 }
  | .errPut i => s.caller i .swapped fun c =>
    if c.errFired ∧ c.timerStopped then
      some <| s.putCtx i c.ctx { c with caller := .returnedErr }
    else some <| s.setCall i { c with caller := .returnedErr }
  | .expire i =>
    if s.timers i = .armed then some (s.setTimer i .expired) else none
  | .timerDelete i =>
    if s.timers i = .expired then
      match s.pending i with
      | none => some (s.setTimer i .finished)
      | some _ =>
        some <| ((s.setTimer i .finished).setPending i none).setCall i
          ((s.calls i).setClaim { winner := .timer, ctx := (s.calls i).ctx, pc := .ready })
    else none
  | .onMessage resp =>
    match s.pending resp.seq with
    | none => some s
    | some v =>
      some <| (s.setPending resp.seq none).setCall resp.seq
        ((s.calls resp.seq).setClaim { winner := .response resp, ctx := v, pc := .removed })
  | .stopTimer i => s.claimer i .removed fun c cl =>
    (s.stop (s.ctxs cl.ctx).timer).map fun (s, ok) =>
      s.setCall i (c.setClaim { cl with pc := .ready, timerStopped := ok })
  | .swap i => s.claimer i .ready fun c cl =>
    some <| (s.compareAndSwap cl.ctx).1.setCall i
      (c.setClaim { cl with pc := if (s.compareAndSwap cl.ctx).2 then .fired else .lost })
  | .callback i => s.claimer i .fired fun c cl =>
    match (s.ctxs cl.ctx).args with
    | none => none
    | some args =>
      some <| (s.run args.seq (outcome decodeRet args.ret cl.winner)).setCall i
        (c.setClaim { cl with pc := .ran })
  | .put i =>
    match (s.calls i).claim with
    | none => none
    | some cl =>
      match cl.pc with
      | .ran => some (s.finish i cl .done)
      | .lost => some (s.finish i cl .gone)
      | _ => none

end ClusterGo.Rpc.AsyncCall
