import ClusterGo.Peer.Effect
import ClusterGo.Rpc.SyncCall.Basic
import ClusterGo.Socket.Send

/-!
# How the request of a call gets out

The loop at the head of `Client.Call`, on an `rpcChannel`.  Every round calls
`RequestWithContext`, which is `node.sendMessageWithContext`: it pushes the
request to the pending queue of the peer, or to the send queue of the socket
with `Socket.SendWithContext`.  After an error that `IsRetryAbleError` knows
the loop sleeps, looks at the context and goes round again.  Any other error
ends the call.  The loop is the same for a call with a result and for one
without.

Any number of calls to one peer run at once, with the other operations on
the peer between them.  A call is known by its sequence number, and so is
its context.  The mutex is held from `Lock` to the return or to `Unlock`,
and the socket is used after that, so `request` and `send` are two events.
What happens to the send queues otherwise is `socket`, which may do anything.

The one error of the loop that leads to another round is a full pending
queue, and `sendMessageWithContext` returns it with the mutex held.

* `call_requests_once`: a call has at most one round that returns from
  `RequestWithContext`, and the error is nil if and only if that round put
  the request into a queue.
* `refused_call_hangs`: after a round that found the queue full the call
  never gets its request out, and once it is in the next round it does not
  return, whatever its context says.

On a `selfChannel` no error is retried.
-/

namespace ClusterGo.Rpc.SyncCall.Request

open Peer Socket Transition

variable {M : Type}

/-! ## The channel -/

/-- `Socket.SendWithContext`: the ways in which it can return. -/
def sendWithContext (s : SendQueue M) (done : Bool) (o : M) :
    List (Option Err × SendQueue M) :=
  Select.outcomes
    [(s.die, (some .socketClosed, s)),
      (decide (s.sendReq.length < s.sendChanSize), (none, s.push o)),
      (done, (some .context, s))] none

/-- `rpcChannel.IsRetryAbleError`. -/
def isRetryAbleError : Err → Bool
  | .pendingQueueFull | .sendQueueFull | .pushToSendQueueTimeout => true
  | _ => false

/-- What `Error` returns on the errors of the channel. -/
def errText : Err → String
  | .pendingQueueFull => "pending queue full"
  | .sendQueueFull => "send queue full"
  | .pushToSendQueueTimeout => "push to send queue timeout"
  | .socketClosed => "socket closed"
  | .connecttingSimultaneously => "connectting simultaneously"
  | .duplicateConn => "duplicate node connection"
  -- not errors with a text of their own
  | .context | .write => ""

/-- The error of the channel as `rpcError` sees it.  `ctxErr` is `ctx.Err()`. -/
def goError (ctxErr : Option GoError) : Err → GoError
  | .context => ctxErr.getD (.other [])
  | err => .other (errText err).toUTF8.toList

/-! ## The calls -/

/-- Where `Call` stands.  `sent` is a round whose error is nil, `returned` is a
return from the loop. -/
inductive Pc where
  | idle
  | requesting
  | sending (sock : Nat)
  | sleeping
  | sent
  | returned (err : Option Error)
deriving DecidableEq

/-- One call, with the number of rounds that `RequestWithContext` returned from. -/
structure Call where
  pc : Pc := .idle
  rounds : Nat := 0
deriving DecidableEq

structure State (M : Type) where
  peer : PeerNode M UInt64 := {}
  sockets : Nat → SendQueue M := fun _ => { sendChanSize := 1 }
  /-- The contexts that are done, with their errors. -/
  done : UInt64 → Option GoError := fun _ => none
  calls : UInt64 → Call := fun _ => {}

inductive Event (M : Type) where
  | call (i : UInt64)
  | request (i : UInt64) (now : Time)
  | send (i : UInt64) (way : Nat)
  | wake (i : UInt64)
  | cancel (i : UInt64) (err : GoError)
  | operate (op : Op M UInt64)
  | socket (sock : Nat) (s : SendQueue M)

namespace State

def goTo (s : State M) (i : UInt64) (pc : Pc) : State M :=
  { s with calls := Function.update s.calls i { s.calls i with pc } }

def env (s : State M) (now : Time) : Env UInt64 := { now, done := fun c => (s.done c).isSome }

/-- `RequestWithContext` returns, and `Call` looks at the error. -/
def requestReturns (s : State M) (i : UInt64) (err : Option Err) : State M :=
  let pc : Pc :=
    match err with
    | none => .sent
    | some err =>
      if isRetryAbleError err then .sleeping else .returned (rpcError (goError (s.done i) err))
  { s with calls := Function.update s.calls i { pc, rounds := (s.calls i).rounds + 1 } }

end State

def step (maxPendingMsgSize : Int) (msg : UInt64 → M) (s : State M) : Event M → Option (State M)
  | .call i => if (s.calls i).pc = .idle then some (s.goTo i .requesting) else none
  | .request i now =>
    if (s.calls i).pc = .requesting then
      (s.peer.sendMessageWithContext maxPendingMsgSize (s.env now) i (msg i) none).map
        fun (peer, reply) =>
          match s.peer.socket with
          | some sock => { s with peer }.goTo i (.sending sock)
          | none => { s with peer }.requestReturns i reply.err
    else none
  | .send i way =>
    match (s.calls i).pc with
    | .sending sock =>
      ((sendWithContext (s.sockets sock) (s.done i).isSome (msg i))[way]?).map fun (err, q) =>
        { s with sockets := Function.update s.sockets sock q }.requestReturns i err
    | _ => none
  | .wake i =>
    if (s.calls i).pc = .sleeping then
      match s.done i with
      | some err => some (s.goTo i (.returned (rpcError err)))
      | none => some (s.goTo i .requesting)
    else none
  | .cancel i err =>
    if s.done i = none then some { s with done := Function.update s.done i (some err) }
    else some s
  | .operate op => (exec maxPendingMsgSize s.peer op).map fun (peer, _) => { s with peer }
  | .socket sock q => some { s with sockets := Function.update s.sockets sock q }

/-! ## What a step can do -/

/-- The entry of a request in the pending queue. -/
def entry (msg : UInt64 → M) (i : UInt64) : PendingMessage M UInt64 :=
  { message := msg i, ctx := some i }

inductive Acts (maxPendingMsgSize : Int) (msg : UInt64 → M) (s : State M) :
    Event M → State M → Prop where
  | calls {i : UInt64} (hpc : (s.calls i).pc = .idle) :
    Acts maxPendingMsgSize msg s (.call i) (s.goTo i .requesting)
  | finds {i : UInt64} {now : Time} {sock : Nat} (hpc : (s.calls i).pc = .requesting)
    (hfree : s.peer.locked = false) :
    Acts maxPendingMsgSize msg s (.request i now) (s.goTo i (.sending sock))
  | refused {i : UInt64} {now : Time} {queue : List (PendingMessage M UInt64)}
    (hpc : (s.calls i).pc = .requesting) (hfree : s.peer.locked = false)
    (hqueue : queue.Sublist s.peer.pendingMsg) :
    Acts maxPendingMsgSize msg s (.request i now)
      ({ s with peer := { s.peer with locked := true, pendingMsg := queue } }.requestReturns i
        (some .pendingQueueFull))
  | queued {i : UInt64} {now : Time} {queue : List (PendingMessage M UInt64)}
    (hpc : (s.calls i).pc = .requesting) (hfree : s.peer.locked = false)
    (hqueue : queue.Sublist s.peer.pendingMsg) :
    Acts maxPendingMsgSize msg s (.request i now)
      ({ s with peer := PeerNode.enqueue (entry msg i) { s.peer with pendingMsg := queue }
        }.requestReturns i none)
  | pushes {i : UInt64} {way sock : Nat} (hpc : (s.calls i).pc = .sending sock) :
    Acts maxPendingMsgSize msg s (.send i way)
      ({ s with sockets := Function.update s.sockets sock ((s.sockets sock).push (msg i))
        }.requestReturns i none)
  | fails {i : UInt64} {way sock : Nat} {err : Err} (hpc : (s.calls i).pc = .sending sock)
    (herr : err = .socketClosed ∨ err = .context ∧ (s.done i).isSome = true) :
    Acts maxPendingMsgSize msg s (.send i way) (s.requestReturns i (some err))
  | goesOn {i : UInt64} (hpc : (s.calls i).pc = .sleeping) (hdone : s.done i = none) :
    Acts maxPendingMsgSize msg s (.wake i) (s.goTo i .requesting)
  | givesUp {i : UInt64} {err : GoError} (hpc : (s.calls i).pc = .sleeping)
    (hdone : s.done i = some err) :
    Acts maxPendingMsgSize msg s (.wake i) (s.goTo i (.returned (rpcError err)))
  | cancels {i : UInt64} {err : GoError} (hdone : s.done i = none) :
    Acts maxPendingMsgSize msg s (.cancel i err)
      { s with done := Function.update s.done i (some err) }
  | cancelled {i : UInt64} {err : GoError} : Acts maxPendingMsgSize msg s (.cancel i err) s
  | operates {op : Op M UInt64} {peer : PeerNode M UInt64} (hfree : s.peer.locked = false) :
    Acts maxPendingMsgSize msg s (.operate op) { s with peer }
  | socket {sock : Nat} {q : SendQueue M} :
    Acts maxPendingMsgSize msg s (.socket sock q)
      { s with sockets := Function.update s.sockets sock q }

variable {maxPendingMsgSize : Int} {msg : UInt64 → M} {s t u : State M} {e : Event M}

/-- `SendWithContext` pushes, or it fails and leaves the queue as it is. -/
theorem sendWithContext_cases {q : SendQueue M} {done : Bool} {o : M}
    {r : Option Err × SendQueue M} (h : r ∈ sendWithContext q done o) :
    r = (none, q.push o) ∨
      ∃ err, r = (some err, q) ∧ (err = .socketClosed ∨ err = .context ∧ done = true) := by
  rcases Select.mem_outcomes.mp h with hcase | ⟨_, hdefault⟩
  · simp only [List.mem_cons, List.not_mem_nil, or_false, Prod.mk.injEq] at hcase
    rcases hcase with ⟨_, hclosed⟩ | ⟨_, hpushed⟩ | ⟨hdone, hctx⟩
    · exact Or.inr ⟨_, hclosed, Or.inl rfl⟩
    · exact Or.inl hpushed
    · exact Or.inr ⟨_, hctx, Or.inr ⟨rfl, hdone.symm⟩⟩
  · cases hdefault

theorem sublist_of_swept {n : PeerNode M UInt64} {queue : List (PendingMessage M UInt64)}
    (h : Swept maxPendingMsgSize n queue) : queue.Sublist n.pendingMsg := by
  rcases h with heq | ⟨_, hsub⟩
  · exact heq ▸ List.Sublist.refl _
  · exact hsub

theorem acts_of_request {i : UInt64} {now : Time}
    (h : step maxPendingMsgSize msg s (.request i now) = some t) :
    Acts maxPendingMsgSize msg s (.request i now) t := by
  simp only [step, Option.ite_none_right_eq_some, Option.map_eq_some_iff, Prod.exists] at h
  obtain ⟨hpc, peer, reply, hsend, heq⟩ := h
  have hexec : exec maxPendingMsgSize s.peer (.sendMessageWithContext (s.env now) i (msg i) none) =
      some (peer, reply) := hsend
  have hfree := free_of_exec hexec
  have heffect := sendMessageWithContext_effect hsend hfree
  split at heq
  · rename_i sock hsock
    cases heffect with
    | sent =>
      cases heq
      exact .finds hpc hfree
    | rejected _ hnone => cases hnone.symm.trans hsock
    | queued _ hnone => cases hnone.symm.trans hsock
  · rename_i hnone
    cases heffect with
    | sent _ hsock => cases hnone.symm.trans hsock
    | rejected _ _ hqueue =>
      cases heq
      exact .refused hpc hfree (sublist_of_swept hqueue)
    | queued hop _ hqueue =>
      cases heq
      cases hop
      exact .queued hpc hfree (sublist_of_swept hqueue)

theorem acts_of_send {i : UInt64} {way : Nat}
    (h : step maxPendingMsgSize msg s (.send i way) = some t) :
    Acts maxPendingMsgSize msg s (.send i way) t := by
  simp only [step] at h
  split at h
  · rename_i sock hpc
    simp only [Option.map_eq_some_iff, Prod.exists] at h
    obtain ⟨err, q, hway, heq⟩ := h
    rcases sendWithContext_cases (List.mem_of_getElem? hway) with hpushed | ⟨err', hfailed, herr⟩
    · cases hpushed
      cases heq
      exact .pushes hpc
    · cases hfailed
      rw [Function.update_eq_self] at heq
      cases heq
      exact .fails hpc herr
  · cases h

theorem acts_of_step (h : step maxPendingMsgSize msg s e = some t) :
    Acts maxPendingMsgSize msg s e t := by
  cases e with
  | call i =>
    simp only [step, Option.ite_none_right_eq_some] at h
    obtain ⟨hpc, heq⟩ := h
    cases heq
    exact .calls hpc
  | request i now => exact acts_of_request h
  | send i way => exact acts_of_send h
  | wake i =>
    simp only [step, Option.ite_none_right_eq_some] at h
    obtain ⟨hpc, heq⟩ := h
    split at heq <;> cases heq
    · rename_i hdone
      exact .givesUp hpc hdone
    · rename_i hdone
      exact .goesOn hpc hdone
  | cancel i err =>
    simp only [step] at h
    split_ifs at h with hdone <;> cases h
    · exact .cancels hdone
    · exact .cancelled
  | operate op =>
    simp only [step, Option.map_eq_some_iff, Prod.exists] at h
    obtain ⟨peer, reply, hexec, heq⟩ := h
    cases heq
    exact .operates (free_of_exec hexec)
  | socket sock q =>
    cases h
    exact .socket

/-! ## The rounds of a call -/

/-- What is known of a call from where it stands.  A call that has a round
behind it and goes on has left the mutex held. -/
def Call.Ok (locked : Bool) (done : Option GoError) (c : Call) : Prop :=
  match c.pc with
  | .idle | .sending _ => c.rounds = 0
  | .requesting => c.rounds = 0 ∨ c.rounds = 1 ∧ locked = true
  | .sleeping => c.rounds = 1 ∧ locked = true
  | .sent => c.rounds = 1
  | .returned err =>
    c.rounds = 1 ∧ (err = rpcError (goError none .socketClosed) ∨
      ∃ ctxErr, done = some ctxErr ∧ err = rpcError ctxErr)

def Inv (s : State M) : Prop := ∀ i, (s.calls i).Ok s.peer.locked (s.done i)

/-- A held mutex stays held and a context stays done. -/
theorem Call.Ok.mono {c : Call} {locked locked' : Bool} {done done' : Option GoError}
    (h : c.Ok locked done) (hlocked : locked = true → locked' = true)
    (hdone : ∀ err, done = some err → done' = some err) : c.Ok locked' done' := by
  obtain ⟨pc, rounds⟩ := c
  cases pc with
  | idle | sending | sent => exact h
  | requesting => exact h.imp_right fun hround => ⟨hround.1, hlocked hround.2⟩
  | sleeping => exact ⟨h.1, hlocked h.2⟩
  | returned err =>
    refine ⟨h.1, h.2.imp_right fun hctx => ?_⟩
    obtain ⟨ctxErr, hdone', herr⟩ := hctx
    exact ⟨ctxErr, hdone ctxErr hdone', herr⟩

/-- One call moves, and what the others see only grows. -/
theorem Inv.update (h : Inv s) {i : UInt64} {c : Call}
    (hcalls : t.calls = Function.update s.calls i c)
    (hlocked : s.peer.locked = true → t.peer.locked = true)
    (hdone : ∀ j err, s.done j = some err → t.done j = some err)
    (hc : c.Ok t.peer.locked (t.done i)) : Inv t := by
  intro j
  rw [hcalls]
  by_cases hj : j = i
  · rw [hj, Function.update_self]
    exact hc
  · rw [Function.update_of_ne hj]
    exact (h j).mono hlocked (hdone j)

theorem Inv.keep (h : Inv s) (hcalls : t.calls = s.calls)
    (hlocked : s.peer.locked = true → t.peer.locked = true)
    (hdone : ∀ j err, s.done j = some err → t.done j = some err) : Inv t := by
  intro j
  rw [hcalls]
  exact (h j).mono hlocked (hdone j)

theorem Inv.of_pc (h : Inv s) {i : UInt64} {pc : Pc} (hpc : (s.calls i).pc = pc) :
    Call.Ok s.peer.locked (s.done i) ⟨pc, (s.calls i).rounds⟩ := by
  rw [← hpc]
  exact h i

/-- A round that gets the mutex is the first one. -/
theorem Inv.rounds_of_free (h : Inv s) {i : UInt64} (hpc : (s.calls i).pc = .requesting)
    (hfree : s.peer.locked = false) : (s.calls i).rounds = 0 := by
  rcases h.of_pc hpc with hzero | ⟨_, hlocked⟩
  · exact hzero
  · rw [hfree] at hlocked
    cases hlocked

theorem Inv.acts (h : Inv s) (hacts : Acts maxPendingMsgSize msg s e t) : Inv t := by
  cases hacts with
  | calls hpc => exact h.update rfl id (fun _ _ h => h) (Or.inl (h.of_pc hpc))
  | finds hpc hfree =>
    exact h.update rfl id (fun _ _ h => h) (h.rounds_of_free hpc hfree)
  | refused hpc hfree =>
    refine h.update rfl (fun _ => rfl) (fun _ _ h => h) ⟨?_, rfl⟩
    rw [h.rounds_of_free hpc hfree]
  | queued hpc hfree =>
    refine h.update rfl ?_ (fun _ _ h => h) ?_
    · simp [hfree]
    · show (s.calls _).rounds + 1 = 1
      rw [h.rounds_of_free hpc hfree]
  | pushes hpc =>
    refine h.update rfl id (fun _ _ h => h) ?_
    show (s.calls _).rounds + 1 = 1
    rw [h.of_pc hpc]
  | fails hpc herr =>
    have hround : (s.calls _).rounds = 0 := h.of_pc hpc
    rcases herr with rfl | ⟨rfl, hdone⟩
    · refine h.update rfl id (fun _ _ h => h) ⟨?_, Or.inl rfl⟩
      rw [hround]
    · obtain ⟨ctxErr, hctx⟩ := Option.isSome_iff_exists.mp hdone
      refine h.update rfl id (fun _ _ h => h) ⟨?_, Or.inr ⟨ctxErr, hctx, ?_⟩⟩
      · rw [hround]
      · rw [hctx]
        rfl
  | goesOn hpc => exact h.update rfl id (fun _ _ h => h) (Or.inr (h.of_pc hpc))
  | givesUp hpc hdone =>
    exact h.update rfl id (fun _ _ h => h) ⟨(h.of_pc hpc).1, Or.inr ⟨_, hdone, rfl⟩⟩
  | @cancels i err hdone =>
    refine h.keep rfl id fun j err' hj => ?_
    have hne : j ≠ i := by
      intro heq
      rw [heq, hdone] at hj
      cases hj
    exact (Function.update_of_ne hne _ _).trans hj
  | cancelled => exact h
  | operates hfree => exact h.keep rfl (by simp [hfree]) (fun _ _ h => h)
  | socket => exact h.keep rfl id (fun _ _ h => h)

theorem inv_start : Inv ({} : State M) := fun _ => rfl

theorem inv_of_reachable (h : Reachable (step maxPendingMsgSize msg) {} s) : Inv s :=
  Reach.invariant (P := Inv) inv_start
    (fun _ _ _ _ hinv _ hstep => hinv.acts (acts_of_step hstep)) h

/-- The step put the request of call `i` into the pending queue or into the
send queue of a socket. -/
def Put (msg : UInt64 → M) (s t : State M) (i : UInt64) : Prop :=
  (∃ queue : List (PendingMessage M UInt64), queue.Sublist s.peer.pendingMsg ∧
    t.peer.pendingMsg = queue ++ [entry msg i] ∧ t.sockets = s.sockets) ∨
  ∃ sock, t.peer = s.peer ∧
    t.sockets = Function.update s.sockets sock ((s.sockets sock).push (msg i))

/-- The step put nothing anywhere. -/
def PutNothing (s t : State M) : Prop :=
  t.peer.pendingMsg.Sublist s.peer.pendingMsg ∧ t.sockets = s.sockets

theorem goTo_calls (s : State M) (i j : UInt64) (pc : Pc) :
    (s.goTo i pc).calls j = if j = i then { s.calls i with pc } else s.calls j :=
  Function.update_apply ..

theorem rounds_goTo (s : State M) (i j : UInt64) (pc : Pc) :
    ((s.goTo i pc).calls j).rounds = (s.calls j).rounds := by
  rw [goTo_calls]
  split_ifs with hj
  · rw [hj]
  · rfl

/-- The call whose round returned is the one whose rounds changed. -/
theorem eq_of_rounds {i j : UInt64} {err : Option Err}
    (h : ((s.requestReturns j err).calls i).rounds ≠ (s.calls i).rounds) : i = j := by
  by_contra hne
  exact h (congrArg Call.rounds (Function.update_of_ne hne _ _))

theorem requestReturns_self (s : State M) (i : UInt64) (err : Option Err) :
    ((s.requestReturns i err).calls i).rounds = (s.calls i).rounds + 1 ∧
      (((s.requestReturns i err).calls i).pc = .sent ↔ err = none) := by
  simp only [State.requestReturns, Function.update_self, true_and]
  cases err with
  | none => simp
  | some err =>
    simp only [reduceCtorEq, iff_false]
    split_ifs <;> simp

theorem pendingMsg_enqueue (m : PendingMessage M UInt64) (n : PeerNode M UInt64) :
    (n.enqueue m).pendingMsg = n.pendingMsg ++ [m] := by
  simp only [PeerNode.enqueue]
  split_ifs <;> rfl

/-- A step in which `RequestWithContext` returns to call `i`. -/
theorem round_of_acts (hinv : Inv s) (hacts : Acts maxPendingMsgSize msg s e t) {i : UInt64}
    (hrounds : (t.calls i).rounds ≠ (s.calls i).rounds) :
    (s.calls i).rounds = 0 ∧ (t.calls i).rounds = 1 ∧
      ((t.calls i).pc = .sent ∧ Put msg s t i ∨ (t.calls i).pc ≠ .sent ∧ PutNothing s t) := by
  cases hacts with
  | calls | finds | goesOn | givesUp => exact absurd (rounds_goTo _ _ _ _) hrounds
  | cancels | cancelled | operates | socket => exact absurd rfl hrounds
  | refused hpc hfree hqueue =>
    obtain rfl := eq_of_rounds hrounds
    obtain ⟨hround, hsent⟩ := requestReturns_self
      { s with peer := { s.peer with locked := true, pendingMsg := _ } } i (some .pendingQueueFull)
    have hzero := hinv.rounds_of_free hpc hfree
    exact ⟨hzero, hround.trans (by rw [hzero]), Or.inr ⟨by simp [hsent], hqueue, rfl⟩⟩
  | queued hpc hfree hqueue =>
    obtain rfl := eq_of_rounds hrounds
    obtain ⟨hround, hsent⟩ := requestReturns_self { s with peer := _ } i none
    have hzero := hinv.rounds_of_free hpc hfree
    exact ⟨hzero, hround.trans (by rw [hzero]),
      Or.inl ⟨hsent.mpr rfl, Or.inl ⟨_, hqueue, pendingMsg_enqueue _ _, rfl⟩⟩⟩
  | pushes hpc =>
    obtain rfl := eq_of_rounds hrounds
    obtain ⟨hround, hsent⟩ := requestReturns_self { s with sockets := _ } i none
    have hzero : (s.calls i).rounds = 0 := hinv.of_pc hpc
    exact ⟨hzero, hround.trans (by rw [hzero]), Or.inl ⟨hsent.mpr rfl, Or.inr ⟨_, rfl, rfl⟩⟩⟩
  | fails hpc =>
    obtain rfl := eq_of_rounds hrounds
    obtain ⟨hround, hsent⟩ := requestReturns_self s i (some _)
    have hzero : (s.calls i).rounds = 0 := hinv.of_pc hpc
    exact ⟨hzero, hround.trans (by rw [hzero]),
      Or.inr ⟨by simp [hsent], List.Sublist.refl _, rfl⟩⟩

/-- In every run and for every call, `RequestWithContext` returns at most once.
It returns nil exactly when it put the request into a queue, and it put
nothing otherwise.  A call that ends in the loop reports a closed socket or
the error of its context. -/
theorem call_requests_once (maxPendingMsgSize : Int) (msg : UInt64 → M) (s : State M)
    (h : Reachable (step maxPendingMsgSize msg) {} s) (i : UInt64) :
    (s.calls i).rounds ≤ 1 ∧
    ((s.calls i).pc = .sent → (s.calls i).rounds = 1) ∧
    (∀ e t, step maxPendingMsgSize msg s e = some t →
      (t.calls i).rounds ≠ (s.calls i).rounds →
      (s.calls i).rounds = 0 ∧ (t.calls i).rounds = 1 ∧
      ((t.calls i).pc = .sent ∧ Put msg s t i ∨ (t.calls i).pc ≠ .sent ∧ PutNothing s t)) ∧
    ∀ err, (s.calls i).pc = .returned err →
      err = rpcError (.other "socket closed".toUTF8.toList) ∨
      ∃ ctxErr, s.done i = some ctxErr ∧ err = rpcError ctxErr := by
  have hinv := inv_of_reachable h
  refine ⟨?_, fun hpc => hinv.of_pc hpc, ?_, fun err hpc => (hinv.of_pc hpc).2⟩
  · have hok := hinv i
    unfold Call.Ok at hok
    split at hok <;> omega
  · intro e t hstep hrounds
    exact round_of_acts hinv (acts_of_step hstep) hrounds

/-- Two calls to a peer without a connection.  The first request is in the
queue. -/
def oneQueued : List (Event UInt64) := [.call 0, .call 1, .request 0 1]

-- The queue has room for one message, so the second call is refused.
theorem call_requests_once_secondRefused : ∃ s t : State UInt64,
    run (step 1 id) {} oneQueued = some s ∧ (s.calls 0).rounds = 1 ∧
    step 1 id s (.request 1 1) = some t ∧ (t.calls 1).rounds = 1 ∧
    (t.calls 1).pc ≠ .sent ∧ PutNothing s t := by
  let s : State UInt64 := (run (step 1 id) {} oneQueued).get rfl
  have hs : run (step 1 id) {} oneQueued = some s := rfl
  let t : State UInt64 := (step 1 id s (.request 1 1)).get rfl
  have ht : step 1 id s (.request 1 1) = some t := rfl
  have hreach := Reach.of_run hs
  obtain ⟨_, hsent, _⟩ := call_requests_once 1 id s hreach 0
  obtain ⟨_, _, hround, _⟩ := call_requests_once 1 id s hreach 1
  obtain ⟨_, hone, hput⟩ := hround _ t ht (by decide)
  have hrefused : (t.calls 1).pc ≠ .sent := by decide
  refine ⟨s, t, hs, hsent rfl, ht, hone, ?_⟩
  exact hput.resolve_left fun hput => hrefused hput.1

/-! ## A call that was refused -/

/-- `t` is a later state of `s`, in which call `i` has a round behind it and
goes on. -/
structure Hung (i : UInt64) (s t : State M) : Prop where
  locked : t.peer.locked = true
  sending : ∀ j sock, (t.calls j).pc = .sending sock → (s.calls j).pc = .sending sock
  sent : ∀ j, (t.calls j).pc = .sent →
    (s.calls j).pc = .sent ∨ ∃ sock, (s.calls j).pc = .sending sock
  call : (t.calls i).pc = .requesting ∨
    (s.calls i).pc = .sleeping ∧ ((t.calls i).pc = .sleeping ∨
      ∃ err, t.done i = some err ∧ (t.calls i).pc = .returned (rpcError err))

/-- Call `j` moves and the mutex stays held. -/
theorem Hung.move {i j : UInt64} {c : Call} (h : Hung i s t)
    (hcalls : u.calls = Function.update t.calls j c) (hlocked : u.peer.locked = t.peer.locked)
    (hdone : u.done = t.done) (hsending : ∀ sock, c.pc ≠ .sending sock)
    (hsent : c.pc = .sent → ∃ sock, (t.calls j).pc = .sending sock)
    (hcall : i = j → c.pc = .requesting ∨
      (s.calls i).pc = .sleeping ∧ ∃ err, t.done i = some err ∧ c.pc = .returned (rpcError err)) :
    Hung i s u := by
  refine ⟨hlocked.trans h.locked, fun k sock hk => ?_, fun k hk => ?_, ?_⟩
  · by_cases hkj : k = j
    · rw [hcalls, hkj, Function.update_self] at hk
      exact absurd hk (hsending sock)
    · rw [hcalls, Function.update_of_ne hkj] at hk
      exact h.sending k sock hk
  · by_cases hkj : k = j
    · rw [hcalls, hkj, Function.update_self] at hk
      obtain ⟨sock, hsock⟩ := hsent hk
      exact Or.inr ⟨sock, hkj ▸ h.sending j sock hsock⟩
    · rw [hcalls, Function.update_of_ne hkj] at hk
      exact h.sent k hk
  · by_cases hij : i = j
    · rw [hcalls, hij, Function.update_self, hdone, ← hij]
      rcases hcall hij with hreq | ⟨hsleep, hreturned⟩
      · exact Or.inl hreq
      · exact Or.inr ⟨hsleep, Or.inr hreturned⟩
    · rw [hcalls, Function.update_of_ne hij, hdone]
      exact h.call

/-- A call that goes on is not in `SendWithContext`. -/
theorem Hung.not_sending {i : UInt64} {sock : Nat} (h : Hung i s t) :
    (t.calls i).pc ≠ .sending sock := by
  intro hpc
  rcases h.call with hreq | ⟨_, hsleep | ⟨_, _, hreturned⟩⟩
  · cases hpc.symm.trans hreq
  · cases hpc.symm.trans hsleep
  · cases hpc.symm.trans hreturned

theorem Hung.acts {i : UInt64} (h : Hung i s t) (hacts : Acts maxPendingMsgSize msg t e u) :
    Hung i s u := by
  cases hacts with
  -- these need the mutex
  | finds _ hfree | refused _ hfree | queued _ hfree | operates hfree =>
    cases h.locked.symm.trans hfree
  | calls hpc =>
    refine h.move rfl rfl rfl (by simp) (by simp) fun _ => Or.inl rfl
  | pushes hpc =>
    refine h.move rfl rfl rfl (by simp) (fun _ => ⟨_, hpc⟩) fun hij => ?_
    exact absurd (hij ▸ hpc) h.not_sending
  | fails hpc herr =>
    refine h.move rfl rfl rfl ?_ (fun _ => ⟨_, hpc⟩) fun hij => ?_
    · intro sock
      dsimp only
      split_ifs <;> simp
    · exact absurd (hij ▸ hpc) h.not_sending
  | goesOn hpc => exact h.move rfl rfl rfl (by simp) (by simp) fun _ => Or.inl rfl
  | givesUp hpc hdone =>
    refine h.move rfl rfl rfl (by simp) (by simp) fun hij => Or.inr ⟨?_, _, hij ▸ hdone, rfl⟩
    subst hij
    rcases h.call with hreq | ⟨hsleep, _⟩
    · cases hpc.symm.trans hreq
    · exact hsleep
  | @cancels j err hdone =>
    refine ⟨h.locked, h.sending, h.sent, h.call.imp_right fun hcall => ⟨hcall.1, ?_⟩⟩
    refine hcall.2.imp_right fun hreturned => ?_
    obtain ⟨err', hdone', hpc⟩ := hreturned
    refine ⟨err', ?_, hpc⟩
    have hne : i ≠ j := by
      intro heq
      rw [heq, hdone] at hdone'
      cases hdone'
    exact (Function.update_of_ne hne _ _).trans hdone'
  | cancelled => exact h
  | socket => exact ⟨h.locked, h.sending, h.sent, h.call⟩

/-- A call that has a round behind it and goes on never gets its request out.
No operation on the peer returns any more, and no other call gets its request
out but those that already had the socket.  The call sleeps, or returns the
error of its context, or stands before the mutex for good. -/
theorem refused_call_hangs (maxPendingMsgSize : Int) (msg : UInt64 → M) (s t : State M)
    (hs : Reachable (step maxPendingMsgSize msg) {} s) (i : UInt64)
    (hround : (s.calls i).rounds = 1)
    (hpc : (s.calls i).pc = .sleeping ∨ (s.calls i).pc = .requesting)
    (ht : Reachable (step maxPendingMsgSize msg) s t) :
    (∀ op, exec maxPendingMsgSize t.peer op = none) ∧
    (∀ j, (t.calls j).pc = .sent →
      (s.calls j).pc = .sent ∨ ∃ sock, (s.calls j).pc = .sending sock) ∧
    ((t.calls i).pc = .requesting ∨
      (s.calls i).pc = .sleeping ∧ ((t.calls i).pc = .sleeping ∨
        ∃ err, t.done i = some err ∧ (t.calls i).pc = .returned (rpcError err))) := by
  have hinv := inv_of_reachable hs
  have hlocked : s.peer.locked = true := by
    rcases hpc with hsleep | hreq
    · exact (hinv.of_pc hsleep).2
    · rcases hinv.of_pc hreq with hzero | ⟨_, hlocked⟩
      · cases hround.symm.trans hzero
      · exact hlocked
  have hstart : Hung i s s := by
    refine ⟨hlocked, fun _ _ h => h, fun _ h => Or.inl h, ?_⟩
    rcases hpc with hsleep | hreq
    · exact Or.inr ⟨hsleep, Or.inl hsleep⟩
    · exact Or.inl hreq
  have h : Hung i s t :=
    Reach.invariant (P := Hung i s) hstart
      (fun _ _ _ _ hhung _ hstep => hhung.acts (acts_of_step hstep)) ht
  refine ⟨fun op => ?_, h.sent, h.call⟩
  cases hexec : exec maxPendingMsgSize t.peer op with
  | none => rfl
  | some r => cases h.locked.symm.trans (free_of_exec hexec)

-- The context of the second call is done, and the call does not return.
theorem refused_call_hangs_secondRefused : ∃ s t : State UInt64,
    run (step 1 id) {} (oneQueued ++ [.request 1 1]) = some s ∧
    run (step 1 id) s [.wake 1, .cancel 1 .deadlineExceeded] = some t ∧
    t.done 1 = some .deadlineExceeded ∧ (t.calls 1).pc = .requesting ∧
    exec 1 t.peer .closeSocket = none := by
  let s : State UInt64 := (run (step 1 id) {} (oneQueued ++ [.request 1 1])).get rfl
  have hs : run (step 1 id) {} (oneQueued ++ [.request 1 1]) = some s := rfl
  let t : State UInt64 := (run (step 1 id) s [.wake 1, .cancel 1 .deadlineExceeded]).get rfl
  have ht : run (step 1 id) s [.wake 1, .cancel 1 .deadlineExceeded] = some t := rfl
  obtain ⟨hblocked, _, hcall⟩ := refused_call_hangs 1 id s t (Reach.of_run hs) 1 rfl
    (Or.inl rfl) (Reach.of_run ht)
  refine ⟨s, t, hs, ht, rfl, hcall.resolve_right fun hother => ?_, hblocked _⟩
  rcases hother.2 with hsleep | ⟨_, _, hreturned⟩
  · cases hsleep
  · cases hreturned

end ClusterGo.Rpc.SyncCall.Request
