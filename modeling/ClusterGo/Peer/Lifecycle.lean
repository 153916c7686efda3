import ClusterGo.Peer.Effect

/-!
# The life of a peer node: dials, timers and sockets

The operations of a peer node are called by goroutines that the node starts
itself.  A send that finds the queue empty hands a `dial` to the pool or to
a goroutine of its own, a failed dial arms a timer that dials again, and
every socket runs its close callback once, some time after it was closed.
`Link` is the node together with these goroutines, and `Link.step` is one
atomic action of any of them.

* A dial is `queued` until it starts, `running` until it ends in `dialOK`
  or `dialError`, and `scheduled` while its retry timer is armed.  A
  running dial always ends in one of the two calls: the node is not
  stopped.
* Sockets are numbered in the order in which they were established.  A
  socket is `closed` by `closeSocket`, or by itself when a loop of it meets
  an error or the peer hangs up.  After that its callback may run at any
  time, once.
-/

namespace ClusterGo.Peer

open Transition

variable {M C : Type} {maxPendingMsgSize : Int}

/-- A peer node and the goroutines that work for it. -/
structure Link (M C : Type) where
  node : PeerNode M C := {}
  queued : Nat := 0
  running : Nat := 0
  scheduled : Nat := 0
  /-- The number of sockets established so far. -/
  sockets : Nat := 0
  closed : List Nat := []
  /-- The sockets whose close callback has run. -/
  called : List Nat := []

namespace Link

inductive Event (M C : Type) where
  | send (op : Op M C)
  | startDial
  | retryTimer
  | dialOK (env : Env C)
  | dialError (env : Env C)
  | accept (env : Env C) (selfLess writeFails : Bool)
  | closeSocket
  | socketCloses (sock : Nat)
  | closeCallback (sock : Nat)

/-- Count the new socket when the call has installed one. -/
def establish (s : Link M C) : Link M C :=
  if s.node.socket = some s.sockets then { s with sockets := s.sockets + 1 } else s

/-- The dials that a call on the node has started, besides the one that
`ended` with it. -/
def started (n n' : PeerNode M C) (ended : Nat) : Nat := n'.dials + ended - n.dials

/-- One action of a goroutine.  The actions that take the mutex are the
operations of the node, and they block while it is held. -/
def step (maxPendingMsgSize : Int) (s : Link M C) : Event M C → Option (Link M C)
  | .send op =>
    if op.message.isSome then
      (Peer.step maxPendingMsgSize s.node op).map fun n =>
        { s with node := n, queued := s.queued + started s.node n 0 }
    else none
  | .startDial =>
    if 0 < s.queued then
      some { s with queued := s.queued - 1, running := s.running + 1 }
    else none
  | .retryTimer =>
    if 0 < s.scheduled then
      some { s with scheduled := s.scheduled - 1, running := s.running + 1 }
    else none
  | .dialOK env =>
    if 0 < s.running then
      (Peer.step maxPendingMsgSize s.node (.dialOK env s.sockets)).map fun n =>
        establish { s with node := n, running := s.running - 1 }
    else none
  | .dialError env =>
    if 0 < s.running then
      (Peer.step maxPendingMsgSize s.node (.dialError env)).map fun n =>
        { s with
          node := n, running := s.running - 1
          scheduled := s.scheduled + started s.node n 1 }
    else none
  | .accept env selfLess writeFails =>
    (Peer.step maxPendingMsgSize s.node (.accept env selfLess writeFails s.sockets)).map
      fun n => establish { s with node := n }
  | .closeSocket =>
    (Peer.step maxPendingMsgSize s.node .closeSocket).map fun n =>
      { s with node := n, closed := s.node.socket.toList ++ s.closed }
  | .socketCloses sock =>
    if sock < s.sockets ∧ sock ∉ s.closed then
      some { s with closed := sock :: s.closed }
    else none
  | .closeCallback sock =>
    if sock ∈ s.closed ∧ sock ∉ s.called then
      (Peer.step maxPendingMsgSize s.node .closeCallback).map fun n =>
        { s with node := n, called := sock :: s.called }
    else none

/-! ## The actions as effects on the node -/

/-- The actions, with the operation of the node read as its effect. -/
inductive Acts (maxPendingMsgSize : Int) (s : Link M C) : Event M C → Link M C → Prop where
  | send {op : Op M C} {n : PeerNode M C} {r : Reply M} (hop : op.message.isSome)
      (heffect : Effect maxPendingMsgSize s.node op n r) :
      Acts maxPendingMsgSize s (.send op)
        { s with node := n, queued := s.queued + started s.node n 0 }
  | startDial (hqueued : 0 < s.queued) :
      Acts maxPendingMsgSize s .startDial
        { s with queued := s.queued - 1, running := s.running + 1 }
  | retryTimer (hscheduled : 0 < s.scheduled) :
      Acts maxPendingMsgSize s .retryTimer
        { s with scheduled := s.scheduled - 1, running := s.running + 1 }
  | dialOK {env : Env C} {n : PeerNode M C} {r : Reply M} (hrunning : 0 < s.running)
      (heffect : Effect maxPendingMsgSize s.node (.dialOK env s.sockets) n r) :
      Acts maxPendingMsgSize s (.dialOK env)
        (establish { s with node := n, running := s.running - 1 })
  | dialError {env : Env C} {n : PeerNode M C} {r : Reply M} (hrunning : 0 < s.running)
      (heffect : Effect maxPendingMsgSize s.node (.dialError env) n r) :
      Acts maxPendingMsgSize s (.dialError env)
        { s with
          node := n, running := s.running - 1
          scheduled := s.scheduled + started s.node n 1 }
  | accept {env : Env C} {selfLess writeFails : Bool} {n : PeerNode M C} {r : Reply M}
      (heffect : Effect maxPendingMsgSize s.node (.accept env selfLess writeFails s.sockets)
        n r) :
      Acts maxPendingMsgSize s (.accept env selfLess writeFails)
        (establish { s with node := n })
  | closeSocket {n : PeerNode M C} {r : Reply M}
      (heffect : Effect maxPendingMsgSize s.node .closeSocket n r) :
      Acts maxPendingMsgSize s .closeSocket
        { s with node := n, closed := s.node.socket.toList ++ s.closed }
  | socketCloses {sock : Nat} (hsock : sock < s.sockets) (hopen : sock ∉ s.closed) :
      Acts maxPendingMsgSize s (.socketCloses sock) { s with closed := sock :: s.closed }
  | closeCallback {sock : Nat} {n : PeerNode M C} {r : Reply M} (hclosed : sock ∈ s.closed)
      (hcalled : sock ∉ s.called)
      (heffect : Effect maxPendingMsgSize s.node .closeCallback n r) :
      Acts maxPendingMsgSize s (.closeCallback sock)
        { s with node := n, called := sock :: s.called }

/-- Every action that is taken is one of those listed. -/
theorem acts_of_step {s t : Link M C} {e : Event M C}
    (h : step maxPendingMsgSize s e = some t) : Acts maxPendingMsgSize s e t := by
  cases e with
  | send op =>
    simp only [step] at h
    split_ifs at h with hop
    obtain ⟨n, r, heffect, heq⟩ := effect_of_map h
    exact heq ▸ .send hop heffect
  | startDial =>
    simp only [step] at h
    split_ifs at h with hqueued
    cases h
    exact .startDial hqueued
  | retryTimer =>
    simp only [step] at h
    split_ifs at h with hscheduled
    cases h
    exact .retryTimer hscheduled
  | dialOK env =>
    simp only [step] at h
    split_ifs at h with hrunning
    obtain ⟨n, r, heffect, heq⟩ := effect_of_map h
    exact heq ▸ .dialOK hrunning heffect
  | dialError env =>
    simp only [step] at h
    split_ifs at h with hrunning
    obtain ⟨n, r, heffect, heq⟩ := effect_of_map h
    exact heq ▸ .dialError hrunning heffect
  | accept env selfLess writeFails =>
    obtain ⟨n, r, heffect, heq⟩ := effect_of_map h
    exact heq ▸ .accept heffect
  | closeSocket =>
    obtain ⟨n, r, heffect, heq⟩ := effect_of_map h
    exact heq ▸ .closeSocket heffect
  | socketCloses sock =>
    simp only [step] at h
    split_ifs at h with hsock
    cases h
    exact .socketCloses hsock.1 hsock.2
  | closeCallback sock =>
    simp only [step] at h
    split_ifs at h with hclosed
    obtain ⟨n, r, heffect, heq⟩ := effect_of_map h
    exact heq ▸ .closeCallback hclosed.1 hclosed.2 heffect

@[simp] theorem establish_node (s : Link M C) : s.establish.node = s.node := by
  rw [establish]
  split_ifs <;> rfl

/-- What every operation of the node keeps, every action keeps. -/
theorem node_invariant_of_acts {P : PeerNode M C → Prop} {s t : Link M C} {e : Event M C}
    (hP : ∀ {n op n' r}, Effect maxPendingMsgSize n op n' r → P n → P n')
    (hacts : Acts maxPendingMsgSize s e t) (h : P s.node) : P t.node := by
  cases hacts with
  | send hop heffect => exact hP heffect h
  | startDial hqueued => exact h
  | retryTimer hscheduled => exact h
  | dialOK hrunning heffect =>
    rw [establish_node]
    exact hP heffect h
  | dialError hrunning heffect => exact hP heffect h
  | accept heffect =>
    rw [establish_node]
    exact hP heffect h
  | closeSocket heffect => exact hP heffect h
  | socketCloses hsock hopen => exact h
  | closeCallback hclosed hcalled heffect => exact hP heffect h

end Link

end ClusterGo.Peer
