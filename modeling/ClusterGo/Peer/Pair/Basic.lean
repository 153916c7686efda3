import Mathlib.Logic.Function.Basic
import ClusterGo.Addr
import ClusterGo.Peer.Lifecycle

/-!
# Two nodes that dial each other

Two nodes know each other, and each keeps a peer node for the other one.
Both may dial at the same time.  A dial of one side makes a connection and
sends a handshake over it, the other side accepts or rejects it in
`onNewConnection`, and the answer ends the dial in `dialOK` or `dialError`.
This module is the system of the two peer nodes, the dials of both sides
and the network between them.

The network is the one in which every dial connects and every handshake and
every answer is delivered some time, in any order.  `Dial` is where a dial
is: its handshake or its answer is in flight as long as the dial is in that
phase.  A rejection is the closing of the connection, which the dialling
side reads as an error.  Connections are numbered, and the number is the
socket at both ends.  No socket breaks and no node is stopped or removed.

The deadlines of the handshake are left out.  The dialling side writes and
reads within one second each, the accepting side reads within one second and
writes within five milliseconds, and a side that is late ends with an error
that the other one may not see.
-/

namespace ClusterGo.Peer

/-- One of the two nodes. -/
inductive Side where
  | a
  | b
deriving DecidableEq, Repr

namespace Side

def other : Side → Side
  | a => b
  | b => a

@[simp] theorem other_other (x : Side) : x.other.other = x := by
  cases x <;> rfl

@[simp] theorem other_ne (x : Side) : x.other ≠ x := by
  cases x <;> decide

@[simp] theorem ne_other (x : Side) : x ≠ x.other := by
  cases x <;> decide

/-- There is no third side. -/
theorem eq_or_other (x z : Side) : z = x ∨ z = x.other := by
  cases x <;> cases z <;> decide

theorem forall_of_both {P : Side → Prop} (x : Side) (hself : P x) (hother : P x.other) :
    ∀ z, P z := by
  intro z
  rcases eq_or_other x z with hz | hz <;> rw [hz]
  · exact hself
  · exact hother

end Side

/-- Where a call of `dial` is.  The argument is its connection. -/
inductive Dial where
  | queued
  | scheduled
  | handshake (conn : Nat)
  | accepted (conn : Nat)
  | rejected (conn : Nat)
deriving DecidableEq, Repr

/-- A peer node and its outstanding dials. -/
structure Endpoint (M C : Type) where
  node : PeerNode M C := {}
  dials : List Dial := []

/-- The two peer nodes and the network. -/
structure Pair (M C : Type) where
  ends : Side → Endpoint M C := fun _ => {}
  /-- The number of connections made so far. -/
  conns : Nat := 0
  /-- The connections that one side has closed. -/
  closed : List Nat := []

namespace Pair

open Link (started)

variable {M C : Type} {maxPendingMsgSize : Int} {addr : Side → LogicAddr}

inductive Event (M C : Type) where
  | send (x : Side) (op : Op M C)
  | startDial (x : Side) (i : Nat)
  | handshake (x : Side) (i : Nat) (env : Env C)
  | dialOK (x : Side) (i : Nat) (env : Env C)
  | dialError (x : Side) (i : Nat) (env : Env C)

def setEnd (s : Pair M C) (x : Side) (e : Endpoint M C) : Pair M C :=
  { s with ends := Function.update s.ends x e }

/-- The comparison of `onNewConnection` at side `x`. -/
def selfLess (addr : Side → LogicAddr) (x : Side) : Bool :=
  (addr x).val < (addr x.other).val

/-- The side `x.other` has processed the handshake of a dial of `x`: the
answer is on its way, and a rejected connection is closed. -/
def answer (s : Pair M C) (x : Side) (i conn : Nat) (n : PeerNode M C) (r : Reply M) :
    Pair M C :=
  let dials := (s.ends x).dials
  let s := s.setEnd x.other { s.ends x.other with node := n }
  if r.err = none then
    s.setEnd x { s.ends x with dials := dials.set i (.accepted conn) }
  else
    { s.setEnd x { s.ends x with dials := dials.set i (.rejected conn) } with
      closed := conn :: s.closed }

/-- One action of one of the sides.  The dial of an action is given by its
place among the outstanding dials of its side. -/
def step (addr : Side → LogicAddr) (maxPendingMsgSize : Int) (s : Pair M C) :
    Event M C → Option (Pair M C)
  | .send x op =>
    if op.message.isSome then
      (Peer.step maxPendingMsgSize (s.ends x).node op).map fun n =>
        s.setEnd x
          { node := n
            dials := (s.ends x).dials ++
              List.replicate (started (s.ends x).node n 0) .queued }
    else none
  | .startDial x i =>
    if (s.ends x).dials[i]? = some .queued ∨ (s.ends x).dials[i]? = some .scheduled then
      some { s.setEnd x
          { s.ends x with dials := (s.ends x).dials.set i (.handshake s.conns) } with
        conns := s.conns + 1 }
    else none
  | .handshake x i env =>
    match (s.ends x).dials[i]? with
    | some (.handshake conn) =>
      (exec maxPendingMsgSize (s.ends x.other).node
        (.accept env (selfLess addr x.other) false conn)).map fun p => s.answer x i conn p.1 p.2
    | _ => none
  | .dialOK x i env =>
    match (s.ends x).dials[i]? with
    | some (.accepted conn) =>
      (Peer.step maxPendingMsgSize (s.ends x).node (.dialOK env conn)).map fun n =>
        { s.setEnd x { node := n, dials := (s.ends x).dials.eraseIdx i } with
          closed := if (s.ends x).node.socket = none then s.closed else conn :: s.closed }
    | _ => none
  | .dialError x i env =>
    match (s.ends x).dials[i]? with
    | some (.rejected _) =>
      (Peer.step maxPendingMsgSize (s.ends x).node (.dialError env)).map fun n =>
        s.setEnd x
          { node := n
            dials := (s.ends x).dials.eraseIdx i ++
              List.replicate (started (s.ends x).node n 1) .scheduled }
    | _ => none

/-- A send finds room in the queue. -/
def Room (maxPendingMsgSize : Int) (s : Pair M C) : Event M C → Prop
  | .send x _ => (s.ends x).node.pendingMsg.length < maxPendingMsgSize
  | _ => True

instance (maxPendingMsgSize : Int) (s : Pair M C) :
    (e : Event M C) → Decidable (Room maxPendingMsgSize s e)
  | .send _ _ => inferInstanceAs (Decidable (_ < _))
  | .startDial _ _ => inferInstanceAs (Decidable True)
  | .handshake _ _ _ => inferInstanceAs (Decidable True)
  | .dialOK _ _ _ => inferInstanceAs (Decidable True)
  | .dialError _ _ _ => inferInstanceAs (Decidable True)

/-! ## The actions as effects on the nodes -/

/-- The actions, with the operation of the node read as its effect. -/
inductive Acts (addr : Side → LogicAddr) (maxPendingMsgSize : Int) (s : Pair M C) :
    Event M C → Pair M C → Prop where
  | send {x : Side} {op : Op M C} {n : PeerNode M C} {r : Reply M} (hop : op.message.isSome)
      (heffect : Effect maxPendingMsgSize (s.ends x).node op n r) :
      Acts addr maxPendingMsgSize s (.send x op)
        (s.setEnd x
          { node := n
            dials := (s.ends x).dials ++
              List.replicate (started (s.ends x).node n 0) .queued })
  | startDial {x : Side} {i : Nat} {d : Dial} (hdial : (s.ends x).dials[i]? = some d)
      (hwaits : d = .queued ∨ d = .scheduled) :
      Acts addr maxPendingMsgSize s (.startDial x i)
        { s.setEnd x
            { s.ends x with dials := (s.ends x).dials.set i (.handshake s.conns) } with
          conns := s.conns + 1 }
  | handshake {x : Side} {i conn : Nat} {env : Env C} {n : PeerNode M C} {r : Reply M}
      (hdial : (s.ends x).dials[i]? = some (.handshake conn))
      (heffect : Effect maxPendingMsgSize (s.ends x.other).node
        (.accept env (selfLess addr x.other) false conn) n r) :
      Acts addr maxPendingMsgSize s (.handshake x i env) (s.answer x i conn n r)
  | dialOK {x : Side} {i conn : Nat} {env : Env C} {n : PeerNode M C} {r : Reply M}
      (hdial : (s.ends x).dials[i]? = some (.accepted conn))
      (heffect : Effect maxPendingMsgSize (s.ends x).node (.dialOK env conn) n r) :
      Acts addr maxPendingMsgSize s (.dialOK x i env)
        { s.setEnd x { node := n, dials := (s.ends x).dials.eraseIdx i } with
          closed := if (s.ends x).node.socket = none then s.closed else conn :: s.closed }
  | dialError {x : Side} {i conn : Nat} {env : Env C} {n : PeerNode M C} {r : Reply M}
      (hdial : (s.ends x).dials[i]? = some (.rejected conn))
      (heffect : Effect maxPendingMsgSize (s.ends x).node (.dialError env) n r) :
      Acts addr maxPendingMsgSize s (.dialError x i env)
        (s.setEnd x
          { node := n
            dials := (s.ends x).dials.eraseIdx i ++
              List.replicate (started (s.ends x).node n 1) .scheduled })

theorem acts_of_step {s t : Pair M C} {e : Event M C}
    (h : step addr maxPendingMsgSize s e = some t) : Acts addr maxPendingMsgSize s e t := by
  cases e with
  | send x op =>
    simp only [step] at h
    split_ifs at h with hop
    obtain ⟨n, r, heffect, heq⟩ := effect_of_map h
    exact heq ▸ .send hop heffect
  | startDial x i =>
    simp only [step] at h
    split_ifs at h with hdial
    cases h
    rcases hdial with hqueued | hscheduled
    · exact .startDial hqueued (Or.inl rfl)
    · exact .startDial hscheduled (Or.inr rfl)
  | handshake x i env =>
    simp only [step] at h
    split at h
    · rename_i conn hdial
      obtain ⟨⟨n, r⟩, hexec, heq⟩ := Option.map_eq_some_iff.mp h
      exact heq ▸ .handshake hdial (effect_of_exec hexec)
    · cases h
  | dialOK x i env =>
    simp only [step] at h
    split at h
    · rename_i conn hdial
      obtain ⟨n, r, heffect, heq⟩ := effect_of_map h
      exact heq ▸ .dialOK hdial heffect
    · cases h
  | dialError x i env =>
    simp only [step] at h
    split at h
    · rename_i conn hdial
      obtain ⟨n, r, heffect, heq⟩ := effect_of_map h
      exact heq ▸ .dialError hdial heffect
    · cases h

/-! ## Reading the two ends after a change -/

@[simp] theorem setEnd_self (s : Pair M C) (x : Side) (e : Endpoint M C) :
    (s.setEnd x e).ends x = e := by
  simp only [setEnd, Function.update_self]

@[simp] theorem setEnd_other (s : Pair M C) (x : Side) (e : Endpoint M C) :
    (s.setEnd x e).ends x.other = s.ends x.other := by
  simp only [setEnd, Function.update_of_ne (Side.other_ne x)]

@[simp] theorem setEnd_other_self (s : Pair M C) (x : Side) (e : Endpoint M C) :
    (s.setEnd x.other e).ends x = s.ends x := by
  simp only [setEnd, Function.update_of_ne (Side.ne_other x)]

end Pair

end ClusterGo.Peer
