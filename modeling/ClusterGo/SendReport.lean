import ClusterGo.Delivery
import ClusterGo.Peer.Effect
import ClusterGo.Peer.Mutex
import ClusterGo.Socket.Send

/-!
# Which sends are reported

`SendBinMessage` and `SendPbMessage` of `cluster.go` put a message into one
of three places: the task queue of the node itself, the pending queue of a
peer without a connection, or the send queue of the socket of a peer.  Each
of them can refuse.  This file follows a call through `Go`,
`getNodeByLogicAddr`, `node.sendMessage` and `Socket.Send` to its end.

A call looks once at each thing it uses: at the two channels of the first
`select`, at the task queue, at the node cache, at the peer under its mutex,
and at the socket in the `select` of `Send`.  A `World` holds each of them
as the call finds it, so it need not be a snapshot, and to prove something
for every world is to prove it for every interleaving with other calls.  A
call that waits forever has no way to return.

Tasks and messages are allocated by the call, and the queues hold pointers
to them, so `Put` is about this message and not about an equal one.
`refused` records the error of the last step that refused, and the code does
not look at it.

The two functions call `n.sendMessage` and drop its result.
`sends_reported_iff` says when that loses an error.
-/

namespace ClusterGo.SendReport

open Codec Peer Rpc Socket

variable {H V P C : Type}

/-! ## The calls -/

/-- The errors of the steps of a call. -/
inductive Refusal where
  | node (err : SendErr)
  | peer (err : Err)
deriving DecidableEq, Repr

/-- What a call allocates: the closure that it gives to `Go`, or the message
that it sends to a peer. -/
inductive Item (V P : Type) where
  | binaryTask (toAddr : LogicAddr) (cmd : UInt16) (msg : Bytes)
  | protoTask (toAddr : LogicAddr) (msg : P)
  | message (m : Message V P)

structure World (V P C : Type) where
  die : Bool
  started : Bool
  taskqueue : List Nat
  taskQueueSize : Nat
  node : Node
  peers : Ptr → PeerNode Nat C
  sockets : Nat → SendQueue Nat
  heap : Nat → Option (Item V P) := fun _ => none
  next : Nat
  refused : Option Refusal := none

/-- The clock readings of a call: in the call itself, in `removeFailedMsg`
and in `Send`. -/
structure Times (C : Type) where
  now : Time
  env : Env C
  send : SendTime

/-- `MaxPendingMsgSize` and `DefaultSendTimeout`. -/
structure Config where
  maxPendingMsgSize : Int
  defaultSendTimeout : Int

namespace World

def alloc (item : Item V P) (w : World V P C) : World V P C :=
  { w with heap := Function.update w.heap w.next (some item), next := w.next + 1 }

def refuse (err : Refusal) (w : World V P C) : Option Refusal × World V P C :=
  (some err, { w with refused := some err })

/-- `gopool.Go`. -/
def go (fn : Nat) (w : World V P C) : Option Refusal × World V P C :=
  if w.taskqueue.length < w.taskQueueSize then
    (none, { w with taskqueue := w.taskqueue ++ [fn] })
  else w.refuse (.node .busy)

/-- The return of a call of `PeerNode.sendMessage`.  A call on a held mutex
does not return. -/
def leave (n : Ptr) (sockets : Nat → SendQueue Nat) (w : World V P C) :
    Option (PeerNode Nat C × Reply Nat) → List (Option Refusal × World V P C)
  | none => []
  | some (peer, reply) =>
    let err := reply.err.map .peer
    [(err, { w with peers := Function.update w.peers n peer, sockets, refused := err })]

/-- `node.sendMessage`, with the socket that it sends to. -/
def sendMessage (cfg : Config) (t : Times C) (n : Ptr) (msg : Nat) (deadline : Time)
    (w : World V P C) : List (Option Refusal × World V P C) :=
  let call := fun sent => (w.peers n).sendMessage cfg.maxPendingMsgSize t.env msg deadline sent
  match (w.peers n).socket with
  | some sock =>
    ((w.sockets sock).send t.send msg deadline).flatMap fun (sent, s) =>
      w.leave n (Function.update w.sockets sock s) (call sent)
  | none => w.leave n w.sockets (call none)

/-- The answers of the `select` over `die` and `started`. -/
def ready (w : World V P C) : List (Except SendErr Unit) :=
  Select.outcomes [(w.die, .error .serverDie), (w.started, .ok ())]
    (some (.error .serverNotStart))

/-- The deadline of a message, which is an optional argument. -/
def deadlineOf (cfg : Config) (t : Times C) (deadline : List Time) : Time :=
  deadline.head?.getD (t.now + cfg.defaultSendTimeout)

/-- The common text of the two functions.  The result of `sendMessage` is
dropped. -/
def sendTo (cfg : Config) (t : Times C) (toAddr : LogicAddr) (task message : Item V P)
    (deadline : List Time) (w : World V P C) : List (Option Refusal × World V P C) :=
  w.ready.flatMap fun
    | .error err => [w.refuse (.node err)]
    | .ok () =>
      if toAddr = w.node.localAddr.logicAddr then [(w.alloc task).go w.next]
      else
        match w.node.getNodeByLogicAddr toAddr with
        | some n =>
          ((w.alloc message).sendMessage cfg t n w.next (deadlineOf cfg t deadline)).map
            fun r => (none, r.2)
        | none => [w.refuse (.node .invaildNode)]

/-- `Node.SendBinMessage`. -/
def sendBinMessage (cfg : Config) (t : Times C) (toAddr : LogicAddr) (cmd : UInt16)
    (msg : Bytes) (deadline : List Time) (w : World V P C) :
    List (Option Refusal × World V P C) :=
  w.sendTo cfg t toAddr (.binaryTask toAddr cmd msg)
    (.message { toAddr, fromAddr := w.node.localAddr.logicAddr, payload := .bytes msg, cmd })
    deadline

/-- `Node.SendPbMessage`. -/
def sendPbMessage (cfg : Config) (t : Times C) (toAddr : LogicAddr) (msg : P)
    (deadline : List Time) (w : World V P C) : List (Option Refusal × World V P C) :=
  w.sendTo cfg t toAddr (.protoTask toAddr msg)
    (.message { toAddr, fromAddr := w.node.localAddr.logicAddr, payload := .proto msg })
    deadline

/-! ## What a caller should learn -/

/-- The object is in the task queue, in a pending queue or in a send
queue. -/
def Put (w : World V P C) (obj : Nat) : Prop :=
  obj ∈ w.taskqueue ∨ (∃ n, ∃ m ∈ (w.peers n).pendingMsg, m.message = obj) ∨
    ∃ sock, obj ∈ (w.sockets sock).sendReq

/-- The objects in the queues were allocated before. -/
def Fresh (w : World V P C) : Prop := ∀ obj, w.Put obj → obj < w.next

end World

/-- A call that returns nil has put its object into a queue, and one that
has not returns the error of the step that refused. -/
def Reported (obj : Nat) (r : Option Refusal × World V P C) : Prop :=
  (r.1 = none → r.2.Put obj) ∧ (¬ r.2.Put obj → r.1 ≠ none ∧ r.1 = r.2.refused)

/-- The peer has no socket and a full pending queue, or a socket that can
refuse. -/
def PeerRefuses (cfg : Config) (t : Times C) (w : World V P C) (n : Ptr) (deadline : Time) :
    Prop :=
  (w.peers n).locked = false ∧
    (QueueFull cfg.maxPendingMsgSize (w.peers n) (.sendMessage t.env w.next deadline none) ∨
      ∃ sock, (w.peers n).socket = some sock ∧ (w.sockets sock).CanRefuse t.send deadline)

/-! ## The steps of a call -/

variable {cfg : Config} {t : Times C} {w w' : World V P C} {obj : Nat}

theorem not_put_of_subset (h : ¬ w.Put obj) (htasks : w'.taskqueue ⊆ w.taskqueue)
    (hpeers : ∀ n, (w'.peers n).pendingMsg ⊆ (w.peers n).pendingMsg)
    (hsockets : ∀ sock, (w'.sockets sock).sendReq ⊆ (w.sockets sock).sendReq) : ¬ w'.Put obj := by
  intro hput
  apply h
  rcases hput with htask | ⟨n, m, hm, hobj⟩ | ⟨sock, hsock⟩
  · exact Or.inl (htasks htask)
  · exact Or.inr (Or.inl ⟨n, m, hpeers n hm, hobj⟩)
  · exact Or.inr (Or.inr ⟨sock, hsockets sock hsock⟩)

theorem pendingMsg_update_subset {n : Ptr} {peer : PeerNode Nat C}
    (h : peer.pendingMsg ⊆ (w.peers n).pendingMsg) (n' : Ptr) :
    (Function.update w.peers n peer n').pendingMsg ⊆ (w.peers n').pendingMsg := by
  by_cases hn : n' = n
  · rw [hn, Function.update_self]
    exact h
  · rw [Function.update_of_ne hn]
    exact List.Subset.refl _

theorem mem_leave {n : Ptr} {sockets : Nat → SendQueue Nat}
    {x : Option (PeerNode Nat C × Reply Nat)} {r : Option Refusal × World V P C}
    (h : r ∈ w.leave n sockets x) :
    ∃ peer reply, x = some (peer, reply) ∧ (r.1 = reply.err.map .peer ∧ r.1 = r.2.refused) ∧
      r.2.taskqueue = w.taskqueue ∧ r.2.peers = Function.update w.peers n peer ∧
      r.2.sockets = sockets := by
  cases x with
  | none => cases h
  | some x =>
    rw [List.mem_singleton.mp h]
    exact ⟨x.1, x.2, rfl, ⟨rfl, rfl⟩, rfl, rfl, rfl⟩

theorem exists_mem_leave {n : Ptr} {sockets : Nat → SendQueue Nat} {peer : PeerNode Nat C}
    {reply : Reply Nat} (h : reply.err ≠ none) :
    ∃ r ∈ w.leave n sockets (some (peer, reply)), r.1 ≠ none := by
  refine ⟨_, List.mem_singleton.mpr rfl, ?_⟩
  rwa [ne_eq, Option.map_eq_none_iff]

/-- How `node.sendMessage` can return: the object is in a queue and there is
no error, or it is in none, the error is that of the step that refused, and
the peer can refuse. -/
theorem sendMessage_cases (hput : ¬ w.Put obj) {n : Ptr} {deadline : Time}
    {r : Option Refusal × World V P C} (h : r ∈ w.sendMessage cfg t n obj deadline) :
    r.1 = none ∧ r.2.Put obj ∨
      (r.1 ≠ none ∧ r.1 = r.2.refused ∧ ¬ r.2.Put obj) ∧ PeerRefuses cfg t w n deadline := by
  unfold World.sendMessage at h
  dsimp only at h
  split at h
  · rename_i sock hsock
    obtain ⟨⟨sent, s⟩, hsend, hleave⟩ := List.mem_flatMap.mp h
    obtain ⟨peer, reply, hcall, ⟨hr, hghost⟩, htasks, hpeers, hsockets⟩ := mem_leave hleave
    have hfree : (w.peers n).locked = false :=
      free_of_exec (show exec _ _ (.sendMessage t.env obj deadline sent) = _ from hcall)
    obtain ⟨_, _, hexits, hexit⟩ := sendMessage_exits hfree t.env obj deadline sent
    cases hcall.symm.trans hexits
    rcases hexit with ⟨_, herr, _, hpending⟩ | ⟨hfull, _⟩ | ⟨⟨hnone, _⟩, _⟩
    · rw [herr] at hr
      rcases SendQueue.send_cases hsend with hsent | ⟨⟨err, hsent⟩, hrefuse⟩
      · cases hsent
        refine Or.inl ⟨hr, Or.inr (Or.inr ⟨sock, ?_⟩)⟩
        rw [hsockets, Function.update_self]
        exact List.mem_append_right _ List.mem_cons_self
      · cases hsent
        refine Or.inr ⟨⟨hr ▸ Option.some_ne_none _, hghost, ?_⟩, hfree,
          Or.inr ⟨sock, hsock, hrefuse⟩⟩
        apply not_put_of_subset hput
        · exact htasks ▸ List.Subset.refl _
        · exact hpeers ▸ pendingMsg_update_subset (hpending ▸ List.Subset.refl _)
        · rw [hsockets, Function.update_eq_self]
          exact fun sock' => List.Subset.refl _
    · exact absurd (hsock.symm.trans hfull.1) (Option.some_ne_none _)
    · exact absurd (hsock.symm.trans hnone) (Option.some_ne_none _)
  · rename_i hsock
    obtain ⟨peer, reply, hcall, ⟨hr, hghost⟩, htasks, hpeers, hsockets⟩ := mem_leave h
    have hfree : (w.peers n).locked = false :=
      free_of_exec (show exec _ _ (.sendMessage t.env obj deadline none) = _ from hcall)
    obtain ⟨_, _, hexits, hexit⟩ := sendMessage_exits hfree t.env obj deadline none
    cases hcall.symm.trans hexits
    rcases hexit with ⟨hsome, _⟩ | ⟨hfull, herr, _, hsublist⟩ | ⟨_, herr, _, m, hm, hobj⟩
    · exact absurd hsock hsome
    · rw [herr] at hr
      refine Or.inr ⟨⟨hr ▸ Option.some_ne_none _, hghost, ?_⟩, hfree, Or.inl hfull⟩
      apply not_put_of_subset hput
      · exact htasks ▸ List.Subset.refl _
      · exact hpeers ▸ pendingMsg_update_subset hsublist.subset
      · exact hsockets ▸ fun sock => List.Subset.refl _
    · rw [herr] at hr
      refine Or.inl ⟨hr, Or.inr (Or.inl ⟨n, m, ?_, hobj⟩)⟩
      rw [hpeers, Function.update_self]
      exact hm

/-- A peer that can refuse does so in one of the ways to return. -/
theorem exists_refused {n : Ptr} {deadline : Time} (h : PeerRefuses cfg t w n deadline)
    (obj : Nat) : ∃ r ∈ w.sendMessage cfg t n obj deadline, r.1 ≠ none := by
  obtain ⟨hfree, hrefuses⟩ := h
  rcases hrefuses with hfull | ⟨sock, hsock, hrefuse⟩
  · obtain ⟨peer, reply, hcall, hexit⟩ := sendMessage_exits hfree t.env obj deadline none
    have herr : reply.err ≠ none := by
      rcases hexit with ⟨hsome, _⟩ | ⟨_, herr, _⟩ | ⟨⟨_, hnot⟩, _⟩
      · exact absurd hfull.1 hsome
      · rw [herr]
        exact Option.some_ne_none _
      · exact absurd hfull hnot
    obtain ⟨r, hr, hne⟩ := exists_mem_leave (w := w) herr
    refine ⟨r, ?_, hne⟩
    simp only [World.sendMessage, hfull.1, hcall]
    exact hr
  · obtain ⟨err, hsend⟩ := SendQueue.exists_refusal hrefuse obj
    obtain ⟨peer, reply, hcall, hexit⟩ := sendMessage_exits hfree t.env obj deadline (some err)
    have herr : reply.err ≠ none := by
      rcases hexit with ⟨_, herr, _⟩ | ⟨hfull, _⟩ | ⟨⟨hnone, _⟩, _⟩
      · rw [herr]
        exact Option.some_ne_none _
      · exact absurd (hsock.symm.trans hfull.1) (Option.some_ne_none _)
      · exact absurd (hsock.symm.trans hnone) (Option.some_ne_none _)
    obtain ⟨r, hr, hne⟩ := exists_mem_leave (w := w) herr
    refine ⟨r, ?_, hne⟩
    simp only [World.sendMessage, hsock]
    refine List.mem_flatMap.mpr ⟨_, hsend, ?_⟩
    rw [hcall]
    exact hr

/-! ## Both functions -/

/-- The message is for a node that can refuse it. -/
def Drops (cfg : Config) (t : Times C) (w : World V P C) (toAddr : LogicAddr)
    (deadline : List Time) : Prop :=
  w.started = true ∧ toAddr ≠ w.node.localAddr.logicAddr ∧
    ∃ n, w.node.getNodeByLogicAddr toAddr = some n ∧
      PeerRefuses cfg t w n (World.deadlineOf cfg t deadline)

theorem ok_mem_ready : Except.ok () ∈ w.ready ↔ w.started = true := by
  unfold World.ready
  rw [Select.mem_outcomes]
  simp only [List.mem_cons, Prod.mk.injEq, reduceCtorEq, and_false, false_or, and_true,
    List.not_mem_nil, or_false, Option.some.injEq, eq_comm (a := true)]

theorem reported_refuse (obj : Nat) (err : Refusal) : Reported obj (w.refuse err) :=
  ⟨fun h => (nomatch h), fun _ => ⟨fun h => (nomatch h), rfl⟩⟩

theorem reported_of_put {r : Option Refusal × World V P C} (h : r.2.Put obj) : Reported obj r :=
  ⟨fun _ => h, fun hnot => absurd h hnot⟩

theorem reported_go (obj : Nat) : Reported obj (w.go obj) := by
  unfold World.go
  split_ifs
  · exact reported_of_put (Or.inl (List.mem_append_right _ List.mem_cons_self))
  · exact reported_refuse obj _

theorem sendTo_reported_iff (hfresh : w.Fresh) (toAddr : LogicAddr) (task message : Item V P)
    (deadline : List Time) :
    (∀ r ∈ w.sendTo cfg t toAddr task message deadline, Reported w.next r) ↔
      ¬ Drops cfg t w toAddr deadline := by
  have hput : ¬ w.Put w.next := fun h => Nat.lt_irrefl _ (hfresh _ h)
  constructor
  · intro hall hdrops
    obtain ⟨hstarted, haway, n, hn, hrefuses⟩ := hdrops
    have hrefuses' : PeerRefuses cfg t (w.alloc message) n (World.deadlineOf cfg t deadline) :=
      hrefuses
    obtain ⟨r, hr, herr⟩ := exists_refused hrefuses' w.next
    have hmem : (none, r.2) ∈ w.sendTo cfg t toAddr task message deadline := by
      refine List.mem_flatMap.mpr ⟨.ok (), ok_mem_ready.mpr hstarted, ?_⟩
      simp only [if_neg haway, hn]
      exact List.mem_map.mpr ⟨r, hr, rfl⟩
    rcases sendMessage_cases (w := w.alloc message) hput hr with ⟨hnone, _⟩ | ⟨⟨_, _, hnot⟩, _⟩
    · exact herr hnone
    · exact hnot ((hall _ hmem).1 rfl)
  · intro hdrops r hr
    obtain ⟨ready, hready, hr⟩ := List.mem_flatMap.mp hr
    cases ready with
    | error err =>
      rw [List.mem_singleton.mp hr]
      exact reported_refuse w.next _
    | ok =>
      dsimp only at hr
      split_ifs at hr with hlocal
      · rw [List.mem_singleton.mp hr]
        exact reported_go w.next
      · split at hr
        · rename_i n hn
          obtain ⟨r', hr', rfl⟩ := List.mem_map.mp hr
          rcases sendMessage_cases (w := w.alloc message) hput hr' with ⟨_, hq⟩ | ⟨_, hrefuses⟩
          · exact reported_of_put hq
          · exact absurd ⟨ok_mem_ready.mp hready, hlocal, n, hn, hrefuses⟩ hdrops
        · rw [List.mem_singleton.mp hr]
          exact reported_refuse w.next _

/-- A refused send is reported unless it is the peer that refuses, for both
functions and whatever the message. -/
theorem sends_reported_iff (hfresh : w.Fresh) (cfg : Config) (t : Times C) (toAddr : LogicAddr)
    (deadline : List Time) :
    (∀ cmd msg, (∀ r ∈ w.sendBinMessage cfg t toAddr cmd msg deadline, Reported w.next r) ↔
      ¬ Drops cfg t w toAddr deadline) ∧
    ∀ msg, (∀ r ∈ w.sendPbMessage cfg t toAddr msg deadline, Reported w.next r) ↔
      ¬ Drops cfg t w toAddr deadline := by
  constructor
  · intro cmd msg
    exact sendTo_reported_iff hfresh toAddr _ _ deadline
  · intro msg
    exact sendTo_reported_iff hfresh toAddr _ _ deadline

/-- The node `1.1.1`, which knows the node `1.2.1`. -/
def pairNode : Node where
  localAddr := ⟨.ofFields 1 1 1, "10.0.0.1:8110"⟩
  nodeCache :=
    { localAddr := .ofFields 1 1 1
      allnodes := fun a => if a = .ofFields 1 2 1 then some 0 else none }
  started := rfl

/-- A started node with a peer in the given state, whose socket has a queue
for one message. -/
def pairWorld (peer : PeerNode Nat Unit) (closed : Bool) : World Unit Unit Unit where
  die := false
  started := true
  taskqueue := []
  taskQueueSize := 4
  node := pairNode
  peers := fun _ => peer
  sockets := fun _ => { die := closed, sendChanSize := 1 }
  next := 1

def noon : Times Unit := ⟨12, ⟨12, fun _ => false⟩, ⟨12, false⟩⟩

/-- A peer without a connection and with room for one pending message. -/
def waitingPeer : PeerNode Nat Unit := { pendingMsg := [{ message := 0 }], dials := 1 }

/-- A full pending queue refuses a message without a deadline, and a closed
socket refuses any.  The caller gets nil. -/
theorem refusal_lost :
    ((pairWorld waitingPeer false).sendBinMessage ⟨1, 200⟩ noon (.ofFields 1 2 1) 7 [] [0]).map
        (fun r => (r.1, r.2.refused, r.2.peers 0)) =
      [(none, some (.peer .pendingQueueFull), { waitingPeer with locked := true })] ∧
    ((pairWorld { socket := some 0 } true).sendPbMessage ⟨1, 200⟩ noon (.ofFields 1 2 1) ()
      [11]).map
        (fun r => (r.1, r.2.refused, (r.2.sockets 0).sendReq)) =
      [(none, some (.peer .socketClosed), []), (none, none, [1])] ∧
    ¬ ∀ r ∈ (pairWorld waitingPeer false).sendBinMessage ⟨1, 200⟩ noon (.ofFields 1 2 1) 7 [] [0],
      Reported (pairWorld waitingPeer false).next r := by
  have hfresh : (pairWorld waitingPeer false).Fresh := by
    intro obj hput
    rcases hput with hput | ⟨n, m, hm, hobj⟩ | ⟨sock, hput⟩
    · cases hput
    · rw [← hobj, List.mem_singleton.mp hm]
      exact Nat.one_pos
    · cases hput
  refine ⟨by decide +kernel, by decide +kernel, ?_⟩
  intro hall
  refine (sendTo_reported_iff hfresh _ _ _ _).mp hall ?_
  exact ⟨rfl, by decide, 0, by decide, rfl, Or.inl ⟨rfl, by decide, Or.inl rfl⟩⟩

/-- A peer without a connection and without pending messages. -/
theorem sends_reported_unconnected :
    (pairWorld {} false).Fresh ∧
      ∀ r ∈ (pairWorld {} false).sendBinMessage ⟨1, 200⟩ noon (.ofFields 1 2 1) 7 [] [],
        Reported (pairWorld {} false).next r := by
  have hfresh : (pairWorld {} false).Fresh := by
    intro obj hput
    rcases hput with hput | ⟨n, m, hm, _⟩ | ⟨sock, hput⟩
    · cases hput
    · cases hm
    · cases hput
  refine ⟨hfresh,
    ((sends_reported_iff hfresh ⟨1, 200⟩ noon (.ofFields 1 2 1) []).1 7 []).mpr fun hdrops => ?_⟩
  obtain ⟨_, _, n, _, _, hrefuses⟩ := hdrops
  rcases hrefuses with ⟨_, hfull, _⟩ | ⟨sock, hsock, _⟩
  · exact absurd (show (0 : Int) ≥ 1 from hfull) (by decide)
  · cases hsock

/-- The errors are those of the model of `SendBinMessage` that says what a
call gets going. -/
theorem sendBinMessage_err (msgManager : MsgManager H) {toAddr : LogicAddr} {cmd : UInt16}
    {msg : Bytes} {deadline : List Time} {r : Option Refusal × World V P C}
    (h : r ∈ w.sendBinMessage cfg t toAddr cmd msg deadline) :
    ∃ ready ∈ w.ready, r.1 =
      match (w.node.sendBinMessage ready (decide (w.taskqueue.length < w.taskQueueSize))
        msgManager toAddr cmd msg : Except SendErr (Sending H V P)) with
      | .ok _ => none
      | .error err => some (.node err) := by
  obtain ⟨ready, hready, hr⟩ := List.mem_flatMap.mp h
  refine ⟨ready, hready, ?_⟩
  unfold Node.sendBinMessage
  cases ready with
  | error err =>
    rw [List.mem_singleton.mp hr]
    rfl
  | ok =>
    dsimp only at hr
    split_ifs at hr with hlocal
    · rw [List.mem_singleton.mp hr, World.go]
      by_cases hroom : w.taskqueue.length < w.taskQueueSize
      · simp [hlocal, hroom, World.alloc]
      · simp [hlocal, hroom, World.alloc, World.refuse]
    · simp only [Fallible.ok_bind, if_neg hlocal]
      cases hn : w.node.getNodeByLogicAddr toAddr with
      | some n =>
        rw [hn] at hr
        obtain ⟨r', _, rfl⟩ := List.mem_map.mp hr
        rfl
      | none =>
        rw [hn] at hr
        rw [List.mem_singleton.mp hr]
        rfl

end ClusterGo.SendReport
