import ClusterGo.Peer.Lifecycle

/-!
# The pending queue of a peer node

While a peer has no connection, its messages wait in `pendingMsg`.  Three
facts hold in every state that the node and its goroutines reach: the queue
never grows past `MaxPendingMsgSize`, messages wait only while there is no
socket, and a waiting message has a dial that is queued, running or
scheduled.  So no accepted message is left behind without a connection
attempt.

`Waiting` states the last two about the node alone, with the node's own
count of dials.  `waiting_of_effect` and `bounded_of_effect` carry them
through every exit of every operation, and `Link.dials_of_acts` says that
the count is the number of dials in the three phases.
-/

namespace ClusterGo.Peer

open Transition

variable {M C : Type} {maxPendingMsgSize : Int} {n n' : PeerNode M C} {op : Op M C}
  {r : Reply M}

/-- Messages wait only without a socket and with a dial. -/
structure Waiting (n : PeerNode M C) : Prop where
  unconnected : n.pendingMsg ≠ [] → n.socket = none
  dialing : n.pendingMsg ≠ [] → 0 < n.dials

@[simp] theorem enqueue_pendingMsg (m : PendingMessage M C) (n : PeerNode M C) :
    (n.enqueue m).pendingMsg = n.pendingMsg ++ [m] := by
  simp only [PeerNode.enqueue]
  split_ifs <;> rfl

@[simp] theorem enqueue_socket (m : PendingMessage M C) (n : PeerNode M C) :
    (n.enqueue m).socket = n.socket := by
  simp only [PeerNode.enqueue]
  split_ifs <;> rfl

/-- A dial is started for the first message only. -/
theorem enqueue_dials (m : PendingMessage M C) (n : PeerNode M C) :
    (n.enqueue m).dials = if n.pendingMsg = [] then n.dials + 1 else n.dials := by
  have hfirst : (n.pendingMsg ++ [m]).length = 1 ↔ n.pendingMsg = [] := by simp
  simp only [PeerNode.enqueue, hfirst]
  split_ifs <;> rfl

theorem Swept.sublist {queue : List (PendingMessage M C)}
    (h : Swept maxPendingMsgSize n queue) : queue.Sublist n.pendingMsg := by
  rcases h with heq | hsub
  · exact heq ▸ List.Sublist.refl _
  · exact hsub.2

/-- A connected node has nothing waiting. -/
theorem Waiting.empty_of_socket (h : Waiting n) (hsock : n.socket ≠ none) :
    n.pendingMsg = [] := by
  by_contra hne
  exact hsock (h.unconnected hne)

theorem waiting_of_empty (hempty : n.pendingMsg = []) : Waiting n where
  unconnected hne := absurd hempty hne
  dialing hne := absurd hempty hne

/-- A node whose queue lost messages keeps the facts. -/
theorem Waiting.sublist (h : Waiting n) (hqueue : n'.pendingMsg.Sublist n.pendingMsg)
    (hsock : n'.socket = n.socket)
    (hdials : n'.pendingMsg ≠ [] → 0 < n.dials → 0 < n'.dials) : Waiting n' := by
  have hne : n'.pendingMsg ≠ [] → n.pendingMsg ≠ [] := by
    intro hq hnil
    rw [hnil] at hqueue
    exact hq (List.sublist_nil.mp hqueue)
  refine ⟨?_, ?_⟩
  · intro hq
    rw [hsock]
    exact h.unconnected (hne hq)
  · intro hq
    exact hdials hq (h.dialing (hne hq))

/-- A push keeps the facts.  The first message starts a dial, and a later
one finds the dial of the first. -/
theorem Waiting.enqueue (h : Waiting n) {queue : List (PendingMessage M C)}
    (m : PendingMessage M C) (hqueue : queue.Sublist n.pendingMsg) (hsock : n.socket = none) :
    Waiting (PeerNode.enqueue m { n with pendingMsg := queue }) := by
  refine ⟨?_, ?_⟩
  · intro _
    rw [enqueue_socket]
    exact hsock
  · intro _
    rw [enqueue_dials]
    show 0 < if queue = [] then n.dials + 1 else n.dials
    split_ifs with hnil
    · omega
    · refine h.dialing fun hempty => hnil ?_
      rw [hempty] at hqueue
      exact List.sublist_nil.mp hqueue

/-- Every exit of every operation keeps the facts. -/
theorem waiting_of_effect (heffect : Effect maxPendingMsgSize n op n' r) (h : Waiting n) :
    Waiting n' := by
  cases heffect with
  | sent hop hsock => exact h
  | rejected hop hsock hqueue hfull => exact h.sublist hqueue.sublist rfl fun _ hd => hd
  | queued hop hsock hqueue hroom => exact h.enqueue _ hqueue.sublist hsock
  | dialErrorLate hsock =>
    exact waiting_of_empty (h.empty_of_socket (hsock ▸ Option.some_ne_none _))
  | dialErrorRetry hsock hleft =>
    exact h.sublist List.filter_sublist rfl fun _ _ => Nat.succ_pos _
  | dialErrorGiveUp hsock hleft => exact waiting_of_empty rfl
  | dialOKLate hsock =>
    exact waiting_of_empty (h.empty_of_socket (hsock ▸ Option.some_ne_none _))
  | dialOK hsock => exact waiting_of_empty rfl
  | closeSocket => exact ⟨fun _ => rfl, h.dialing⟩
  | closeCallback => exact ⟨fun _ => rfl, h.dialing⟩
  | refused hwhy => exact h
  | accepted hless hsock hwrite => exact waiting_of_empty rfl

/-- The queue never grows past the limit: a push needs room. -/
theorem bounded_of_effect (hmax : 1 ≤ maxPendingMsgSize)
    (heffect : Effect maxPendingMsgSize n op n' r)
    (h : n.pendingMsg.length ≤ maxPendingMsgSize) :
    n'.pendingMsg.length ≤ maxPendingMsgSize := by
  have hempty : (([] : List (PendingMessage M C)).length : Int) ≤ maxPendingMsgSize := by
    rw [List.length_nil]
    omega
  cases heffect with
  | @rejected op m queue hop hsock hqueue hfull =>
    have hlen := hqueue.sublist.length_le
    show (queue.length : Int) ≤ maxPendingMsgSize
    omega
  | @queued op m queue hop hsock hqueue hroom =>
    rw [enqueue_pendingMsg, List.length_append, List.length_singleton]
    show ((queue.length + 1 : Nat) : Int) ≤ maxPendingMsgSize
    omega
  | @dialErrorRetry env hsock hleft =>
    have hlen : (afterDialError env n).length ≤ n.pendingMsg.length :=
      List.filter_sublist.length_le
    show ((afterDialError env n).length : Int) ≤ maxPendingMsgSize
    omega
  | dialErrorGiveUp hsock hleft => exact hempty
  | dialOK hsock => exact hempty
  | accepted hless hsock hwrite => exact hempty
  | _ => exact h

/-! ## The dials of an operation -/

/-- A send starts one dial at most and ends none. -/
theorem dials_le_of_send (hop : op.message.isSome)
    (heffect : Effect maxPendingMsgSize n op n' r) : n.dials ≤ n'.dials := by
  obtain ⟨m, hm⟩ := Option.isSome_iff_exists.mp hop
  rcases heffect.send_cases hm with ⟨_, heq⟩ | ⟨_, queue, _, ⟨_, heq⟩ | ⟨_, heq⟩⟩
  · exact heq ▸ Nat.le_refl _
  · exact heq ▸ Nat.le_refl _
  · rw [heq, enqueue_dials]
    show n.dials ≤ if queue = [] then n.dials + 1 else n.dials
    split_ifs <;> omega

theorem dials_of_dialOK {env : Env C} {sock : Nat}
    (heffect : Effect maxPendingMsgSize n (.dialOK env sock) n' r) :
    n'.dials = n.dials - 1 := by
  rcases heffect.dialOK_cases with ⟨_, heq⟩ | ⟨_, heq⟩ <;> rw [heq]

/-- A failed dial ends, and at most one retry comes after it. -/
theorem dials_of_dialError {env : Env C}
    (heffect : Effect maxPendingMsgSize n (.dialError env) n' r) :
    n'.dials = n.dials - 1 ∨ n'.dials = n.dials - 1 + 1 := by
  rcases heffect.dialError_cases with ⟨_, heq⟩ | ⟨_, ⟨_, heq⟩ | ⟨_, heq⟩⟩
  · exact Or.inl (by rw [heq])
  · exact Or.inr (by rw [heq])
  · exact Or.inl (by rw [heq])

theorem dials_of_accept {env : Env C} {selfLess writeFails : Bool} {sock : Nat}
    (heffect : Effect maxPendingMsgSize n (.accept env selfLess writeFails sock) n' r) :
    n'.dials = n.dials := by
  rcases heffect.accept_cases with ⟨_, heq, _⟩ | ⟨_, heq, _⟩ <;> rw [heq]

/-- A clock reading at which no context is done. -/
def atOne : Env Unit := { now := 1, done := fun _ => false }

namespace Link

variable {s t : Link M C} {e : Event M C}

/-- The dials of the peer, in any of their phases. -/
def dials (s : Link M C) : Nat := s.queued + s.running + s.scheduled

@[simp] theorem establish_dials (s : Link M C) : s.establish.dials = s.dials := by
  rw [establish]
  split_ifs <;> rfl

/-- The facts about the queue, and that the node counts its dials right. -/
structure Live (maxPendingMsgSize : Int) (s : Link M C) : Prop where
  bounded : s.node.pendingMsg.length ≤ maxPendingMsgSize
  waiting : Waiting s.node
  dials_eq : s.node.dials = s.dials

/-- Only a send and a failed dial start new dials, and a dial that ends is
no longer counted. -/
theorem dials_of_acts (hacts : Acts maxPendingMsgSize s e t) (h : s.node.dials = s.dials) :
    t.node.dials = t.dials := by
  have hcount : s.node.dials = s.queued + s.running + s.scheduled := h
  cases hacts with
  | @send op n r hop heffect =>
    show n.dials = s.queued + started s.node n 0 + s.running + s.scheduled
    have hmono := dials_le_of_send hop heffect
    rw [started]
    omega
  | startDial hqueued =>
    show s.node.dials = s.queued - 1 + (s.running + 1) + s.scheduled
    omega
  | retryTimer hscheduled =>
    show s.node.dials = s.queued + (s.running + 1) + (s.scheduled - 1)
    omega
  | @dialOK env n r hrunning heffect =>
    rw [establish_node, establish_dials]
    show n.dials = s.queued + (s.running - 1) + s.scheduled
    have hended := dials_of_dialOK heffect
    omega
  | @dialError env n r hrunning heffect =>
    show n.dials = s.queued + (s.running - 1) + (s.scheduled + started s.node n 1)
    have hended := dials_of_dialError heffect
    rw [started]
    omega
  | accept heffect =>
    rw [establish_node, establish_dials]
    exact (dials_of_accept heffect).trans hcount
  | @closeSocket n r heffect =>
    show n.dials = s.queued + s.running + s.scheduled
    rw [heffect.closeSocket_eq, hcount]
  | socketCloses hsock hopen => exact hcount
  | @closeCallback sock n r hclosed hcalled heffect =>
    show n.dials = s.queued + s.running + s.scheduled
    rw [heffect.closeCallback_eq, hcount]

theorem live_of_reach (hmax : 1 ≤ maxPendingMsgSize)
    (h : Reachable (step maxPendingMsgSize) {} s) : Live maxPendingMsgSize s := by
  refine h.invariant (P := Live maxPendingMsgSize) ?_ ?_
  · refine ⟨?_, waiting_of_empty rfl, rfl⟩
    show ((0 : Nat) : Int) ≤ maxPendingMsgSize
    omega
  · intro s e t _ hlive _ hstep
    have hacts := acts_of_step hstep
    refine ⟨?_, ?_, dials_of_acts hacts hlive.dials_eq⟩
    · exact node_invariant_of_acts (P := fun n => n.pendingMsg.length ≤ maxPendingMsgSize)
        (bounded_of_effect hmax) hacts hlive.bounded
    · exact node_invariant_of_acts waiting_of_effect hacts hlive.waiting

/-- In every interleaving of the sends, the dials and their retries, the
accepted connections and the closing of sockets: the queue has at most
`MaxPendingMsgSize` entries, messages wait only without a socket, and
waiting messages have a dial that is queued, running or scheduled.  This
includes the states in which a rejected send has kept the mutex. -/
theorem pending_queue_invariant (maxPendingMsgSize : Int) (hmax : 1 ≤ maxPendingMsgSize)
    (s : Link M C) (h : Reachable (step maxPendingMsgSize) {} s) :
    s.node.pendingMsg.length ≤ maxPendingMsgSize ∧
      (s.node.pendingMsg ≠ [] → s.node.socket = none) ∧
      (s.node.pendingMsg ≠ [] → 0 < s.queued + s.running + s.scheduled) := by
  have hlive := live_of_reach hmax h
  refine ⟨hlive.bounded, hlive.waiting.unconnected, ?_⟩
  intro hne
  have hdialing := hlive.waiting.dialing hne
  rw [hlive.dials_eq] at hdialing
  exact hdialing

/-- The first message is sent, and its dial fails. -/
def failedDial : List (Event Unit Unit) :=
  [.send (.sendMessage atOne () 5 none), .startDial, .dialError atOne]

/-- The message waits then, and a retry is scheduled. -/
theorem pending_queue_after_failed_dial :
    ∃ s : Link Unit Unit, run (step 1) {} failedDial = some s ∧
      s.node.pendingMsg ≠ [] ∧ s.scheduled = 1 ∧
      s.node.pendingMsg.length ≤ (1 : Int) ∧
      (s.node.pendingMsg ≠ [] → s.node.socket = none) ∧
      (s.node.pendingMsg ≠ [] → 0 < s.queued + s.running + s.scheduled) := by
  have hrun : run (step 1) {} failedDial = some
      { node := { pendingMsg := [{ message := (), deadline := 5 }], dials := 1 }
        scheduled := 1 } := rfl
  exact ⟨_, hrun, List.cons_ne_nil _ _, rfl,
    pending_queue_invariant 1 (Int.le_refl 1) _ (Reach.of_run hrun)⟩

end Link

end ClusterGo.Peer
