import ClusterGo.Peer.Pair.Basic
import ClusterGo.Peer.Pending

/-!
# One end of two nodes that dial each other

What holds at an end and between an end and the one it faces, and what the
actions do to it.

* `Alone` is about one end.  An end has at most one dial, and while it has
  no socket it has one exactly when messages wait.
* `Facing` is about an end and the one it faces.  A dial with an accepting
  answer in flight belongs to an end without a socket, and the other end
  has installed its connection.  A socket is installed at the other end too,
  or its answer is still in flight.  The smaller end has no dial of its own
  once it has a socket that the other end lacks.  This is the part that the
  address comparison is for.
* `Unseen` is a change of one end that `Facing` does not see.  All actions
  but an acceptance and a `dialOK` are such changes.
-/

namespace ClusterGo.Peer.Pair

open Link (started)

variable {M C : Type} {maxPendingMsgSize : Int} {less : Bool} {e e' f f' : Endpoint M C}
  {n : PeerNode M C} {r : Reply M}

/-- One end on its own. -/
structure Alone (e : Endpoint M C) : Prop where
  count : e.node.dials = e.dials.length
  single : e.dials.length ≤ 1
  dialing : e.node.socket = none → (e.node.pendingMsg = [] ↔ e.dials = [])
  drained : e.node.socket ≠ none → e.node.pendingMsg = []

/-- An end and the end it faces.  `less` says that its address is the
smaller one. -/
structure Facing (less : Bool) (e f : Endpoint M C) : Prop where
  accepted : ∀ conn, .accepted conn ∈ e.dials →
    e.node.socket = none ∧ f.node.socket = some conn
  paired : ∀ conn, e.node.socket = some conn →
    f.node.socket = some conn ∨ f.node.socket = none ∧ .accepted conn ∈ f.dials
  quiet : less = true → e.node.socket ≠ none → f.node.socket = none → e.dials = []

/-- A change of an end that leaves its socket and its accepted dials as
they are, and starts no dial next to a socket. -/
structure Unseen (e e' : Endpoint M C) : Prop where
  socket : e'.node.socket = e.node.socket
  accepted : ∀ conn, .accepted conn ∈ e'.dials ↔ .accepted conn ∈ e.dials
  idle : e.node.socket ≠ none → e.dials = [] → e'.dials = []

theorem Facing.left (h : Facing less e f) (hunseen : Unseen e e') : Facing less e' f := by
  refine ⟨?_, ?_, ?_⟩
  · intro conn hmem
    rw [hunseen.socket]
    exact h.accepted conn ((hunseen.accepted conn).mp hmem)
  · intro conn hsock
    rw [hunseen.socket] at hsock
    exact h.paired conn hsock
  · intro hless hsock hnone
    rw [hunseen.socket] at hsock
    exact hunseen.idle hsock (h.quiet hless hsock hnone)

theorem Facing.right (h : Facing less e f) (hunseen : Unseen f f') : Facing less e f' := by
  refine ⟨?_, ?_, ?_⟩
  · intro conn hmem
    rw [hunseen.socket]
    exact h.accepted conn hmem
  · intro conn hsock
    rw [hunseen.socket, hunseen.accepted conn]
    exact h.paired conn hsock
  · intro hless hsock hnone
    rw [hunseen.socket] at hnone
    exact h.quiet hless hsock hnone

/-! ## The actions at one end -/

/-- The dial of an action is the only one of its end. -/
theorem Alone.dials_eq (h : Alone e) {i : Nat} {d : Dial} (hdial : e.dials[i]? = some d) :
    i = 0 ∧ e.dials = [d] := by
  have hlt := (List.getElem?_eq_some_iff.mp hdial).1
  have hsingle := h.single
  have hi : i = 0 := by omega
  obtain ⟨d', heq⟩ := List.length_eq_one_iff.mp (show e.dials.length = 1 by omega)
  rw [hi, heq] at hdial
  refine ⟨hi, ?_⟩
  rw [heq, Option.some_inj.mp (show some d' = some d from hdial)]

/-- An end with one dial: messages wait unless it has a socket. -/
theorem alone_of_dial {d : Dial} (hdials : e.dials = [d]) (hcount : e.node.dials = 1)
    (hpending : e.node.pendingMsg = [] ↔ e.node.socket ≠ none) : Alone e := by
  refine ⟨?_, ?_, ?_, hpending.mpr⟩
  · rw [hdials, hcount]
    rfl
  · rw [hdials]
    exact Nat.le_refl 1
  · intro hnone
    refine iff_of_false (fun hempty => hpending.mp hempty hnone) ?_
    rw [hdials]
    exact List.cons_ne_nil d []

/-- An end without a dial: nothing waits. -/
theorem alone_of_idle (hdials : e.dials = []) (hcount : e.node.dials = 0)
    (hpending : e.node.pendingMsg = []) : Alone e := by
  refine ⟨?_, ?_, fun _ => iff_of_true hpending hdials, fun _ => hpending⟩
  · rw [hdials, hcount]
    rfl
  · rw [hdials]
    exact Nat.zero_le 1

/-- What an end with one dial looks like. -/
theorem Alone.of_dial (h : Alone e) {d : Dial} (hdials : e.dials = [d]) :
    e.node.dials = 1 ∧ (e.node.pendingMsg = [] ↔ e.node.socket ≠ none) := by
  refine ⟨by rw [h.count, hdials]; rfl, ?_, h.drained⟩
  intro hempty hnone
  have hnil := (h.dialing hnone).mp hempty
  rw [hdials] at hnil
  exact List.cons_ne_nil d [] hnil

/-- A dial that moves on to another phase. -/
theorem Alone.set_dial (h : Alone e) {i : Nat} {d : Dial} (hdial : e.dials[i]? = some d)
    (d' : Dial) :
    Alone { e with dials := e.dials.set i d' } ∧ e.dials.set i d' = [d'] := by
  obtain ⟨hi, hdials⟩ := h.dials_eq hdial
  obtain ⟨hcount, hpending⟩ := h.of_dial hdials
  have hset : e.dials.set i d' = [d'] := by
    rw [hi, hdials]
    rfl
  exact ⟨alone_of_dial hset hcount hpending, hset⟩

/-- A change of a dial that is not accepted, and does not become so. -/
theorem unseen_set_dial (h : Alone e) {i : Nat} {d : Dial} (hdial : e.dials[i]? = some d)
    (d' : Dial) (hd : ∀ conn, d ≠ .accepted conn) (hd' : ∀ conn, d' ≠ .accepted conn) :
    Unseen e { e with dials := e.dials.set i d' } := by
  obtain ⟨_, hdials⟩ := h.dials_eq hdial
  obtain ⟨_, hset⟩ := h.set_dial hdial d'
  refine ⟨rfl, ?_, ?_⟩
  · intro conn
    show .accepted conn ∈ e.dials.set i d' ↔ .accepted conn ∈ e.dials
    rw [hset, hdials, List.mem_singleton, List.mem_singleton]
    exact iff_of_false (fun heq => hd' conn heq.symm) (fun heq => hd conn heq.symm)
  · intro _ hnil
    rw [hdials] at hnil
    exact absurd hnil (List.cons_ne_nil d [])

/-- A send is passed on, or it is queued and starts a dial when it is the
first one. -/
theorem Alone.send (h : Alone e) {op : Op M C} (hop : op.message.isSome)
    (hroom : e.node.pendingMsg.length < maxPendingMsgSize)
    (heffect : Effect maxPendingMsgSize e.node op n r) :
    let e' : Endpoint M C :=
      { node := n, dials := e.dials ++ List.replicate (started e.node n 0) .queued }
    Alone e' ∧ Unseen e e' ∧ ∀ conn, .handshake conn ∈ e'.dials → .handshake conn ∈ e.dials := by
  obtain ⟨m, hm⟩ := Option.isSome_iff_exists.mp hop
  rcases heffect.send_cases hm with ⟨_, heq⟩ | ⟨hsock, queue, hqueue, ⟨hfull, _⟩ | ⟨_, heq⟩⟩
  · rw [heq, started, Nat.add_zero, Nat.sub_self, List.replicate_zero, List.append_nil]
    exact ⟨h, ⟨rfl, fun _ => Iff.rfl, fun _ hnil => hnil⟩, fun _ hmem => hmem⟩
  · have hlen := hqueue.sublist.length_le
    omega
  · have hall : queue = e.node.pendingMsg := by
      rcases hqueue with hsame | ⟨hfull, _⟩
      · exact hsame
      · omega
    have hsocket : n.socket = e.node.socket := by rw [heq, enqueue_socket]
    have hwaits : n.pendingMsg = [] ↔ n.socket ≠ none := by
      rw [hsocket, hsock, heq, enqueue_pendingMsg]
      exact iff_of_false (List.append_ne_nil_of_right_ne_nil _ (List.cons_ne_nil m []))
        (fun hne => hne rfl)
    have hdials : n.dials = if e.node.pendingMsg = [] then e.node.dials + 1
        else e.node.dials := by
      rw [heq, enqueue_dials, hall]
    have hcount := h.count
    by_cases hempty : e.node.pendingMsg = []
    · -- The first message: no dial was outstanding, and one is queued now.
      have hnil := (h.dialing hsock).mp hempty
      rw [if_pos hempty] at hdials
      rw [hnil, List.length_nil] at hcount
      have hone : started e.node n 0 = 1 := by
        rw [started]
        omega
      rw [hone, hnil]
      refine ⟨alone_of_dial rfl (show n.dials = 1 by omega) hwaits, ⟨hsocket, ?_, ?_⟩, ?_⟩
      · intro conn
        rw [hnil]
        simp
      · intro hne
        exact absurd hsock hne
      · intro conn hmem
        simp at hmem
    · rw [if_neg hempty] at hdials
      have hzero : started e.node n 0 = 0 := by
        rw [started]
        omega
      have hne : e.dials ≠ [] := fun hnil => hempty ((h.dialing hsock).mpr hnil)
      rw [hzero, List.replicate_zero, List.append_nil]
      refine ⟨⟨?_, h.single, ?_, hwaits.mpr⟩, ⟨hsocket, fun _ => Iff.rfl, fun _ hnil => hnil⟩,
        fun _ hmem => hmem⟩
      · show n.dials = e.dials.length
        omega
      · intro hnone
        exact iff_of_false (fun hnil => hwaits.mp hnil hnone) hne

/-- What a failed dial leaves: nothing waits and nothing dials, or messages
wait for a retry. -/
theorem Alone.after_dialError (h : Alone e) {d : Dial} {env : Env C} (hdials : e.dials = [d])
    (heffect : Effect maxPendingMsgSize e.node (.dialError env) n r) :
    n.socket = e.node.socket ∧
      (n.pendingMsg = [] ∧ n.dials = 0 ∨
        n.pendingMsg ≠ [] ∧ n.socket = none ∧ n.dials = 1) := by
  obtain ⟨hcount, hpending⟩ := h.of_dial hdials
  rcases heffect.dialError_cases with ⟨hsock, heq⟩ | ⟨hsock, ⟨hleft, heq⟩ | ⟨_, heq⟩⟩
  · rw [heq, hcount]
    exact ⟨rfl, Or.inl ⟨hpending.mpr hsock, rfl⟩⟩
  · rw [heq, hcount]
    exact ⟨rfl, Or.inr ⟨hleft, hsock, rfl⟩⟩
  · rw [heq, hcount]
    exact ⟨rfl, Or.inl ⟨rfl, rfl⟩⟩

/-- A failed dial ends, and a retry is scheduled while messages wait. -/
theorem Alone.dialError (h : Alone e) {i conn : Nat} {env : Env C}
    (hdial : e.dials[i]? = some (.rejected conn))
    (heffect : Effect maxPendingMsgSize e.node (.dialError env) n r) :
    let e' : Endpoint M C :=
      { node := n
        dials := e.dials.eraseIdx i ++ List.replicate (started e.node n 1) .scheduled }
    Alone e' ∧ Unseen e e' ∧ ∀ conn, .handshake conn ∉ e'.dials := by
  obtain ⟨hi, hdials⟩ := h.dials_eq hdial
  obtain ⟨hcount, _⟩ := h.of_dial hdials
  have hnoaccepted : ∀ conn, .accepted conn ∉ e.dials := by
    intro conn
    rw [hdials]
    simp
  have herase : e.dials.eraseIdx i = [] := by
    rw [hi, hdials]
    rfl
  rw [herase, List.nil_append]
  obtain ⟨hsock, ⟨hempty, hnone⟩ | ⟨hleft, hunconnected, hone⟩⟩ :=
    h.after_dialError hdials heffect
  · have hstarted : started e.node n 1 = 0 := by
      rw [started]
      omega
    rw [hstarted, List.replicate_zero]
    refine ⟨alone_of_idle rfl hnone hempty, ⟨hsock, ?_, fun _ _ => rfl⟩,
      fun _ => List.not_mem_nil⟩
    intro conn
    exact iff_of_false List.not_mem_nil (hnoaccepted conn)
  · have hstarted : started e.node n 1 = 1 := by
      rw [started]
      omega
    rw [hstarted]
    refine ⟨alone_of_dial rfl hone ?_, ⟨hsock, ?_, ?_⟩, ?_⟩
    · exact iff_of_false hleft (fun hne => hne hunconnected)
    · intro conn
      exact iff_of_false (by simp) (hnoaccepted conn)
    · intro hne
      exact absurd (hsock.symm.trans hunconnected) hne
    · intro conn
      simp

end ClusterGo.Peer.Pair
