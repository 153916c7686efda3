import ClusterGo.Peer.Pending

/-!
# The current socket of a peer node

`n.socket` should be the one established socket of the peer that has not
been closed.  The close callback of a socket clears `n.socket` without
looking at what it refers to.  It runs some time after the close, so when
`closeSocket` has cleared the field already and a new connection was
established meanwhile, the callback of the old socket clears the new one.
The node then takes itself for unconnected although the new socket is open,
and makes yet another one.

`OwnCallback` is the condition under which this cannot happen: a callback
finds `n.socket` empty or referring to its own socket.  In every run whose
callbacks all meet it the current socket is right in every state.
-/

namespace ClusterGo.Peer.Link

open Transition

variable {M C : Type} {maxPendingMsgSize : Int} {s t : Link M C} {e : Event M C}

/-- A callback finds no socket, or the socket it belongs to. -/
def OwnCallback (s : Link M C) : Event M C → Prop
  | .closeCallback sock => s.node.socket = none ∨ s.node.socket = some sock
  | _ => True

/-- Every established socket that is not closed is the current one, and
there is at most one. -/
def CurrentSocket (s : Link M C) : Prop :=
  (∀ sock < s.sockets, sock ∉ s.closed → s.node.socket = some sock) ∧
    ∀ i < s.sockets, ∀ j < s.sockets, i ∉ s.closed → j ∉ s.closed → i = j

/-- A callback leaves the reference to any other socket alone. -/
def KeepsOthers (s t : Link M C) (sock : Nat) : Prop :=
  ∀ other ≠ sock, s.node.socket = some other → t.node.socket = some other

/-- The invariant behind `CurrentSocket`. -/
structure Current (s : Link M C) : Prop where
  waiting : Waiting s.node
  known : ∀ sock, s.node.socket = some sock → sock < s.sockets
  current : ∀ sock < s.sockets, sock ∉ s.closed → s.node.socket = some sock

theorem Current.currentSocket (h : Current s) : CurrentSocket s := by
  refine ⟨h.current, ?_⟩
  intro i hi j hj hci hcj
  have hboth := (h.current i hi hci).symm.trans (h.current j hj hcj)
  exact Option.some_inj.mp hboth

/-- A call that leaves the reference alone establishes nothing. -/
theorem establish_of_known (h : ∀ sock, s.node.socket = some sock → sock < s.sockets) :
    s.establish = s := by
  rw [establish, if_neg]
  intro heq
  exact absurd (h _ heq) (Nat.lt_irrefl _)

/-- A new socket is installed only where there was none, and then all
earlier sockets are closed. -/
theorem Current.establish (h : Current s) {n : PeerNode M C} {running : Nat}
    (hnone : s.node.socket = none) (hsock : n.socket = some s.sockets) (hwaiting : Waiting n) :
    Current (Link.establish { s with node := n, running := running }) := by
  have heq : Link.establish { s with node := n, running := running } =
      { s with node := n, running := running, sockets := s.sockets + 1 } := if_pos hsock
  rw [heq]
  refine ⟨hwaiting, ?_, ?_⟩
  · intro sock hcur
    show sock < s.sockets + 1
    rw [show n.socket = some sock from hcur, Option.some_inj] at hsock
    omega
  · intro sock hlt hopen
    show n.socket = some sock
    rcases Nat.lt_or_eq_of_le (Nat.lt_succ_iff.mp hlt) with hold | hnew
    · have hcur := h.current sock hold hopen
      rw [hnone] at hcur
      cases hcur
    · rw [hnew]
      exact hsock

/-- An action that changes neither the reference nor the sockets. -/
theorem Current.frame (h : Current s) (hwaiting : Waiting t.node)
    (hsock : t.node.socket = s.node.socket) (hsockets : t.sockets = s.sockets)
    (hclosed : ∀ sock, sock ∈ s.closed → sock ∈ t.closed) : Current t := by
  refine ⟨hwaiting, ?_, ?_⟩
  · intro sock hcur
    rw [hsockets]
    exact h.known sock (hsock ▸ hcur)
  · intro sock hlt hopen
    rw [hsock]
    exact h.current sock (hsockets ▸ hlt) fun hmem => hopen (hclosed sock hmem)

/-- An action that clears the reference after its socket was closed. -/
theorem Current.clear (h : Current s) (hwaiting : Waiting t.node)
    (hsock : t.node.socket = none) (hsockets : t.sockets = s.sockets)
    (hclosed : ∀ sock, sock ∈ s.closed ∨ s.node.socket = some sock → sock ∈ t.closed) :
    Current t := by
  refine ⟨hwaiting, ?_, ?_⟩
  · intro sock hcur
    rw [hsock] at hcur
    cases hcur
  · intro sock hlt hopen
    have hcur := h.current sock (hsockets ▸ hlt) fun hmem => hopen (hclosed sock (Or.inl hmem))
    exact absurd (hclosed sock (Or.inr hcur)) hopen

/-- A send does not touch the reference. -/
theorem socket_of_send {n : PeerNode M C} {r : Reply M} {op : Op M C} (hop : op.message.isSome)
    (heffect : Effect maxPendingMsgSize s.node op n r) : n.socket = s.node.socket := by
  obtain ⟨m, hm⟩ := Option.isSome_iff_exists.mp hop
  rcases heffect.send_cases hm with ⟨_, heq⟩ | ⟨_, queue, _, ⟨_, heq⟩ | ⟨_, heq⟩⟩
  · rw [heq]
  · rw [heq]
  · rw [heq, enqueue_socket]

/-- The ends of a dial and an accepted connection install a socket only
where there was none. -/
theorem socket_of_dialOK {n : PeerNode M C} {r : Reply M} {env : Env C} {sock : Nat}
    (heffect : Effect maxPendingMsgSize s.node (.dialOK env sock) n r) :
    n.socket = s.node.socket ∨ s.node.socket = none ∧ n.socket = some sock := by
  rcases heffect.dialOK_cases with ⟨_, heq⟩ | ⟨hnone, heq⟩
  · exact Or.inl (by rw [heq])
  · exact Or.inr ⟨hnone, by rw [heq]⟩

theorem socket_of_accept {n : PeerNode M C} {r : Reply M} {env : Env C}
    {selfLess writeFails : Bool} {sock : Nat} (hwaiting : Waiting s.node)
    (heffect : Effect maxPendingMsgSize s.node (.accept env selfLess writeFails sock) n r) :
    n.socket = s.node.socket ∨ s.node.socket = none ∧ n.socket = some sock := by
  rcases heffect.accept_cases with ⟨_, heq, _⟩ | ⟨_, heq, _, hsock⟩
  · exact Or.inl (by rw [heq])
  · refine Or.inr ⟨?_, by rw [heq]⟩
    -- With messages waiting there is no socket, and without them it was asked for.
    by_cases hempty : s.node.pendingMsg = []
    · exact hsock hempty
    · exact hwaiting.unconnected hempty

/-- Both ways of installing a socket. -/
theorem Current.installed (h : Current s) {n : PeerNode M C} {running : Nat}
    (hwaiting : Waiting n)
    (hsock : n.socket = s.node.socket ∨ s.node.socket = none ∧ n.socket = some s.sockets) :
    Current (Link.establish { s with node := n, running := running }) := by
  rcases hsock with hkept | ⟨hnone, hnew⟩
  · rw [establish_of_known]
    · exact h.frame hwaiting hkept rfl fun _ hmem => hmem
    · intro sock hcur
      exact h.known sock (hkept ▸ hcur)
  · exact h.establish hnone hnew hwaiting

/-- Only a callback that clears a later socket breaks the invariant. -/
theorem current_of_acts (hacts : Acts maxPendingMsgSize s e t) (hown : OwnCallback s e)
    (h : Current s) : Current t := by
  have hwaiting : Waiting t.node := node_invariant_of_acts waiting_of_effect hacts h.waiting
  cases hacts with
  | @send op n r hop heffect =>
    refine h.frame hwaiting ?_ rfl fun _ hmem => hmem
    exact socket_of_send hop heffect
  | startDial hqueued => exact h.frame hwaiting rfl rfl fun _ hmem => hmem
  | retryTimer hscheduled => exact h.frame hwaiting rfl rfl fun _ hmem => hmem
  | dialOK hrunning heffect =>
    rw [establish_node] at hwaiting
    exact h.installed hwaiting (socket_of_dialOK heffect)
  | @dialError env n r hrunning heffect =>
    refine h.frame hwaiting ?_ rfl fun _ hmem => hmem
    show n.socket = s.node.socket
    rcases heffect.dialError_cases with ⟨_, heq⟩ | ⟨_, ⟨_, heq⟩ | ⟨_, heq⟩⟩ <;> rw [heq]
  | accept heffect =>
    rw [establish_node] at hwaiting
    exact h.installed hwaiting (socket_of_accept h.waiting heffect)
  | closeSocket heffect =>
    refine h.clear hwaiting (by rw [heffect.closeSocket_eq]) rfl ?_
    intro sock hor
    rw [List.mem_append, Option.mem_toList]
    exact hor.symm
  | socketCloses hsock hopen =>
    exact h.frame hwaiting rfl rfl fun _ hmem => List.mem_cons_of_mem _ hmem
  | @closeCallback sock n r hclosed hcalled heffect =>
    refine h.clear hwaiting (by rw [heffect.closeCallback_eq]) rfl ?_
    intro other hor
    show other ∈ s.closed
    rcases hor with hmem | hcur
    · exact hmem
    · rcases hown with hnone | hself
      · rw [hnone] at hcur
        cases hcur
      · rw [hself, Option.some_inj] at hcur
        exact hcur ▸ hclosed

theorem current_of_reach (h : Reach (step maxPendingMsgSize) OwnCallback {} s) :
    Current s := by
  refine h.invariant (P := Current) ?_ ?_
  · refine ⟨waiting_of_empty rfl, ?_, ?_⟩
    · intro sock hcur
      cases hcur
    · intro sock hlt
      exact absurd hlt (Nat.not_lt_zero _)
  · intro s e t _ hcur hown hstep
    exact current_of_acts (acts_of_step hstep) hown hcur

/-- A close callback leaves the other sockets alone if and only if it finds
no socket or its own.  In every run whose callbacks all do, every socket
that is established and not closed is the current one, and there is at most
one. -/
theorem current_socket_iff (maxPendingMsgSize : Int) :
    (∀ (s t : Link M C) (sock : Nat), Reachable (step maxPendingMsgSize) {} s →
      step maxPendingMsgSize s (.closeCallback sock) = some t →
      (KeepsOthers s t sock ↔ OwnCallback s (.closeCallback sock))) ∧
    (∀ s : Link M C, Reach (step maxPendingMsgSize) OwnCallback {} s → CurrentSocket s) := by
  refine ⟨?_, fun s h => (current_of_reach h).currentSocket⟩
  intro s t sock _ hstep
  have hcleared : t.node.socket = none := by
    cases acts_of_step hstep with
    | closeCallback hclosed hcalled heffect => rw [heffect.closeCallback_eq]
  constructor
  · intro hkeeps
    cases hcur : s.node.socket with
    | none => exact Or.inl hcur
    | some other =>
      by_cases hself : other = sock
      · exact Or.inr (hself ▸ hcur)
      · have hkept := hkeeps other hself hcur
        rw [hcleared] at hkept
        cases hkept
  · intro hown other hne hcur
    rcases hown with hnone | hself
    · rw [hnone] at hcur
      cases hcur
    · rw [hself, Option.some_inj] at hcur
      exact absurd hcur.symm hne

/-- The peer hangs up, the callback of its socket runs, and it connects
again. -/
def reconnection : List (Event Unit Unit) :=
  [.accept atOne false false, .socketCloses 0, .closeCallback 0, .accept atOne false false]

/-- The new socket is the current one. -/
theorem current_socket_reconnected :
    ∃ s : Link Unit Unit, run (step 1024) {} reconnection = some s ∧
      Reach (step 1024) OwnCallback {} s ∧
      s.node.socket = some 1 ∧ 1 ∉ s.closed ∧ CurrentSocket s := by
  have hfirst : Reach (step 1024) OwnCallback {}
      ({ node := { socket := some 0 }, sockets := 1, closed := [0] } : Link Unit Unit) :=
    .next (e := .socketCloses 0) (.next (e := .accept atOne false false) .start trivial rfl)
      trivial rfl
  have hcallback : Reach (step 1024) OwnCallback {}
      ({ sockets := 1, closed := [0], called := [0] } : Link Unit Unit) :=
    .next (e := .closeCallback 0) hfirst (Or.inr rfl) rfl
  have hsecond : Reach (step 1024) OwnCallback {}
      ({ node := { socket := some 1 }, sockets := 2, closed := [0], called := [0] } :
        Link Unit Unit) :=
    .next (e := .accept atOne false false) hcallback trivial rfl
  exact ⟨_, rfl, hsecond, rfl, by decide, (current_socket_iff 1024).2 _ hsecond⟩

/-! ## A late callback -/

/-- The net address of the peer changes: its socket is closed and cleared,
the peer connects again, and then the callback of the old socket runs.  The
peer connects a third time after that. -/
def lateCallback : List (Event Unit Unit) :=
  [.accept atOne false false, .closeSocket, .accept atOne false false, .closeCallback 0,
    .accept atOne false false]

/-- The callback of socket 0 clears socket 1, and two established sockets
are open. -/
theorem late_callback_clears :
    ∃ s u : Link Unit Unit, Reachable (step 1024) {} s ∧ Reachable (step 1024) {} u ∧
      s.sockets = 2 ∧ 1 ∉ s.closed ∧ s.node.socket = none ∧
      u.sockets = 3 ∧ 1 ∉ u.closed ∧ 2 ∉ u.closed := by
  have hs : run (step 1024) {} (lateCallback.take 4) =
      some { sockets := 2, closed := [0], called := [0] } := rfl
  have hu : run (step 1024) {} lateCallback =
      some { node := { socket := some 2 }, sockets := 3, closed := [0], called := [0] } := rfl
  exact ⟨_, _, Reach.of_run hs, Reach.of_run hu, rfl, by decide, rfl, rfl, by decide, by decide⟩

end ClusterGo.Peer.Link
