import ClusterGo.Peer.Pair.Agreed

/-!
# Simultaneous dials agree on one connection

When two nodes dial each other at the same time, the one with the smaller
address rejects the connection of the other while it has messages waiting,
and the larger one accepts.  Both ends then hold the same connection, no
installed socket is replaced or closed, and when nothing is in flight the
two are both connected or both unconnected with nothing left in a queue.

`Numbered` is what is left to say about the connections: one is installed
only before it is closed.
-/

namespace ClusterGo.Peer.Pair

open Transition

variable {M C : Type} {maxPendingMsgSize : Int} {addr : Side → LogicAddr} {less : Bool}
  {e f : Endpoint M C} {s t : Pair M C} {x : Side}

/-! ## The connections -/

/-- No installed connection and no connection with a handshake in flight is
closed, and a handshake in flight is for a connection of its own. -/
structure Numbered (s : Pair M C) : Prop where
  socket : ∀ x conn, (s.ends x).node.socket = some conn → conn < s.conns ∧ conn ∉ s.closed
  handshake : ∀ x conn, .handshake conn ∈ (s.ends x).dials →
    conn < s.conns ∧ conn ∉ s.closed ∧ ∀ y, (s.ends y).node.socket ≠ some conn
  distinct : ∀ x conn, .handshake conn ∈ (s.ends x).dials →
    .handshake conn ∉ (s.ends x.other).dials
  closed : ∀ conn ∈ s.closed, conn < s.conns

/-- An action that closes nothing and makes no connection.  A socket that
it installs was installed at the other end, or had its handshake in
flight. -/
theorem Numbered.frame (h : Numbered s) (hconns : t.conns = s.conns)
    (hclosed : t.closed = s.closed)
    (hsock : ∀ z conn, (t.ends z).node.socket = some conn →
      (∃ y, (s.ends y).node.socket = some conn) ∨
      ∃ y, .handshake conn ∈ (s.ends y).dials ∧ ∀ w, .handshake conn ∉ (t.ends w).dials)
    (hdials : ∀ z conn, .handshake conn ∈ (t.ends z).dials →
      .handshake conn ∈ (s.ends z).dials) : Numbered t := by
  refine ⟨?_, ?_, ?_, ?_⟩
  · intro z conn hz
    rw [hconns, hclosed]
    rcases hsock z conn hz with ⟨y, hy⟩ | ⟨y, hy, _⟩
    · exact h.socket y conn hy
    · exact ⟨(h.handshake y conn hy).1, (h.handshake y conn hy).2.1⟩
  · intro z conn hz
    obtain ⟨hlt, hopen, hfree⟩ := h.handshake z conn (hdials z conn hz)
    rw [hconns, hclosed]
    refine ⟨hlt, hopen, ?_⟩
    intro y hy
    rcases hsock y conn hy with ⟨w, hw⟩ | ⟨_, _, hgone⟩
    · exact hfree w hw
    · exact hgone z hz
  · intro z conn hz hz'
    exact h.distinct z conn (hdials z conn hz) (hdials z.other conn hz')
  · rw [hconns, hclosed]
    exact h.closed

/-- A rejected connection is closed, and no end has installed it. -/
theorem Numbered.reject (h : Numbered s) {conn : Nat} {x : Side}
    (hdial : .handshake conn ∈ (s.ends x).dials) (hconns : t.conns = s.conns)
    (hclosed : t.closed = conn :: s.closed)
    (hsock : ∀ z, (t.ends z).node.socket = (s.ends z).node.socket)
    (hdials : ∀ z c, .handshake c ∈ (t.ends z).dials →
      .handshake c ∈ (s.ends z).dials ∧ c ≠ conn) : Numbered t := by
  obtain ⟨hlt, _, hfree⟩ := h.handshake x conn hdial
  refine ⟨?_, ?_, ?_, ?_⟩
  · intro z c hz
    rw [hsock] at hz
    obtain ⟨hc, hopen⟩ := h.socket z c hz
    rw [hconns, hclosed, List.mem_cons, not_or]
    exact ⟨hc, fun heq => hfree z (heq ▸ hz), hopen⟩
  · intro z c hz
    obtain ⟨hmem, hne⟩ := hdials z c hz
    obtain ⟨hc, hopen, hfree'⟩ := h.handshake z c hmem
    rw [hconns, hclosed, List.mem_cons, not_or]
    refine ⟨hc, ⟨hne, hopen⟩, ?_⟩
    intro y
    rw [hsock]
    exact hfree' y
  · intro z c hz hz'
    exact h.distinct z c (hdials z c hz).1 (hdials z.other c hz').1
  · rw [hconns, hclosed, List.forall_mem_cons]
    exact ⟨hlt, h.closed⟩

/-- A new connection has a number of its own. -/
theorem Numbered.connect (h : Numbered s) {x : Side} (hconns : t.conns = s.conns + 1)
    (hclosed : t.closed = s.closed)
    (hsock : ∀ z, (t.ends z).node.socket = (s.ends z).node.socket)
    (hself : ∀ c, .handshake c ∈ (t.ends x).dials → c = s.conns)
    (hother : (t.ends x.other).dials = (s.ends x.other).dials) : Numbered t := by
  have hold : ∀ c, .handshake c ∈ (t.ends x.other).dials → c < s.conns := by
    intro c hc
    rw [hother] at hc
    exact (h.handshake x.other c hc).1
  have hnew : ∀ c, .handshake c ∈ (t.ends x).dials → .handshake c ∉ (t.ends x.other).dials := by
    intro c hc hc'
    have hlt := hold c hc'
    rw [hself c hc] at hlt
    exact Nat.lt_irrefl _ hlt
  refine ⟨?_, ?_, ?_, ?_⟩
  · intro z c hz
    rw [hsock] at hz
    obtain ⟨hc, hopen⟩ := h.socket z c hz
    rw [hconns, hclosed]
    exact ⟨Nat.lt_succ_of_lt hc, hopen⟩
  · intro z c hz
    rw [hconns, hclosed]
    rcases Side.eq_or_other x z with hzx | hzx
    · rw [hzx] at hz
      rw [hself c hz]
      refine ⟨Nat.lt_succ_self _, fun hmem => Nat.lt_irrefl _ (h.closed _ hmem), ?_⟩
      intro y hy
      rw [hsock] at hy
      exact Nat.lt_irrefl _ (h.socket y _ hy).1
    · rw [hzx, hother] at hz
      obtain ⟨hc, hopen, hfree⟩ := h.handshake x.other c hz
      refine ⟨Nat.lt_succ_of_lt hc, hopen, ?_⟩
      intro y
      rw [hsock]
      exact hfree y
  · intro z c hz
    rcases Side.eq_or_other x z with hzx | hzx
    · rw [hzx] at hz ⊢
      exact hnew c hz
    · rw [hzx] at hz ⊢
      rw [Side.other_other]
      exact fun hz' => hnew c hz' hz
  · rw [hconns, hclosed]
    exact fun c hc => Nat.lt_succ_of_lt (h.closed c hc)

/-- The sockets after a change of one end that keeps its own. -/
theorem sockets_eq (hself : t.ends x = e) (hother : t.ends x.other = s.ends x.other)
    (hsock : e.node.socket = (s.ends x).node.socket) (z : Side) :
    (t.ends z).node.socket = (s.ends z).node.socket := by
  revert z
  refine Side.forall_of_both x ?_ ?_
  · rw [hself, hsock]
  · rw [hother]

/-- A change of one end that keeps its socket and starts no handshake. -/
theorem Numbered.unseen (h : Numbered s) (hconns : t.conns = s.conns)
    (hclosed : t.closed = s.closed) (hself : t.ends x = e)
    (hother : t.ends x.other = s.ends x.other)
    (hsock : e.node.socket = (s.ends x).node.socket)
    (hdials : ∀ conn, .handshake conn ∈ e.dials → .handshake conn ∈ (s.ends x).dials) :
    Numbered t := by
  refine h.frame hconns hclosed ?_ (Side.forall_of_both x ?_ ?_)
  · intro z conn hz
    rw [sockets_eq hself hother hsock] at hz
    exact Or.inl ⟨z, hz⟩
  · rw [hself]
    exact hdials
  · rw [hother]
    exact fun _ hmem => hmem

/-- An accepted connection is installed at the accepting end. -/
theorem Numbered.accept (h : Numbered s) {conn : Nat}
    (hdial : .handshake conn ∈ (s.ends x).dials) (hconns : t.conns = s.conns)
    (hclosed : t.closed = s.closed)
    (hself : t.ends x = { s.ends x with dials := [.accepted conn] })
    (hother : t.ends x.other = { s.ends x.other with
      node := { (s.ends x.other).node with socket := some conn, pendingMsg := [] } }) :
    Numbered t := by
  have hgone : ∀ w, .handshake conn ∉ (t.ends w).dials := by
    refine Side.forall_of_both x ?_ ?_
    · rw [hself]
      simp
    · rw [hother]
      exact h.distinct x conn hdial
  refine h.frame hconns hclosed (Side.forall_of_both x ?_ ?_) (Side.forall_of_both x ?_ ?_)
  · rw [hself]
    exact fun c hc => Or.inl ⟨x, hc⟩
  · rw [hother]
    intro c hc
    cases Option.some_inj.mp hc
    exact Or.inr ⟨x, hdial, hgone⟩
  · rw [hself]
    intro c hc
    simp at hc
  · rw [hother]
    exact fun _ hmem => hmem

theorem numbered_of_acts {ev : Event M C} (hacts : Acts addr maxPendingMsgSize s ev t)
    (hroom : Room maxPendingMsgSize s ev) (hagreed : Agreed addr s) (h : Numbered s) :
    Numbered t := by
  cases hacts with
  | @send x op n r hop heffect =>
    obtain ⟨_, hunseen, hdials⟩ := (hagreed.alone x).send hop hroom heffect
    exact h.unseen rfl rfl (setEnd_self s x _) (setEnd_other s x _) hunseen.socket hdials
  | @startDial x i d hdial hwaits =>
    obtain ⟨_, hset⟩ := (hagreed.alone x).set_dial hdial (.handshake s.conns)
    refine h.connect (x := x) rfl rfl
      (sockets_eq (setEnd_self s x _) (setEnd_other s x _) rfl) ?_
      (congrArg Endpoint.dials (setEnd_other s x _))
    intro c hc
    simp only [setEnd_self, hset, List.mem_singleton, Dial.handshake.injEq] at hc
    exact hc
  | @handshake x i conn env n r hdial heffect =>
    have hmem : .handshake conn ∈ (s.ends x).dials := List.mem_of_getElem? hdial
    rcases heffect.accept_cases with ⟨herr, heq, _⟩ | ⟨herr, heq, _⟩
    · obtain ⟨_, hset⟩ := (hagreed.alone x).set_dial hdial (.rejected conn)
      rw [answer, if_neg herr, heq, hset]
      refine h.reject hmem rfl rfl (Side.forall_of_both x ?_ ?_) (Side.forall_of_both x ?_ ?_)
      · simp
      · simp
      · intro c hc
        simp at hc
      · intro c hc
        simp only [setEnd_other, setEnd_self] at hc
        exact ⟨hc, fun hsame => h.distinct x conn hmem (hsame ▸ hc)⟩
    · obtain ⟨_, hset⟩ := (hagreed.alone x).set_dial hdial (.accepted conn)
      refine h.accept hmem ?_ ?_ ?_ ?_ <;> rw [answer, if_pos herr]
      · rfl
      · rfl
      · rw [hset]
        simp
      · rw [heq]
        simp
  | @dialOK x i conn env n r hdial heffect =>
    obtain ⟨hi, hdials⟩ := (hagreed.alone x).dials_eq hdial
    obtain ⟨hnone, hinstalled⟩ :=
      (hagreed.facing x).accepted conn (List.mem_of_getElem? hdial)
    refine h.frame rfl (if_pos hnone) (Side.forall_of_both x ?_ ?_)
      (Side.forall_of_both x ?_ ?_)
    · rcases heffect.dialOK_cases with ⟨hsock, _⟩ | ⟨_, heq⟩
      · exact absurd hnone hsock
      · simp only [setEnd_self, heq]
        intro c hc
        exact Or.inl ⟨x.other, hinstalled.trans hc⟩
    · simp only [setEnd_other]
      exact fun c hc => Or.inl ⟨x.other, hc⟩
    · simp only [setEnd_self, hi, hdials, List.eraseIdx_zero, List.tail_cons]
      exact fun c hc => absurd hc List.not_mem_nil
    · simp only [setEnd_other]
      exact fun _ hmem => hmem
  | @dialError x i conn env n r hdial heffect =>
    obtain ⟨_, hunseen, hdials⟩ := (hagreed.alone x).dialError hdial heffect
    exact h.unseen rfl rfl (setEnd_self s x _) (setEnd_other s x _) hunseen.socket
      fun c hc => absurd hc (hdials c)

/-! ## Runs -/

theorem agreed_of_reach (hdistinct : addr .a ≠ addr .b)
    (h : Reach (step addr maxPendingMsgSize) (Room maxPendingMsgSize) ({} : Pair M C) s) :
    Agreed addr s ∧ Numbered s := by
  refine h.invariant (P := fun s => Agreed addr s ∧ Numbered s) ?_ ?_
  · refine ⟨⟨fun _ => alone_of_idle rfl rfl rfl, fun _ => ⟨?_, ?_, fun _ _ _ => rfl⟩⟩,
      ⟨?_, ?_, ?_, ?_⟩⟩
    · exact fun _ hmem => absurd hmem List.not_mem_nil
    · intro _ hsock
      cases hsock
    · intro _ _ hsock
      cases hsock
    · exact fun _ _ hmem => absurd hmem List.not_mem_nil
    · exact fun _ _ hmem => absurd hmem List.not_mem_nil
    · exact fun _ hmem => absurd hmem List.not_mem_nil
  · intro s e t _ hinv hroom hstep
    have hacts := acts_of_step hstep
    exact ⟨agreed_of_acts hdistinct hacts hroom hinv.1,
      numbered_of_acts hacts hroom hinv.1 hinv.2⟩

/-- No action takes the place of an installed socket. -/
theorem socket_kept {ev : Event M C} (hacts : Acts addr maxPendingMsgSize s ev t)
    (hroom : Room maxPendingMsgSize s ev) (hagreed : Agreed addr s) {z : Side} {conn : Nat}
    (hsock : (s.ends z).node.socket = some conn) : (t.ends z).node.socket = some conn := by
  have hsome : (s.ends z).node.socket ≠ none := hsock ▸ Option.some_ne_none conn
  cases hacts with
  | @send x op n r hop heffect =>
    obtain ⟨_, hunseen, _⟩ := (hagreed.alone x).send hop hroom heffect
    rw [sockets_eq (setEnd_self s x _) (setEnd_other s x _) hunseen.socket]
    exact hsock
  | @startDial x i d hdial hwaits =>
    rcases Side.eq_or_other x z with hz | hz
    · rw [← hsock, hz]
      exact congrArg (·.node.socket) (setEnd_self s x _)
    · rw [← hsock, hz]
      exact congrArg (·.node.socket) (setEnd_other s x _)
  | @handshake x i c env n r hdial heffect =>
    rcases Side.eq_or_other x z with hz | hz
    · rw [← hsock, hz, answer]
      split_ifs <;> simp
    · rw [hz] at hsock hsome
      rcases heffect.accept_cases with ⟨herr, heq, _⟩ | ⟨_, _, _, hfree⟩
      · rw [← hsock, hz, answer, if_neg herr, heq]
        simp
      · exact absurd (hfree ((hagreed.alone x.other).drained hsome)) hsome
  | @dialOK x i c env n r hdial heffect =>
    rcases Side.eq_or_other x z with hz | hz
    · rw [hz] at hsome
      exact absurd ((hagreed.facing x).accepted c (List.mem_of_getElem? hdial)).1 hsome
    · rw [← hsock, hz]
      exact congrArg (·.node.socket) (setEnd_other s x _)
  | @dialError x i c env n r hdial heffect =>
    obtain ⟨_, hunseen, _⟩ := (hagreed.alone x).dialError hdial heffect
    rw [sockets_eq (setEnd_self s x _) (setEnd_other s x _) hunseen.socket]
    exact hsock

/-- With nothing outstanding at an end, nothing waits there. -/
theorem Alone.empty_of_idle (h : Alone e) (hdials : e.dials = []) : e.node.pendingMsg = [] := by
  by_cases hsock : e.node.socket = none
  · exact (h.dialing hsock).mpr hdials
  · exact h.drained hsock

/-- With nothing outstanding at the other end, a socket is installed
there. -/
theorem Facing.some_of_idle (h : Facing less e f) (hdials : f.dials = [])
    (hsock : e.node.socket.isSome) : f.node.socket.isSome := by
  obtain ⟨conn, hconn⟩ := Option.isSome_iff_exists.mp hsock
  rcases h.paired conn hconn with hboth | ⟨_, hmem⟩
  · rw [hboth]
    rfl
  · rw [hdials] at hmem
    cases hmem

/-- Two nodes with different addresses dial each other over a network that
loses nothing, and no queue fills up.  In every interleaving: sockets at
both ends are of the same connection; an installed socket is not closed,
and no action takes its place; and with nothing in flight and no retry
scheduled both ends have a socket or neither has, and nothing waits. -/
theorem simultaneous_dials_agree (addr : Side → LogicAddr) (hdistinct : addr .a ≠ addr .b)
    (maxPendingMsgSize : Int) (s : Pair M C)
    (h : Reach (step addr maxPendingMsgSize) (Room maxPendingMsgSize) {} s) :
    (∀ conn conn', (s.ends .a).node.socket = some conn → (s.ends .b).node.socket = some conn' →
      conn = conn') ∧
    (∀ x conn, (s.ends x).node.socket = some conn → conn ∉ s.closed ∧
      ∀ e t, Room maxPendingMsgSize s e → step addr maxPendingMsgSize s e = some t →
        (t.ends x).node.socket = some conn) ∧
    ((s.ends .a).dials = [] → (s.ends .b).dials = [] →
      (s.ends .a).node.socket.isSome = (s.ends .b).node.socket.isSome ∧
      (s.ends .a).node.pendingMsg = [] ∧ (s.ends .b).node.pendingMsg = []) := by
  obtain ⟨hagreed, hnumbered⟩ := agreed_of_reach hdistinct h
  refine ⟨?_, ?_, ?_⟩
  · intro conn conn' ha hb
    rcases (hagreed.facing .a).paired conn ha with hboth | ⟨hnone, _⟩
    · exact Option.some_inj.mp (hboth.symm.trans hb)
    · exact absurd (hb.symm.trans hnone) (Option.some_ne_none conn')
  · intro x conn hx
    refine ⟨(hnumbered.socket x conn hx).2, ?_⟩
    intro e t hroom hstep
    exact socket_kept (acts_of_step hstep) hroom hagreed hx
  · intro ha hb
    refine ⟨?_, (hagreed.alone .a).empty_of_idle ha, (hagreed.alone .b).empty_of_idle hb⟩
    rw [Bool.eq_iff_iff]
    exact ⟨(hagreed.facing .a).some_of_idle hb, (hagreed.facing .b).some_of_idle ha⟩

/-- The addresses 1 and 2. -/
def oneAndTwo : Side → LogicAddr
  | .a => ⟨1⟩
  | .b => ⟨2⟩

/-- Both sides send and dial, the smaller one rejects and the larger one
accepts, and both answers arrive. -/
def crossedDials : List (Event Unit Unit) :=
  [.send .a (.sendMessage atOne () 5 none), .send .b (.sendMessage atOne () 5 none),
    .startDial .a 0, .startDial .b 0, .handshake .b 0 atOne, .handshake .a 0 atOne,
    .dialOK .a 0 atOne, .dialError .b 0 atOne]

/-- After crossed dials both ends have connection 0 and nothing is
outstanding. -/
theorem crossed_dials_agree :
    ∃ s : Pair Unit Unit,
      run (fun s e => if Room 1024 s e then step oneAndTwo 1024 s e else none) {} crossedDials =
        some s ∧
      (s.ends .a).node.socket = some 0 ∧ (s.ends .b).node.socket = some 0 ∧
      (s.ends .a).dials = [] ∧ (s.ends .b).dials = [] ∧ 0 ∉ s.closed ∧
      (s.ends .a).node.pendingMsg = [] := by
  have hrun : (run (fun s e => if Room 1024 s e then step oneAndTwo 1024 s e else none) {}
      crossedDials).map (fun s => ((s.ends .a).node.socket, (s.ends .b).node.socket,
        (s.ends .a).dials, (s.ends .b).dials)) = some (some 0, some 0, [], []) := by
    decide +kernel
  obtain ⟨s, hs, hfacts⟩ := Option.map_eq_some_iff.mp hrun
  simp only [Prod.mk.injEq] at hfacts
  obtain ⟨ha, hb, hda, hdb⟩ := hfacts
  obtain ⟨_, hkept, hidle⟩ :=
    simultaneous_dials_agree oneAndTwo (by decide) 1024 s (Reach.of_guarded_run hs)
  exact ⟨s, hs, ha, hb, hda, hdb, (hkept .a 0 ha).1, (hidle hda hdb).2.1⟩

end ClusterGo.Peer.Pair
