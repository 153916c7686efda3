import ClusterGo.Peer.Pair.Ends

/-!
# The two ends agree

`Agreed` says of both ends what `Alone` and `Facing` say of one, and
`agreed_of_acts` carries it through every action.  `unconnected_of_accept`
is the step that the protocol turns on: when a handshake is accepted,
neither end has a socket.
-/

namespace ClusterGo.Peer.Pair

variable {M C : Type} {maxPendingMsgSize : Int} {addr : Side → LogicAddr} {e : Endpoint M C}
  {s t : Pair M C} {x : Side}

/-- Every end on its own and facing the other one. -/
structure Agreed (addr : Side → LogicAddr) (s : Pair M C) : Prop where
  alone : ∀ x, Alone (s.ends x)
  facing : ∀ x, Facing (selfLess addr x) (s.ends x) (s.ends x.other)

/-- It is enough to look at an end and the end it faces. -/
theorem agreed_of_ends (x : Side) (halone : Alone (s.ends x)) (halone' : Alone (s.ends x.other))
    (hfacing : Facing (selfLess addr x) (s.ends x) (s.ends x.other))
    (hfacing' : Facing (selfLess addr x.other) (s.ends x.other) (s.ends x)) :
    Agreed addr s := by
  refine ⟨Side.forall_of_both x halone halone', Side.forall_of_both x hfacing ?_⟩
  rw [Side.other_other]
  exact hfacing'

/-- A change of one end that the other end does not see. -/
theorem Agreed.unseen (h : Agreed addr s) {x : Side} (hself : t.ends x = e)
    (hother : t.ends x.other = s.ends x.other) (halone : Alone e)
    (hunseen : Unseen (s.ends x) e) : Agreed addr t := by
  have hback := h.facing x.other
  rw [Side.other_other] at hback
  refine agreed_of_ends x ?_ ?_ ?_ ?_
  · rw [hself]
    exact halone
  · rw [hother]
    exact h.alone x.other
  · rw [hself, hother]
    exact (h.facing x).left hunseen
  · rw [hself, hother]
    exact hback.right hunseen

/-- Exactly one of two different addresses is the smaller one. -/
theorem selfLess_other (hdistinct : addr .a ≠ addr .b) (x : Side) :
    selfLess addr x.other = !selfLess addr x := by
  have hnat : (addr .a).val.toNat ≠ (addr .b).val.toNat := fun heq =>
    hdistinct (congrArg LogicAddr.mk (UInt32.toNat_inj.mp heq))
  have hflip : ∀ u v : UInt32, u.toNat ≠ v.toNat → decide (v < u) = !decide (u < v) := by
    intro u v hne
    rw [← decide_not, decide_eq_decide, UInt32.lt_iff_toNat_lt, UInt32.lt_iff_toNat_lt]
    omega
  cases x with
  | a => exact hflip _ _ hnat
  | b => exact hflip _ _ hnat.symm

/-- An end that accepts a connection had no socket, and neither had the end
that dials. -/
theorem unconnected_of_accept (hflip : selfLess addr x.other = !selfLess addr x)
    (h : Agreed addr s) {conn : Nat} (hdials : (s.ends x).dials = [.handshake conn])
    (hless : (s.ends x.other).node.pendingMsg ≠ [] → selfLess addr x.other = false)
    (hsock : (s.ends x.other).node.pendingMsg = [] → (s.ends x.other).node.socket = none) :
    (s.ends x.other).node.socket = none ∧ (s.ends x).node.socket = none := by
  have hnone : (s.ends x.other).node.socket = none := by
    by_contra hne
    exact hne (hsock ((h.alone x.other).drained hne))
  refine ⟨hnone, ?_⟩
  -- A socket at the dialling end would wait for the answer to a dial of the
  -- accepting end.  That end then has messages waiting and is the larger one,
  -- so the dialling end is the smaller one and has no dial next to a socket.
  cases hown : (s.ends x).node.socket with
  | none => rfl
  | some old =>
    exfalso
    have hne : (s.ends x).node.socket ≠ none := hown ▸ Option.some_ne_none old
    rcases (h.facing x).paired old hown with hboth | ⟨_, haccepted⟩
    · rw [hnone] at hboth
      cases hboth
    · have hwaits : (s.ends x.other).node.pendingMsg ≠ [] := by
        intro hempty
        rw [((h.alone x.other).dialing hnone).mp hempty] at haccepted
        cases haccepted
      have hsmaller : selfLess addr x = true := by
        rw [hless hwaits] at hflip
        simpa using hflip.symm
      have hnil := (h.facing x).quiet hsmaller hne hnone
      rw [hdials] at hnil
      cases hnil

/-- An accepted handshake: the accepting end has the socket, and the answer
is in flight. -/
theorem Agreed.accept (h : Agreed addr s) {x : Side} {conn : Nat}
    (hflip : selfLess addr x.other = !selfLess addr x)
    (hdials : (s.ends x).dials = [.handshake conn])
    (hless : (s.ends x.other).node.pendingMsg ≠ [] → selfLess addr x.other = false)
    (hsock : (s.ends x.other).node.pendingMsg = [] → (s.ends x.other).node.socket = none)
    (hself : t.ends x = { s.ends x with dials := [.accepted conn] })
    (hother : t.ends x.other = { s.ends x.other with
      node := { (s.ends x.other).node with socket := some conn, pendingMsg := [] } }) :
    Agreed addr t := by
  obtain ⟨hnone', hnone⟩ := unconnected_of_accept hflip h hdials hless hsock
  obtain ⟨hcount, hpending⟩ := (h.alone x).of_dial hdials
  have halone' := h.alone x.other
  have hback := h.facing x.other
  rw [Side.other_other] at hback
  refine agreed_of_ends x ?_ ?_ ?_ ?_
  · rw [hself]
    exact alone_of_dial rfl hcount hpending
  · rw [hother]
    refine ⟨halone'.count, halone'.single, ?_, fun _ => rfl⟩
    intro h
    cases h
  · rw [hself, hother]
    refine ⟨?_, ?_, ?_⟩
    · intro c hmem
      cases List.mem_singleton.mp hmem
      exact ⟨hnone, rfl⟩
    · intro c hc
      rw [show (s.ends x).node.socket = some c from hc] at hnone
      cases hnone
    · intro _ hne
      exact absurd hnone hne
  · rw [hself, hother]
    refine ⟨?_, ?_, ?_⟩
    · intro c hmem
      -- An accepted dial of the accepting end would have given this end a socket.
      have hsocket := (hback.accepted c hmem).2
      rw [hnone] at hsocket
      cases hsocket
    · intro c hc
      cases Option.some_inj.mp hc
      exact Or.inr ⟨hnone, List.mem_singleton_self _⟩
    · intro hsmaller _ _
      have hempty : (s.ends x.other).node.pendingMsg = [] := by
        by_contra hwaits
        rw [hless hwaits] at hsmaller
        cases hsmaller
      exact (halone'.dialing hnone').mp hempty

/-- An accepting answer arrives: both ends have the socket. -/
theorem Agreed.dialOK (h : Agreed addr s) {x : Side} {conn : Nat}
    (hdials : (s.ends x).dials = [.accepted conn])
    (hself : t.ends x =
      { node := { (s.ends x).node with
          socket := some conn, pendingMsg := [], dials := (s.ends x).node.dials - 1 }
        dials := [] })
    (hother : t.ends x.other = s.ends x.other) : Agreed addr t := by
  obtain ⟨hcount, _⟩ := (h.alone x).of_dial hdials
  have hmem : .accepted conn ∈ (s.ends x).dials := by
    rw [hdials]
    exact List.mem_singleton_self _
  obtain ⟨hnone, hinstalled⟩ := (h.facing x).accepted conn hmem
  have hback := h.facing x.other
  rw [Side.other_other] at hback
  refine agreed_of_ends x ?_ ?_ ?_ ?_
  · rw [hself]
    exact alone_of_idle rfl (show (s.ends x).node.dials - 1 = 0 by omega) rfl
  · rw [hother]
    exact h.alone x.other
  · rw [hself, hother]
    refine ⟨fun _ hnil => absurd hnil List.not_mem_nil, ?_, fun _ _ _ => rfl⟩
    intro c hc
    exact Or.inl (hc ▸ hinstalled)
  · rw [hself, hother]
    refine ⟨?_, ?_, ?_⟩
    · intro c hc
      have hsocket := (hback.accepted c hc).2
      rw [hnone] at hsocket
      cases hsocket
    · intro c hc
      exact Or.inl (hinstalled.symm.trans hc)
    · intro _ _ hnone'
      cases hnone'

theorem agreed_of_acts (hdistinct : addr .a ≠ addr .b) {ev : Event M C}
    (hacts : Acts addr maxPendingMsgSize s ev t) (hroom : Room maxPendingMsgSize s ev)
    (h : Agreed addr s) : Agreed addr t := by
  cases hacts with
  | @send x op n r hop heffect =>
    obtain ⟨halone, hunseen, _⟩ := (h.alone x).send hop hroom heffect
    exact h.unseen (setEnd_self s x _) (setEnd_other s x _) halone hunseen
  | @startDial x i d hdial hwaits =>
    obtain ⟨halone, _⟩ := (h.alone x).set_dial hdial (.handshake s.conns)
    refine h.unseen (setEnd_self s x _) (setEnd_other s x _) halone
      (unseen_set_dial (h.alone x) hdial _ ?_ (fun _ => Dial.noConfusion))
    intro conn heq
    rcases hwaits with hd | hd <;> rw [hd] at heq <;> cases heq
  | @handshake x i conn env n r hdial heffect =>
    obtain ⟨_, hdials⟩ := (h.alone x).dials_eq hdial
    rcases heffect.accept_cases with ⟨herr, heq, _⟩ | ⟨herr, heq, hless, hsock⟩
    · -- A rejection changes the phase of the dial only.
      obtain ⟨halone, _⟩ := (h.alone x).set_dial hdial (.rejected conn)
      have hunseen := unseen_set_dial (h.alone x) hdial (.rejected conn)
        (fun _ => Dial.noConfusion) (fun _ => Dial.noConfusion)
      refine h.unseen ?_ ?_ halone hunseen
      · rw [answer, if_neg herr]
        simp
      · rw [answer, if_neg herr, heq]
        simp
    · obtain ⟨_, hset⟩ := (h.alone x).set_dial hdial (.accepted conn)
      refine h.accept (selfLess_other hdistinct x) hdials hless hsock ?_ ?_
      · rw [answer, if_pos herr, hset]
        simp
      · rw [answer, if_pos herr, heq]
        simp
  | @dialOK x i conn env n r hdial heffect =>
    obtain ⟨hi, hdials⟩ := (h.alone x).dials_eq hdial
    have hmem : .accepted conn ∈ (s.ends x).dials := List.mem_of_getElem? hdial
    have hnone := ((h.facing x).accepted conn hmem).1
    rcases heffect.dialOK_cases with ⟨hsock, _⟩ | ⟨_, heq⟩
    · exact absurd hnone hsock
    · refine h.dialOK hdials ?_ (setEnd_other s x _)
      rw [heq, hi, hdials]
      exact setEnd_self s x _
  | @dialError x i conn env n r hdial heffect =>
    obtain ⟨halone, hunseen, _⟩ := (h.alone x).dialError hdial heffect
    exact h.unseen (setEnd_self s x _) (setEnd_other s x _) halone hunseen

end ClusterGo.Peer.Pair
