import Mathlib.Data.List.Perm.Subperm
import ClusterGo.Peer.Pending

/-!
# Messages keep their order

A message for a peer goes to the socket at once or waits in the queue.  The
queue is swept when it is full, filtered after a failed dial and drained into
the next socket, while other goroutines send, dial, accept and close.

A send on a connected node reads the socket under the mutex, releases the
mutex and pushes the message afterwards.  In between the message is in the
hands of its sender, the socket may be replaced, and other senders may push
what they took later.  `Traffic` runs the operations of a node in any order
and has these two halves as two moves.  The queue is drained under the mutex,
into a socket that nobody else knows yet.

Senders overtake each other, but no sender overtakes itself: what was pushed
of its messages, with what still waits behind it and what it has in its hands,
is a sublist of what it gave, in the order of its calls.  No message is pushed
twice, and one that was refused with `ErrPendingQueueFull` is never pushed
(`handed_in_order`).  A sender is anyone whose calls do not overlap, such as a
goroutine.
-/

namespace ClusterGo.Peer

open Transition

/-- A node, the messages that it took, those that were pushed to a socket, and
the message that each sender is about to push. -/
structure Traffic (G M C : Type) where
  node : PeerNode M C := {}
  taken : List M := []
  handed : List M := []
  inHand : G → Option M := fun _ => none

/-- An operation under the mutex, or the push of a message that its sender has
in its hands.  The socket may refuse it. -/
inductive Move (G M C : Type) where
  | op (op : Op M C)
  | push (g : G) (accepted : Bool)

variable {G M C : Type} [DecidableEq G] {maxPendingMsgSize : Int} {n n' : PeerNode M C}
  {op : Op M C} {r : Reply M}

/-- The message of a call, unless the call refuses it: the queue is full and
no socket got the message. -/
def Op.taken (op : Op M C) (r : Reply M) : List M :=
  match r.err, r.handed with
  | some .pendingQueueFull, [] => []
  | _, _ => (op.message.map (·.message)).toList

def Traffic.step (sender : M → G) (maxPendingMsgSize : Int) (s : Traffic G M C) :
    Move G M C → Option (Traffic G M C)
  | .op op =>
    match op.message with
    | some m =>
      let g := sender m.message
      -- A sender that is in a push calls no other send.
      match s.inHand g with
      | some _ => none
      | none =>
        (exec maxPendingMsgSize s.node op).map fun (n, r) =>
          { s with
            node := n
            taken := s.taken ++ op.taken r
            inHand := Function.update s.inHand g r.handed.head? }
    | none =>
      (exec maxPendingMsgSize s.node op).map fun (n, r) =>
        { s with node := n, handed := s.handed ++ r.handed }
  | .push g accepted =>
    (s.inHand g).map fun m =>
      { s with
        handed := if accepted then s.handed ++ [m] else s.handed
        inHand := Function.update s.inHand g none }

/-- The messages that wait. -/
def PeerNode.waiting (n : PeerNode M C) : List M := n.pendingMsg.map (·.message)

/-! ## One operation -/

theorem waiting_sublist (h : n'.pendingMsg.Sublist n.pendingMsg) :
    n'.waiting.Sublist n.waiting :=
  h.map _

theorem drained_sublist (env : Env C) (n : PeerNode M C) : (drained env n).Sublist n.waiting :=
  List.filter_sublist.map _

/-- One operation hands over and keeps, in this order, some of what waited
and then some of what it took. -/
theorem handed_of_effect (heffect : Effect maxPendingMsgSize n op n' r) (h : Waiting n) :
    (r.handed ++ n'.waiting).Sublist (n.waiting ++ op.taken r) := by
  cases heffect with
  | @sent op m sock err hop hsock =>
    -- A connected node has nothing waiting that the message could overtake.
    have hempty := h.empty_of_socket (hsock ▸ Option.some_ne_none _)
    have hwaiting : n.waiting = [] := by rw [PeerNode.waiting, hempty, List.map_nil]
    have htaken : op.taken { err, handed := [m.message] } = [m.message] := by
      simp [Op.taken, hop]
    rw [htaken, hwaiting]
    exact List.Sublist.refl _
  | @rejected op m queue hop hsock hqueue hfull =>
    exact (waiting_sublist hqueue.sublist).trans (List.sublist_append_left ..)
  | @queued op m queue hop hsock hqueue hroom =>
    have hkept : (queue.map (·.message)).Sublist n.waiting := hqueue.sublist.map _
    show (PeerNode.waiting _).Sublist _
    rw [PeerNode.waiting, enqueue_pendingMsg, List.map_append]
    show (queue.map (·.message) ++ [m.message]).Sublist (n.waiting ++ (op.message.map _).toList)
    rw [hop]
    exact hkept.append (List.Sublist.refl _)
  | dialErrorLate hsock => simp [PeerNode.waiting, Op.taken, Op.message]
  | dialErrorRetry hsock hleft =>
    exact (waiting_sublist List.filter_sublist).trans (List.sublist_append_left ..)
  | dialErrorGiveUp hsock hleft => exact List.nil_sublist _
  | dialOKLate hsock => simp [PeerNode.waiting, Op.taken, Op.message]
  | dialOK hsock =>
    rw [show PeerNode.waiting { n with socket := _, pendingMsg := [], dials := _ } = [] from rfl,
      List.append_nil]
    exact (drained_sublist _ n).trans (List.sublist_append_left ..)
  | closeSocket => simp [PeerNode.waiting, Op.taken, Op.message]
  | closeCallback => simp [PeerNode.waiting, Op.taken, Op.message]
  | refused hwhy => exact List.sublist_append_left ..
  | accepted hless hsock hwrite =>
    rw [show PeerNode.waiting { n with socket := _, pendingMsg := [] } = [] from rfl,
      List.append_nil]
    exact (drained_sublist _ n).trans (List.sublist_append_left ..)

/-- A send takes its message to push it, with nothing waiting, or hands over
nothing. -/
theorem handed_of_send {m : PendingMessage M C} (heffect : Effect maxPendingMsgSize n op n' r)
    (hop : op.message = some m) (h : Waiting n) :
    r.handed = [m.message] ∧ op.taken r = [m.message] ∧ n'.waiting = [] ∨ r.handed = [] := by
  cases heffect with
  | @sent op m' sock err hop' hsock =>
    obtain rfl : m' = m := Option.some_inj.mp (hop'.symm.trans hop)
    have hempty := h.empty_of_socket (hsock ▸ Option.some_ne_none _)
    have htaken : op.taken { err, handed := [m'.message] } = [m'.message] := by
      simp [Op.taken, hop]
    exact .inl ⟨rfl, htaken, by rw [PeerNode.waiting, hempty, List.map_nil]⟩
  | rejected _ _ _ _ => exact .inr rfl
  | queued _ _ _ _ => exact .inr rfl
  | _ => cases hop

/-- What a send takes is its message. -/
theorem eq_of_mem_taken {m : PendingMessage M C} (hop : op.message = some m) {x : M}
    (hx : x ∈ op.taken r) : x = m.message := by
  unfold Op.taken at hx
  split at hx
  · cases hx
  · rw [hop] at hx
    exact List.mem_singleton.mp hx

theorem taken_of_none (hop : op.message = none) (r : Reply M) : op.taken r = [] := by
  unfold Op.taken
  split
  · rfl
  · rw [hop]
    rfl

/-! ## The messages of one sender -/

/-- The messages of a sender, in their order. -/
def messagesOf (sender : M → G) (g : G) (ms : List M) : List M :=
  ms.filter fun m => sender m = g

variable {sender : M → G} {g : G}

theorem messagesOf_append (ms ms' : List M) :
    messagesOf sender g (ms ++ ms') = messagesOf sender g ms ++ messagesOf sender g ms' :=
  List.filter_append ..

theorem messagesOf_sublist {ms ms' : List M} (h : ms.Sublist ms') :
    (messagesOf sender g ms).Sublist (messagesOf sender g ms') :=
  h.filter _

theorem messagesOf_eq_nil {ms : List M} (h : ∀ m ∈ ms, sender m ≠ g) :
    messagesOf sender g ms = [] := by
  rw [messagesOf, List.filter_eq_nil_iff]
  intro m hm
  simpa using h m hm

theorem messagesOf_self {m : M} (h : sender m = g) : messagesOf sender g [m] = [m] := by
  simp [messagesOf, h]

/-- What holds of every sender: while it has a message in its hands none of its
messages waits, and its messages are in order. -/
structure InOrder (sender : M → G) (s : Traffic G M C) (g : G) : Prop where
  own : ∀ m, s.inHand g = some m → sender m = g
  alone : s.inHand g ≠ none → ∀ w ∈ s.node.waiting, sender w ≠ g
  order : (messagesOf sender g (s.handed ++ s.node.waiting) ++ (s.inHand g).toList).Sublist
    (messagesOf sender g s.taken)

variable {s : Traffic G M C}

/-- An operation that is no send. -/
theorem InOrder.of_other (heffect : Effect maxPendingMsgSize s.node op n r)
    (hop : op.message = none) (hwaiting : Waiting s.node) (h : InOrder sender s g) :
    InOrder sender { s with node := n, handed := s.handed ++ r.handed } g := by
  have hsub := handed_of_effect heffect hwaiting
  rw [taken_of_none hop, List.append_nil] at hsub
  refine ⟨h.own, ?_, ?_⟩
  · intro hhand w hw
    exact h.alone hhand w (hsub.subset (List.mem_append_right _ hw))
  · show (messagesOf sender g (s.handed ++ r.handed ++ n.waiting) ++ _).Sublist _
    rw [List.append_assoc]
    exact ((messagesOf_sublist (hsub.append_left _)).append_right _).trans h.order

/-- A send, seen by its sender, which has nothing in its hands before. -/
theorem InOrder.of_own_send {m : PendingMessage M C}
    (heffect : Effect maxPendingMsgSize s.node op n r) (hop : op.message = some m)
    (hwaiting : Waiting s.node) (hown : sender m.message = g) (hfree : s.inHand g = none)
    (h : InOrder sender s g) :
    InOrder sender
      { s with
        node := n
        taken := s.taken ++ op.taken r
        inHand := Function.update s.inHand g r.handed.head? } g := by
  have hsub := handed_of_effect heffect hwaiting
  have horder := h.order
  rw [hfree, Option.toList_none, List.append_nil] at horder
  have htaken : messagesOf sender g (op.taken r) = op.taken r := by
    rw [messagesOf, List.filter_eq_self]
    intro x hx
    simp [eq_of_mem_taken hop hx, hown]
  rcases handed_of_send heffect hop hwaiting with ⟨hhanded, hmessage, hnone⟩ | hhanded
  · refine ⟨?_, ?_, ?_⟩
    · intro m' hm'
      simp only [Function.update_self, hhanded, List.head?_cons, Option.some_inj] at hm'
      rw [← hm', hown]
    · intro _ w hw
      rw [hnone] at hw
      cases hw
    · show (messagesOf sender g (s.handed ++ n.waiting) ++
        (Function.update s.inHand g _ g).toList).Sublist (messagesOf sender g (_ ++ _))
      rw [Function.update_self, hhanded, hnone, List.append_nil, messagesOf_append, htaken,
        hmessage]
      rw [messagesOf_append] at horder
      exact ((List.sublist_append_left ..).trans horder).append_right _
  · rw [hhanded, List.nil_append] at hsub
    refine ⟨?_, ?_, ?_⟩
    · intro m' hm'
      simp [hhanded] at hm'
    · intro hhand
      simp [hhanded] at hhand
    · show (messagesOf sender g (s.handed ++ n.waiting) ++
        (Function.update s.inHand g _ g).toList).Sublist (messagesOf sender g (_ ++ _))
      rw [Function.update_self, hhanded, List.head?_nil, Option.toList_none, List.append_nil,
        messagesOf_append _ (op.taken r)]
      refine (messagesOf_sublist (hsub.append_left _)).trans ?_
      rw [← List.append_assoc, messagesOf_append]
      exact horder.append_right _

/-- A send, seen by another sender. -/
theorem InOrder.of_other_send {m : PendingMessage M C} {hand : Option M}
    (heffect : Effect maxPendingMsgSize s.node op n r) (hop : op.message = some m)
    (hwaiting : Waiting s.node) (hg : g ≠ sender m.message) (h : InOrder sender s g) :
    InOrder sender
      { s with
        node := n
        taken := s.taken ++ op.taken r
        inHand := Function.update s.inHand (sender m.message) hand } g := by
  have hother : messagesOf sender g (op.taken r) = [] := by
    refine messagesOf_eq_nil ?_
    intro x hx
    rw [eq_of_mem_taken hop hx]
    exact hg.symm
  have hkept : (messagesOf sender g n.waiting).Sublist (messagesOf sender g s.node.waiting) := by
    have hsub := handed_of_effect heffect hwaiting
    have hright := (List.sublist_append_right r.handed n.waiting).trans hsub
    have hfilter : (messagesOf sender g n.waiting).Sublist
        (messagesOf sender g (s.node.waiting ++ op.taken r)) := messagesOf_sublist hright
    rwa [messagesOf_append, hother, List.append_nil] at hfilter
  have hhand : Function.update s.inHand (sender m.message) hand g = s.inHand g :=
    Function.update_of_ne hg ..
  refine ⟨?_, ?_, ?_⟩
  · intro m' hm'
    exact h.own m' (hhand ▸ hm')
  · intro hne w hw heq
    have hmem : w ∈ messagesOf sender g n.waiting := List.mem_filter.mpr ⟨hw, by simp [heq]⟩
    have hold := (List.mem_filter.mp (hkept.subset hmem)).1
    exact h.alone (hhand ▸ hne) w hold heq
  · show (messagesOf sender g (s.handed ++ n.waiting) ++
      (Function.update s.inHand _ _ g).toList).Sublist (messagesOf sender g (_ ++ _))
    rw [hhand, messagesOf_append _ (op.taken r), hother, List.append_nil, messagesOf_append]
    have horder := h.order
    rw [messagesOf_append] at horder
    exact ((hkept.append_left _).append_right _).trans horder

/-- A push, seen by its sender. -/
theorem InOrder.of_own_push {m : M} (accepted : Bool) (hown : sender m = g)
    (hhand : s.inHand g = some m) (h : InOrder sender s g) :
    InOrder sender
      { s with
        handed := if accepted then s.handed ++ [m] else s.handed
        inHand := Function.update s.inHand g none } g := by
  have hnone : messagesOf sender g s.node.waiting = [] :=
    messagesOf_eq_nil (h.alone (hhand ▸ Option.some_ne_none m))
  have horder := h.order
  rw [messagesOf_append, hnone, List.append_nil, hhand] at horder
  refine ⟨?_, ?_, ?_⟩
  · intro m' hm'
    simp at hm'
  · intro hne
    simp at hne
  · show (messagesOf sender g (_ ++ s.node.waiting) ++
      (Function.update s.inHand g none g).toList).Sublist _
    rw [Function.update_self, Option.toList_none, List.append_nil, messagesOf_append, hnone,
      List.append_nil]
    cases accepted with
    | true =>
      rw [if_pos rfl, messagesOf_append, messagesOf_self hown]
      exact horder
    | false => exact (List.sublist_append_left ..).trans horder

/-- A push, seen by another sender. -/
theorem InOrder.of_other_push {m : M} (accepted : Bool) (hg : g ≠ sender m)
    (h : InOrder sender s g) :
    InOrder sender
      { s with
        handed := if accepted then s.handed ++ [m] else s.handed
        inHand := Function.update s.inHand (sender m) none } g := by
  have horder := h.order
  rw [messagesOf_append] at horder
  have hother : messagesOf sender g [m] = [] := by
    refine messagesOf_eq_nil ?_
    intro x hx
    rw [List.mem_singleton.mp hx]
    exact hg.symm
  have hsame : Function.update s.inHand (sender m) none g = s.inHand g :=
    Function.update_of_ne hg ..
  refine ⟨?_, ?_, ?_⟩
  · intro m' hm'
    exact h.own m' (hsame ▸ hm')
  · intro hne
    exact h.alone (hsame ▸ hne)
  · show (messagesOf sender g (_ ++ s.node.waiting) ++
      (Function.update s.inHand _ none g).toList).Sublist _
    rw [hsame, messagesOf_append]
    cases accepted with
    | true =>
      rw [if_pos rfl, messagesOf_append, hother, List.append_nil]
      exact horder
    | false => exact horder

/-! ## Every run -/

theorem inOrder_of_step {t : Traffic G M C} {e : Move G M C} (hwaiting : Waiting s.node)
    (h : ∀ g, InOrder sender s g) (hstep : s.step sender maxPendingMsgSize e = some t) :
    Waiting t.node ∧ ∀ g, InOrder sender t g := by
  cases e with
  | op op =>
    simp only [Traffic.step] at hstep
    split at hstep
    · rename_i m hop
      split at hstep
      · cases hstep
      · rename_i hfree
        obtain ⟨⟨n, r⟩, hexec, rfl⟩ := Option.map_eq_some_iff.mp hstep
        have heffect := effect_of_exec hexec
        refine ⟨waiting_of_effect heffect hwaiting, fun g => ?_⟩
        by_cases hg : g = sender m.message
        · subst hg
          exact (h _).of_own_send heffect hop hwaiting rfl hfree
        · exact (h g).of_other_send heffect hop hwaiting hg
    · rename_i hop
      obtain ⟨⟨n, r⟩, hexec, rfl⟩ := Option.map_eq_some_iff.mp hstep
      have heffect := effect_of_exec hexec
      exact ⟨waiting_of_effect heffect hwaiting, fun g => (h g).of_other heffect hop hwaiting⟩
  | push g' accepted =>
    obtain ⟨m, hhand, rfl⟩ := Option.map_eq_some_iff.mp hstep
    obtain rfl := (h g').own m hhand
    refine ⟨hwaiting, fun g => ?_⟩
    by_cases hg : g = sender m
    · subst hg
      exact (h _).of_own_push accepted rfl hhand
    · exact (h g).of_other_push accepted hg

/-- A list that has the messages of every sender at most as often as another
one has every message at most as often. -/
theorem subperm_of_messagesOf {ms ms' : List M}
    (h : ∀ g, (messagesOf sender g ms).Sublist (messagesOf sender g ms')) : ms.Subperm ms' := by
  classical
  rw [List.subperm_ext_iff]
  intro m _
  have hcount : ∀ l : List M, (messagesOf sender (sender m) l).count m = l.count m := by
    intro l
    exact List.count_filter (by simp)
  rw [← hcount ms, ← hcount ms']
  exact (h (sender m)).count_le m

/-- Of every sender, what was pushed of its messages, with what waits behind it
and what it has in its hands, is what was taken of its messages, in the order
in which it was taken, with some left out.  Of all messages, none is pushed or
waits more often than it was taken. -/
theorem handed_in_order {s : Traffic G M C}
    (hs : Reachable (Traffic.step sender maxPendingMsgSize) {} s) :
    (∀ g, (messagesOf sender g (s.handed ++ s.node.waiting) ++ (s.inHand g).toList).Sublist
      (messagesOf sender g s.taken)) ∧
    (s.handed ++ s.node.waiting).Subperm s.taken := by
  have hinv : Waiting s.node ∧ ∀ g, InOrder sender s g := by
    refine hs.invariant (P := fun s => Waiting s.node ∧ ∀ g, InOrder sender s g) ?_ ?_
    · refine ⟨waiting_of_empty rfl, ?_⟩
      intro g
      exact ⟨(fun _ hm => nomatch hm), fun hne => absurd rfl hne, List.Sublist.refl _⟩
    · intro s e t _ h _ hstep
      exact inOrder_of_step h.1 h.2 hstep
  refine ⟨fun g => (hinv.2 g).order, ?_⟩
  exact subperm_of_messagesOf fun g => (List.sublist_append_left ..).trans (hinv.2 g).order

/-- Two messages wait, the second one has a deadline that passes with the
failed dial, and the third one finds a socket. -/
def lateMessage : List (Move Unit Nat Unit) :=
  [.op (.sendMessage atOne 10 5 none), .op (.sendMessage atOne 20 2 none),
    .op (.dialError { now := 3, done := fun _ => false }), .op (.dialOK atOne 0),
    .op (.sendMessage atOne 30 5 none), .push () true]

theorem handed_in_order_late :
    (run (Traffic.step (fun _ => ()) 3) {} lateMessage).map (fun s => (s.taken, s.handed)) =
        some ([10, 20, 30], [10, 30]) ∧
      ∀ s, run (Traffic.step (fun _ => ()) 3) {} lateMessage = some s →
        (messagesOf (fun _ => ()) () (s.handed ++ s.node.waiting) ++ (s.inHand ()).toList).Sublist
          (messagesOf (fun _ => ()) () s.taken) :=
  ⟨by decide +kernel, fun _ hs => (handed_in_order (Reach.of_run hs)).1 ()⟩

/-- Two senders, one for the even and one for the odd messages: the second one
overtakes the first one between its two halves. -/
example :
    (run (Traffic.step (C := Unit) (fun m : Nat => m % 2) 3) {}
      [.op (.accept atOne false false 0), .op (.sendMessage atOne 10 5 none),
        .op (.sendMessage atOne 11 5 none), .push 1 true, .push 0 true]).map
      (fun s => (s.taken, s.handed)) = some ([10, 11], [11, 10]) := by
  decide +kernel

end ClusterGo.Peer
