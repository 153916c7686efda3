import ClusterGo.Peer.Basic

/-!
# The mutex of a peer node is released

Every operation on a peer node should release the mutex on every exit.  The
two `ErrPendingQueueFull` exits of `sendMessage` and the one of
`sendMessageWithContext` return with the mutex held.  They are taken
exactly when the peer has no socket and the pending queue is full and stays
full: `QueueFull` says so in terms of the state before the call.

`exec_of_free` is the one case analysis over the operations.  The main
result `mutex_released_iff` reads off it that a call releases the mutex if
and only if it does not meet a full queue, and that a run which never meets
a full queue never leaves the mutex held.
-/

namespace ClusterGo.Peer

open Transition

variable {M C : Type} {maxPendingMsgSize : Int} {n n' : PeerNode M C} {op : Op M C}

/-- The messages that the sweep of a sender leaves in the queue. -/
def survivors (env : Env C) (n : PeerNode M C) : List (PendingMessage M C) :=
  n.pendingMsg.filter fun m => !PeerNode.failed env true m

/-- The call finds no socket and a full queue, and has no way to make room:
its own deadline is zero, or the sweep leaves the queue full. -/
def QueueFull (maxPendingMsgSize : Int) (n : PeerNode M C) : Op M C → Prop
  | .sendMessage env _ deadline _ =>
    n.socket = none ∧ n.pendingMsg.length ≥ maxPendingMsgSize ∧
      (deadline = 0 ∨ (survivors env n).length ≥ maxPendingMsgSize)
  | .sendMessageWithContext env _ _ _ =>
    n.socket = none ∧ n.pendingMsg.length ≥ maxPendingMsgSize ∧
      (survivors env n).length ≥ maxPendingMsgSize
  | _ => False

/-- How an operation ends that was called on a free mutex: a rejected message
is not put into the queue, and the mutex is kept on a full queue. -/
def Ends (maxPendingMsgSize : Int) (n : PeerNode M C) (op : Op M C) : Prop :=
  ∃ n' r, exec maxPendingMsgSize n op = some (n', r) ∧
    (r.err = some .pendingQueueFull → n'.pendingMsg.Sublist n.pendingMsg) ∧
    (n'.locked = true ↔ QueueFull maxPendingMsgSize n op)

/-- Taking a free mutex changes nothing else. -/
theorem lock_of_free (hfree : n.locked = false) :
    ∃ m : PeerNode M C, n.lock = some m ∧ m.locked = true ∧ m.socket = n.socket ∧
      m.pendingMsg = n.pendingMsg := by
  refine ⟨{ n with locked := true }, ?_, rfl, rfl, rfl⟩
  rw [PeerNode.lock, hfree]
  rfl

theorem removeFailedMsg_survivors (env : Env C) {m : PeerNode M C}
    (hpending : m.pendingMsg = n.pendingMsg) :
    (m.removeFailedMsg env true).pendingMsg = survivors env n := by
  rw [PeerNode.removeFailedMsg, survivors, hpending]

/-- The exits without a rejection: the mutex is released, and the call did
not meet a full queue. -/
theorem ends_unlocked {m : PeerNode M C} {r : Reply M}
    (hexec : exec maxPendingMsgSize n op = some (m.unlock, r))
    (hnot : ¬ QueueFull maxPendingMsgSize n op)
    (hreply : r.err = some .pendingQueueFull → m.pendingMsg.Sublist n.pendingMsg) :
    Ends maxPendingMsgSize n op :=
  ⟨_, _, hexec, hreply, by simp [PeerNode.unlock, hnot]⟩

/-- The rejections: the call returns and the mutex stays held. -/
theorem ends_locked {r : Reply M} (hexec : exec maxPendingMsgSize n op = some (n', r))
    (hlocked : n'.locked = true) (hfull : QueueFull maxPendingMsgSize n op)
    (hqueue : n'.pendingMsg.Sublist n.pendingMsg) : Ends maxPendingMsgSize n op :=
  ⟨_, _, hexec, fun _ => hqueue, by simp [hlocked, hfull]⟩

/-! ## The two senders -/

theorem mem_enqueue (m : PendingMessage M C) (n : PeerNode M C) :
    m ∈ (n.enqueue m).unlock.pendingMsg := by
  simp only [PeerNode.enqueue, PeerNode.unlock]
  split_ifs
  all_goals exact List.mem_append_right _ List.mem_cons_self

/-- The exits of `sendMessage` on a free mutex: it answers with the socket,
it meets a full queue, or it puts the message into the queue. -/
theorem sendMessage_exits (hfree : n.locked = false) (env : Env C) (msg : M)
    (deadline : Time) (sent : Option Err) :
    ∃ n' r, n.sendMessage maxPendingMsgSize env msg deadline sent = some (n', r) ∧
      (n.socket ≠ none ∧ r.err = sent ∧ n'.locked = false ∧ n'.pendingMsg = n.pendingMsg ∨
        QueueFull maxPendingMsgSize n (.sendMessage env msg deadline sent) ∧
          r.err = some .pendingQueueFull ∧ n'.locked = true ∧
          n'.pendingMsg.Sublist n.pendingMsg ∨
        (n.socket = none ∧ ¬ QueueFull maxPendingMsgSize n (.sendMessage env msg deadline sent)) ∧
          r.err = none ∧ n'.locked = false ∧ ∃ m ∈ n'.pendingMsg, m.message = msg) := by
  obtain ⟨locked, socket, pendingMsg, dials⟩ := n
  subst hfree
  simp only [PeerNode.sendMessage, PeerNode.lock, Bool.false_eq_true, if_false,
    Option.bind_eq_bind, Option.bind_some]
  cases socket with
  | some sock => exact ⟨_, _, rfl, Or.inl ⟨Option.some_ne_none sock, rfl, rfl, rfl⟩⟩
  | none =>
    dsimp only
    split_ifs with hfull hzero hswept
    · exact ⟨_, _, rfl, Or.inr (Or.inl
        ⟨⟨rfl, hfull, Or.inl hzero⟩, rfl, rfl, List.Sublist.refl _⟩)⟩
    · exact ⟨_, _, rfl, Or.inr (Or.inl
        ⟨⟨rfl, hfull, Or.inr hswept⟩, rfl, rfl, List.filter_sublist⟩)⟩
    · refine ⟨_, _, rfl, Or.inr (Or.inr ⟨⟨rfl, ?_⟩, rfl, rfl, _, mem_enqueue _ _, rfl⟩)⟩
      intro hqueue
      rcases hqueue.2.2 with hz | hs
      · exact hzero hz
      · exact hswept hs
    · refine ⟨_, _, rfl, Or.inr (Or.inr ⟨⟨rfl, ?_⟩, rfl, rfl, _, mem_enqueue _ _, rfl⟩)⟩
      intro hqueue
      exact hfull hqueue.2.1

theorem sendMessage_ends (hfree : n.locked = false) (env : Env C) (msg : M)
    (deadline : Time) (sent : Option Err) :
    Ends maxPendingMsgSize n (.sendMessage env msg deadline sent) := by
  obtain ⟨n', r, hcall, hexit⟩ := sendMessage_exits hfree env msg deadline sent
  refine ⟨n', r, hcall, ?_⟩
  rcases hexit with ⟨hsock, _, hlocked, hpending⟩ | ⟨hfull, _, hlocked, hqueue⟩ |
    ⟨⟨_, hnot⟩, herr, hlocked, _⟩
  · have hnot : ¬ QueueFull maxPendingMsgSize n (.sendMessage env msg deadline sent) :=
      fun hfull => hsock hfull.1
    exact ⟨fun _ => hpending ▸ List.Sublist.refl _, by simp [hlocked, hnot]⟩
  · exact ⟨fun _ => hqueue, by simp [hlocked, hfull]⟩
  · exact ⟨by simp [herr], by simp [hlocked, hnot]⟩

theorem sendMessageWithContext_ends (hfree : n.locked = false) (env : Env C) (ctx : C)
    (msg : M) (sent : Option Err) :
    Ends maxPendingMsgSize n (.sendMessageWithContext env ctx msg sent) := by
  obtain ⟨m, hlock, hlocked, hsock, hpending⟩ := lock_of_free hfree
  have hexec : exec maxPendingMsgSize n (.sendMessageWithContext env ctx msg sent) =
      n.sendMessageWithContext maxPendingMsgSize env ctx msg sent := rfl
  simp only [PeerNode.sendMessageWithContext, hlock, Option.bind_eq_bind,
    Option.bind_some] at hexec
  split at hexec
  · rename_i sock hs
    refine ends_unlocked hexec ?_ fun _ => hpending ▸ List.Sublist.refl _
    intro hpack
    rcases hpack with ⟨hnone, _⟩
    rw [hsock, hnone] at hs
    cases hs
  · rename_i hs
    rw [hsock] at hs
    split_ifs at hexec with hfull hswept
    · rw [removeFailedMsg_survivors env hpending] at hswept
      refine ends_locked hexec hlocked ⟨hs, hpending ▸ hfull, hswept⟩ ?_
      rw [removeFailedMsg_survivors env hpending]
      exact List.filter_sublist
    · rw [removeFailedMsg_survivors env hpending] at hswept
      exact ends_unlocked hexec (fun hq => hswept hq.2.2) (by simp)
    · rw [hpending] at hfull
      exact ends_unlocked hexec (fun hq => hfull hq.2.1) (by simp)

/-! ## The other operations -/

theorem dial_ends (hfree : n.locked = false) (env : Env C) (sock : Nat) :
    Ends maxPendingMsgSize n (.dialError env) ∧ Ends maxPendingMsgSize n (.dialOK env sock) := by
  obtain ⟨m, hlock, _⟩ := lock_of_free hfree
  have herror : exec maxPendingMsgSize n (.dialError env) = n.dialError env := rfl
  have hok : exec maxPendingMsgSize n (.dialOK env sock) = n.dialOK env sock := rfl
  simp only [PeerNode.dialError, PeerNode.dialOK, hlock, Option.bind_eq_bind,
    Option.bind_some] at herror hok
  constructor
  · split at herror <;> exact ends_unlocked herror id (by simp)
  · split at hok
    · exact ends_unlocked hok id (by simp)
    · exact ends_unlocked hok id (by simp [PeerNode.onEstablish])

theorem close_ends (hfree : n.locked = false) :
    Ends maxPendingMsgSize n .closeSocket ∧ Ends maxPendingMsgSize n .closeCallback := by
  obtain ⟨m, hlock, _⟩ := lock_of_free hfree
  have hclose : exec maxPendingMsgSize n .closeSocket = n.closeSocket := rfl
  have hcallback : exec maxPendingMsgSize n .closeCallback = n.closeCallback := rfl
  simp only [PeerNode.closeSocket, PeerNode.closeCallback, hlock, Option.bind_eq_bind,
    Option.bind_some] at hclose hcallback
  constructor
  · split at hclose <;> exact ends_unlocked hclose id (by simp)
  · exact ends_unlocked hcallback id (by simp)

theorem accept_ends (hfree : n.locked = false) (env : Env C) (selfLess writeFails : Bool)
    (sock : Nat) : Ends maxPendingMsgSize n (.accept env selfLess writeFails sock) := by
  obtain ⟨m, hlock, _⟩ := lock_of_free hfree
  have hexec : exec maxPendingMsgSize n (.accept env selfLess writeFails sock) =
      n.accept env selfLess writeFails sock := rfl
  simp only [PeerNode.accept, hlock, Option.bind_eq_bind, Option.bind_some] at hexec
  split_ifs at hexec
  · exact ends_unlocked hexec id (by simp)
  · exact ends_unlocked hexec id (by simp)
  · exact ends_unlocked hexec id (by simp)
  · exact ends_unlocked hexec id (by simp [PeerNode.onEstablish])

/-- Every operation on a free mutex returns.  It keeps the mutex on a full
queue and releases it otherwise. -/
theorem exec_of_free (hfree : n.locked = false) (op : Op M C) :
    Ends maxPendingMsgSize n op := by
  cases op with
  | sendMessage env msg deadline sent => exact sendMessage_ends hfree env msg deadline sent
  | sendMessageWithContext env ctx msg sent =>
    exact sendMessageWithContext_ends hfree env ctx msg sent
  | dialError env => exact (dial_ends hfree env 0).1
  | dialOK env sock => exact (dial_ends hfree env sock).2
  | closeSocket => exact (close_ends hfree).1
  | closeCallback => exact (close_ends hfree).2
  | accept env selfLess writeFails sock =>
    exact accept_ends hfree env selfLess writeFails sock

/-! ## Runs -/

/-- In a run whose calls never meet a full queue the mutex is free between
the calls. -/
theorem free_of_reach
    (h : Reach (step maxPendingMsgSize) (fun n op => ¬ QueueFull maxPendingMsgSize n op)
      ({} : PeerNode M C) n) : n.locked = false := by
  refine h.invariant (P := fun n => n.locked = false) rfl ?_
  intro s op t _ hfree hnot hstep
  obtain ⟨n', r, hexec, _, hlocked⟩ := exec_of_free hfree op
  rw [step, hexec, Option.map_some, Option.some_inj] at hstep
  rw [← hstep]
  simpa using mt hlocked.mp hnot

/-- From every reachable state with a free mutex every operation returns,
and a rejected message is left out of the queue.  It returns with the mutex
free if and only if it did not meet a full queue.  A run that never meets a
full queue has the mutex free after every call. -/
theorem mutex_released_iff (maxPendingMsgSize : Int) :
    (∀ n : PeerNode M C, Reachable (step maxPendingMsgSize) {} n → n.locked = false →
      ∀ op, ∃ n' r, exec maxPendingMsgSize n op = some (n', r) ∧
        (r.err = some .pendingQueueFull → n'.pendingMsg.Sublist n.pendingMsg) ∧
        (n'.locked = false ↔ ¬ QueueFull maxPendingMsgSize n op)) ∧
    (∀ n : PeerNode M C,
      Reach (step maxPendingMsgSize) (fun n op => ¬ QueueFull maxPendingMsgSize n op) {} n →
      n.locked = false) := by
  refine ⟨?_, fun n h => free_of_reach h⟩
  intro n _ hfree op
  obtain ⟨n', r, hexec, hqueue, hlocked⟩ := exec_of_free hfree op
  refine ⟨n', r, hexec, hqueue, ?_⟩
  rw [← hlocked, Bool.not_eq_true]

/-! ## The default queue size -/

/-- `MaxPendingMsgSize` as the source sets it. -/
def defaultMaxPendingMsgSize : Nat := 1024

/-- Sends without a deadline to an unconnected peer. -/
def zeroSend (now : Time) : Op Unit Unit :=
  .sendMessage { now, done := fun _ => false } () 0 none

/-- The queue takes every such send until it is full. -/
theorem run_zeroSend (now : Time) (k : Nat) (hk : k ≤ defaultMaxPendingMsgSize) :
    run (step defaultMaxPendingMsgSize) {} (List.replicate k (zeroSend now)) =
      some { pendingMsg := List.replicate k { message := () }, dials := min k 1 } := by
  induction k with
  | zero => rfl
  | succ k ih =>
    rw [List.replicate_succ', run_append (ih (by omega)), List.replicate_succ']
    have hroom : ¬ ((List.replicate k ({ message := () } : PendingMessage Unit Unit)).length : Int)
        ≥ (defaultMaxPendingMsgSize : Nat) := by
      rw [List.length_replicate]
      omega
    simp only [run, step, exec, zeroSend, PeerNode.sendMessage, PeerNode.lock,
      Option.bind_eq_bind, Bool.false_eq_true, if_false, Option.bind_some, if_neg hroom]
    cases k with
    | zero => rfl
    | succ k => simp [PeerNode.enqueue, PeerNode.unlock]

/-- With 1024 messages pending, one more send without a deadline returns
`ErrPendingQueueFull` and leaves the mutex held. -/
theorem mutex_kept_on_full_queue :
    ∃ (n n' : PeerNode Unit Unit) (r : Reply Unit),
      Reachable (step defaultMaxPendingMsgSize) {} n ∧ n.locked = false ∧
      exec defaultMaxPendingMsgSize n (zeroSend 1) = some (n', r) ∧
      r.err = some .pendingQueueFull ∧ n'.locked = true := by
  have hrun := run_zeroSend 1 defaultMaxPendingMsgSize (Nat.le_refl _)
  have hfull : ((List.replicate defaultMaxPendingMsgSize
      ({ message := () } : PendingMessage Unit Unit)).length : Int) ≥
        (defaultMaxPendingMsgSize : Nat) :=
    Int.ofNat_le.mpr (Nat.le_of_eq List.length_replicate.symm)
  let queue : List (PendingMessage Unit Unit) :=
    List.replicate defaultMaxPendingMsgSize { message := () }
  refine ⟨_, { locked := true, pendingMsg := queue, dials := 1 },
    { err := some .pendingQueueFull }, Reach.of_run hrun, rfl, ?_, rfl, rfl⟩
  simp only [exec, zeroSend, PeerNode.sendMessage, PeerNode.lock, Option.bind_eq_bind,
    Bool.false_eq_true, if_false, Option.bind_some, if_pos hfull, if_true]
  rfl

end ClusterGo.Peer
