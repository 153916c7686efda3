import ClusterGo.Peer.Basic

/-!
# What an operation on a peer node does

`Effect` lists the exits of the operations of a peer node, one constructor
an exit: the state that the exit leaves, what it returns, and the condition
on the state before the call under which it is taken.  `effect_of_exec` is
the case analysis over the code.  The invariants of the queue, of the
current socket and of the dial protocol read the operations through it and
do not unfold them again.
-/

namespace ClusterGo.Peer

variable {M C : Type} {maxPendingMsgSize : Int} {n n' : PeerNode M C} {op : Op M C}
  {r : Reply M}

/-- The entry that a send puts into the pending queue. -/
def Op.message : Op M C → Option (PendingMessage M C)
  | .sendMessage _ msg deadline _ => some { message := msg, deadline }
  | .sendMessageWithContext _ ctx msg _ => some { message := msg, ctx := some ctx }
  | _ => none

/-- The queue that a send looks at: the queue as it is, or what a sweep left
of a full one. -/
def Swept (maxPendingMsgSize : Int) (n : PeerNode M C) (queue : List (PendingMessage M C)) :
    Prop :=
  queue = n.pendingMsg ∨
    n.pendingMsg.length ≥ maxPendingMsgSize ∧ queue.Sublist n.pendingMsg

/-- The queue after a failed dial. -/
def afterDialError (env : Env C) (n : PeerNode M C) : List (PendingMessage M C) :=
  n.pendingMsg.filter fun m => !PeerNode.failed env false m

/-- The messages that `onEstablish` hands to the socket. -/
def drained (env : Env C) (n : PeerNode M C) : List M :=
  (n.pendingMsg.filter (PeerNode.deliverable env)).map (·.message)

/-- The exits of the operations. -/
inductive Effect (maxPendingMsgSize : Int) (n : PeerNode M C) :
    Op M C → PeerNode M C → Reply M → Prop where
  | sent {op : Op M C} {m : PendingMessage M C} {sock : Nat} {err : Option Err}
      (hop : op.message = some m) (hsock : n.socket = some sock) :
      Effect maxPendingMsgSize n op n { err, handed := [m.message] }
  | rejected {op : Op M C} {m : PendingMessage M C} {queue : List (PendingMessage M C)}
      (hop : op.message = some m) (hsock : n.socket = none)
      (hqueue : Swept maxPendingMsgSize n queue) (hfull : queue.length ≥ maxPendingMsgSize) :
      Effect maxPendingMsgSize n op { n with locked := true, pendingMsg := queue }
        { err := some .pendingQueueFull }
  | queued {op : Op M C} {m : PendingMessage M C} {queue : List (PendingMessage M C)}
      (hop : op.message = some m) (hsock : n.socket = none)
      (hqueue : Swept maxPendingMsgSize n queue) (hroom : queue.length < maxPendingMsgSize) :
      Effect maxPendingMsgSize n op (PeerNode.enqueue m { n with pendingMsg := queue }) {}
  | dialErrorLate {env : Env C} {sock : Nat} (hsock : n.socket = some sock) :
      Effect maxPendingMsgSize n (.dialError env) { n with dials := n.dials - 1 } {}
  | dialErrorRetry {env : Env C} (hsock : n.socket = none)
      (hleft : afterDialError env n ≠ []) :
      Effect maxPendingMsgSize n (.dialError env)
        { n with pendingMsg := afterDialError env n, dials := n.dials - 1 + 1 } {}
  | dialErrorGiveUp {env : Env C} (hsock : n.socket = none)
      (hleft : afterDialError env n = []) :
      Effect maxPendingMsgSize n (.dialError env)
        { n with pendingMsg := [], dials := n.dials - 1 } {}
  | dialOKLate {env : Env C} {sock old : Nat} (hsock : n.socket = some old) :
      Effect maxPendingMsgSize n (.dialOK env sock) { n with dials := n.dials - 1 } {}
  | dialOK {env : Env C} {sock : Nat} (hsock : n.socket = none) :
      Effect maxPendingMsgSize n (.dialOK env sock)
        { n with socket := some sock, pendingMsg := [], dials := n.dials - 1 }
        { handed := drained env n }
  | closeSocket : Effect maxPendingMsgSize n .closeSocket { n with socket := none } {}
  | closeCallback : Effect maxPendingMsgSize n .closeCallback { n with socket := none } {}
  | refused {env : Env C} {selfLess writeFails : Bool} {sock : Nat} {err : Err}
      (hwhy : n.pendingMsg ≠ [] ∧ selfLess = true ∨ n.pendingMsg = [] ∧ n.socket ≠ none ∨
        writeFails = true) :
      Effect maxPendingMsgSize n (.accept env selfLess writeFails sock) n { err := some err }
  | accepted {env : Env C} {selfLess writeFails : Bool} {sock : Nat}
      (hless : n.pendingMsg ≠ [] → selfLess = false)
      (hsock : n.pendingMsg = [] → n.socket = none) (hwrite : writeFails = false) :
      Effect maxPendingMsgSize n (.accept env selfLess writeFails sock)
        { n with socket := some sock, pendingMsg := [] } { handed := drained env n }

/-- A call that returns found the mutex free. -/
theorem lock_eq_some {m : PeerNode M C} (h : n.lock = some m) :
    n.locked = false ∧ m = { n with locked := true } := by
  rw [PeerNode.lock] at h
  split_ifs at h with hlocked
  exact ⟨Bool.eq_false_iff.mpr hlocked, (Option.some_inj.mp h).symm⟩

theorem free_of_exec (h : exec maxPendingMsgSize n op = some (n', r)) : n.locked = false := by
  cases hlock : n.lock with
  | some m => exact (lock_eq_some hlock).1
  | none =>
    cases op <;>
      simp [exec, PeerNode.sendMessage, PeerNode.sendMessageWithContext, PeerNode.dialError,
        PeerNode.dialOK, PeerNode.closeSocket, PeerNode.closeCallback, PeerNode.accept,
        hlock] at h

/-- What a sweep leaves of a full queue. -/
theorem swept_of_full {env : Env C} {removeZero : Bool}
    (hfull : n.pendingMsg.length ≥ maxPendingMsgSize) :
    Swept maxPendingMsgSize n (n.removeFailedMsg env removeZero).pendingMsg :=
  Or.inr ⟨hfull, List.filter_sublist⟩

/-- Releasing the mutex and pushing a message do not touch the same
fields. -/
theorem unlock_enqueue (m : PendingMessage M C) (n : PeerNode M C) :
    (n.enqueue m).unlock = n.unlock.enqueue m := by
  by_cases hfirst : (n.pendingMsg ++ [m]).length = 1
  · simp only [PeerNode.enqueue, PeerNode.unlock, if_pos hfirst]
    exact (if_pos hfirst).symm
  · simp only [PeerNode.enqueue, PeerNode.unlock, if_neg hfirst]
    exact (if_neg hfirst).symm

/-! ## The senders

Both senders are read from the state with the mutex taken, which differs
from the state before the call in `locked` only. -/

theorem sendMessage_effect {env : Env C} {msg : M} {deadline : Time} {sent : Option Err}
    (h : n.sendMessage maxPendingMsgSize env msg deadline sent = some (n', r))
    (hfree : n.locked = false) :
    Effect maxPendingMsgSize n (.sendMessage env msg deadline sent) n' r := by
  obtain ⟨locked, socket, pendingMsg, dials⟩ := n
  subst hfree
  simp only [PeerNode.sendMessage, PeerNode.lock, Bool.false_eq_true, if_false,
    Option.bind_eq_bind, Option.bind_some] at h
  cases socket with
  | some sock =>
    cases h
    exact .sent (m := { message := msg, deadline }) rfl rfl
  | none =>
    dsimp only at h
    split_ifs at h with hfull hzero hswept
    · cases h
      exact .rejected rfl rfl (Or.inl rfl) hfull
    · cases h
      exact .rejected rfl rfl (swept_of_full hfull) hswept
    · cases h
      rw [unlock_enqueue]
      exact .queued rfl rfl (swept_of_full hfull) (Int.not_le.mp hswept)
    · cases h
      rw [unlock_enqueue]
      exact .queued rfl rfl (Or.inl rfl) (Int.not_le.mp hfull)

theorem sendMessageWithContext_effect {env : Env C} {ctx : C} {msg : M} {sent : Option Err}
    (h : n.sendMessageWithContext maxPendingMsgSize env ctx msg sent = some (n', r))
    (hfree : n.locked = false) :
    Effect maxPendingMsgSize n (.sendMessageWithContext env ctx msg sent) n' r := by
  obtain ⟨locked, socket, pendingMsg, dials⟩ := n
  subst hfree
  simp only [PeerNode.sendMessageWithContext, PeerNode.lock, Bool.false_eq_true, if_false,
    Option.bind_eq_bind, Option.bind_some] at h
  cases socket with
  | some sock =>
    cases h
    exact .sent (m := { message := msg, ctx := some ctx }) rfl rfl
  | none =>
    dsimp only at h
    split_ifs at h with hfull hswept
    · cases h
      exact .rejected rfl rfl (swept_of_full hfull) hswept
    · cases h
      rw [unlock_enqueue]
      exact .queued rfl rfl (swept_of_full hfull) (Int.not_le.mp hswept)
    · cases h
      rw [unlock_enqueue]
      exact .queued rfl rfl (Or.inl rfl) (Int.not_le.mp hfull)

/-! ## The ends of a dial -/

theorem dialError_effect {env : Env C} (h : n.dialError env = some (n', r))
    (hfree : n.locked = false) : Effect maxPendingMsgSize n (.dialError env) n' r := by
  obtain ⟨locked, socket, pendingMsg, dials⟩ := n
  subst hfree
  simp only [PeerNode.dialError, PeerNode.lock, Bool.false_eq_true, if_false,
    Option.bind_eq_bind, Option.bind_some] at h
  cases socket with
  | some sock =>
    cases h
    exact .dialErrorLate rfl
  | none =>
    cases h
    split_ifs with hleft
    · exact .dialErrorRetry rfl (List.ne_nil_of_length_pos hleft)
    · have hnil : pendingMsg.filter (fun m => !PeerNode.failed env false m) = [] :=
        List.eq_nil_of_length_eq_zero (Nat.eq_zero_of_not_pos hleft)
      rw [PeerNode.removeFailedMsg]
      dsimp only
      rw [hnil]
      exact .dialErrorGiveUp rfl hnil

theorem dialOK_effect {env : Env C} {sock : Nat} (h : n.dialOK env sock = some (n', r))
    (hfree : n.locked = false) : Effect maxPendingMsgSize n (.dialOK env sock) n' r := by
  obtain ⟨locked, socket, pendingMsg, dials⟩ := n
  subst hfree
  simp only [PeerNode.dialOK, PeerNode.lock, Bool.false_eq_true, if_false,
    Option.bind_eq_bind, Option.bind_some] at h
  cases socket with
  | some old =>
    cases h
    exact .dialOKLate rfl
  | none =>
    cases h
    exact .dialOK rfl

/-! ## The other operations -/

theorem closeSocket_effect (h : n.closeSocket = some (n', r)) (hfree : n.locked = false) :
    Effect maxPendingMsgSize n .closeSocket n' r := by
  obtain ⟨locked, socket, pendingMsg, dials⟩ := n
  subst hfree
  simp only [PeerNode.closeSocket, PeerNode.lock, Bool.false_eq_true, if_false,
    Option.bind_eq_bind, Option.bind_some] at h
  cases socket <;> cases h <;> exact .closeSocket

theorem closeCallback_effect (h : n.closeCallback = some (n', r)) (hfree : n.locked = false) :
    Effect maxPendingMsgSize n .closeCallback n' r := by
  obtain ⟨locked, socket, pendingMsg, dials⟩ := n
  subst hfree
  cases h
  exact .closeCallback

theorem accept_effect {env : Env C} {selfLess writeFails : Bool} {sock : Nat}
    (h : n.accept env selfLess writeFails sock = some (n', r)) (hfree : n.locked = false) :
    Effect maxPendingMsgSize n (.accept env selfLess writeFails sock) n' r := by
  obtain ⟨locked, socket, pendingMsg, dials⟩ := n
  subst hfree
  simp only [PeerNode.accept, PeerNode.lock, Bool.false_eq_true, if_false,
    Option.bind_eq_bind, Option.bind_some, ne_eq, List.length_eq_zero_iff] at h
  split_ifs at h with hless hdup hwrite
  · cases h
    exact .refused (Or.inl hless)
  · cases h
    exact .refused (Or.inr (Or.inl hdup))
  · cases h
    exact .refused (Or.inr (Or.inr hwrite))
  · cases h
    refine .accepted ?_ ?_ (Bool.eq_false_iff.mpr hwrite)
    · exact fun hpending => Bool.eq_false_iff.mpr fun hl => hless ⟨hpending, hl⟩
    · exact fun hpending => not_not.mp fun hs => hdup ⟨hpending, hs⟩

/-- What a call that returns has done. -/
theorem effect_of_exec (h : exec maxPendingMsgSize n op = some (n', r)) :
    Effect maxPendingMsgSize n op n' r := by
  have hfree := free_of_exec h
  cases op with
  | sendMessage env msg deadline sent => exact sendMessage_effect h hfree
  | sendMessageWithContext env ctx msg sent => exact sendMessageWithContext_effect h hfree
  | dialError env => exact dialError_effect h hfree
  | dialOK env sock => exact dialOK_effect h hfree
  | closeSocket => exact closeSocket_effect h hfree
  | closeCallback => exact closeCallback_effect h hfree
  | accept env selfLess writeFails sock => exact accept_effect h hfree

/-- A step of the node is one of its effects, and what is built from its
state is built from that effect. -/
theorem effect_of_map {σ : Type} {f : PeerNode M C → σ} {t : σ}
    (h : (step maxPendingMsgSize n op).map f = some t) :
    ∃ n' r, Effect maxPendingMsgSize n op n' r ∧ f n' = t := by
  obtain ⟨n', hstep, heq⟩ := Option.map_eq_some_iff.mp h
  rw [step, Option.map_eq_some_iff] at hstep
  obtain ⟨⟨_, r⟩, hexec, hfst⟩ := hstep
  exact ⟨n', r, hfst ▸ effect_of_exec hexec, heq⟩

/-! ## The exits of one operation -/

namespace Effect

/-- The exits of a send: it is passed on, rejected with the mutex kept, or
queued. -/
theorem send_cases {m : PendingMessage M C} (h : Effect maxPendingMsgSize n op n' r)
    (hop : op.message = some m) :
    (n.socket ≠ none ∧ n' = n) ∨
    n.socket = none ∧ ∃ queue, Swept maxPendingMsgSize n queue ∧
      (queue.length ≥ maxPendingMsgSize ∧ n' = { n with locked := true, pendingMsg := queue } ∨
        queue.length < maxPendingMsgSize ∧
          n' = PeerNode.enqueue m { n with pendingMsg := queue }) := by
  cases h with
  | sent hop' hsock => exact Or.inl ⟨hsock ▸ Option.some_ne_none _, rfl⟩
  | rejected hop' hsock hqueue hfull =>
    exact Or.inr ⟨hsock, _, hqueue, Or.inl ⟨hfull, rfl⟩⟩
  | queued hop' hsock hqueue hroom =>
    rw [hop, Option.some_inj] at hop'
    exact Or.inr ⟨hsock, _, hqueue, Or.inr ⟨hroom, by rw [hop']⟩⟩
  | _ => cases hop

theorem dialError_cases {env : Env C} (h : Effect maxPendingMsgSize n (.dialError env) n' r) :
    (n.socket ≠ none ∧ n' = { n with dials := n.dials - 1 }) ∨
    n.socket = none ∧
      (afterDialError env n ≠ [] ∧
        n' = { n with pendingMsg := afterDialError env n, dials := n.dials - 1 + 1 } ∨
      afterDialError env n = [] ∧ n' = { n with pendingMsg := [], dials := n.dials - 1 }) := by
  cases h with
  | sent hop hsock => cases hop
  | rejected hop hsock hqueue hfull => cases hop
  | queued hop hsock hqueue hroom => cases hop
  | dialErrorLate hsock => exact Or.inl ⟨hsock ▸ Option.some_ne_none _, rfl⟩
  | dialErrorRetry hsock hleft => exact Or.inr ⟨hsock, Or.inl ⟨hleft, rfl⟩⟩
  | dialErrorGiveUp hsock hleft => exact Or.inr ⟨hsock, Or.inr ⟨hleft, rfl⟩⟩

theorem dialOK_cases {env : Env C} {sock : Nat}
    (h : Effect maxPendingMsgSize n (.dialOK env sock) n' r) :
    (n.socket ≠ none ∧ n' = { n with dials := n.dials - 1 }) ∨
    n.socket = none ∧
      n' = { n with socket := some sock, pendingMsg := [], dials := n.dials - 1 } := by
  cases h with
  | sent hop hsock => cases hop
  | rejected hop hsock hqueue hfull => cases hop
  | queued hop hsock hqueue hroom => cases hop
  | dialOKLate hsock => exact Or.inl ⟨hsock ▸ Option.some_ne_none _, rfl⟩
  | dialOK hsock => exact Or.inr ⟨hsock, rfl⟩

theorem closeSocket_eq (h : Effect maxPendingMsgSize n .closeSocket n' r) :
    n' = { n with socket := none } := by
  cases h with
  | sent hop hsock => cases hop
  | rejected hop hsock hqueue hfull => cases hop
  | queued hop hsock hqueue hroom => cases hop
  | closeSocket => rfl

theorem closeCallback_eq (h : Effect maxPendingMsgSize n .closeCallback n' r) :
    n' = { n with socket := none } := by
  cases h with
  | sent hop hsock => cases hop
  | rejected hop hsock hqueue hfull => cases hop
  | queued hop hsock hqueue hroom => cases hop
  | closeCallback => rfl

theorem accept_cases {env : Env C} {selfLess writeFails : Bool} {sock : Nat}
    (h : Effect maxPendingMsgSize n (.accept env selfLess writeFails sock) n' r) :
    (r.err ≠ none ∧ n' = n ∧
      (n.pendingMsg ≠ [] ∧ selfLess = true ∨ n.pendingMsg = [] ∧ n.socket ≠ none ∨
        writeFails = true)) ∨
    (r.err = none ∧ n' = { n with socket := some sock, pendingMsg := [] } ∧
      (n.pendingMsg ≠ [] → selfLess = false) ∧ (n.pendingMsg = [] → n.socket = none)) := by
  cases h with
  | sent hop hsock => cases hop
  | rejected hop hsock hqueue hfull => cases hop
  | queued hop hsock hqueue hroom => cases hop
  | refused hwhy => exact Or.inl ⟨Option.some_ne_none _, rfl, hwhy⟩
  | accepted hless hsock hwrite => exact Or.inr ⟨rfl, rfl, hless, hsock⟩

end Effect

end ClusterGo.Peer
