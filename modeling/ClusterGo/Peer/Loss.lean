import ClusterGo.Peer.Pending

/-!
# Which pending messages are lost

A message that waits for a connection should be dropped only when its
context is done or its deadline is reached; one without a deadline should
be dropped only to make room in a full queue, and `removeFailedMsg` has the
flag `removeZero` for that.  `dialError` calls it with the flag off.  The
zero time is behind every clock reading, so `now.After(m.deadline)` holds
for a message without a deadline too, and the first failed dial drops it.

`kept` computes what a run of sends and failed dials leaves in the queue.
A message is in it when it survives every failed dial after its send, and
`lost_iff` says that a message which is still due at the end survives all
of them unless it has no deadline and there is one.  So nothing is lost
exactly when no dial fails after a send without a deadline.
-/

namespace ClusterGo.Peer

open Transition

variable {M C : Type} {maxPendingMsgSize : Int} {n n' : PeerNode M C}

/-! ## Runs of an unconnected node -/

/-- The context of the message is done, or its deadline is set and
reached. -/
def PendingMessage.gone (env : Env C) (m : PendingMessage M C) : Bool :=
  match m.ctx with
  | some ctx => env.done ctx
  | none => m.deadline ≠ 0 && m.deadline ≤ env.now

/-- The clock reading of an operation that an unconnected node sees while
it waits: a send or a failed dial. -/
def Op.waitingEnv : Op M C → Option (Env C)
  | .sendMessage env _ _ _ => some env
  | .sendMessageWithContext env _ _ _ => some env
  | .dialError env => some env
  | _ => none

/-- The clock reading of a failed dial. -/
def Op.failedDial : Op M C → Option (Env C)
  | .dialError env => some env
  | _ => none

/-- A send without a deadline and without a context. -/
def Op.zeroDeadline : Op M C → Bool
  | .sendMessage _ _ deadline _ => deadline = 0
  | _ => false

/-- Time goes on, and a context that is done stays done. -/
def Env.Before (env env' : Env C) : Prop :=
  env.now ≤ env'.now ∧ ∀ ctx, env.done ctx = true → env'.done ctx = true

/-- The run is one of sends and failed dials, its clock readings come in
order and before `env`, and they are behind the zero time. -/
structure Clocked (ops : List (Op M C)) (env : Env C) : Prop where
  waiting : ∀ op ∈ ops, op.waitingEnv.isSome
  ordered : (ops.filterMap Op.waitingEnv ++ [env]).Pairwise Env.Before
  positive : ∀ env' ∈ ops.filterMap Op.waitingEnv, 0 < env'.now

/-- The messages whose sends returned without an error. -/
def accepted (maxPendingMsgSize : Int) : PeerNode M C → List (Op M C) → List (PendingMessage M C)
  | _, [] => []
  | n, op :: ops =>
    match exec maxPendingMsgSize n op with
    | none => []
    | some (n', r) =>
      (if r.err = none then op.message.toList else []) ++ accepted maxPendingMsgSize n' ops

/-- The queue is not full in any state of the run. -/
def NeverFull (maxPendingMsgSize : Int) (n : PeerNode M C) (ops : List (Op M C)) : Prop :=
  ∀ k n', run (step maxPendingMsgSize) n (ops.take k) = some n' →
    n'.pendingMsg.length < maxPendingMsgSize

/-- The message is not dropped by a failed dial of the run. -/
def survives (ops : List (Op M C)) (m : PendingMessage M C) : Bool :=
  (ops.filterMap Op.failedDial).all fun env => !PeerNode.failed env false m

/-- The messages of a run that are in the queue after it. -/
def kept : List (Op M C) → List (PendingMessage M C)
  | [] => []
  | op :: ops => op.message.toList.filter (survives ops) ++ kept ops

theorem NeverFull.head {op : Op M C} {ops : List (Op M C)}
    (h : NeverFull maxPendingMsgSize n (op :: ops)) :
    n.pendingMsg.length < maxPendingMsgSize :=
  h 0 n rfl

theorem NeverFull.tail {op : Op M C} {ops : List (Op M C)}
    (h : NeverFull maxPendingMsgSize n (op :: ops))
    (hstep : step maxPendingMsgSize n op = some n') :
    NeverFull maxPendingMsgSize n' ops := by
  intro k m hrun
  refine h (k + 1) m ?_
  rw [List.take_succ_cons, run_cons hstep]
  exact hrun

/-- One operation of a waiting node: a send is accepted and queued at the
end, and a failed dial sweeps the queue. -/
theorem waiting_step {op : Op M C} {r : Reply M} (hwaits : op.waitingEnv.isSome)
    (hsock : n.socket = none) (hroom : n.pendingMsg.length < maxPendingMsgSize)
    (heffect : Effect maxPendingMsgSize n op n' r) :
    n'.socket = none ∧
      (op.failedDial = none ∧ (∃ m, op.message = some m) ∧ r.err = none ∧
        n'.pendingMsg = n.pendingMsg ++ op.message.toList ∨
      op.message = none ∧ ∃ env, op.failedDial = some env ∧
        n'.pendingMsg = afterDialError env n) := by
  cases heffect with
  | sent hop hs => exact absurd (hs.symm.trans hsock) (Option.some_ne_none _)
  | @rejected op m queue hop hs hqueue hfull =>
    have hlen := hqueue.sublist.length_le
    omega
  | @queued op m queue hop hs hqueue hroom' =>
    rw [enqueue_socket, enqueue_pendingMsg, hop]
    have hqueue' : queue = n.pendingMsg := by
      rcases hqueue with heq | hsub
      · exact heq
      · omega
    have hnodial : op.failedDial = none := by
      cases op with
      | dialError env => cases hop
      | _ => rfl
    exact ⟨hsock, Or.inl ⟨hnodial, ⟨m, rfl⟩, rfl, by rw [hqueue']; rfl⟩⟩
  | dialErrorLate hs => exact absurd (hs.symm.trans hsock) (Option.some_ne_none _)
  | dialErrorRetry hs hleft => exact ⟨hsock, Or.inr ⟨rfl, _, rfl, rfl⟩⟩
  | dialErrorGiveUp hs hleft => exact ⟨hsock, Or.inr ⟨rfl, _, rfl, hleft.symm⟩⟩
  | _ => cases hwaits

theorem survives_cons_of_send {op : Op M C} (h : op.failedDial = none) (ops : List (Op M C)) :
    survives (op :: ops) = survives ops := by
  funext m
  rw [survives, List.filterMap_cons_none h, survives]

theorem survives_cons_of_error {op : Op M C} {env : Env C} (h : op.failedDial = some env)
    (ops : List (Op M C)) (m : PendingMessage M C) :
    survives (op :: ops) m = (!PeerNode.failed env false m && survives ops m) := by
  rw [survives, List.filterMap_cons_some h, List.all_cons, survives]

/-- What a run of a waiting node leaves in the queue, and that it accepted
every send. -/
theorem queue_of_run {ops : List (Op M C)} (hwaits : ∀ op ∈ ops, op.waitingEnv.isSome)
    (hsock : n.socket = none) (hroom : NeverFull maxPendingMsgSize n ops)
    (hrun : run (step maxPendingMsgSize) n ops = some n') :
    n'.pendingMsg = n.pendingMsg.filter (survives ops) ++ kept ops ∧
      accepted maxPendingMsgSize n ops = ops.filterMap Op.message := by
  induction ops generalizing n with
  | nil =>
    rw [run_nil, Option.some_inj] at hrun
    refine ⟨?_, rfl⟩
    rw [hrun, kept, List.append_nil]
    exact (List.filter_eq_self.mpr fun _ _ => rfl).symm
  | cons op ops ih =>
    rw [List.forall_mem_cons] at hwaits
    cases hexec : exec maxPendingMsgSize n op with
    | none => simp [run, step, hexec] at hrun
    | some p =>
      obtain ⟨n₁, r⟩ := p
      have hstep : step maxPendingMsgSize n op = some n₁ := by rw [step, hexec]; rfl
      rw [run_cons hstep] at hrun
      obtain ⟨hsock₁, hcases⟩ :=
        waiting_step hwaits.1 hsock hroom.head (effect_of_exec hexec)
      obtain ⟨hqueue, haccepted⟩ := ih hwaits.2 hsock₁ (hroom.tail hstep) hrun
      rw [accepted, hexec]
      rcases hcases with ⟨hdial, ⟨m, hm⟩, herr, hpush⟩ | ⟨hm, env, hdial, hsweep⟩
      · rw [hqueue, hpush, survives_cons_of_send hdial, List.filter_append, List.append_assoc]
        refine ⟨by rw [kept], ?_⟩
        rw [List.filterMap_cons_some hm]
        simp only [herr, if_true, hm, haccepted]
        rfl
      · refine ⟨?_, ?_⟩
        · rw [hqueue, hsweep, afterDialError, List.filter_filter, kept, hm]
          simp only [Option.toList_none, List.filter_nil, List.nil_append,
            List.append_cancel_right_eq]
          refine List.filter_congr fun m _ => ?_
          rw [survives_cons_of_error hdial, Bool.and_comm]
        · rw [List.filterMap_cons_none hm]
          simp only [hm, Option.toList_none, ite_self, List.nil_append, haccepted]

/-! ## What a failed dial drops -/

/-- A message that is due at `env` fails an earlier dial exactly when it has
neither a context nor a deadline. -/
theorem failed_iff_zero {env env' : Env C} {m : PendingMessage M C}
    (hbefore : env'.Before env) (hpos : 0 < env'.now) (hdue : m.gone env = false) :
    PeerNode.failed env' false m = true ↔ m.ctx = none ∧ m.deadline = 0 := by
  obtain ⟨hnow, hdone⟩ := hbefore
  rw [PeerNode.failed]
  rw [PendingMessage.gone] at hdue
  cases hctx : m.ctx with
  | some ctx =>
    simp only [hctx] at hdue
    have hnot : env'.done ctx ≠ true := by
      intro h
      rw [hdone ctx h] at hdue
      cases hdue
    simp [hnot]
  | none =>
    simp only [hctx, ne_eq, decide_not, Bool.and_eq_false_iff, Bool.not_eq_false',
      decide_eq_true_eq, decide_eq_false_iff_not] at hdue
    simp only [Bool.and_false, Bool.false_or, decide_eq_true_eq, true_and]
    constructor
    · intro hlate
      rcases hdue with hzero | hfuture
      · exact hzero
      · exact absurd (Int.le_of_lt (Int.lt_of_lt_of_le hlate hnow)) hfuture
    · intro hzero
      rw [hzero]
      exact hpos

theorem zeroDeadline_iff {op : Op M C} {m : PendingMessage M C} (hop : op.message = some m) :
    op.zeroDeadline = true ↔ m.ctx = none ∧ m.deadline = 0 := by
  cases op with
  | sendMessage env msg deadline sent =>
    cases hop
    simp [Op.zeroDeadline]
  | sendMessageWithContext env ctx msg sent =>
    cases hop
    simp [Op.zeroDeadline]
  | _ => cases hop

theorem not_gone_of_zero {env : Env C} {m : PendingMessage M C}
    (hzero : m.ctx = none ∧ m.deadline = 0) : m.gone env = false := by
  simp [PendingMessage.gone, hzero.1, hzero.2]

/-- A due message that was sent before `ops` is lost in them exactly when it
has no deadline and a dial fails. -/
theorem lost_iff {ops : List (Op M C)} {env : Env C} {op : Op M C} {m : PendingMessage M C}
    (hclock : ∀ env' ∈ ops.filterMap Op.failedDial, env'.Before env ∧ 0 < env'.now)
    (hop : op.message = some m) (hdue : m.gone env = false) :
    survives ops m = true ↔
      ∀ b ∈ ops, op.zeroDeadline = true → b.failedDial.isSome = false := by
  have hzero := zeroDeadline_iff hop
  rw [survives, List.all_eq_true]
  constructor
  · intro hall b hb hz
    cases hdial : b.failedDial with
    | none => rfl
    | some env' =>
      have hmem : env' ∈ ops.filterMap Op.failedDial := List.mem_filterMap.mpr ⟨b, hb, hdial⟩
      have hfailed := (failed_iff_zero (hclock env' hmem).1 (hclock env' hmem).2 hdue).mpr
        (hzero.mp hz)
      have hkept := hall env' hmem
      rw [hfailed] at hkept
      cases hkept
  · intro hnone env' hmem
    obtain ⟨b, hb, hdial⟩ := List.mem_filterMap.mp hmem
    cases hfailed : PeerNode.failed env' false m with
    | false => rfl
    | true =>
      have hz := (failed_iff_zero (hclock env' hmem).1 (hclock env' hmem).2 hdue).mp hfailed
      have hnodial := hnone b hb (hzero.mpr hz)
      rw [hdial] at hnodial
      cases hnodial

/-- No dial of the run fails after a send without a deadline. -/
def NoZeroBeforeFailure (ops : List (Op M C)) : Prop :=
  ops.Pairwise fun a b => a.zeroDeadline = true → b.failedDial.isSome = false

/-- Only a send without a deadline can break it. -/
theorem noZeroBeforeFailure_cons {op : Op M C} (h : op.zeroDeadline ≠ true)
    (ops : List (Op M C)) : NoZeroBeforeFailure (op :: ops) ↔ NoZeroBeforeFailure ops := by
  rw [NoZeroBeforeFailure, List.pairwise_cons]
  exact and_iff_right fun _ _ hz => absurd hz h

/-- A send adds its message to what is kept when it survives the rest. -/
theorem filter_kept_cons {op : Op M C} {m : PendingMessage M C} (hop : op.message = some m)
    (ops : List (Op M C)) (p : PendingMessage M C → Bool) :
    (kept (op :: ops)).filter p =
      if p m = true ∧ survives ops m = true then m :: (kept ops).filter p
      else (kept ops).filter p := by
  rw [kept, hop, List.filter_append, List.filter_filter]
  by_cases h : p m = true ∧ survives ops m = true
  · rw [if_pos h]
    simp [h.1, h.2]
  · have hdropped : (p m && survives ops m) = false := by
      rw [← Bool.not_eq_true, Bool.and_eq_true]
      exact h
    rw [if_neg h]
    simp [hdropped]

/-- The due messages that were kept are among the due messages that were
sent, and all of them are there exactly under the condition. -/
theorem kept_due {ops : List (Op M C)} {env : Env C}
    (hclock : ∀ env' ∈ ops.filterMap Op.failedDial, env'.Before env ∧ 0 < env'.now) :
    ((kept ops).filter fun m => !m.gone env).Sublist
        ((ops.filterMap Op.message).filter fun m => !m.gone env) ∧
      (((kept ops).filter fun m => !m.gone env).length =
          ((ops.filterMap Op.message).filter fun m => !m.gone env).length ↔
        NoZeroBeforeFailure ops) := by
  induction ops with
  | nil => exact ⟨List.Sublist.refl _, fun _ => List.Pairwise.nil, fun _ => rfl⟩
  | cons op ops ih =>
    have hclock' : ∀ env' ∈ ops.filterMap Op.failedDial, env'.Before env ∧ 0 < env'.now := by
      intro env' hmem
      obtain ⟨b, hb, hdial⟩ := List.mem_filterMap.mp hmem
      exact hclock env' (List.mem_filterMap.mpr ⟨b, List.mem_cons_of_mem _ hb, hdial⟩)
    obtain ⟨hsub, hlen⟩ := ih hclock'
    cases hop : op.message with
    | none =>
      have hnozero : op.zeroDeadline ≠ true := by
        cases op with
        | sendMessage env msg deadline sent => cases hop
        | _ => exact Bool.false_ne_true
      rw [List.filterMap_cons_none hop, kept, hop, noZeroBeforeFailure_cons hnozero]
      exact ⟨hsub, hlen⟩
    | some m =>
      rw [List.filterMap_cons_some hop, filter_kept_cons hop]
      cases hgone : m.gone env with
      | true =>
        -- A message that is gone at the end counts on neither side.
        have hnozero : op.zeroDeadline ≠ true := by
          intro hz
          rw [not_gone_of_zero ((zeroDeadline_iff hop).mp hz)] at hgone
          cases hgone
        rw [if_neg (fun h => Bool.false_ne_true h.1), List.filter_cons_of_neg (by simp [hgone]),
          noZeroBeforeFailure_cons hnozero]
        exact ⟨hsub, hlen⟩
      | false =>
        have hiff := lost_iff hclock' hop hgone
        rw [List.filter_cons_of_pos (by simp [hgone]), List.length_cons, NoZeroBeforeFailure,
          List.pairwise_cons]
        cases hsurvives : survives ops m with
        | true =>
          rw [if_pos ⟨rfl, rfl⟩, List.length_cons]
          refine ⟨hsub.cons_cons m, ?_⟩
          rw [Nat.succ_inj, hlen]
          exact ⟨fun h => ⟨hiff.mp hsurvives, h⟩, fun h => h.2⟩
        | false =>
          rw [if_neg (fun h => Bool.false_ne_true h.2)]
          refine ⟨hsub.cons m, ?_, ?_⟩
          · intro heq
            have hle := hsub.length_le
            omega
          · intro hpair
            have hkept := hiff.mpr hpair.1
            rw [hsurvives] at hkept
            cases hkept

/-! ## The messages handed over -/

theorem deliverable_eq (env : Env C) (m : PendingMessage M C) :
    PeerNode.deliverable env m = !m.gone env := by
  rw [PeerNode.deliverable, PendingMessage.gone]
  cases m.ctx with
  | some ctx => rfl
  | none =>
    by_cases hzero : m.deadline = 0
    · simp [hzero]
    · by_cases hreached : m.deadline ≤ env.now
      · have hnot : ¬ env.now < m.deadline := Int.not_lt.mpr hreached
        simp [hzero, hreached, hnot]
      · have hbefore : env.now < m.deadline := Int.not_le.mp hreached
        simp [hzero, hreached, hbefore]

theorem Clocked.dials {ops : List (Op M C)} {env : Env C} (h : Clocked ops env) :
    ∀ env' ∈ ops.filterMap Op.failedDial, env'.Before env ∧ 0 < env'.now := by
  intro env' hmem
  obtain ⟨op, hop, hdial⟩ := List.mem_filterMap.mp hmem
  have hwaiting : op.waitingEnv = some env' := by
    cases op with
    | dialError env₁ => exact hdial
    | _ => cases hdial
  have hmem' : env' ∈ ops.filterMap Op.waitingEnv := List.mem_filterMap.mpr ⟨op, hop, hwaiting⟩
  refine ⟨?_, h.positive env' hmem'⟩
  exact (List.pairwise_append.mp h.ordered).2.2 env' hmem' env (List.mem_singleton_self env)

/-- A node without a connection and with an empty queue takes any sends and
failed dials, and the queue does not fill up.  What the connection that is
established at `env` hands to the socket is, in order, every accepted
message whose context is not done and whose deadline, if it has one, is not
reached, if and only if no dial failed after a send without a deadline. -/
theorem pending_loss_iff (maxPendingMsgSize : Int) (n n' : PeerNode M C) (ops : List (Op M C))
    (env : Env C) (sock : Nat) (hsock : n.socket = none) (hempty : n.pendingMsg = [])
    (hclock : Clocked ops env) (hroom : NeverFull maxPendingMsgSize n ops)
    (hrun : run (step maxPendingMsgSize) n ops = some n') :
    (n'.onEstablish env sock).2.handed =
        ((accepted maxPendingMsgSize n ops).filter fun m => !m.gone env).map (·.message) ↔
      NoZeroBeforeFailure ops := by
  obtain ⟨hqueue, haccepted⟩ := queue_of_run hclock.waiting hsock hroom hrun
  obtain ⟨hsub, hlen⟩ := kept_due hclock.dials
  have hhanded : (n'.onEstablish env sock).2.handed =
      ((kept ops).filter fun m => !m.gone env).map (·.message) := by
    rw [hempty, List.filter_nil, List.nil_append] at hqueue
    simp only [PeerNode.onEstablish, hqueue, List.filter_congr fun m _ => deliverable_eq env m]
  rw [hhanded, haccepted, ← hlen]
  constructor
  · intro heq
    have hlength := congrArg List.length heq
    rw [List.length_map, List.length_map] at hlength
    exact hlength
  · intro hlength
    rw [hsub.eq_of_length hlength]

/-- A send with a deadline and a failed dial. -/
def deadlineRun : List (Op Unit Unit) := [.sendMessage atOne () 5 none, .dialError atOne]

theorem deadlineRun_neverFull : NeverFull 1024 {} deadlineRun := by
  intro k n' hrun
  rcases k with _ | _ | k
  · rw [← Option.some_inj.mp (show some {} = some n' from hrun)]
    decide
  · rw [← Option.some_inj.mp (show some
      { pendingMsg := [{ message := (), deadline := 5 }], dials := 1 } = some n' from hrun)]
    decide
  · rw [List.take_of_length_le (Nat.le_add_left 2 k)] at hrun
    rw [← Option.some_inj.mp (show some
      { pendingMsg := [{ message := (), deadline := 5 }], dials := 1 } = some n' from hrun)]
    decide

/-- A message with a deadline outlives a failed dial. -/
theorem pending_loss_deadline :
    ∃ n' : PeerNode Unit Unit, run (step 1024) {} deadlineRun = some n' ∧
      ((n'.onEstablish atOne 0).2.handed =
          ((accepted 1024 {} deadlineRun).filter fun m => !m.gone atOne).map (·.message) ↔
        NoZeroBeforeFailure deadlineRun) := by
  have hrun : run (step 1024) {} deadlineRun =
      some { pendingMsg := [{ message := (), deadline := 5 }], dials := 1 } := rfl
  have hbefore : atOne.Before atOne := ⟨Int.le_refl _, fun _ h => h⟩
  refine ⟨_, hrun, pending_loss_iff 1024 {} _ _ atOne 0 rfl rfl ⟨?_, ?_, ?_⟩
    deadlineRun_neverFull hrun⟩
  · simp [deadlineRun, Op.waitingEnv]
  · simp [deadlineRun, Op.waitingEnv, hbefore]
  · simp [deadlineRun, Op.waitingEnv, atOne]

/-- A message without a deadline is sent to an unconnected peer, the first
dial fails, and a connection comes after it: the queue was never full, the
message was accepted, and nothing is handed to the socket. -/
theorem zero_deadline_lost :
    ∃ n' : PeerNode Unit Unit,
      run (step 1024) {} [.sendMessage atOne () 0 none, .dialError atOne] = some n' ∧
      accepted 1024 ({} : PeerNode Unit Unit) [.sendMessage atOne () 0 none, .dialError atOne] =
        [{ message := () }] ∧
      (n'.onEstablish atOne 0).2.handed = [] :=
  ⟨{}, rfl, rfl, rfl⟩

end ClusterGo.Peer
