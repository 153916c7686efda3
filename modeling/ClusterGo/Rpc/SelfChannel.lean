import ClusterGo.Lib.Transition

/-!
# Calls to the own node

A call that a node makes to itself goes through `selfChannel`.  The request
is a task for the worker pool, and so is the response: `Request` and
`Reply` both push with `gopool.Go`, which answers `ErrBusy` when the task
queue is full.  `Request` hands the error to the caller.  The error of
`Reply` reaches only the `Replyer`, which logs it.

The other tasks of the pool share the queue.  A worker takes the oldest
task and runs it to its end, which may take any time.

`TaskQueueSize` is positive.  A send on a buffered channel finds a waiting
worker only when the buffer is empty, so `Go` succeeds if and only if the
queue is not full, and a task that is handed over directly is one that is
queued and taken at once.
-/

namespace ClusterGo.Rpc.SelfChannel

open Transition

/-- A task of the pool: the request or the response of a self call, or any
other function. -/
inductive Task where
  | request (i : Nat)
  | response (i : Nat)
  | other
deriving DecidableEq, Repr

/-- `gopool.Go`: the new queue, or `none` for `ErrBusy`. -/
def go (taskQueueSize : Nat) (taskqueue : List Task) (task : Task) : Option (List Task) :=
  if taskqueue.length < taskQueueSize then some (taskqueue ++ [task]) else none

/-- A self call whose request was queued.

* `started` — `rpcSvr.svr.OnMessage` was called with the request.
* `replied` — the first call of its `Replyer` was made.
* `delivered` — `rpcCli.cli.OnMessage` was called with the response.
* `pending` — the caller still waits. -/
structure Call where
  started : Bool := false
  replied : Bool := false
  delivered : Bool := false
  pending : Bool := true
deriving DecidableEq, Repr

/-- The task queue, what each worker runs, and the self calls. -/
structure State where
  taskqueue : List Task := []
  workers : List (Option Task)
  calls : List Call := []
deriving DecidableEq, Repr

/-- All workers wait for a task. -/
def start (workerPoolSize : Nat) : State := { workers := List.replicate workerPoolSize none }

inductive Event where
  | request
  | push
  | take (w : Nat)
  | finish (w : Nat)
  | reply (i : Nat)
  | giveUp (i : Nat)
deriving DecidableEq, Repr

/-- The call of `OnMessage` with which the task of a self call begins. -/
def State.onMessage (s : State) : Task → State
  | .request i => { s with calls := s.calls.modify i fun c => { c with started := true } }
  | .response i =>
    { s with calls := s.calls.modify i fun c => { c with delivered := true, pending := false } }
  | .other => s

def step (taskQueueSize : Nat) (s : State) : Event → Option State
  -- selfChannel.Request and RequestWithContext.  A refused request is no call.
  | .request =>
    match go taskQueueSize s.taskqueue (.request s.calls.length) with
    | some taskqueue => some { s with taskqueue, calls := s.calls ++ [{}] }
    | none => some s
  | .push =>
    match go taskQueueSize s.taskqueue .other with
    | some taskqueue => some { s with taskqueue }
    | none => some s
  | .take w =>
    match s.taskqueue, s.workers[w]? with
    | task :: taskqueue, some none =>
      some ({ s with taskqueue, workers := s.workers.set w (some task) }.onMessage task)
    | _, _ => none
  | .finish w =>
    match s.workers[w]? with
    | some (some _) => some { s with workers := s.workers.set w none }
    | _ => none
  -- The first call of the Replyer, and selfChannel.Reply.
  | .reply i =>
    match s.calls[i]? with
    | some c =>
      if c.started = true ∧ c.replied = false then
        let s := { s with calls := s.calls.set i { c with replied := true } }
        match go taskQueueSize s.taskqueue (.response i) with
        | some taskqueue => some { s with taskqueue }
        | none => some s
      else none
    | none => none
  -- The timeout or the cancellation of the caller.
  | .giveUp i =>
    match s.calls[i]? with
    | some c =>
      if c.pending = true then some { s with calls := s.calls.set i { c with pending := false } }
      else none
    | none => none

/-- Every self call that was answered and whose caller still waits has its
response in the queue, or it was delivered. -/
def NoneLost (s : State) : Prop :=
  ∀ i c, s.calls[i]? = some c → c.replied = true → c.pending = true →
    .response i ∈ s.taskqueue ∨ c.delivered = true

/-- When a waiting caller is answered, the task queue is not full. -/
def Room (taskQueueSize : Nat) (s : State) : Event → Prop
  | .reply i => ∀ c, s.calls[i]? = some c → c.pending = true →
      s.taskqueue.length < taskQueueSize
  | _ => True

@[simp] theorem taskqueue_onMessage (s : State) (task : Task) :
    (s.onMessage task).taskqueue = s.taskqueue := by
  cases task <;> rfl

/-! ## Steps -/

variable {taskQueueSize : Nat} {s t : State} {e : Event} {i j : Nat} {c : Call} {task : Task}

theorem go_eq_some {queue queue' : List Task} (h : go taskQueueSize queue task = some queue') :
    queue' = queue ++ [task] := by
  obtain ⟨_, h⟩ := Option.ite_none_right_eq_some.mp h
  exact (Option.some_inj.mp h).symm

theorem go_of_room {queue : List Task} (h : queue.length < taskQueueSize) :
    go taskQueueSize queue task = some (queue ++ [task]) := if_pos h

theorem go_of_full {queue : List Task} (h : ¬ queue.length < taskQueueSize) :
    go taskQueueSize queue task = none := if_neg h

/-- What a step can do, as far as calls and their responses go.  `keep` is a
step that touches no call and no response: it may add a call, queue another
task, or change what the workers run. -/
inductive Acts (taskQueueSize : Nat) (s : State) : Event → State → Prop where
  | keep {e : Event} {t : State} (hreply : ∀ i, e ≠ .reply i)
      (hqueue : ∀ i, .response i ∈ t.taskqueue ↔ .response i ∈ s.taskqueue)
      (hold : ∀ (i : Nat) (c : Call), s.calls[i]? = some c → t.calls[i]? = some c)
      (hnew : ∀ (i : Nat) (c : Call), t.calls[i]? = some c → s.calls[i]? = some c ∨ c = {}) :
      Acts taskQueueSize s e t
  | take {w : Nat} {task : Task} {rest : List Task} (hqueue : s.taskqueue = task :: rest) :
      Acts taskQueueSize s (.take w)
        ({ s with taskqueue := rest, workers := s.workers.set w (some task) }.onMessage task)
  | reply {i : Nat} {c : Call} (hc : s.calls[i]? = some c)
      (hroom : s.taskqueue.length < taskQueueSize) :
      Acts taskQueueSize s (.reply i)
        { s with taskqueue := s.taskqueue ++ [.response i]
                 calls := s.calls.set i { c with replied := true } }
  | busy {i : Nat} {c : Call} (hc : s.calls[i]? = some c) (hreplied : c.replied = false)
      (hfull : ¬ s.taskqueue.length < taskQueueSize) :
      Acts taskQueueSize s (.reply i) { s with calls := s.calls.set i { c with replied := true } }
  | giveUp {i : Nat} {c : Call} (hc : s.calls[i]? = some c) :
      Acts taskQueueSize s (.giveUp i) { s with calls := s.calls.set i { c with pending := false } }

theorem Acts.unchanged {workers : List (Option Task)} (hreply : ∀ i, e ≠ .reply i) :
    Acts taskQueueSize s e { s with workers } :=
  .keep hreply (fun _ => Iff.rfl) (fun _ _ hc => hc) fun _ _ hc => .inl hc

/-- A queued task that is no response. -/
theorem mem_of_go {queue queue' : List Task} (h : go taskQueueSize queue task = some queue')
    (htask : ∀ i, task ≠ .response i) (i : Nat) :
    .response i ∈ queue' ↔ .response i ∈ queue := by
  rw [go_eq_some h, List.mem_append, List.mem_singleton]
  refine or_iff_left ?_
  intro heq
  exact htask i heq.symm

theorem acts_of_step (h : step taskQueueSize s e = some t) : Acts taskQueueSize s e t := by
  cases e with
  | request =>
    simp only [step] at h
    split at h
    · rename_i queue hgo
      cases h
      refine .keep (by simp) (mem_of_go hgo (by simp)) ?_ ?_
      · intro i c hc
        exact (List.getElem?_append_left (List.getElem?_eq_some_iff.mp hc).1).trans hc
      · intro i c hc
        by_cases hi : i < s.calls.length
        · rw [List.getElem?_append_left hi] at hc
          exact .inl hc
        · rw [List.getElem?_append_right (Nat.not_lt.mp hi), List.getElem?_singleton] at hc
          obtain ⟨_, hc⟩ := Option.ite_none_right_eq_some.mp hc
          exact .inr (Option.some_inj.mp hc).symm
    · cases h
      exact .unchanged (by simp)
  | push =>
    simp only [step] at h
    split at h
    · rename_i queue hgo
      cases h
      exact .keep (by simp) (mem_of_go hgo (by simp)) (fun _ _ hc => hc) fun _ _ hc => .inl hc
    · cases h
      exact .unchanged (by simp)
  | take w =>
    simp only [step] at h
    split at h
    · rename_i task rest hqueue hw
      cases h
      exact .take hqueue
    · cases h
  | finish w =>
    simp only [step] at h
    split at h
    · cases h
      exact .unchanged (by simp)
    · cases h
  | reply i =>
    simp only [step] at h
    split at h
    · rename_i c hc
      obtain ⟨⟨_, hreplied⟩, h⟩ := Option.ite_none_right_eq_some.mp h
      by_cases hroom : s.taskqueue.length < taskQueueSize
      · rw [go_of_room hroom] at h
        cases h
        exact .reply hc hroom
      · rw [go_of_full hroom] at h
        cases h
        exact .busy hc hreplied hroom
    · cases h
  | giveUp i =>
    simp only [step] at h
    split at h
    · rename_i c hc
      obtain ⟨_, h⟩ := Option.ite_none_right_eq_some.mp h
      cases h
      exact .giveUp hc
    · cases h

/-- The call in place `i` after the call in place `j` was changed. -/
theorem call_of_set {calls : List Call} {c' : Call} (h : (calls.set j c)[i]? = some c') :
    (i = j ∧ c' = c) ∨ (i ≠ j ∧ calls[i]? = some c') := by
  rw [List.getElem?_set] at h
  by_cases hij : j = i
  · rw [if_pos hij] at h
    obtain ⟨_, h⟩ := Option.ite_none_right_eq_some.mp h
    exact .inl ⟨hij.symm, (Option.some_inj.mp h).symm⟩
  · rw [if_neg hij] at h
    exact .inr ⟨fun h' => hij h'.symm, h⟩

/-- A call after a task has begun.  Only the task that is its response
changes more than that it has started. -/
theorem call_of_onMessage (hc : (s.onMessage task).calls[i]? = some c) :
    ∃ c₀, s.calls[i]? = some c₀ ∧ c.replied = c₀.replied ∧
      ((task = .response i ∧ c.pending = false) ∨
        (task ≠ .response i ∧ c.pending = c₀.pending ∧ c.delivered = c₀.delivered)) := by
  cases task with
  | other => exact ⟨c, hc, rfl, .inr ⟨Task.noConfusion, rfl, rfl⟩⟩
  | request j =>
    obtain ⟨c₀, hc₀, rfl⟩ := Option.map_eq_some_iff.mp ((List.getElem?_modify ..).symm.trans hc)
    refine ⟨c₀, hc₀, ?_⟩
    by_cases hij : j = i
    · rw [if_pos hij]
      exact ⟨rfl, .inr ⟨Task.noConfusion, rfl, rfl⟩⟩
    · rw [if_neg hij]
      exact ⟨rfl, .inr ⟨Task.noConfusion, rfl, rfl⟩⟩
  | response j =>
    obtain ⟨c₀, hc₀, rfl⟩ := Option.map_eq_some_iff.mp ((List.getElem?_modify ..).symm.trans hc)
    refine ⟨c₀, hc₀, ?_⟩
    by_cases hij : j = i
    · rw [if_pos hij]
      exact ⟨rfl, .inl ⟨congrArg _ hij, rfl⟩⟩
    · rw [if_neg hij]
      exact ⟨rfl, .inr ⟨fun h => hij (Task.response.inj h), rfl, rfl⟩⟩

theorem replied_onMessage (hc : s.calls[i]? = some c) :
    ∃ c', (s.onMessage task).calls[i]? = some c' ∧ c'.replied = c.replied := by
  cases task with
  | other => exact ⟨c, hc, rfl⟩
  | request j =>
    refine ⟨_, (List.getElem?_modify ..).trans (congrArg (Functor.map _) hc), ?_⟩
    split <;> rfl
  | response j =>
    refine ⟨_, (List.getElem?_modify ..).trans (congrArg (Functor.map _) hc), ?_⟩
    split <;> rfl

/-! ## With room for every response -/

theorem noneLost_of_acts (hacts : Acts taskQueueSize s e t) (hroom : Room taskQueueSize s e)
    (h : NoneLost s) : NoneLost t := by
  intro i c hc hreplied hpending
  cases hacts with
  | keep _ hqueue _ hnew =>
    rcases hnew i c hc with hc | rfl
    · rw [hqueue]
      exact h i c hc hreplied hpending
    · cases hreplied
  | @take w task rest hqueue =>
    obtain ⟨c₀, hc₀, hreplied₀, ⟨_, hdone⟩ | ⟨htask, hpending₀, hdelivered₀⟩⟩ :=
      call_of_onMessage hc
    · rw [hdone] at hpending
      cases hpending
    · rw [hdelivered₀, taskqueue_onMessage]
      rcases h i c₀ hc₀ (hreplied₀ ▸ hreplied) (hpending₀ ▸ hpending) with hmem | hdelivered
      · rw [hqueue, List.mem_cons] at hmem
        exact .inl (hmem.resolve_left fun heq => htask heq.symm)
      · exact .inr hdelivered
  | reply hj _ =>
    rcases call_of_set hc with ⟨rfl, _⟩ | ⟨_, hc⟩
    · exact .inl (List.mem_append_right _ (List.mem_singleton_self _))
    · rcases h i c hc hreplied hpending with hmem | hdelivered
      · exact .inl (List.mem_append_left _ hmem)
      · exact .inr hdelivered
  | busy hj _ hfull =>
    rcases call_of_set hc with ⟨rfl, rfl⟩ | ⟨_, hc⟩
    · exact absurd (hroom _ hj hpending) hfull
    · exact h i c hc hreplied hpending
  | giveUp hj =>
    rcases call_of_set hc with ⟨_, rfl⟩ | ⟨_, hc⟩
    · cases hpending
    · exact h i c hc hreplied hpending

/-! ## Without -/

/-- Responses belong to calls that were answered. -/
structure Traced (s : State) : Prop where
  queued : ∀ i : Nat, .response i ∈ s.taskqueue → ∃ c, s.calls[i]? = some c ∧ c.replied = true
  delivered : ∀ (i : Nat) (c : Call), s.calls[i]? = some c → c.delivered = true → c.replied = true

/-- An answer to a call keeps the calls that were answered. -/
theorem replied_of_set {calls : List Call} {c' : Call} (hj : calls[j]? = some c)
    (hreplied : c.replied = true → c'.replied = true)
    (h : ∃ c, calls[i]? = some c ∧ c.replied = true) :
    ∃ c, (calls.set j c')[i]? = some c ∧ c.replied = true := by
  obtain ⟨c₀, hc₀, hreplied₀⟩ := h
  by_cases hij : j = i
  · rw [← hij] at hc₀ ⊢
    cases hj.symm.trans hc₀
    have hlt := (List.getElem?_eq_some_iff.mp hj).1
    exact ⟨c', List.getElem?_set_self hlt, hreplied hreplied₀⟩
  · exact ⟨c₀, (List.getElem?_set_ne hij).trans hc₀, hreplied₀⟩

theorem traced_of_acts (hacts : Acts taskQueueSize s e t) (h : Traced s) : Traced t := by
  cases hacts with
  | keep _ hqueue hold hnew =>
    refine ⟨?_, ?_⟩
    · intro i hmem
      obtain ⟨c, hc, hreplied⟩ := h.queued i ((hqueue i).mp hmem)
      exact ⟨c, hold i c hc, hreplied⟩
    · intro i c hc hdelivered
      rcases hnew i c hc with hc | rfl
      · exact h.delivered i c hc hdelivered
      · cases hdelivered
  | @take w task rest hqueue =>
    refine ⟨?_, ?_⟩
    · intro i hmem
      rw [taskqueue_onMessage] at hmem
      obtain ⟨c, hc, hreplied⟩ := h.queued i (hqueue ▸ List.mem_cons_of_mem _ hmem)
      obtain ⟨c', hc', heq⟩ := replied_onMessage (s := { s with
        taskqueue := rest, workers := s.workers.set w (some task) }) hc
      exact ⟨c', hc', heq.trans hreplied⟩
    · intro i c hc hdelivered
      obtain ⟨c₀, hc₀, hreplied, ⟨rfl, _⟩ | ⟨_, _, hsame⟩⟩ := call_of_onMessage hc
      · obtain ⟨c₁, hc₁, hreplied₁⟩ := h.queued i (hqueue ▸ List.mem_cons_self)
        cases hc₁.symm.trans hc₀
        exact hreplied.trans hreplied₁
      · exact hreplied.trans (h.delivered i c₀ hc₀ (hsame ▸ hdelivered))
  | @reply j c hj _ =>
    refine ⟨?_, ?_⟩
    · intro i hmem
      rcases List.mem_append.mp hmem with hold | hone
      · exact replied_of_set hj (fun _ => rfl) (h.queued i hold)
      · cases List.mem_singleton.mp hone
        exact ⟨_, List.getElem?_set_self (List.getElem?_eq_some_iff.mp hj).1, rfl⟩
    · intro i c' hc' hdelivered
      rcases call_of_set hc' with ⟨_, rfl⟩ | ⟨_, hc'⟩
      · rfl
      · exact h.delivered i c' hc' hdelivered
  | @busy j c hj _ _ =>
    refine ⟨fun i hmem => replied_of_set hj (fun _ => rfl) (h.queued i hmem), ?_⟩
    intro i c' hc' hdelivered
    rcases call_of_set hc' with ⟨_, rfl⟩ | ⟨_, hc'⟩
    · rfl
    · exact h.delivered i c' hc' hdelivered
  | @giveUp j c hj =>
    refine ⟨fun i hmem => replied_of_set hj id (h.queued i hmem), ?_⟩
    intro i c' hc' hdelivered
    rcases call_of_set hc' with ⟨_, rfl⟩ | ⟨_, hc'⟩
    · exact h.delivered j c hj hdelivered
    · exact h.delivered i c' hc' hdelivered

/-- An answer that finds the queue full leaves its caller without a
response. -/
theorem room_of_noneLost (hacts : Acts taskQueueSize s e t) (htraced : Traced s)
    (h : NoneLost t) : Room taskQueueSize s e := by
  cases e with
  | reply i =>
    intro c hc hpending
    cases hacts with
    | keep hreply _ _ _ => exact absurd rfl (hreply i)
    | reply _ hroom => exact hroom
    | @busy _ c₁ hc₁ hreplied _ =>
      cases hc₁.symm.trans hc
      have hcall : (s.calls.set i { c with replied := true })[i]? =
          some { c with replied := true } :=
        List.getElem?_set_self (List.getElem?_eq_some_iff.mp hc).1
      have hnot : ¬ c.replied = true := by
        rw [hreplied]
        exact Bool.false_ne_true
      rcases h i _ hcall rfl hpending with hmem | hdelivered
      · obtain ⟨c₂, hc₂, hreplied₂⟩ := htraced.queued i hmem
        cases hc₂.symm.trans hc
        exact absurd hreplied₂ hnot
      · exact absurd (htraced.delivered i c hc hdelivered) hnot
  | request => trivial
  | push => trivial
  | take w => trivial
  | finish w => trivial
  | giveUp i => trivial

/-! ## Whole runs -/

theorem noneLost_start (workerPoolSize : Nat) : NoneLost (start workerPoolSize) := by
  intro i c hc
  cases hc

theorem traced_start (workerPoolSize : Nat) : Traced (start workerPoolSize) := by
  refine ⟨?_, ?_⟩
  · intro i hmem
    cases hmem
  · intro i c hc
    cases hc

/-- In every state of a run of self calls, other tasks and workers, each
self call that was answered and whose caller still waits has its response
queued or delivered, if and only if each answer to a waiting caller found
room in the task queue. -/
theorem self_replies_kept_iff (taskQueueSize workerPoolSize : Nat) (es : List Event)
    (s : State) (hrun : run (step taskQueueSize) (start workerPoolSize) es = some s) :
    Along (step taskQueueSize) (fun s _ => NoneLost s) (start workerPoolSize) es ∧ NoneLost s ↔
      Along (step taskQueueSize) (Room taskQueueSize) (start workerPoolSize) es := by
  constructor
  · intro h
    refine Along.of_states (traced_start workerPoolSize) ?_ ?_ h.1 hrun h.2
    · intro s e t htraced hstep
      exact traced_of_acts (acts_of_step hstep) htraced
    · intro s e t htraced hstep hnone
      exact room_of_noneLost (acts_of_step hstep) htraced hnone
  · intro halong
    refine Along.states (noneLost_start workerPoolSize) ?_ halong hrun
    intro s e t hnone hroom hstep
    exact noneLost_of_acts (acts_of_step hstep) hroom hnone

/-- A self call is taken by a worker and answered, and its response is
queued. -/
theorem self_replies_kept_single :
    ∃ s, run (step 32) (start 16) [.request, .take 0, .reply 0] = some s ∧
      s.taskqueue = [.response 0] ∧ NoneLost s := by
  have hrun : run (step 32) (start 16) [.request, .take 0, .reply 0] =
      some { taskqueue := [.response 0]
             workers := some (.request 0) :: List.replicate 15 none
             calls := [{ started := true, replied := true }] } := rfl
  refine ⟨_, hrun, rfl, ((self_replies_kept_iff 32 16 _ _ hrun).mpr ?_).2⟩
  refine ⟨trivial, fun t ht => ⟨trivial, fun u hu => ⟨?_, fun _ _ => trivial⟩⟩⟩
  cases ht
  cases hu
  intro c hc hpending
  decide

/-- A worker takes a self call, 32 other tasks fill the queue, and the
handler replies. -/
def busyRun : List Event := [.request, .take 0] ++ List.replicate 32 .push ++ [.reply 0]

/-- The call was answered, its caller waits, and its response is neither
queued nor delivered. -/
theorem self_reply_lost :
    ∃ s, run (step 32) (start 16) busyRun = some s ∧ ¬ NoneLost s := by
  refine ⟨{ taskqueue := List.replicate 32 .other
            workers := some (.request 0) :: List.replicate 15 none
            calls := [{ started := true, replied := true }] }, by decide +kernel, ?_⟩
  intro h
  have hlost := h 0 { started := true, replied := true } rfl rfl rfl
  revert hlost
  decide

end ClusterGo.Rpc.SelfChannel
