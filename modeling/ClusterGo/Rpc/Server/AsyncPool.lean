import ClusterGo.Lib.Transition
import ClusterGo.Lib.WorkQueue
import ClusterGo.Rpc.Server.Replyer

/-!
# Methods on a pool of workers

`AsyncPool` of `rpc/wrapper.go`.  A method that is wrapped with a pool does
not run on the goroutine that receives the request.  The request goes into
the queue of the pool and a worker runs the method, or the queue is full and
the request is answered with `ErrBusy` at once.  Several methods share one
pool, so the requests here are those of all of them.

The requests are numbered in the order in which they reach a wrapped method.
Each of them is in one place, and the accepted ones are begun in their order
(`async_pool_accounts`).  A refused request gets the busy error and nothing
else, and one that waits in the queue has no answer.

A method may call its `Replyer` any number of times from its beginning on,
and goroutines that it started may do so after its end.  What is sent is left
to the `Replyer`.  A request may come with a `Replyer` that an interceptor has
used.  A method that panics takes the process with it, since no worker
recovers, and that is not a run here.
-/

namespace ClusterGo.Rpc.Server

open Transition

/-- `AsyncPool`: the number of its goroutines and the capacity of the
channel. -/
structure AsyncPool where
  workers : Nat
  queue : Nat
  workers_pos : 0 < workers
  queue_pos : 0 < queue

/-- `NewAsyncPool`.  Without a pool, `Wrap` leaves a method as it is. -/
def newAsyncPool (workers queue : Int) : Option AsyncPool :=
  if h : 0 < workers.toNat ∧ 0 < queue.toNat then
    some { workers := workers.toNat, queue := queue.toNat, workers_pos := h.1, queue_pos := h.2 }
  else none

/-- Every pool is one that `NewAsyncPool` makes. -/
theorem newAsyncPool_self (p : AsyncPool) : newAsyncPool p.workers p.queue = some p := by
  simp [newAsyncPool, p.workers_pos, p.queue_pos]

namespace AsyncPool

variable {V : Type}

/-- The tasks are the numbers of their requests.  The requests are kept with
the `Replyer`s that they came with, and `calls` are the calls on them. -/
structure State (V : Type) where
  tasks : WorkQueue Nat := {}
  requests : List (Replyer V) := []
  refused : List Nat := []
  calls : List (Nat × Call V) := []

/-- A request reaches a wrapped method, a worker takes a task, a method or what
it started calls its `Replyer`, and a method returns. -/
inductive Event (V : Type) where
  | request (r : Replyer V)
  | take (w : Nat)
  | call (i : Nat) (c : Call V)
  | finish (w : Nat)

/-- `r.Error(NewError(ErrBusy, "busy"))`. -/
def busyError : Call V := .error (.rpc (newError errBusy (text "busy")))

def step (p : AsyncPool) (s : State V) : Event V → Option (State V)
  | .request r =>
    let i := s.requests.length
    let s := { s with requests := s.requests ++ [r] }
    match s.tasks.submit p.queue i with
    | some tasks => some { s with tasks }
    | none => some { s with refused := s.refused ++ [i], calls := s.calls ++ [(i, busyError)] }
  | .take w =>
    if w < p.workers then (s.tasks.take w).map fun tasks => { s with tasks } else none
  | .call i c =>
    if i ∈ s.tasks.begun then some { s with calls := s.calls ++ [(i, c)] } else none
  | .finish w =>
    if w < p.workers then (s.tasks.finish w).map fun tasks => { s with tasks } else none

/-- The calls on the `Replyer` of a request, in their order. -/
def State.callsTo (s : State V) (i : Nat) : List (Call V) :=
  s.calls.filterMap fun x => if x.1 = i then some x.2 else none

/-- What was sent for a request. -/
def State.answersTo (s : State V) (i : Nat) : List (ResponseMsg V) :=
  match s.requests[i]? with
  | some r => (r.calls (s.callsTo i)).filterMap Outcome.response
  | none => []

/-! ## The invariant -/

variable {p : AsyncPool} {s t : State V} {e : Event V} {i : Nat}

structure Inv (p : AsyncPool) (s : State V) : Prop where
  tasks : s.tasks.Sound p.workers p.queue
  places : List.Perm (List.range s.requests.length) (s.tasks.accepted ++ s.refused)
  order : s.tasks.accepted.Pairwise (· < ·)
  called : ∀ x ∈ s.calls, x.1 ∈ s.refused ∨ x.1 ∈ s.tasks.begun
  refused : ∀ i ∈ s.refused, s.callsTo i = [busyError]

theorem callsTo_append (s : State V) (j : Nat) (c : Call V) (i : Nat) :
    ({ s with calls := s.calls ++ [(j, c)] } : State V).callsTo i =
      s.callsTo i ++ if j = i then [c] else [] := by
  show (s.calls ++ [(j, c)]).filterMap _ = _
  rw [List.filterMap_append]
  by_cases h : j = i
  · simp [h, State.callsTo]
  · simp [h, State.callsTo]

/-- A request whose `Replyer` nobody called. -/
theorem callsTo_eq_nil (h : ∀ x ∈ s.calls, x.1 ≠ i) : s.callsTo i = [] := by
  rw [State.callsTo, List.filterMap_eq_nil_iff]
  intro x hx
  rw [if_neg (h x hx)]

/-- The numbers are those of requests, and none is in two places. -/
theorem Inv.lt_length (h : Inv p s) (hi : i ∈ s.tasks.accepted ++ s.refused) :
    i < s.requests.length :=
  List.mem_range.mp (h.places.mem_iff.mpr hi)

theorem Inv.nodup (h : Inv p s) : (s.tasks.accepted ++ s.refused).Nodup :=
  h.places.nodup_iff.mp List.nodup_range

theorem Inv.begun_accepted (h : Inv p s) (hi : i ∈ s.tasks.begun) : i ∈ s.tasks.accepted := by
  rw [h.tasks.order]
  exact List.mem_append_left _ hi

theorem Inv.called_lt (h : Inv p s) {x : Nat × Call V} (hx : x ∈ s.calls) :
    x.1 < s.requests.length := by
  rcases h.called x hx with hrefused | hbegun
  · exact h.lt_length (List.mem_append_right _ hrefused)
  · exact h.lt_length (List.mem_append_left _ (h.begun_accepted hbegun))

/-- Nobody calls the `Replyer` of a request that waits. -/
theorem Inv.callsTo_queue (h : Inv p s) (hi : i ∈ s.tasks.queue) : s.callsTo i = [] := by
  have haccepted : i ∈ s.tasks.accepted := by
    rw [h.tasks.order]
    exact List.mem_append_right _ hi
  have hnodup : (s.tasks.begun ++ s.tasks.queue).Nodup := by
    rw [← h.tasks.order]
    exact (List.nodup_append.mp h.nodup).1
  refine callsTo_eq_nil ?_
  intro x hx heq
  rcases h.called x hx with hrefused | hbegun
  · exact List.disjoint_of_nodup_append h.nodup haccepted (heq ▸ hrefused)
  · exact List.disjoint_of_nodup_append hnodup (heq ▸ hbegun) hi

theorem inv_start : Inv p ({} : State V) where
  tasks := WorkQueue.Sound.empty
  places := List.Perm.refl _
  order := List.Pairwise.nil
  called _ hx := absurd hx List.not_mem_nil
  refused _ hi := absurd hi List.not_mem_nil

/-- The new number is larger than all others. -/
theorem Inv.order_append (h : Inv p s) :
    (s.tasks.accepted ++ [s.requests.length]).Pairwise (· < ·) := by
  rw [List.pairwise_append]
  refine ⟨h.order, List.pairwise_singleton .., ?_⟩
  intro i hi j hj
  rw [List.mem_singleton.mp hj]
  exact h.lt_length (List.mem_append_left _ hi)

theorem Inv.submitted (h : Inv p s) {r : Replyer V} {tasks : WorkQueue Nat}
    (hsubmit : s.tasks.submit p.queue s.requests.length = some tasks) :
    Inv p { s with requests := s.requests ++ [r], tasks } := by
  have hsound := h.tasks.submit hsubmit
  obtain ⟨_, rfl⟩ := WorkQueue.submit_eq_some.mp hsubmit
  refine ⟨hsound, ?_, h.order_append, h.called, h.refused⟩
  show List.Perm (List.range (s.requests ++ [r]).length)
    (s.tasks.accepted ++ [s.requests.length] ++ s.refused)
  rw [List.length_append, List.length_singleton, List.range_succ]
  calc
    List.Perm (List.range s.requests.length ++ [s.requests.length])
        (s.tasks.accepted ++ s.refused ++ [s.requests.length]) := h.places.append_right _
    _ = s.tasks.accepted ++ (s.refused ++ [s.requests.length]) := List.append_assoc ..
    List.Perm _ (s.tasks.accepted ++ ([s.requests.length] ++ s.refused)) :=
      List.perm_append_comm.append_left _
    _ = s.tasks.accepted ++ [s.requests.length] ++ s.refused := (List.append_assoc ..).symm

theorem Inv.refuse (h : Inv p s) (r : Replyer V) :
    Inv p { s with
      requests := s.requests ++ [r]
      refused := s.refused ++ [s.requests.length]
      calls := s.calls ++ [(s.requests.length, busyError)] } := by
  refine ⟨h.tasks, ?_, h.order, ?_, ?_⟩
  · show List.Perm (List.range (s.requests ++ [r]).length)
      (s.tasks.accepted ++ (s.refused ++ [s.requests.length]))
    rw [List.length_append, List.length_singleton, List.range_succ, ← List.append_assoc]
    exact h.places.append_right _
  · intro x hx
    rcases List.mem_append.mp hx with hold | hnew
    · exact (h.called x hold).imp_left (List.mem_append_left _)
    · rw [List.mem_singleton.mp hnew]
      exact Or.inl (List.mem_append_right _ (List.mem_singleton.mpr rfl))
  · intro i hi
    refine (callsTo_append s _ _ i).trans ?_
    rcases List.mem_append.mp hi with hold | hnew
    · have hlt := h.lt_length (List.mem_append_right _ hold)
      rw [if_neg (by omega), List.append_nil]
      exact h.refused i hold
    · obtain rfl := List.mem_singleton.mp hnew
      have hnone : s.callsTo s.requests.length = [] := by
        refine callsTo_eq_nil ?_
        intro x hx heq
        have := h.called_lt hx
        omega
      rw [hnone, if_pos rfl, List.nil_append]

/-- A call on the `Replyer` of a request that was begun is no call on one that
was refused. -/
theorem Inv.call (h : Inv p s) (hi : i ∈ s.tasks.begun) (c : Call V) :
    Inv p { s with calls := s.calls ++ [(i, c)] } := by
  refine ⟨h.tasks, h.places, h.order, ?_, ?_⟩
  · intro x hx
    rcases List.mem_append.mp hx with hold | hnew
    · exact h.called x hold
    · rw [List.mem_singleton.mp hnew]
      exact Or.inr hi
  · intro j hj
    have hne : i ≠ j := by
      intro heq
      exact List.disjoint_of_nodup_append h.nodup (h.begun_accepted hi) (heq ▸ hj)
    refine (callsTo_append s i c j).trans ?_
    rw [if_neg hne, List.append_nil]
    exact h.refused j hj

theorem inv_of_step (h : Inv p s) (hstep : step p s e = some t) : Inv p t := by
  cases e with
  | request r =>
    simp only [step] at hstep
    split at hstep
    · rename_i tasks hsubmit
      cases hstep
      exact h.submitted hsubmit
    · cases hstep
      exact h.refuse r
  | take w =>
    simp only [step] at hstep
    split_ifs at hstep with hw
    obtain ⟨tasks, htake, rfl⟩ := Option.map_eq_some_iff.mp hstep
    have hsound := h.tasks.take hw htake
    obtain ⟨i, rest, _, _, rfl⟩ := WorkQueue.take_eq_some.mp htake
    refine ⟨hsound, h.places, h.order, ?_, h.refused⟩
    intro x hx
    exact (h.called x hx).imp_right (List.mem_append_left _)
  | call i c =>
    simp only [step] at hstep
    split_ifs at hstep with hbegun
    cases hstep
    exact h.call hbegun c
  | finish w =>
    simp only [step] at hstep
    split_ifs at hstep with hw
    obtain ⟨tasks, hfinish, rfl⟩ := Option.map_eq_some_iff.mp hstep
    have hsound := h.tasks.finish hw hfinish
    obtain ⟨i, _, rfl⟩ := WorkQueue.finish_eq_some.mp hfinish
    exact ⟨hsound, h.places, h.order, h.called, h.refused⟩

theorem inv_of_reach (hs : Reachable (step p) {} s) : Inv p s :=
  hs.invariant inv_start fun _ _ _ _ h _ hstep => inv_of_step h hstep

/-! ## Where the requests are -/

/-- No worker can go on. -/
def Rests (p : AsyncPool) (s : State V) : Prop :=
  ∀ w, step p s (.take w) = none ∧ step p s (.finish w) = none

theorem Rests.idle (h : Rests p s) : s.tasks.queue = [] ∧ s.tasks.running p.workers = [] := by
  refine WorkQueue.idle_of_stuck (fun _ => True) p.workers_pos trivial (fun _ _ _ => trivial) ?_
  intro w hw _
  obtain ⟨htake, hfinish⟩ := h w
  simp only [step, if_pos hw, Option.map_eq_none_iff] at htake hfinish
  exact ⟨htake, hfinish⟩

/-- Every request waits, runs, is finished or was refused, and is in one of
these places only.  The accepted ones are begun in their order.  A refused one
got what its `Replyer` makes of the busy error and nothing else, and one that
waits got nothing.  When no worker can go on, every request is finished or was
refused. -/
theorem async_pool_accounts (hs : Reachable (step p) {} s) :
    List.Perm (List.range s.requests.length) (s.tasks.queue ++ s.tasks.running p.workers ++
        s.tasks.finished ++ s.refused) ∧
      (s.tasks.begun ++ s.tasks.queue).Pairwise (· < ·) ∧
      s.tasks.queue.length ≤ p.queue ∧ (s.tasks.running p.workers).length ≤ p.workers ∧
      (∀ i r, i ∈ s.refused → s.requests[i]? = some r →
        s.answersTo i = (r.call busyError).2.response.toList) ∧
      (∀ i, i ∈ s.tasks.queue → s.answersTo i = []) ∧
      (Rests p s →
        List.Perm (List.range s.requests.length) (s.tasks.finished ++ s.refused)) := by
  have hinv := inv_of_reach hs
  have hplaces := hinv.places.trans (hinv.tasks.accepted_perm.append_right s.refused)
  refine ⟨hplaces, ?_, hinv.tasks.room, WorkQueue.length_running_le .., ?_, ?_, ?_⟩
  · rw [← hinv.tasks.order]
    exact hinv.order
  · intro i r hi hr
    rw [State.answersTo, hr, hinv.refused i hi]
    cases hresponse : (r.call busyError).2.response <;> simp [Replyer.calls, hresponse]
  · intro i hi
    rw [State.answersTo, hinv.callsTo_queue hi]
    split <;> rfl
  · intro hrests
    obtain ⟨hqueue, hrunning⟩ := hrests.idle
    rw [hqueue, hrunning] at hplaces
    exact hplaces

/-- One worker and room for one request. -/
def small : AsyncPool where
  workers := 1
  queue := 1
  workers_pos := by decide
  queue_pos := by decide

/-- The first request runs, the second waits and the third is refused.  The
first one replies, and calls its `Replyer` once more after its end. -/
def crowded : List (Event Unit) :=
  [.request { req := { seq := 1 } }, .take 0, .request { req := { seq := 2 } },
    .request { req := { seq := 3 } }, .call 0 (.reply .nil), .finish 0, .call 0 busyError]

theorem async_pool_accounts_crowded :
    (run (step small) {} crowded).map (fun s => (s.tasks.finished, s.tasks.queue, s.refused)) =
      some ([0], [1], [2]) ∧
    (run (step small) {} crowded).map (fun s => (List.range 3).map fun i =>
      (s.answersTo i).map (·.err.isSome)) = some [[false], [], [true]] ∧
    ∀ s, run (step small) {} crowded = some s →
      (s.tasks.begun ++ s.tasks.queue).Pairwise (· < ·) := by
  refine ⟨by decide +kernel, by decide +kernel, ?_⟩
  intro s hs
  exact (async_pool_accounts (Reach.of_run hs)).2.1

end AsyncPool

end ClusterGo.Rpc.Server
