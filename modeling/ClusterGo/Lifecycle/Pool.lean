import ClusterGo.Lifecycle.Teardown

/-!
# The workers of a node

`gopool` of `cluster.go`: `Go` puts a task into a bounded queue or returns
`ErrBusy`, and the workers of `Start` take the tasks out of it until `die` is
closed.  Messages of a node to itself are such tasks.

The tasks are a `WorkQueue`, so the order, the bounds and the accounting come
from its invariant.  What belongs to the node is who works: nobody before
`Start` is through, and nobody after the last worker has seen `die`.  `Go`
looks at neither, so a task that is accepted then is never begun
(`gopool_tasks`).
-/

namespace ClusterGo.Lifecycle

open Transition

variable {τ : Type} {cfg : Config} {s t : State τ} {e : Event τ}

structure PoolInv (cfg : Config) (s : State τ) : Prop where
  sound : s.tasks.Sound cfg.workerPoolSize cfg.taskQueueSize
  counted : s.tasks.accepted.length = s.results.count (.go none)
  /-- A worker that is gone has left no task behind, and none is busy before
  the workers are there. -/
  busy : ∀ w, w < cfg.workerPoolSize → s.tasks.busy w ≠ none → s.works cfg w = true

theorem PoolInv.returns (h : PoolInv cfg s) {r : Result} (hr : r ≠ .go none) :
    PoolInv cfg (s.returns r) := by
  refine ⟨h.sound, ?_, h.busy⟩
  show _ = (r :: s.results).count _
  rw [List.count_cons_of_ne hr]
  exact h.counted

/-- `Start` goes on, and the workers that are there stay. -/
theorem PoolInv.move (h : PoolInv cfg s) (hold : s.start ≠ .done)
    (hpc : t.start = .done ∨ s.start ≠ .serving) (htasks : t.tasks = s.tasks)
    (hquit : t.quit = s.quit) (hresults : t.results = s.results) : PoolInv cfg t := by
  refine ⟨?_, ?_, ?_⟩
  · rw [htasks]
    exact h.sound
  · rw [htasks, hresults]
    exact h.counted
  · intro w hw hbusy
    rw [htasks] at hbusy
    obtain ⟨hstart, _, hthere⟩ := works_iff.mp (h.busy w hw hbusy)
    rw [works_iff, hquit]
    rcases hpc with hdone | hserving
    · exact ⟨Or.inr hdone, hw, hthere⟩
    · simp [hold, hserving] at hstart

theorem PoolInv.worked (h : PoolInv cfg s) {m : WorkQueue.Move} {tasks : WorkQueue τ}
    (hworks : s.works cfg m.worker = true) (hmove : s.tasks.move m = some tasks) :
    PoolInv cfg { s with tasks } := by
  obtain ⟨haccepted, hothers⟩ := WorkQueue.move_frame hmove
  refine ⟨h.sound.move (works_iff.mp hworks).2.1 hmove, ?_, ?_⟩
  · show tasks.accepted.length = _
    rw [haccepted]
    exact h.counted
  · intro w hw hbusy
    by_cases hwm : w = m.worker
    · rw [hwm]
      exact hworks
    · exact h.busy w hw (hothers w hwm ▸ hbusy)

theorem PoolInv.acts (h : PoolInv cfg s) (hacts : Acts cfg s e t) : PoolInv cfg t := by
  cases hacts with
  | startFirst _ hpc | subscribed hpc | known hpc | listens hpc =>
    exact h.move (by simp [hpc]) (Or.inr (by simp [hpc])) rfl rfl rfl
  | notSubscribed hpc | unknown hpc | notListens hpc =>
    exact (h.move (t := { s with start := .failed }) (by simp [hpc]) (Or.inr (by simp [hpc])) rfl
      rfl rfl).returns (by simp)
  | announced hpc =>
    exact (h.move (t := { s with
      panicked := s.panicked || s.started, started := true, start := .done }) (by simp [hpc])
      (Or.inl rfl) rfl rfl rfl).returns (by simp)
  | startAgain | stopEarly | stopAgain | waitEarly | waited | refuses => exact h.returns (by simp)
  | stopFirst =>
    exact PoolInv.returns (s := { s with stop := .subscription })
      ⟨h.sound, h.counted, h.busy⟩ (by simp)
  | stops hstep =>
    obtain ⟨hstart, _, _, htasks, hquit, hresults⟩ := stopStep_frame hstep
    refine ⟨?_, ?_, ?_⟩
    · rw [htasks]
      exact h.sound
    · rw [htasks, hresults]
      exact h.counted
    · intro w hw hbusy
      rw [htasks] at hbusy
      have hworks := h.busy w hw hbusy
      rw [works_iff] at hworks ⊢
      rw [hstart, hquit]
      exact hworks
  | accepts hsubmit =>
    have hsound := h.sound.submit hsubmit
    obtain ⟨_, rfl⟩ := WorkQueue.submit_eq_some.mp hsubmit
    refine ⟨hsound, ?_, h.busy⟩
    show (s.tasks.accepted ++ [_]).length = (Result.go none :: s.results).count _
    rw [List.length_append, List.count_cons_self, h.counted, List.length_singleton]
  | @takes w _ hworks htake => exact h.worked (m := .take w) hworks htake
  | @finishes w _ hworks hfinish => exact h.worked (m := .finish w) hworks hfinish
  | @quits w hworks hdie hidle =>
    refine ⟨h.sound, h.counted, ?_⟩
    intro v hv hbusy
    have hne : v ≠ w := by
      intro heq
      rw [heq] at hbusy
      exact hbusy hidle
    have hthere := works_iff.mp (h.busy v hv hbusy)
    rw [works_iff]
    show _ ∧ _ ∧ Function.update s.quit w true v = false
    rw [Function.update_of_ne hne]
    exact hthere
  | _ => exact ⟨h.sound, h.counted, h.busy⟩

/-- Every worker has returned, and `begun` is what they had begun. -/
structure Deserted (cfg : Config) (begun : List τ) (s : State τ) : Prop where
  quit : ∀ w, w < cfg.workerPoolSize → s.quit w = true
  begun : s.tasks.begun = begun

theorem Deserted.acts {begun : List τ} (h : Deserted cfg begun s) (hacts : Acts cfg s e t) :
    Deserted cfg begun t := by
  cases hacts with
  | stops hstep =>
    obtain ⟨_, _, _, htasks, hquit, _⟩ := stopStep_frame hstep
    refine ⟨?_, ?_⟩
    · rw [hquit]
      exact h.quit
    · rw [htasks]
      exact h.begun
  | accepts hsubmit =>
    obtain ⟨_, rfl⟩ := WorkQueue.submit_eq_some.mp hsubmit
    exact ⟨h.quit, h.begun⟩
  | takes hworks _ | finishes hworks _ | quits hworks _ _ =>
    obtain ⟨_, hw, hthere⟩ := works_iff.mp hworks
    simp [h.quit _ hw] at hthere
  | _ => exact ⟨h.quit, h.begun⟩

end ClusterGo.Lifecycle
