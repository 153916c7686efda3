import ClusterGo.Lib.Transition
import Mathlib.Data.List.Nodup
import Mathlib.Data.List.Perm.Basic
import Mathlib.Logic.Function.Basic

/-!
# Workers behind a bounded queue

Tasks are submitted to a queue of a fixed capacity and refused when it is
full.  Workers take the first task, run it and come back for the next one.

A `WorkQueue` is the queue and what each worker is running, with a record of
the tasks that were accepted, begun and finished.  `Sound` is the invariant:
the tasks are begun in the order in which they were accepted, each one once,
and each one that was begun is running or finished.

Every operation keeps it (`Sound.submit`, `Sound.take`, `Sound.finish`).
With a worker there is always something to do until every accepted task is
finished (`idle_of_stuck`), and each move lowers `todo`, so one worker is
enough to finish them all (`Sound.drain`).
-/

/-- A queue of tasks, and the task of each worker. -/
structure WorkQueue (τ : Type) where
  queue : List τ := []
  busy : Nat → Option τ := fun _ => none
  accepted : List τ := []
  begun : List τ := []
  finished : List τ := []

namespace WorkQueue

variable {τ : Type}

/-- The tasks that are running. -/
def running (q : WorkQueue τ) (workers : Nat) : List τ := (List.range workers).filterMap q.busy

def submit (capacity : Nat) (q : WorkQueue τ) (t : τ) : Option (WorkQueue τ) :=
  if q.queue.length < capacity then
    some { q with queue := q.queue ++ [t], accepted := q.accepted ++ [t] }
  else none

def take (q : WorkQueue τ) (w : Nat) : Option (WorkQueue τ) :=
  match q.busy w, q.queue with
  | none, t :: rest =>
    some { q with
      queue := rest, busy := Function.update q.busy w (some t), begun := q.begun ++ [t] }
  | _, _ => none

def finish (q : WorkQueue τ) (w : Nat) : Option (WorkQueue τ) :=
  match q.busy w with
  | some t =>
    some { q with busy := Function.update q.busy w none, finished := q.finished ++ [t] }
  | none => none

/-! ## The tasks of the workers -/

/-- The task of one worker, and those of the others. -/
theorem filterMap_update_perm {l : List Nat} (hnodup : l.Nodup) {w : Nat} (hw : w ∈ l)
    (f : Nat → Option τ) (x : Option τ) :
    List.Perm (l.filterMap (Function.update f w x)) (x.toList ++ (l.erase w).filterMap f) := by
  have hother : (l.erase w).filterMap (Function.update f w x) = (l.erase w).filterMap f := by
    refine List.filterMap_congr fun v hv => ?_
    have hne : v ≠ w := fun heq => hnodup.not_mem_erase (heq ▸ hv)
    rw [Function.update_of_ne hne]
  have hperm := (List.perm_cons_erase hw).filterMap (Function.update f w x)
  rw [List.filterMap_cons, Function.update_self] at hperm
  cases x with
  | none => exact hother ▸ hperm
  | some t => exact hother ▸ hperm

theorem running_update_perm {q : WorkQueue τ} {workers w : Nat} (hw : w < workers)
    (x : Option τ) :
    List.Perm (x.toList ++ q.running workers)
      ((q.busy w).toList ++ (List.range workers).filterMap (Function.update q.busy w x)) := by
  have hmem := List.mem_range.mpr hw
  have hold := filterMap_update_perm List.nodup_range hmem q.busy (q.busy w)
  rw [Function.update_eq_self] at hold
  have hnew := filterMap_update_perm List.nodup_range hmem q.busy x
  refine (hold.append_left _).trans (List.Perm.trans ?_ (hnew.symm.append_left _))
  rw [← List.append_assoc, ← List.append_assoc]
  exact List.perm_append_comm.append_right _

/-! ## The invariant -/

structure Sound (workers capacity : Nat) (q : WorkQueue τ) : Prop where
  order : q.accepted = q.begun ++ q.queue
  room : q.queue.length ≤ capacity
  conserved : List.Perm q.begun (q.running workers ++ q.finished)

variable {workers capacity : Nat} {q q' : WorkQueue τ} {t : τ} {w : Nat}

theorem running_empty (workers : Nat) : ({} : WorkQueue τ).running workers = [] :=
  List.filterMap_none _

theorem Sound.empty : Sound workers capacity ({} : WorkQueue τ) where
  order := rfl
  room := Nat.zero_le _
  conserved := by
    rw [running_empty]
    exact List.Perm.refl _

theorem submit_eq_some : q.submit capacity t = some q' ↔
    q.queue.length < capacity ∧
      q' = { q with queue := q.queue ++ [t], accepted := q.accepted ++ [t] } := by
  unfold submit
  split_ifs with hroom
  · simp [hroom, eq_comm]
  · simp [hroom]

theorem take_eq_some : q.take w = some q' ↔
    ∃ t rest, q.busy w = none ∧ q.queue = t :: rest ∧
      q' = { q with
        queue := rest, busy := Function.update q.busy w (some t), begun := q.begun ++ [t] } := by
  unfold take
  split
  · rename_i t rest hbusy hqueue
    simp [hbusy, hqueue, eq_comm]
  · rename_i hnone
    constructor
    · intro h
      cases h
    · intro h
      obtain ⟨t, rest, hbusy, hqueue, _⟩ := h
      exact absurd hqueue (hnone t rest hbusy)

theorem finish_eq_some : q.finish w = some q' ↔
    ∃ t, q.busy w = some t ∧
      q' = { q with busy := Function.update q.busy w none, finished := q.finished ++ [t] } := by
  unfold finish
  split
  · rename_i t hbusy
    simp [hbusy, eq_comm]
  · rename_i hnone
    simp [hnone]

theorem Sound.submit (h : Sound workers capacity q) (hsubmit : q.submit capacity t = some q') :
    Sound workers capacity q' := by
  obtain ⟨hroom, rfl⟩ := submit_eq_some.mp hsubmit
  refine ⟨?_, ?_, h.conserved⟩
  · show q.accepted ++ [t] = q.begun ++ (q.queue ++ [t])
    rw [h.order, List.append_assoc]
  · show (q.queue ++ [t]).length ≤ capacity
    rw [List.length_append, List.length_singleton]
    omega

theorem Sound.take (h : Sound workers capacity q) (hw : w < workers)
    (htake : q.take w = some q') : Sound workers capacity q' := by
  obtain ⟨t, rest, hbusy, hqueue, rfl⟩ := take_eq_some.mp htake
  refine ⟨?_, ?_, ?_⟩
  · show q.accepted = q.begun ++ [t] ++ rest
    rw [h.order, hqueue, List.append_assoc]
    rfl
  · have hroom := h.room
    rw [hqueue, List.length_cons] at hroom
    show rest.length ≤ capacity
    omega
  · show List.Perm (q.begun ++ [t])
      ((List.range workers).filterMap (Function.update q.busy w (some t)) ++ q.finished)
    have hrunning := running_update_perm hw (some t) (q := q)
    rw [hbusy] at hrunning
    calc
      List.Perm (q.begun ++ [t]) ([t] ++ q.begun) := List.perm_append_comm
      List.Perm _ ([t] ++ (q.running workers ++ q.finished)) := h.conserved.append_left _
      _ = ([t] ++ q.running workers) ++ q.finished := (List.append_assoc ..).symm
      List.Perm _ _ := hrunning.append_right _

theorem Sound.finish (h : Sound workers capacity q) (hw : w < workers)
    (hfinish : q.finish w = some q') : Sound workers capacity q' := by
  obtain ⟨t, hbusy, rfl⟩ := finish_eq_some.mp hfinish
  refine ⟨h.order, h.room, ?_⟩
  show List.Perm q.begun
    ((List.range workers).filterMap (Function.update q.busy w none) ++ (q.finished ++ [t]))
  have hrunning := running_update_perm hw none (q := q)
  rw [hbusy] at hrunning
  calc
    List.Perm q.begun (q.running workers ++ q.finished) := h.conserved
    List.Perm _ ([t] ++ (List.range workers).filterMap (Function.update q.busy w none) ++
        q.finished) := hrunning.append_right _
    List.Perm _ ((List.range workers).filterMap (Function.update q.busy w none) ++ [t] ++
        q.finished) := List.perm_append_comm.append_right _
    _ = (List.range workers).filterMap (Function.update q.busy w none) ++ ([t] ++ q.finished) :=
      List.append_assoc ..
    List.Perm _ _ := List.perm_append_comm.append_left _

/-- No more tasks run than there are workers. -/
theorem length_running_le (q : WorkQueue τ) (workers : Nat) :
    (q.running workers).length ≤ workers := by
  have hle := List.length_filterMap_le q.busy (List.range workers)
  rw [List.length_range] at hle
  exact hle

/-- Every accepted task waits, runs or is finished. -/
theorem Sound.accepted_perm (h : Sound workers capacity q) :
    List.Perm q.accepted (q.queue ++ q.running workers ++ q.finished) := by
  rw [h.order, List.append_assoc]
  exact (h.conserved.append_right _).trans List.perm_append_comm

/-! ## Progress -/

/-- What is left to do: each waiting task is to be taken and finished, each
running one to be finished. -/
def todo (q : WorkQueue τ) (workers : Nat) : Nat :=
  2 * q.queue.length + (q.running workers).length

theorem todo_take (hw : w < workers) (htake : q.take w = some q') :
    q'.todo workers < q.todo workers := by
  obtain ⟨t, rest, hbusy, hqueue, rfl⟩ := take_eq_some.mp htake
  have hlen := (running_update_perm hw (some t) (q := q)).length_eq
  rw [hbusy] at hlen
  simp only [Option.toList, List.length_append, List.length_cons, List.length_nil] at hlen
  show 2 * rest.length +
    ((List.range workers).filterMap (Function.update q.busy w (some t))).length < _
  rw [todo, hqueue, List.length_cons]
  omega

theorem todo_finish (hw : w < workers) (hfinish : q.finish w = some q') :
    q'.todo workers < q.todo workers := by
  obtain ⟨t, hbusy, rfl⟩ := finish_eq_some.mp hfinish
  have hlen := (running_update_perm hw none (q := q)).length_eq
  rw [hbusy] at hlen
  simp only [Option.toList, List.length_append, List.length_cons, List.length_nil] at hlen
  show 2 * q.queue.length +
    ((List.range workers).filterMap (Function.update q.busy w none)).length < _
  rw [todo]
  omega

/-- When no worker that is present can go on, all are idle and nothing waits. -/
theorem idle_of_stuck (present : Nat → Prop) {v : Nat} (hv : v < workers) (hpresent : present v)
    (hbusy : ∀ w, w < workers → q.busy w ≠ none → present w)
    (hstuck : ∀ w, w < workers → present w → q.take w = none ∧ q.finish w = none) :
    q.queue = [] ∧ q.running workers = [] := by
  have hidle : ∀ w, w < workers → q.busy w = none := by
    intro w hw
    cases hrun : q.busy w with
    | none => rfl
    | some t =>
      have hnone := (hstuck w hw (hbusy w hw (by simp [hrun]))).2
      simp [finish, hrun] at hnone
  constructor
  · cases hqueue : q.queue with
    | nil => rfl
    | cons t rest =>
      have hnone := (hstuck v hv hpresent).1
      simp [take, hidle v hv, hqueue] at hnone
  · rw [running, List.filterMap_eq_nil_iff]
    intro w hw
    exact hidle w (List.mem_range.mp hw)

/-! ## Draining -/

/-- What a worker does by itself. -/
inductive Move where
  | take (w : Nat)
  | finish (w : Nat)

def Move.worker : Move → Nat
  | .take w => w
  | .finish w => w

def move (q : WorkQueue τ) : Move → Option (WorkQueue τ)
  | .take w => q.take w
  | .finish w => q.finish w

theorem todo_move {m : Move} (hw : m.worker < workers) (hmove : q.move m = some q') :
    q'.todo workers < q.todo workers := by
  cases m with
  | take w => exact todo_take hw hmove
  | finish w => exact todo_finish hw hmove

/-- A move makes no other worker busy and accepts nothing. -/
theorem move_frame {m : Move} (hmove : q.move m = some q') :
    q'.accepted = q.accepted ∧ ∀ w, w ≠ m.worker → q'.busy w = q.busy w := by
  cases m with
  | take w =>
    obtain ⟨t, rest, _, _, rfl⟩ := take_eq_some.mp hmove
    exact ⟨rfl, fun v hv => Function.update_of_ne hv ..⟩
  | finish w =>
    obtain ⟨t, _, rfl⟩ := finish_eq_some.mp hmove
    exact ⟨rfl, fun v hv => Function.update_of_ne hv ..⟩

theorem Sound.move (h : Sound workers capacity q) {m : Move} (hw : m.worker < workers)
    (hmove : q.move m = some q') : Sound workers capacity q' := by
  cases m with
  | take w => exact h.take hw hmove
  | finish w => exact h.finish hw hmove

/-- One worker is enough to get everything done, when each busy one is
present. -/
theorem Sound.drain (h : Sound workers capacity q) (present : Nat → Prop) {v : Nat}
    (hv : v < workers) (hpresent : present v)
    (hbusy : ∀ w, w < workers → q.busy w ≠ none → present w) :
    ∃ ms q', Transition.run WorkQueue.move q ms = some q' ∧
      (∀ m ∈ ms, m.worker < workers ∧ present m.worker) ∧
      q'.accepted = q.accepted ∧ List.Perm q'.accepted q'.finished := by
  -- The measure of the run is what is left to do.
  induction hn : q.todo workers using Nat.strongRecOn generalizing q with
  | ind n ih =>
    by_cases hstuck : ∀ m : Move, m.worker < workers → present m.worker → q.move m = none
    · obtain ⟨hqueue, hrunning⟩ := idle_of_stuck present hv hpresent hbusy fun w hw hp =>
        ⟨hstuck (.take w) hw hp, hstuck (.finish w) hw hp⟩
      have hperm := h.accepted_perm
      rw [hqueue, hrunning] at hperm
      exact ⟨[], q, rfl, by simp, rfl, hperm⟩
    · push Not at hstuck
      obtain ⟨m, hw, hp, hsome⟩ := hstuck
      obtain ⟨u, hmove⟩ := Option.ne_none_iff_exists'.mp hsome
      obtain ⟨haccepted, hothers⟩ := move_frame hmove
      have hbusy' : ∀ w, w < workers → u.busy w ≠ none → present w := by
        intro w hlt hne
        by_cases hwm : w = m.worker
        · rw [hwm]
          exact hp
        · rw [hothers w hwm] at hne
          exact hbusy w hlt hne
      obtain ⟨ms, q', hrun, hms, hacc, hperm⟩ :=
        ih _ (hn ▸ todo_move hw hmove) (h.move hw hmove) hbusy' rfl
      exact ⟨m :: ms, q', (Transition.run_cons hmove ms).trans hrun,
        List.forall_mem_cons.mpr ⟨⟨hw, hp⟩, hms⟩, hacc.trans haccepted, hperm⟩

end WorkQueue
