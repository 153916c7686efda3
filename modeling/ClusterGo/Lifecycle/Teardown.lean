import ClusterGo.Lifecycle.Basic

/-!
# One start, one stop

Two invariants tie the fields of a node to its two program counters.
`Closings` is about what the goroutine of `Stop` closes.  Each of it is closed
from a certain rank of the program counter on, so their order is the order of
the ranks.  `Calls` is about what the calls can have returned.

* `stop_takes_down`: nothing is closed twice, `Start` and `Stop` succeed at
  most once each, `Wait` returns `nil` on a node that is down only, and after
  a `Stop` that succeeded its goroutine gets to the end as soon as no response
  is pending and nobody holds a lock that it still has to take.
* `failed_start_is_final`: after a `Start` that failed nothing helps.  The
  subscription and the heartbeat that it has set up stay.
-/

namespace ClusterGo.Lifecycle

open Transition

variable {τ : Type} {cfg : Config} {s t u : State τ} {e : Event τ}

/-! ## The invariants -/

structure Closings (s : State τ) : Prop where
  subscription : s.subscription = .closed ↔ 2 ≤ s.stop.rank
  listener : s.listener = .closed ↔ 3 ≤ s.stop.rank
  rpcStoped : s.rpcStoped = true ↔ 4 ≤ s.stop.rank
  nodeCacheClosed : s.nodeCacheClosed = true ↔ 7 ≤ s.stop.rank
  sessionsClosed : s.sessionsClosed = true ↔ 8 ≤ s.stop.rank
  die : s.die = true ↔ 9 ≤ s.stop.rank

structure Calls (s : State τ) : Prop where
  started : s.started = true ↔ s.start = .done
  stop : 0 < s.stop.rank → s.start = .done
  panicked : s.panicked = false
  startedOnce : s.results.count (.start none) ≤ if s.start = .done then 1 else 0
  stopedOnce : s.results.count (.stop none) = min s.stop.rank 1
  waited : .wait none ∈ s.results → s.die = true

theorem rank_idle {pc : StopPc} (h : pc = .idle) : pc.rank = 0 := by
  rw [h]
  rfl

/-- Before `Start` is through, the goroutine of `Stop` is not there. -/
theorem Calls.rank_eq_zero (h : Calls s) (hpc : s.start ≠ .done) : s.stop.rank = 0 := by
  have hstop := mt h.stop hpc
  omega

theorem Calls.not_started (h : Calls s) (hpc : s.start ≠ .done) : s.started = false := by
  have hstarted := mt h.started.mp hpc
  simpa using hstarted

theorem Calls.of_eq (h : Calls s) (hstart : t.start = s.start) (hstop : t.stop = s.stop)
    (hstarted : t.started = s.started) (hdie : t.die = s.die)
    (hpanicked : t.panicked = s.panicked) (hresults : t.results = s.results) : Calls t := by
  refine ⟨?_, ?_, ?_, ?_, ?_, ?_⟩
  · rw [hstarted, hstart]
    exact h.started
  · rw [hstop, hstart]
    exact h.stop
  · rw [hpanicked]
    exact h.panicked
  · rw [hresults, hstart]
    exact h.startedOnce
  · rw [hresults, hstop]
    exact h.stopedOnce
  · rw [hresults, hdie]
    exact h.waited

/-! ## The steps of `Stop` -/

theorem Closings.stopStep (h : Closings s) (hstep : s.stopStep = some t) : Closings t := by
  obtain ⟨hsub, hlistener, hrpc, hcache, hsessions, hdie⟩ := h
  unfold State.stopStep at hstep
  split at hstep <;> (try split_ifs at hstep) <;> cases hstep <;> constructor <;>
    simp_all [StopPc.rank]

/-- `die` is closed at the last step, and was not closed before. -/
theorem panicked_of_stopStep (h : Closings s) (hstep : s.stopStep = some t) :
    t.panicked = s.panicked ∧ (s.die = true → t.die = true) := by
  have hdie := h.die
  unfold State.stopStep at hstep
  split at hstep <;> (try split_ifs at hstep) <;> cases hstep <;> simp_all [StopPc.rank]

theorem Calls.stopStep (h : Calls s) (hclosings : Closings s) (hstep : s.stopStep = some t) :
    Calls t := by
  obtain ⟨hstart, hstarted, _, _, _, hresults⟩ := stopStep_frame hstep
  obtain ⟨_, _, _, _, hrank, hnext⟩ := stopStep_ahead hstep
  obtain ⟨hpanicked, hdie⟩ := panicked_of_stopStep hclosings hstep
  constructor
  · rw [hstarted, hstart]
    exact h.started
  · intro _
    rw [hstart]
    exact h.stop hrank
  · rw [hpanicked]
    exact h.panicked
  · rw [hresults, hstart]
    exact h.startedOnce
  · rw [hresults, h.stopedOnce]
    omega
  · intro hmem
    rw [hresults] at hmem
    exact hdie (h.waited hmem)

/-! ## All steps -/

theorem Closings.acts (h : Closings s) (hcalls : Calls s) (hacts : Acts cfg s e t) :
    Closings t := by
  cases hacts with
  | subscribed hpc =>
    have hrank := hcalls.rank_eq_zero (by simp [hpc])
    refine ⟨?_, h.listener, h.rpcStoped, h.nodeCacheClosed, h.sessionsClosed, h.die⟩
    simp [hrank]
  | listens hpc =>
    have hrank := hcalls.rank_eq_zero (by simp [hpc])
    refine ⟨h.subscription, ?_, h.rpcStoped, h.nodeCacheClosed, h.sessionsClosed, h.die⟩
    simp [hrank]
  | stopFirst _ hidle =>
    obtain ⟨hsub, hlistener, hrpc, hcache, hsessions, hdie⟩ := h
    rw [rank_idle hidle] at hsub hlistener hrpc hcache hsessions hdie
    constructor <;> simp_all [State.returns, StopPc.rank]
  | stops hstep => exact h.stopStep hstep
  | _ =>
    exact ⟨h.subscription, h.listener, h.rpcStoped, h.nodeCacheClosed, h.sessionsClosed, h.die⟩

/-- A call that returns anything but the three results that count. -/
theorem Calls.returns (h : Calls s) {r : Result} (hstart : r ≠ .start none)
    (hstop : r ≠ .stop none) (hwait : r = .wait none → s.die = true) : Calls (s.returns r) := by
  refine ⟨h.started, h.stop, h.panicked, ?_, ?_, ?_⟩
  · show (r :: s.results).count _ ≤ _
    rw [List.count_cons_of_ne hstart]
    exact h.startedOnce
  · show (r :: s.results).count _ = _
    rw [List.count_cons_of_ne hstop]
    exact h.stopedOnce
  · intro hmem
    rcases List.mem_cons.mp hmem with heq | hmem
    · exact hwait heq.symm
    · exact h.waited hmem

/-- `Start` goes on, but not to its end. -/
theorem Calls.move (h : Calls s) {pc : StartPc} (hold : s.start ≠ .done) (hnew : pc ≠ .done) :
    Calls { s with start := pc } := by
  have hcount := h.startedOnce
  rw [if_neg hold] at hcount
  refine ⟨?_, ?_, h.panicked, ?_, h.stopedOnce, h.waited⟩
  · simp [h.not_started hold, hnew]
  · intro hrank
    exact absurd (h.stop hrank) hold
  · simpa [hnew] using hcount

theorem Calls.acts (h : Calls s) (hclosings : Closings s) (hacts : Acts cfg s e t) :
    Calls t := by
  cases hacts with
  | startFirst _ hpc | subscribed hpc | known hpc | listens hpc =>
    exact (h.move (by simp [hpc]) (by simp)).of_eq rfl rfl rfl rfl rfl rfl
  | notSubscribed hpc | unknown hpc | notListens hpc =>
    exact (h.move (by simp [hpc]) (by simp)).returns (by simp) (by simp) (by simp)
  | announced hpc =>
    have hdone : s.start ≠ .done := by simp [hpc]
    have hcount := h.startedOnce
    rw [if_neg hdone] at hcount
    refine ⟨by simp [State.returns], fun _ => rfl, ?_, ?_, ?_, ?_⟩
    · show (s.panicked || s.started) = false
      rw [h.panicked, h.not_started hdone]
      rfl
    · show (Result.start none :: s.results).count _ ≤ 1
      rw [List.count_cons_self]
      omega
    · show (Result.start none :: s.results).count _ = _
      rw [List.count_cons_of_ne (by simp)]
      exact h.stopedOnce
    · intro hmem
      rcases List.mem_cons.mp hmem with heq | hmem
      · cases heq
      · exact h.waited hmem
  | stopFirst hstarted hidle =>
    have hcount := h.stopedOnce
    rw [rank_idle hidle] at hcount
    refine ⟨h.started, fun _ => h.started.mp hstarted, h.panicked, ?_, ?_, ?_⟩
    · show (Result.stop none :: s.results).count _ ≤ _
      rw [List.count_cons_of_ne (by simp)]
      exact h.startedOnce
    · show (Result.stop none :: s.results).count _ = 1
      rw [List.count_cons_self]
      omega
    · intro hmem
      rcases List.mem_cons.mp hmem with heq | hmem
      · cases heq
      · exact h.waited hmem
  | stops hstep => exact h.stopStep hclosings hstep
  | waited _ hdie => exact h.returns (by simp) (by simp) (fun _ => hdie)
  | startAgain | stopEarly | stopAgain | waitEarly | refuses =>
    exact h.returns (by simp) (by simp) (by simp)
  | accepts =>
    exact (h.returns (r := .go none) (by simp) (by simp) (by simp)).of_eq rfl rfl rfl rfl rfl rfl
  | _ => exact h.of_eq rfl rfl rfl rfl rfl rfl

theorem inv_of_reachable (h : Reachable (step cfg) {} s) : Closings s ∧ Calls s := by
  refine Reach.invariant (P := fun u => Closings u ∧ Calls u) ⟨?_, ?_⟩ ?_ h
  · constructor <;> simp [StopPc.rank]
  · constructor <;> simp [StopPc.rank]
  · intro s e t _ hinv _ hstep
    have hacts := acts_of_step hstep
    exact ⟨hinv.1.acts hinv.2 hacts, hinv.2.acts hinv.1 hacts⟩

/-! ## The node goes down -/

/-- All that `Stop` closes before `die`. -/
structure Down (s : State τ) : Prop where
  subscription : s.subscription = .closed
  listener : s.listener = .closed
  rpcStoped : s.rpcStoped = true
  nodeCacheClosed : s.nodeCacheClosed = true
  sessionsClosed : s.sessionsClosed = true

theorem Closings.down (h : Closings s) (hdie : s.die = true) : Down s := by
  have hrank := h.die.mp hdie
  exact ⟨h.subscription.mpr (by omega), h.listener.mpr (by omega), h.rpcStoped.mpr (by omega),
    h.nodeCacheClosed.mpr (by omega), h.sessionsClosed.mpr (by omega)⟩

/-- The locks that the goroutine of `Stop` still has to take. -/
def State.ahead (s : State τ) : List Lock :=
  match s.stop with
  | .closing left => left
  | .sessions | .die | .finished => []
  | _ => locksOf s.peers

/-- The steps that the goroutine of `Stop` still has to make. -/
def State.todo (s : State τ) : Nat :=
  match s.stop with
  | .idle | .finished => 0
  | .subscription => 8 + (locksOf s.peers).length
  | .listener => 7 + (locksOf s.peers).length
  | .rpcSvr => 6 + (locksOf s.peers).length
  | .pendingResp => 5 + (locksOf s.peers).length
  | .nodeCache => 4 + (locksOf s.peers).length
  | .closing left => 3 + left.length
  | .sessions => 2
  | .die => 1

/-- Nobody holds up the goroutine of `Stop`. -/
structure Clear (s : State τ) : Prop where
  responses : s.pendingResp ≤ 0
  updating : s.updating = none
  locks : ∀ l ∈ s.ahead, s.locked l = false

theorem exists_stopStep (h : Clear s) {n : Nat} (hn : s.todo = n + 1) :
    ∃ t, s.stopStep = some t ∧ t.todo = n ∧ Clear t := by
  obtain ⟨hresponses, hupdating, hlocks⟩ := h
  have hnot := Int32.not_lt.mpr hresponses
  unfold State.stopStep
  cases hpc : s.stop with
  | closing left =>
    cases left with
    | nil =>
      refine ⟨_, rfl, ?_, hresponses, hupdating, by simp [State.ahead]⟩
      simp_all [State.todo]
    | cons l left =>
      have hfree : s.locked l = false := hlocks l (by simp [State.ahead, hpc])
      simp only [hfree, Bool.false_eq_true, if_false]
      refine ⟨_, rfl, ?_, hresponses, hupdating, ?_⟩
      · simp_all [State.todo]
        omega
      · intro l' hl'
        exact hlocks l' (by simpa [State.ahead, hpc] using Or.inr hl')
  | idle | finished => simp [State.todo, hpc] at hn
  | pendingResp =>
    simp only [if_neg hnot]
    refine ⟨_, rfl, ?_, hresponses, hupdating, by simpa [State.ahead, hpc] using hlocks⟩
    simp_all [State.todo]
    omega
  | nodeCache =>
    simp only [hupdating, Option.isSome_none, Bool.false_eq_true, if_false]
    refine ⟨_, rfl, ?_, hresponses, rfl, by simpa [State.ahead, hpc] using hlocks⟩
    simp_all [State.todo]
    omega
  | subscription | listener | rpcSvr =>
    refine ⟨_, rfl, ?_, hresponses, hupdating, by simpa [State.ahead, hpc] using hlocks⟩
    simp_all [State.todo]
    omega
  | sessions | die =>
    refine ⟨_, rfl, ?_, hresponses, hupdating, by simp [State.ahead]⟩
    simp_all [State.todo]

/-- With nobody in its way the goroutine of `Stop` needs no one else. -/
theorem exists_run_stopStep (cfg : Config) (h : Clear s) {n : Nat} (hn : s.todo = n) :
    ∃ t, run (step cfg) s (List.replicate n .stopStep) = some t ∧ t.todo = 0 := by
  induction n generalizing s with
  | zero => exact ⟨s, rfl, hn⟩
  | succ n ih =>
    obtain ⟨u, hstep, htodo, hclear⟩ := exists_stopStep h hn
    obtain ⟨t, hrun, ht⟩ := ih hclear htodo
    exact ⟨t, (run_cons hstep _).trans hrun, ht⟩

theorem results_of_stopSteps {n : Nat}
    (hrun : run (step cfg) s (List.replicate n .stopStep) = some t) : t.results = s.results := by
  induction n generalizing s with
  | zero =>
    cases hrun
    rfl
  | succ n ih =>
    obtain ⟨u, hstep, hrun⟩ := Option.bind_eq_some_iff.mp hrun
    obtain ⟨_, _, _, _, _, hresults⟩ := stopStep_frame hstep
    exact (ih hrun).trans hresults

/-- Nothing to do is left to a goroutine that was started at its end only. -/
theorem rank_of_todo (hpos : 0 < s.stop.rank) (h : s.todo = 0) : 9 ≤ s.stop.rank := by
  unfold State.todo at h
  cases hpc : s.stop <;> simp_all [StopPc.rank]

theorem stop_takes_down (cfg : Config) (s : State τ) (h : Reachable (step cfg) {} s) :
    s.panicked = false ∧
    s.results.count (.start none) ≤ 1 ∧ s.results.count (.stop none) ≤ 1 ∧
    (.wait none ∈ s.results → s.die = true) ∧
    (s.die = true → s.start = .done ∧ Down s) ∧
    (s.sessionsClosed = true → s.nodeCacheClosed = true) ∧
    (s.nodeCacheClosed = true → s.rpcStoped = true) ∧
    (s.rpcStoped = true → s.listener = .closed) ∧
    (s.listener = .closed → s.subscription = .closed) ∧
    (.stop none ∈ s.results → s.pendingResp ≤ 0 → s.updating = none →
      (∀ l ∈ s.ahead, s.locked l = false) →
      ∃ n t, run (step cfg) s (List.replicate n .stopStep) = some t ∧ t.die = true) := by
  obtain ⟨hclosings, hcalls⟩ := inv_of_reachable h
  refine ⟨hcalls.panicked, ?_, ?_, hcalls.waited, ?_, ?_, ?_, ?_, ?_, ?_⟩
  · have hcount := hcalls.startedOnce
    split at hcount <;> omega
  · have hcount := hcalls.stopedOnce
    omega
  · intro hdie
    have hrank := hclosings.die.mp hdie
    exact ⟨hcalls.stop (by omega), hclosings.down hdie⟩
  · rw [hclosings.sessionsClosed, hclosings.nodeCacheClosed]
    omega
  · rw [hclosings.nodeCacheClosed, hclosings.rpcStoped]
    omega
  · rw [hclosings.rpcStoped, hclosings.listener]
    omega
  · rw [hclosings.listener, hclosings.subscription]
    omega
  · intro hmem hresponses hupdating hlocks
    obtain ⟨t, hrun, htodo⟩ := exists_run_stopStep cfg ⟨hresponses, hupdating, hlocks⟩ rfl
    obtain ⟨htclosings, htcalls⟩ := inv_of_reachable (h.run (fun _ _ _ => trivial) hrun)
    -- The goroutine was started, so it is at its end and not at its beginning.
    have hresults : t.results = s.results := results_of_stopSteps hrun
    have hcount := htcalls.stopedOnce
    have hpos := List.count_pos_iff.mpr (hresults ▸ hmem)
    exact ⟨_, t, hrun, htclosings.die.mpr (rank_of_todo (by omega) htodo)⟩

/-- A node that starts, knows two peers, answers one request and is stopped
twice. -/
def wholeLife : List (Event Nat) :=
  [.start ⟨0⟩, .subscribe true, .update, .addPeer 0, .addPeer 1, .updated, .look true,
    .listen true, .announce, .respond 1, .stop, .stop, .stopStep, .stopStep, .stopStep,
    .respond (-1)]

theorem stop_takes_down_wholeLife : ∃ s : State Nat,
    run (step ⟨16, 32⟩) {} wholeLife = some s ∧ s.stop = .pendingResp ∧
    s.results = [.stop (some (.text "stoped")), .stop none, .start none] ∧
    s.panicked = false ∧
    ∃ n t, run (step ⟨16, 32⟩) s (List.replicate n .stopStep) = some t ∧ t.die = true := by
  have hrun : run (step ⟨16, 32⟩) {} wholeLife = some _ := rfl
  refine ⟨_, hrun, rfl, rfl, ?_⟩
  have h := stop_takes_down ⟨16, 32⟩ _ (Reach.of_run hrun)
  obtain ⟨hpanicked, _, _, _, _, _, _, _, _, hdown⟩ := h
  exact ⟨hpanicked, hdown (by decide) (by decide) rfl (by decide)⟩

/-! ## A start that failed -/

/-- No task is begun before the workers are there. -/
theorem begun_of_reachable (h : Reachable (step cfg) {} s) (hserving : s.start ≠ .serving)
    (hdone : s.start ≠ .done) : s.tasks.begun = [] := by
  refine Reach.invariant
    (P := fun u : State τ => u.start ≠ .serving → u.start ≠ .done → u.tasks.begun = [])
    (fun _ _ => rfl) ?_ h hserving hdone
  intro s e t _ hbegun _ hstep hserving hdone
  cases acts_of_step hstep with
  | stops hstop =>
    obtain ⟨hstart, _, _, htasks, _⟩ := stopStep_frame hstop
    rw [hstart] at hserving hdone
    rw [htasks]
    exact hbegun hserving hdone
  | accepts hsubmit =>
    obtain ⟨_, rfl⟩ := WorkQueue.submit_eq_some.mp hsubmit
    exact hbegun hserving hdone
  | takes hworks _ | finishes hworks _ =>
    rcases (works_iff.mp hworks).1 with hpc | hpc
    · exact absurd hpc hserving
    · exact absurd hpc hdone
  | announced => exact absurd rfl hdone
  | listens => exact absurd rfl hserving
  | startFirst _ hpc | subscribed hpc | known hpc | notSubscribed hpc | unknown hpc
  | notListens hpc =>
    exact hbegun (by simp [hpc]) (by simp [hpc])
  | _ => exact hbegun hserving hdone

/-- What a call can return on a node whose `Start` has failed. -/
inductive Refused : Result → Prop where
  | start : Refused (.start (some (.text "started")))
  | stop : Refused (.stop (some (.text "server not start")))
  | wait : Refused (.wait (some (.text "server not start")))
  | go (err : Option Err) : Refused (.go err)

/-- `t` is a later state of the node `s` whose `Start` has failed. -/
structure Stranded (s t : State τ) : Prop where
  start : t.start = .failed
  started : t.started = false
  die : t.die = false
  stop : t.stop.rank = 0
  subscription : t.subscription = s.subscription
  heartbeat : t.heartbeat = s.heartbeat
  begun : t.tasks.begun = []
  results : ∃ rs, t.results = rs ++ s.results ∧ ∀ r ∈ rs, Refused r

theorem Stranded.returns (h : Stranded s t) {r : Result} (hr : Refused r) :
    Stranded s (t.returns r) := by
  obtain ⟨rs, hresults, hrefused⟩ := h.results
  refine ⟨h.start, h.started, h.die, h.stop, h.subscription, h.heartbeat, h.begun, r :: rs, ?_, ?_⟩
  · show r :: t.results = r :: rs ++ s.results
    rw [hresults, List.cons_append]
  · exact List.forall_mem_cons.mpr ⟨hr, hrefused⟩

theorem Stranded.acts (h : Stranded s t) (hacts : Acts cfg t e u) : Stranded s u := by
  have hstart := h.start
  cases hacts with
  | startAgain => exact h.returns .start
  | stopEarly => exact h.returns .stop
  | waitEarly => exact h.returns .wait
  | refuses => exact h.returns (.go _)
  | accepts hsubmit =>
    obtain ⟨_, rfl⟩ := WorkQueue.submit_eq_some.mp hsubmit
    obtain ⟨h1, h2, h3, h4, h5, h6, h7, h8⟩ := h.returns (.go none)
    exact ⟨h1, h2, h3, h4, h5, h6, h7, h8⟩
  | responds | beats | updates | adds | removes | moves | updateSteps | updated | locks
  | unlocks =>
    exact ⟨h.start, h.started, h.die, h.stop, h.subscription, h.heartbeat, h.begun, h.results⟩
  -- Nothing else can happen on such a node.
  | startFirst _ hpc | subscribed hpc | notSubscribed hpc | known hpc | unknown hpc | listens hpc
  | notListens hpc | announced hpc =>
    simp [hpc] at hstart
  | stopFirst hstarted | stopAgain hstarted | waited hstarted =>
    simp [h.started] at hstarted
  | heartbeatEnds _ hdie => simp [h.die] at hdie
  | stops hstep =>
    obtain ⟨_, _, _, _, hpos, _⟩ := stopStep_ahead hstep
    have hstop := h.stop
    omega
  | takes hworks _ | finishes hworks _ | quits hworks _ _ =>
    have hpc := (works_iff.mp hworks).1
    simp [hstart] at hpc

theorem failed_start_is_final (cfg : Config) (s t : State τ) (hs : Reachable (step cfg) {} s)
    (hfailed : s.start = .failed) (ht : Reachable (step cfg) s t) :
    t.start = .failed ∧ t.started = false ∧ t.die = false ∧
    t.subscription = s.subscription ∧ t.heartbeat = s.heartbeat ∧
    (s.heartbeat = .up → (step cfg t .beat).isSome) ∧
    t.tasks.begun = [] ∧
    ∃ rs, t.results = rs ++ s.results ∧ ∀ r ∈ rs, Refused r := by
  obtain ⟨hclosings, hcalls⟩ := inv_of_reachable hs
  have hdone : s.start ≠ .done := by simp [hfailed]
  have hrank := hcalls.rank_eq_zero hdone
  have hdie : s.die = false := by
    have hdie := mt hclosings.die.mp (by omega)
    simpa using hdie
  have hstart : Stranded s s :=
    ⟨hfailed, hcalls.not_started hdone, hdie, hrank, rfl, rfl,
      begun_of_reachable hs (by simp [hfailed]) hdone, [], rfl, by simp⟩
  have h : Stranded s t :=
    Reach.invariant (P := Stranded s) hstart
      (fun _ _ _ _ hinv _ hstep => hinv.acts (acts_of_step hstep)) ht
  refine ⟨h.start, h.started, h.die, h.subscription, h.heartbeat, ?_, h.begun, h.results⟩
  intro hup
  rw [← h.heartbeat] at hup
  simp [step, hup]

/-- The port is taken: the node stays in the membership, alive and deaf. -/
def portTaken : List (Event Nat) :=
  [.start ⟨0⟩, .subscribe true, .look true, .listen false]

theorem failed_start_is_final_portTaken : ∃ s t : State Nat,
    run (step ⟨16, 32⟩) {} portTaken = some s ∧
    run (step ⟨16, 32⟩) s [.stop, .start ⟨0⟩, .beat, .wait] = some t ∧
    s.heartbeat = .up ∧ s.start = .failed ∧ t.die = false ∧ t.subscription = .up ∧
    t.heartbeat = .up ∧ (step ⟨16, 32⟩ t .beat).isSome := by
  let s : State Nat := (run (step ⟨16, 32⟩) {} portTaken).get rfl
  have hs : run (step ⟨16, 32⟩) {} portTaken = some s := rfl
  have ht : run (step ⟨16, 32⟩) s [.stop, .start ⟨0⟩, .beat, .wait] = some _ := rfl
  refine ⟨s, _, hs, ht, rfl, rfl, ?_⟩
  have h := failed_start_is_final ⟨16, 32⟩ s _ (Reach.of_run hs) rfl (Reach.of_run ht)
  obtain ⟨_, _, hdie, hsubscription, hheartbeat, hbeat, _⟩ := h
  exact ⟨hdie, hsubscription, hheartbeat, hbeat rfl⟩

end ClusterGo.Lifecycle
