import ClusterGo.Addr
import ClusterGo.Lib.Transition
import ClusterGo.Lib.WorkQueue

/-!
# Start and stop of a node

`Node.Start`, `Node.Stop` and `Node.Wait` of `cluster.go`, with the goroutines
that they start: the heartbeat, the workers of the `gopool`, and the one that
takes the node down.

`startOnce` and `stopOnce` let one call each go on.  `Start` subscribes, waits
for the first report, looks for the local node in it, starts the heartbeat,
listens, starts the workers and closes `started`.  `Stop` needs `started`.
Its goroutine ends the subscription, closes the listener, stops the rpc
server, waits until no response is pending, closes the sockets and the
sessions, and closes `die`.

The sockets are closed by `nodeCache.close`.  It takes the lock of the cache
for reading and then, for every peer in the cache, the mutex of the peer and
the lock of its stream session, one after the other.  `onNodeInfoUpdate` takes
the lock of the cache for writing and closes in the same way the peers that it
removes and those with another net address.  A send or a dial holds the mutex
of its peer, and `openStream` the lock of the session.  Who they are is not of
interest here: somebody takes a lock and gives it back, or not.  A peer is its
`*node`, and a report adds only members that the cache does not have.

What the membership, the network and the rpc server answer comes with the
events.  Every event is one atomic action of a goroutine.  `started` and `die`
are never opened again, so a call that looks at one of them and goes on is one
event too: `wait` is the moment at which `Wait` returns.

A channel that is closed a second time makes the process panic.  `results` is
what the calls have returned so far, the last one first.
-/

namespace ClusterGo.Lifecycle

open Transition

/-- Something that is set up and closed again. -/
inductive Life where
  | absent
  | up
  | closed
deriving DecidableEq, Repr

/-- Where `Start` stands. -/
inductive StartPc where
  | idle | subscribing | waitInit | listening | serving | failed | done
deriving DecidableEq, Repr

/-- The locks that `closeSocket` takes of a peer. -/
inductive Lock where
  | mutex (peer : Nat)
  | stream (peer : Nat)
deriving DecidableEq, Repr

def Lock.peer : Lock → Nat
  | .mutex i | .stream i => i

/-- The locks of peers that `nodeCache.close` takes.  The source goes over a map,
so the order of the peers is any. -/
def locksOf (peers : List Nat) : List Lock := peers.flatMap fun i => [.mutex i, .stream i]

/-- Where the goroutine of `Stop` stands.  In `closing` it has the lock of the
cache and the locks that are left to take. -/
inductive StopPc where
  | idle | subscription | listener | rpcSvr | pendingResp | nodeCache
  | closing (left : List Lock)
  | sessions | die | finished
deriving DecidableEq, Repr

/-- How far the goroutine has come. -/
def StopPc.rank : StopPc → Nat
  | .idle => 0
  | .subscription => 1
  | .listener => 2
  | .rpcSvr => 3
  | .pendingResp => 4
  | .nodeCache => 5
  | .closing _ => 6
  | .sessions => 7
  | .die => 8
  | .finished => 9

/-- `outside` is an error of the membership or of the network. -/
inductive Err where
  | outside
  | busy
  | text (s : String)
deriving DecidableEq, Repr

/-- What a call returned. -/
inductive Result where
  | start (err : Option Err)
  | stop (err : Option Err)
  | wait (err : Option Err)
  | go (err : Option Err)
deriving DecidableEq, Repr

structure State (τ : Type) where
  start : StartPc := .idle
  stop : StopPc := .idle
  localAddr : LogicAddr := ⟨0⟩
  started : Bool := false
  die : Bool := false
  panicked : Bool := false
  subscription : Life := .absent
  heartbeat : Life := .absent
  /-- How often `KeepAlive` was called. -/
  beats : Nat := 0
  listener : Life := .absent
  rpcStoped : Bool := false
  pendingResp : Int32 := 0
  /-- The peers in the cache. -/
  peers : List Nat := []
  /-- A report holds the lock of the cache, and these locks it still has to
  take. -/
  updating : Option (List Lock) := none
  /-- The locks that somebody else holds. -/
  locked : Lock → Bool := fun _ => false
  nodeCacheClosed : Bool := false
  sessionsClosed : Bool := false
  tasks : WorkQueue τ := {}
  /-- The workers that have returned. -/
  quit : Nat → Bool := fun _ => false
  results : List Result := []

inductive Event (τ : Type) where
  | start (localAddr : LogicAddr)
  | subscribe (ok : Bool)
  | look (known : Bool)
  | listen (ok : Bool)
  | announce
  | stop
  | stopStep
  | respond (n : Int32)
  | update
  | addPeer (peer : Nat)
  | closePeer (peer : Nat) (removed : Bool)
  | updateStep
  | updated
  | lock (l : Lock)
  | unlock (l : Lock)
  | beat
  | heartbeatEnds
  | wait
  | go (task : τ)
  | take (w : Nat)
  | finish (w : Nat)
  | quit (w : Nat)

/-- `WorkerPoolSize` and `TaskQueueSize`. -/
structure Config where
  workerPoolSize : Nat
  taskQueueSize : Nat

variable {τ : Type}

namespace State

def returns (s : State τ) (r : Result) : State τ := { s with results := r :: s.results }

/-- `Start` returns an error. -/
def fail (s : State τ) (err : Err) : State τ :=
  { s with start := .failed }.returns (.start (some err))

/-- One action of the goroutine of `Stop`. -/
def stopStep (s : State τ) : Option (State τ) :=
  match s.stop with
  | .idle | .finished => none
  | .subscription => some { s with subscription := .closed, stop := .listener }
  | .listener => some { s with listener := .closed, stop := .rpcSvr }
  | .rpcSvr => some { s with rpcStoped := true, stop := .pendingResp }
  -- It sleeps and looks again while a response is pending.
  | .pendingResp => if s.pendingResp > 0 then none else some { s with stop := .nodeCache }
  | .nodeCache =>
    if s.updating.isSome then none else some { s with stop := .closing (locksOf s.peers) }
  | .closing (l :: left) => if s.locked l then none else some { s with stop := .closing left }
  | .closing [] => some { s with nodeCacheClosed := true, stop := .sessions }
  | .sessions => some { s with sessionsClosed := true, stop := .die }
  | .die => some { s with panicked := s.panicked || s.die, die := true, stop := .finished }

/-- The goroutine of `Stop` has the lock of the cache. -/
def reading (s : State τ) : Bool := s.stop.rank == 6

/-- The goroutine of a worker is there. -/
def works (cfg : Config) (s : State τ) (w : Nat) : Bool :=
  (s.start = .serving || s.start = .done) && decide (w < cfg.workerPoolSize) && !s.quit w

end State

def step (cfg : Config) (s : State τ) : Event τ → Option (State τ)
  | .start localAddr =>
    if s.start = .idle then some { s with start := .subscribing, localAddr }
    else some (s.returns (.start (some (.text "started"))))
  | .subscribe ok =>
    if s.start ≠ .subscribing then none
    else if ok then some { s with subscription := .up, start := .waitInit }
    else some (s.fail .outside)
  | .look known =>
    if s.start ≠ .waitInit then none
    else if known then
      some { s with heartbeat := .up, beats := s.beats + 1, start := .listening }
    else some (s.fail (.text (s.localAddr.string ++ " not in config")))
  | .listen ok =>
    if s.start ≠ .listening then none
    else if ok then some { s with listener := .up, start := .serving }
    else some (s.fail .outside)
  | .announce =>
    if s.start ≠ .serving then none
    else some ({ s with
      panicked := s.panicked || s.started, started := true, start := .done }.returns (.start none))
  | .stop =>
    if !s.started then some (s.returns (.stop (some (.text "server not start"))))
    else if s.stop = .idle then some ({ s with stop := .subscription }.returns (.stop none))
    else some (s.returns (.stop (some (.text "stoped"))))
  | .stopStep => s.stopStep
  | .respond n => some { s with pendingResp := s.pendingResp + n }
  | .update =>
    if s.updating.isSome || s.reading then none else some { s with updating := some [] }
  | .addPeer i =>
    if s.updating = some [] ∧ i ∉ s.peers then some { s with peers := s.peers ++ [i] } else none
  | .closePeer i removed =>
    if s.updating = some [] ∧ i ∈ s.peers then
      some { s with
        updating := some [.mutex i, .stream i]
        peers := if removed then s.peers.filter (· ≠ i) else s.peers }
    else none
  | .updateStep =>
    match s.updating with
    | some (l :: left) => if s.locked l then none else some { s with updating := some left }
    | _ => none
  | .updated => if s.updating = some [] then some { s with updating := none } else none
  | .lock l =>
    if s.locked l then none else some { s with locked := Function.update s.locked l true }
  | .unlock l =>
    if s.locked l then some { s with locked := Function.update s.locked l false } else none
  | .beat => if s.heartbeat = .up then some { s with beats := s.beats + 1 } else none
  | .heartbeatEnds =>
    if s.heartbeat = .up ∧ s.die then some { s with heartbeat := .closed } else none
  | .wait =>
    if !s.started then some (s.returns (.wait (some (.text "server not start"))))
    else if s.die then some (s.returns (.wait none))
    else none
  | .go task =>
    match s.tasks.submit cfg.taskQueueSize task with
    | some tasks => some ({ s with tasks }.returns (.go none))
    | none => some (s.returns (.go (some .busy)))
  | .take w =>
    if s.works cfg w then (s.tasks.take w).map fun tasks => { s with tasks } else none
  | .finish w =>
    if s.works cfg w then (s.tasks.finish w).map fun tasks => { s with tasks } else none
  | .quit w =>
    -- A worker looks at `die` between two tasks only, and may still prefer a task.
    if s.works cfg w ∧ s.die ∧ s.tasks.busy w = none then
      some { s with quit := Function.update s.quit w true }
    else none

/-! ## What a step can do -/

/-- One constructor for each branch of `step`, with its condition. -/
inductive Acts (cfg : Config) (s : State τ) : Event τ → State τ → Prop where
  | startFirst (localAddr : LogicAddr) (hidle : s.start = .idle) :
    Acts cfg s (.start localAddr) { s with start := .subscribing, localAddr }
  | startAgain (localAddr : LogicAddr) (hidle : s.start ≠ .idle) :
    Acts cfg s (.start localAddr) (s.returns (.start (some (.text "started"))))
  | subscribed (hpc : s.start = .subscribing) :
    Acts cfg s (.subscribe true) { s with subscription := .up, start := .waitInit }
  | notSubscribed (hpc : s.start = .subscribing) :
    Acts cfg s (.subscribe false) (s.fail .outside)
  | known (hpc : s.start = .waitInit) :
    Acts cfg s (.look true)
      { s with heartbeat := .up, beats := s.beats + 1, start := .listening }
  | unknown (hpc : s.start = .waitInit) :
    Acts cfg s (.look false) (s.fail (.text (s.localAddr.string ++ " not in config")))
  | listens (hpc : s.start = .listening) :
    Acts cfg s (.listen true) { s with listener := .up, start := .serving }
  | notListens (hpc : s.start = .listening) :
    Acts cfg s (.listen false) (s.fail .outside)
  | announced (hpc : s.start = .serving) :
    Acts cfg s .announce
      ({ s with panicked := s.panicked || s.started, started := true, start := .done }.returns
        (.start none))
  | stopEarly (hstarted : s.started = false) :
    Acts cfg s .stop (s.returns (.stop (some (.text "server not start"))))
  | stopFirst (hstarted : s.started = true) (hidle : s.stop = .idle) :
    Acts cfg s .stop ({ s with stop := .subscription }.returns (.stop none))
  | stopAgain (hstarted : s.started = true) (hidle : s.stop ≠ .idle) :
    Acts cfg s .stop (s.returns (.stop (some (.text "stoped"))))
  | stops {t : State τ} (hstep : s.stopStep = some t) : Acts cfg s .stopStep t
  | responds (n : Int32) : Acts cfg s (.respond n) { s with pendingResp := s.pendingResp + n }
  | updates (hfree : s.updating = none) (hread : s.reading = false) :
    Acts cfg s .update { s with updating := some [] }
  | adds (i : Nat) (hupdating : s.updating = some []) (hnew : i ∉ s.peers) :
    Acts cfg s (.addPeer i) { s with peers := s.peers ++ [i] }
  | removes (i : Nat) (hupdating : s.updating = some []) (hpeer : i ∈ s.peers) :
    Acts cfg s (.closePeer i true)
      { s with updating := some [.mutex i, .stream i], peers := s.peers.filter (· ≠ i) }
  | moves (i : Nat) (hupdating : s.updating = some []) (hpeer : i ∈ s.peers) :
    Acts cfg s (.closePeer i false) { s with updating := some [.mutex i, .stream i] }
  | updateSteps {l : Lock} {left : List Lock} (hupdating : s.updating = some (l :: left))
    (hfree : s.locked l = false) : Acts cfg s .updateStep { s with updating := some left }
  | updated (hupdating : s.updating = some []) : Acts cfg s .updated { s with updating := none }
  | locks (l : Lock) (hfree : s.locked l = false) :
    Acts cfg s (.lock l) { s with locked := Function.update s.locked l true }
  | unlocks (l : Lock) (hheld : s.locked l = true) :
    Acts cfg s (.unlock l) { s with locked := Function.update s.locked l false }
  | beats (hup : s.heartbeat = .up) : Acts cfg s .beat { s with beats := s.beats + 1 }
  | heartbeatEnds (hup : s.heartbeat = .up) (hdie : s.die = true) :
    Acts cfg s .heartbeatEnds { s with heartbeat := .closed }
  | waitEarly (hstarted : s.started = false) :
    Acts cfg s .wait (s.returns (.wait (some (.text "server not start"))))
  | waited (hstarted : s.started = true) (hdie : s.die = true) :
    Acts cfg s .wait (s.returns (.wait none))
  | accepts {task : τ} {tasks : WorkQueue τ}
    (hsubmit : s.tasks.submit cfg.taskQueueSize task = some tasks) :
    Acts cfg s (.go task) ({ s with tasks }.returns (.go none))
  | refuses {task : τ} (hsubmit : s.tasks.submit cfg.taskQueueSize task = none) :
    Acts cfg s (.go task) (s.returns (.go (some .busy)))
  | takes {w : Nat} {tasks : WorkQueue τ} (hworks : s.works cfg w = true)
    (htake : s.tasks.take w = some tasks) : Acts cfg s (.take w) { s with tasks }
  | finishes {w : Nat} {tasks : WorkQueue τ} (hworks : s.works cfg w = true)
    (hfinish : s.tasks.finish w = some tasks) : Acts cfg s (.finish w) { s with tasks }
  | quits {w : Nat} (hworks : s.works cfg w = true) (hdie : s.die = true)
    (hidle : s.tasks.busy w = none) :
    Acts cfg s (.quit w) { s with quit := Function.update s.quit w true }

variable {cfg : Config} {s t : State τ} {e : Event τ}

theorem acts_of_step (h : step cfg s e = some t) : Acts cfg s e t := by
  cases e with
  | stopStep => exact .stops h
  | respond n =>
    cases h
    exact .responds n
  | go task =>
    simp only [step] at h
    split at h <;> cases h
    · rename_i hsubmit
      exact .accepts hsubmit
    · rename_i hsubmit
      exact .refuses hsubmit
  | take w =>
    simp only [step, Option.ite_none_right_eq_some, Option.map_eq_some_iff] at h
    obtain ⟨hworks, tasks, htake, rfl⟩ := h
    exact .takes hworks htake
  | finish w =>
    simp only [step, Option.ite_none_right_eq_some, Option.map_eq_some_iff] at h
    obtain ⟨hworks, tasks, hfinish, rfl⟩ := h
    exact .finishes hworks hfinish
  | closePeer i removed =>
    obtain ⟨hcond, h⟩ := Option.ite_none_right_eq_some.mp h
    cases removed with
    | true => cases h; exact .removes i hcond.1 hcond.2
    | false => cases h; exact .moves i hcond.1 hcond.2
  | updateStep =>
    simp only [step] at h
    split at h
    · rename_i l left hupdating
      split_ifs at h with hlocked
      cases h
      exact .updateSteps hupdating (by simpa using hlocked)
    · cases h
  | subscribe ok | look ok | listen ok =>
    cases ok <;> simp only [step, Bool.false_eq_true, if_true, if_false] at h <;>
      split_ifs at h <;> cases h <;> constructor <;> simp_all
  | _ =>
    -- Every other event is a chain of conditions, and each end of it is one constructor.
    simp only [step] at h
    split_ifs at h <;> cases h <;> constructor <;> simp_all

theorem works_iff {w : Nat} : s.works cfg w = true ↔
    (s.start = .serving ∨ s.start = .done) ∧ w < cfg.workerPoolSize ∧ s.quit w = false := by
  simp [State.works, and_assoc]

/-- The goroutine of `Stop` touches nothing that belongs to `Start`, the
heartbeat or the workers. -/
theorem stopStep_frame (h : s.stopStep = some t) :
    t.start = s.start ∧ t.started = s.started ∧ t.heartbeat = s.heartbeat ∧ t.tasks = s.tasks ∧
      t.quit = s.quit ∧ t.results = s.results := by
  unfold State.stopStep at h
  split at h <;> (try split_ifs at h) <;> cases h <;> simp

/-- Nor the counter, the cache or a lock, and it never goes back. -/
theorem stopStep_ahead (h : s.stopStep = some t) :
    t.pendingResp = s.pendingResp ∧ t.peers = s.peers ∧ t.updating = s.updating ∧
      t.locked = s.locked ∧ 0 < s.stop.rank ∧ s.stop.rank ≤ t.stop.rank := by
  unfold State.stopStep at h
  split at h <;> (try split_ifs at h) <;> cases h <;> simp_all [StopPc.rank]

end ClusterGo.Lifecycle
