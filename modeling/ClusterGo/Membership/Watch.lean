import ClusterGo.Lib.Transition
import ClusterGo.Membership.Etcd.Basic
import ClusterGo.Membership.Natsjet

/-!
# The watch loops

The etcd and the natsjet backend run the same loop: a `select` over two watch
channels, a ticker and the context.  `Loop` is its state, and `step` takes
what the two backends do in the cases as parameters.

* A channel may be closed at any moment, without the context being
  cancelled.  A receive from a closed channel makes the loop return.
* The ticker reads the whole store.  While the loop runs, a tick whose reads
  succeed makes both maps equal to the store (`etcd_tick_synced`,
  `natsjet_tick_synced`).
* After an error natsjet opens new watchers in a tick.  When this fails, the
  old channel stays in use.

So a loop serves its subscriber in every state of a run, if and only if it
never receives from a closed channel while the context is live
(`watch_loops_survive_iff`).
-/

namespace ClusterGo.Watch

open Transition

/-! ## The loop -/

/-- A watch channel.  A receive from a nil channel blocks. -/
inductive Chan where
  | nil
  | opened
  | closed
deriving DecidableEq, Repr

structure Loop where
  config : Chan
  alive : Chan
  hadError : Bool := false
  /-- The loop has returned. -/
  returned : Bool := false
  /-- The context is cancelled. -/
  cancelled : Bool := false
  sub : Subscriber := {}

/-- The cases of the `select`, and what may happen around it.  `ρ` is what is
received from a channel, and `τ` is what the store answers in a tick. -/
inductive Event (ρ τ : Type) where
  | config (resp : ρ)
  | alive (resp : ρ)
  /-- A receive with `ok == false`. -/
  | configClosed
  | aliveClosed
  | tick (reads : τ)
  | done
  | closeConfig
  | closeAlive
  | cancel

/-- What a backend does in the cases of the `select`. -/
structure Backend (ρ τ : Type) where
  onConfig : Loop → ρ → Loop
  onAlive : Loop → ρ → Loop
  onTick : Loop → τ → Loop

variable {ρ τ : Type}

def step (b : Backend ρ τ) (l : Loop) : Event ρ τ → Option Loop
  | .config resp =>
    if l.returned = false ∧ l.config = .opened then some (b.onConfig l resp) else none
  | .alive resp =>
    if l.returned = false ∧ l.alive = .opened then some (b.onAlive l resp) else none
  | .configClosed =>
    if l.returned = false ∧ l.config = .closed then some { l with returned := true } else none
  | .aliveClosed =>
    if l.returned = false ∧ l.alive = .closed then some { l with returned := true } else none
  | .tick reads => if l.returned = false then some (b.onTick l reads) else none
  | .done =>
    if l.returned = false ∧ l.cancelled = true then some { l with returned := true } else none
  | .closeConfig => if l.config = .opened then some { l with config := .closed } else none
  | .closeAlive => if l.alive = .opened then some { l with alive := .closed } else none
  | .cancel => some { l with cancelled := true }

/-- The loop does not receive from a closed channel, or the context is
cancelled. -/
def Event.Sound (l : Loop) : Event ρ τ → Prop
  | .configClosed | .aliveClosed => l.cancelled = true
  | _ => True

/-- The loop has not returned, unless the context is cancelled. -/
def Loop.Survives (l : Loop) : Prop := l.cancelled = false → l.returned = false

/-- The cases of a backend leave it to the loop to return. -/
structure Backend.Keeps (b : Backend ρ τ) : Prop where
  config : ∀ l resp, (b.onConfig l resp).returned = l.returned ∧
    (b.onConfig l resp).cancelled = l.cancelled
  alive : ∀ l resp, (b.onAlive l resp).returned = l.returned ∧
    (b.onAlive l resp).cancelled = l.cancelled
  tick : ∀ l reads, (b.onTick l reads).returned = l.returned ∧
    (b.onTick l reads).cancelled = l.cancelled

section Survives

variable {b : Backend ρ τ}

/-- A step after which the loop has returned from a closed channel. -/
theorem sound_of_survives {l l' : Loop} {e : Event ρ τ} (hstep : step b l e = some l')
    (h : l'.Survives) : e.Sound l := by
  cases e with
  | configClosed | aliveClosed =>
    obtain ⟨_, hstep⟩ := Option.ite_none_right_eq_some.mp hstep
    obtain rfl := Option.some.inj hstep
    show l.cancelled = true
    by_contra hlive
    exact Bool.false_ne_true (h (Bool.not_eq_true _ ▸ hlive)).symm
  | config _ | alive _ | tick _ | done | closeConfig | closeAlive | cancel => exact trivial

theorem survives_of_sound (hb : b.Keeps) {l l' : Loop} {e : Event ρ τ} (h : l.Survives)
    (hsound : e.Sound l) (hstep : step b l e = some l') : l'.Survives := by
  cases e with
  | config resp =>
    obtain ⟨_, hstep⟩ := Option.ite_none_right_eq_some.mp hstep
    obtain rfl := Option.some.inj hstep
    rw [Loop.Survives, (hb.config l resp).1, (hb.config l resp).2]
    exact h
  | alive resp =>
    obtain ⟨_, hstep⟩ := Option.ite_none_right_eq_some.mp hstep
    obtain rfl := Option.some.inj hstep
    rw [Loop.Survives, (hb.alive l resp).1, (hb.alive l resp).2]
    exact h
  | tick reads =>
    obtain ⟨_, hstep⟩ := Option.ite_none_right_eq_some.mp hstep
    obtain rfl := Option.some.inj hstep
    rw [Loop.Survives, (hb.tick l reads).1, (hb.tick l reads).2]
    exact h
  | configClosed | aliveClosed =>
    obtain ⟨_, hstep⟩ := Option.ite_none_right_eq_some.mp hstep
    obtain rfl := Option.some.inj hstep
    intro hlive
    exact absurd (hlive.symm.trans hsound) Bool.false_ne_true
  | done =>
    obtain ⟨⟨_, hcancelled⟩, hstep⟩ := Option.ite_none_right_eq_some.mp hstep
    obtain rfl := Option.some.inj hstep
    intro hlive
    exact absurd (hlive.symm.trans hcancelled) Bool.false_ne_true
  | closeConfig | closeAlive =>
    obtain ⟨_, hstep⟩ := Option.ite_none_right_eq_some.mp hstep
    obtain rfl := Option.some.inj hstep
    exact h
  | cancel =>
    obtain rfl := Option.some.inj hstep
    intro hlive
    cases hlive

/-- A property that is the same as surviving, over a whole run. -/
theorem survives_iff (hb : b.Keeps) {P : Loop → Prop} (hP : ∀ l, P l ↔ l.Survives)
    {l l' : Loop} (hl : l.Survives) {es : List (Event ρ τ)}
    (hrun : Transition.run (step b) l es = some l') :
    (Along (step b) (fun l _ => P l) l es ∧ P l') ↔ Along (step b) Event.Sound l es := by
  obtain rfl : P = Loop.Survives := funext fun l => propext (hP l)
  constructor
  · intro h
    exact Along.of_states (I := fun _ => True) trivial (fun _ _ _ _ _ => trivial)
      (fun _ _ _ _ hstep h => sound_of_survives hstep h) h.1 hrun h.2
  · intro hsound
    exact Along.states hl (fun _ _ _ h hs hstep => survives_of_sound hb h hs hstep) hsound hrun

end Survives

/-! ## The store in a tick -/

/-- The records of a store are those of their keys, as `UpdateMember` writes
them. -/
def Homed {N : Type} (lib : RecordLib N) (config : String → Option Text) : Prop :=
  ∀ k v n, config k = some v → Member.parse lib v = some n → n.addr.logicAddr.string = k

/-- The maps of the subscriber are the content of the store. -/
structure Mirrors {N : Type} (lib : RecordLib N) (sub : Subscriber)
    (config alive : String → Option Text) : Prop where
  members : ∀ k, sub.members.get k = (config k).bind (Member.parse lib)
  alive : ∀ k, sub.alive k = (alive k).isSome

/-- While the context is live the loop runs, and a tick whose reads succeed
resynchronises both maps with the store. -/
def Serves {N : Type} (lib : RecordLib N) (b : Backend ρ τ)
    (reads : τ → (String → Option Text) → (String → Option Text) → Prop) (l : Loop) : Prop :=
  l.cancelled = false → l.returned = false ∧
    ∀ r config alive, Homed lib config → reads r config alive →
      ∃ l', step b l (.tick r) = some l' ∧ Mirrors lib l'.sub config alive

theorem serves_iff {N : Type} {lib : RecordLib N} {b : Backend ρ τ}
    {reads : τ → (String → Option Text) → (String → Option Text) → Prop}
    (htick : ∀ l r config alive, Homed lib config → reads r config alive →
      Mirrors lib (b.onTick l r).sub config alive) (l : Loop) :
    Serves lib b reads l ↔ l.Survives := by
  constructor
  · intro h hlive
    exact (h hlive).1
  · intro h hlive
    refine ⟨h hlive, ?_⟩
    intro r config alive hhomed hreads
    exact ⟨_, if_pos (h hlive), htick l r config alive hhomed hreads⟩

/-! ## The etcd loop -/

section Etcd

variable {N : Type}

/-- The answers of the two reads of a tick, and the orders in which the maps
are ranged over. -/
structure EtcdReads where
  members : Option (List (String × Text))
  alives : Option (List (String × Text))
  oldMembers : List String := []
  newMembers : List String := []
  oldAlives : List String := []
  newAlives : List String := []

/-- Both reads succeed and give the content of the store. -/
def EtcdReads.Of (r : EtcdReads) (config alive : String → Option Text) : Prop :=
  (∃ kvs, r.members = some kvs ∧ Enumerates config kvs) ∧
    ∃ kvs, r.alives = some kvs ∧ Enumerates alive kvs

/-- The cases of the etcd loop.  A response is a list of events or an
error. -/
def etcd (lib : RecordLib N) : Backend (Option (List Etcd.Event)) EtcdReads where
  onConfig := fun l resp =>
    match resp with
    | none => { l with hadError := true }
    | some events => { l with sub := (Etcd.handleConfigEvents lib l.sub events).1 }
  onAlive := fun l resp =>
    match resp with
    | none => { l with hadError := true }
    | some events => { l with sub := (Etcd.handleAliveEvents l.sub events).1 }
  onTick := fun l r =>
    let sub := match r.members with
      | none => l.sub
      | some kvs => (Etcd.getMembers lib l.sub kvs r.oldMembers r.newMembers).1
    let sub := match r.alives with
      | none => sub
      | some kvs => (Etcd.getAlives sub kvs r.oldAlives r.newAlives).1
    let hadError := l.hadError || r.members.isNone || r.alives.isNone
    { l with
      sub
      hadError := if hadError ∧ r.members.isSome ∧ r.alives.isSome then false else hadError }

theorem etcd_keeps (lib : RecordLib N) : (etcd lib).Keeps where
  config := fun _ resp => by cases resp <;> exact ⟨rfl, rfl⟩
  alive := fun _ resp => by cases resp <;> exact ⟨rfl, rfl⟩
  tick := fun _ _ => ⟨rfl, rfl⟩

theorem etcd_tick_synced (lib : RecordLib N) (l : Loop) {r : EtcdReads}
    {config alive : String → Option Text} (hhomed : Homed lib config) (hreads : r.Of config alive) :
    Mirrors lib ((etcd lib).onTick l r).sub config alive := by
  obtain ⟨⟨kvs, hmembers, henum⟩, ⟨kvs', halives, henum'⟩⟩ := hreads
  dsimp only [etcd]
  rw [hmembers, halives]
  refine ⟨Members.get_read henum hhomed, ?_⟩
  intro k
  show decide (k ∈ kvs'.map Prod.fst) = (alive k).isSome
  rw [Bool.eq_iff_iff, decide_eq_true_iff]
  exact henum'.mem_keys k

end Etcd

/-! ## The natsjet loop -/

section Natsjet

variable {N : Type}

/-- The answers in a tick, with the results of `WatchAll` after an error. -/
structure NatsjetReads where
  members : Natsjet.Listing
  get : String → Option Text
  alives : Natsjet.Listing
  membersWatched : Bool
  aliveWatched : Bool
  oldMembers : List String := []
  newMembers : List String := []
  oldAlives : List String := []
  newAlives : List String := []

def NatsjetReads.Of (r : NatsjetReads) (config alive : String → Option Text) : Prop :=
  (∃ keys, r.members.toKeys = some keys ∧
      Enumerates config (keys.filterMap fun k => (r.get k).map fun v => (k, v))) ∧
    ∃ keys, r.alives.toKeys = some keys ∧ ∀ k, k ∈ keys ↔ (alive k).isSome = true

/-- A watcher that could not be opened leaves the old channel. -/
def rewatched (watched : Bool) (old : Chan) : Chan := if watched then .opened else old

def natsjet (lib : RecordLib N) : Backend (Option Natsjet.KeyValueEntry) NatsjetReads where
  onConfig := fun l entry => { l with sub := (Natsjet.handleConfigEntry lib l.sub entry).1 }
  onAlive := fun l entry => { l with sub := (Natsjet.handleAliveEntry l.sub entry).1 }
  onTick := fun l r =>
    let sub := (Natsjet.getMembers lib l.sub r.members r.get r.oldMembers r.newMembers).elim
      l.sub Prod.fst
    let sub := (Natsjet.getAlives sub r.alives r.oldAlives r.newAlives).elim sub Prod.fst
    if r.members.isError || r.alives.isError then { l with sub, hadError := true }
    else if l.hadError then
      { l with
        sub
        config := rewatched r.membersWatched l.config
        alive := rewatched r.aliveWatched l.alive
        hadError := false }
    else { l with sub }

theorem natsjet_keeps (lib : RecordLib N) : (natsjet lib).Keeps where
  config := fun _ _ => ⟨rfl, rfl⟩
  alive := fun _ _ => ⟨rfl, rfl⟩
  tick := by
    intro l r
    dsimp only [natsjet]
    split_ifs <;> exact ⟨rfl, rfl⟩

theorem natsjet_tick_synced (lib : RecordLib N) (l : Loop) {r : NatsjetReads}
    {config alive : String → Option Text} (hhomed : Homed lib config) (hreads : r.Of config alive) :
    Mirrors lib ((natsjet lib).onTick l r).sub config alive := by
  obtain ⟨⟨keys, hmembers, henum⟩, ⟨keys', halives, hkeys⟩⟩ := hreads
  have hsub : ((natsjet lib).onTick l r).sub =
      ((l.sub.takeMembers Natsjet.gone (Members.read lib (keys.filterMap r.get)) r.oldMembers
        r.newMembers).1.takeAlives (fun k => k ∈ keys') r.oldAlives r.newAlives).1 := by
    dsimp only [natsjet, Natsjet.getMembers, Natsjet.getAlives]
    rw [hmembers, halives]
    split_ifs <;> rfl
  rw [hsub]
  refine ⟨?_, ?_⟩
  · have hvalues : keys.filterMap r.get =
        (keys.filterMap fun k => (r.get k).map fun v => (k, v)).map Prod.snd := by
      rw [List.map_filterMap]
      congr 1
      funext k
      cases r.get k <;> rfl
    show ∀ k, (Members.read lib (keys.filterMap r.get)).get k = _
    rw [hvalues]
    exact Members.get_read henum hhomed
  · intro k
    show decide (k ∈ keys') = (alive k).isSome
    rw [Bool.eq_iff_iff, decide_eq_true_iff]
    exact hkeys k

end Natsjet

/-! ## Both loops -/

/-- The loop after `Subscribe` has filled the maps. -/
def start (config alive : Chan) (sub : Subscriber) : Loop := { config, alive, sub }

theorem start_survives (config alive : Chan) (sub : Subscriber) :
    (start config alive sub).Survives := fun _ => rfl

/-- A watch loop runs while its context is live, and resynchronises in every
tick whose reads succeed, if and only if it never receives from a closed
channel while the context is live.  The watchers of natsjet may have failed
to open. -/
theorem watch_loops_survive_iff {N : Type} (lib : RecordLib N) (sub : Subscriber) :
    (∀ es l, Transition.run (step (etcd lib)) (start .opened .opened sub) es = some l →
      ((Along (step (etcd lib)) (fun l _ => Serves lib (etcd lib) EtcdReads.Of l)
          (start .opened .opened sub) es ∧ Serves lib (etcd lib) EtcdReads.Of l) ↔
        Along (step (etcd lib)) Event.Sound (start .opened .opened sub) es)) ∧
    (∀ config alive es l,
      Transition.run (step (natsjet lib)) (start config alive sub) es = some l →
      ((Along (step (natsjet lib)) (fun l _ => Serves lib (natsjet lib) NatsjetReads.Of l)
          (start config alive sub) es ∧ Serves lib (natsjet lib) NatsjetReads.Of l) ↔
        Along (step (natsjet lib)) Event.Sound (start config alive sub) es)) := by
  refine ⟨?_, ?_⟩
  · intro es l hrun
    refine survives_iff (etcd_keeps lib) (serves_iff ?_) (start_survives _ _ sub) hrun
    intro l r config alive hhomed hreads
    exact etcd_tick_synced lib l hhomed hreads
  · intro config alive es l hrun
    refine survives_iff (natsjet_keeps lib) (serves_iff ?_) (start_survives _ _ sub) hrun
    intro l r config alive hhomed hreads
    exact natsjet_tick_synced lib l hhomed hreads

/-- A watch error, a tick in which one read fails, and the end. -/
def faultyEvents : List (Event (Option (List Etcd.Event)) EtcdReads) :=
  [.config none, .tick { members := some [], alives := none }, .cancel, .closeAlive, .aliveClosed]

theorem watch_loops_survive_faulty :
    Along (step (etcd plainLib)) (fun l _ => Serves plainLib (etcd plainLib) EtcdReads.Of l)
      (start .opened .opened {}) faultyEvents := by
  refine (((watch_loops_survive_iff plainLib {}).1 faultyEvents _ rfl).mpr ?_).1
  refine ⟨trivial, fun l₁ _ => ⟨trivial, fun l₂ _ => ⟨trivial, fun l₃ h₃ => ⟨trivial,
    fun l₄ h₄ => ⟨?_, fun _ _ => trivial⟩⟩⟩⟩⟩
  obtain rfl := Option.some.inj h₃
  obtain ⟨_, h₄⟩ := Option.ite_none_right_eq_some.mp h₄
  obtain rfl := Option.some.inj h₄
  rfl

/-- The server closes the config channel, and the loop receives from it. -/
def compaction {ρ τ : Type} : List (Event ρ τ) := [.closeConfig, .configClosed]

/-- Both loops have returned, and their contexts are live. -/
theorem compaction_ends_loops :
    (∃ l, Transition.run (step (etcd plainLib)) (start .opened .opened {}) compaction = some l ∧
      l.returned = true ∧ l.cancelled = false) ∧
    (∃ l, Transition.run (step (natsjet plainLib)) (start .opened .opened {}) compaction = some l ∧
      l.returned = true ∧ l.cancelled = false) :=
  ⟨⟨_, rfl, rfl, rfl⟩, ⟨_, rfl, rfl, rfl⟩⟩

end ClusterGo.Watch
