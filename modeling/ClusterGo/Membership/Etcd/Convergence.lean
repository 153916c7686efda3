import ClusterGo.Lib.Replica
import ClusterGo.Lib.Transition
import ClusterGo.Membership.Etcd.Basic

/-!
# The two maps converge to the store

The keys under one prefix, the events of its watch that are not delivered
yet, and the map of the subscriber that follows them: this is a replica
behind a queue of changes.  `System` has two of them, one for the
configuration and one for the heartbeats, which share nothing but the
subscriber.

Etcd makes an event for every change after a watch has started, and none for
a deletion of a key that is not there.  A lease that expires deletes its key.

What makes the configuration more than a copy is that a record that cannot be
parsed is skipped.  The records of one key are all readable or all not, since
this depends on the logic address alone, so nothing is left behind that a
skipped record should have replaced (`Written`, `OnlyReadable`).
-/

namespace ClusterGo.Etcd

open Transition Replica

variable {N : Type}

/-! ## The model -/

/-- The keys under a prefix, and the events on the way to the watch. -/
structure Channel where
  keys : String → Option Text := fun _ => none
  watched : Bool := false
  queue : List Event := []

namespace Channel

/-- The event of a change. -/
def notify (c : Channel) (ev : Event) : Channel :=
  if c.watched then { c with queue := c.queue ++ [ev] } else c

def put (c : Channel) (key : String) (value : Text) : Channel :=
  { c with keys := Function.update c.keys key (some value) }.notify (.put key value)

def delete (c : Channel) (key : String) : Channel :=
  if (c.keys key).isSome then
    { c with keys := Function.update c.keys key none }.notify (.delete key)
  else c

end Channel

structure System where
  config : Channel := {}
  alive : Channel := {}
  sub : Subscriber := {}
  /-- `getMembers` has succeeded since the watch started. -/
  membersRead : Bool := false
  /-- `getAlives` has succeeded since the watch started. -/
  alivesRead : Bool := false

inductive Action where
  | updateMember (n : Member)
  | removeMember (n : LogicAddr)
  | keepAlive (n : LogicAddr)
  | leaseExpired (key : String)
  | watchConfig
  | watchAlive
  | configEvents (size : Nat)
  | aliveEvents (size : Nat)
  | getMembers (kvs : List (String × Text)) (oldKeys newKeys : List String)
  | getAlives (kvs : List (String × Text)) (oldKeys newKeys : List String)

def step (lib : RecordLib N) (s : System) : Action → Option System
  | .updateMember n =>
    match n.marshal lib with
    | .ok data => some { s with config := s.config.put n.addr.logicAddr.string data }
    | .error _ => some s
  | .removeMember n => some { s with config := s.config.delete n.string }
  | .keepAlive n => some { s with alive := s.alive.put n.string ['1'] }
  | .leaseExpired key =>
    if (s.alive.keys key).isSome then some { s with alive := s.alive.delete key } else none
  | .watchConfig => some { s with config := { s.config with watched := true } }
  | .watchAlive => some { s with alive := { s.alive with watched := true } }
  | .configEvents size =>
    some { s with
      config := { s.config with queue := s.config.queue.drop size }
      sub := (handleConfigEvents lib s.sub (s.config.queue.take size)).1 }
  | .aliveEvents size =>
    some { s with
      alive := { s.alive with queue := s.alive.queue.drop size }
      sub := (handleAliveEvents s.sub (s.alive.queue.take size)).1 }
  | .getMembers kvs oldKeys newKeys =>
    some { s with
      sub := (getMembers lib s.sub kvs oldKeys newKeys).1
      membersRead := s.config.watched }
  | .getAlives kvs oldKeys newKeys =>
    some { s with
      sub := (getAlives s.sub kvs oldKeys newKeys).1
      alivesRead := s.alive.watched }

/-- A snapshot reads what the store has. -/
def Action.Allowed (lib : RecordLib N) (s : System) : Action → Prop
  | .updateMember n => lib.Prints n
  | .getMembers kvs _ _ => Enumerates s.config.keys kvs
  | .getAlives kvs _ _ => Enumerates s.alive.keys kvs
  | _ => True

/-! ## Channels -/

/-- An event as a change of its key. -/
def Event.change : Event → String × Option Text
  | .put key value => (key, some value)
  | .delete key => (key, none)

/-- What is true of a channel whatever the subscriber does. -/
structure Channel.Ordered (c : Channel) : Prop where
  latest : Latest c.keys (c.queue.map Event.change)
  unwatched : c.watched = false → c.queue = []

variable {β : Type} {view : String → Option Text → β} {replica : String → β}

/-- The replica follows the channel. -/
def Channel.Followed (c : Channel) (view : String → Option Text → β) (replica : String → β) :
    Prop :=
  Settled view c.keys (c.queue.map Event.change) replica

namespace Channel

variable {c : Channel}

theorem keys_notify (c : Channel) (ev : Event) : (c.notify ev).keys = c.keys := by
  unfold notify
  split_ifs <;> rfl

theorem watched_notify (c : Channel) (ev : Event) : (c.notify ev).watched = c.watched := by
  unfold notify
  split_ifs <;> rfl

theorem mem_queue_notify {ev ev' : Event} (h : ev' ∈ (c.notify ev).queue) :
    ev' ∈ c.queue ∨ ev' = ev := by
  unfold notify at h
  split_ifs at h
  · rcases List.mem_append.mp h with h | h
    · exact Or.inl h
    · exact Or.inr (List.mem_singleton.mp h)
  · exact Or.inl h

theorem Ordered.change (h : c.Ordered) (ev : Event) :
    ({ c with keys := Function.update c.keys ev.change.1 ev.change.2 }.notify ev).Ordered := by
  unfold notify
  split_ifs with hwatched
  · refine ⟨?_, fun hfalse => absurd hwatched (by rw [hfalse]; exact Bool.false_ne_true)⟩
    show Latest _ ((c.queue ++ [ev]).map Event.change)
    rw [List.map_append]
    exact h.latest.push ev.change.1 ev.change.2
  · have hfalse : c.watched = false := Bool.not_eq_true _ ▸ hwatched
    have hempty := h.unwatched hfalse
    refine ⟨?_, fun _ => hempty⟩
    show Latest _ (c.queue.map Event.change)
    rw [hempty]
    exact latest_nil _

theorem Followed.change (h : c.Followed view replica) (hwatched : c.watched = true) (ev : Event) :
    ({ c with keys := Function.update c.keys ev.change.1 ev.change.2 }.notify ev).Followed
      view replica := by
  unfold notify
  rw [if_pos hwatched]
  show Settled view _ ((c.queue ++ [ev]).map Event.change) replica
  rw [List.map_append]
  exact Settled.push h ev.change.1 ev.change.2

theorem Ordered.watch (h : c.Ordered) : ({ c with watched := true } : Channel).Ordered :=
  ⟨h.latest, fun hfalse => by cases hfalse⟩

theorem Ordered.deliver (h : c.Ordered) (size : Nat) :
    ({ c with queue := c.queue.drop size } : Channel).Ordered := by
  refine ⟨?_, ?_⟩
  · show Latest c.keys ((c.queue.drop size).map Event.change)
    have hlatest := h.latest
    rw [← List.take_append_drop size c.queue, List.map_append] at hlatest
    generalize (c.queue.take size).map Event.change = batch at hlatest
    induction batch with
    | nil => exact hlatest
    | cons ch batch ih => exact ih (Latest.tail hlatest)
  · intro hfalse
    show c.queue.drop size = []
    rw [h.unwatched hfalse, List.drop_nil]

end Channel

/-- An event that makes a map of the subscriber what the view of its value
is.  `part` is that map, and `Fit` an invariant of the subscriber. -/
structure Event.Follows (toEntry : Event → Option Entry) (part : Subscriber → String → β)
    (view : String → Option Text → β) (Fit : Subscriber → Prop) (ev : Event) : Prop where
  self : ∀ sub, Fit sub →
    part (sub.handleElem toEntry ev).1 ev.change.1 = view ev.change.1 ev.change.2
  other : ∀ sub k, k ≠ ev.change.1 → part (sub.handleElem toEntry ev).1 k = part sub k
  fit : ∀ sub, Fit sub → Fit (sub.handleElem toEntry ev).1

/-- A batch of events. -/
theorem settled_batch {toEntry : Event → Option Entry} {part : Subscriber → String → β}
    {Fit : Subscriber → Prop} {keys : String → Option Text} {batch rest : List Event}
    (hbatch : ∀ ev ∈ batch, ev.Follows toEntry part view Fit)
    (hlatest : Latest keys ((batch ++ rest).map Event.change)) {sub : Subscriber} (hsub : Fit sub)
    (hsettled : Settled view keys ((batch ++ rest).map Event.change) (part sub)) :
    Settled view keys (rest.map Event.change) (part (sub.handleAll toEntry batch).1) := by
  induction batch generalizing sub with
  | nil => exact hsettled
  | cons ev batch ih =>
    rw [List.forall_mem_cons] at hbatch
    obtain ⟨hev, hbatch⟩ := hbatch
    refine ih hbatch (Latest.tail hlatest) (hev.fit sub hsub) ?_
    exact Settled.deliver hsettled hlatest (hev.self sub hsub) (hev.other sub)

theorem fit_batch {toEntry : Event → Option Entry} {part : Subscriber → String → β}
    {Fit : Subscriber → Prop} {batch : List Event}
    (hbatch : ∀ ev ∈ batch, ev.Follows toEntry part view Fit) {sub : Subscriber}
    (hsub : Fit sub) : Fit (sub.handleAll toEntry batch).1 := by
  induction batch generalizing sub with
  | nil => exact hsub
  | cons ev batch ih =>
    rw [List.forall_mem_cons] at hbatch
    exact ih hbatch.2 (hbatch.1.fit sub hsub)

/-! ## The configuration -/

/-- The record was written by `UpdateMember`. -/
def Written (lib : RecordLib N) (key : String) (value : Text) : Prop :=
  ∃ n, lib.Prints n ∧ n.marshal lib = .ok value ∧ n.addr.logicAddr.string = key

theorem Written.parse_eq_some {lib : RecordLib N} (hlib : lib.Lawful) {key : String}
    {value : Text} (h : Written lib key value) {m : Member}
    (hm : Member.parse lib value = some m) :
    m.addr.logicAddr.string = key ∧ m.addr.logicAddr.Readable := by
  obtain ⟨n, hprints, hdata, rfl⟩ := h
  rw [parse_marshal hlib hprints hdata] at hm
  obtain ⟨hreadable, hm⟩ := Option.ite_none_right_eq_some.mp hm
  obtain rfl := Option.some.inj hm
  exact ⟨rfl, hreadable⟩

/-- A record that cannot be parsed belongs to an address of which no record
can be parsed. -/
theorem Written.parse_eq_none {lib : RecordLib N} (hlib : lib.Lawful) {key : String}
    {value : Text} (h : Written lib key value) (hnone : Member.parse lib value = none)
    {a : LogicAddr} (ha : a.string = key) : ¬ a.Readable := by
  obtain ⟨n, hprints, hdata, rfl⟩ := h
  rw [parse_marshal hlib hprints hdata] at hnone
  intro hreadable
  rw [LogicAddr.string_injective ha] at hreadable
  rw [if_pos hreadable] at hnone
  cases hnone

/-- The map holds members of readable addresses only. -/
def OnlyReadable (sub : Subscriber) : Prop :=
  ∀ k n, sub.members.get k = some n → n.addr.logicAddr.Readable

section Config

variable {lib : RecordLib N}

/-- The members of a store. -/
def membersView (lib : RecordLib N) (_key : String) (value : Option Text) : Option Member :=
  value.bind (Member.parse lib)

theorem put_follows (hlib : lib.Lawful) {key : String} {value : Text}
    (h : Written lib key value) :
    (Event.put key value).Follows (Event.configEntry lib) (fun sub => sub.members.get)
      (membersView lib) OnlyReadable := by
  cases hparse : Member.parse lib value with
  | none =>
    have hskip : ∀ sub : Subscriber,
        sub.handleElem (Event.configEntry lib) (.put key value) = (sub, none) := by
      intro sub
      simp only [Subscriber.handleElem, Event.configEntry, hparse, Option.map_none]
    refine ⟨?_, ?_, ?_⟩
    · intro sub hsub
      show (sub.handleElem _ _).1.members.get key = Member.parse lib value
      rw [hskip, hparse, Option.eq_none_iff_forall_ne_some]
      intro n hn
      exact h.parse_eq_none hlib hparse (sub.members.keyed key n hn) (hsub key n hn)
    · intro sub k _
      rw [hskip]
    · intro sub hsub
      rw [hskip]
      exact hsub
  | some n =>
    obtain ⟨hkey, hreadable⟩ := h.parse_eq_some hlib hparse
    have hput : ∀ sub : Subscriber,
        (sub.handleElem (Event.configEntry lib) (.put key value)).1 = sub.insertMember n := by
      intro sub
      simp only [Subscriber.handleElem, Event.configEntry, hparse, Option.map_some]
      rfl
    refine ⟨?_, ?_, ?_⟩
    · intro sub _
      show (sub.handleElem _ _).1.members.get key = Member.parse lib value
      rw [hput, hparse, ← hkey]
      exact sub.members.get_insert_self n
    · intro sub k hk
      show (sub.handleElem _ _).1.members.get k = sub.members.get k
      rw [hput]
      exact sub.members.get_insert_of_ne (hkey ▸ hk)
    · intro sub hsub k m hm
      rw [hput] at hm
      by_cases hk : k = n.addr.logicAddr.string
      · have hself : (sub.insertMember n).members.get k = some n :=
          hk ▸ sub.members.get_insert_self n
        rw [← Option.some.inj (hself.symm.trans hm)]
        exact hreadable
      · exact hsub k m ((sub.members.get_insert_of_ne hk).symm.trans hm)

theorem delete_follows (key : String) :
    (Event.delete key).Follows (Event.configEntry lib) (fun sub => sub.members.get)
      (membersView lib) OnlyReadable := by
  have hdelete : ∀ sub : Subscriber,
      Subscriber.Handles sub (.delete key)
        (sub.handleElem (Event.configEntry lib) (.delete key)) :=
    fun sub => sub.handles (.delete key)
  refine ⟨?_, ?_, ?_⟩
  · intro sub _
    exact congrArg Prod.fst (hdelete sub).self
  · intro sub k hk
    exact congrArg Prod.fst ((hdelete sub).other k hk)
  · intro sub hsub k n hn
    by_cases hk : k = key
    · rw [hk, show (sub.handleElem _ (Event.delete key)).1.members.get key = none from
        congrArg Prod.fst (hdelete sub).self] at hn
      cases hn
    · exact hsub k n ((congrArg Prod.fst ((hdelete sub).other k hk)).symm.trans hn)

/-- What every action keeps of the configuration. -/
structure ConfigInv (lib : RecordLib N) (c : Channel) (read : Bool) (sub : Subscriber) :
    Prop where
  ordered : c.Ordered
  written : ∀ k v, c.keys k = some v → Written lib k v
  queued : ∀ k v, Event.put k v ∈ c.queue → Written lib k v
  readable : OnlyReadable sub
  followed : read = true →
    c.watched = true ∧ c.Followed (membersView lib) sub.members.get

namespace ConfigInv

variable {c : Channel} {read : Bool} {sub : Subscriber}

theorem frame (h : ConfigInv lib c read sub) {sub' : Subscriber}
    (hget : sub'.members.get = sub.members.get) : ConfigInv lib c read sub' where
  ordered := h.ordered
  written := h.written
  queued := h.queued
  readable := by
    intro k n hn
    rw [hget] at hn
    exact h.readable k n hn
  followed := by
    rw [hget]
    exact h.followed

/-- A change by an admin. -/
theorem change (h : ConfigInv lib c read sub) (ev : Event)
    (hev : ∀ k v, ev = .put k v → Written lib k v) :
    ConfigInv lib
      ({ c with keys := Function.update c.keys ev.change.1 ev.change.2 }.notify ev) read sub where
  ordered := h.ordered.change ev
  written := by
    intro k v hk
    have hk : Function.update c.keys ev.change.1 ev.change.2 k = some v :=
      (congrFun (Channel.keys_notify _ ev) k).symm.trans hk
    by_cases hkey : k = ev.change.1
    · rw [hkey, Function.update_self] at hk
      refine hev k v ?_
      cases ev with
      | put key value =>
        rw [show k = key from hkey, Option.some.inj hk]
      | delete key => cases hk
    · rw [Function.update_of_ne hkey] at hk
      exact h.written k v hk
  queued := by
    intro k v hmem
    rcases Channel.mem_queue_notify hmem with hmem | hmem
    · exact h.queued k v hmem
    · exact hev k v hmem.symm
  readable := h.readable
  followed := by
    intro hread
    obtain ⟨hwatched, hfollowed⟩ := h.followed hread
    exact ⟨(Channel.watched_notify _ _).trans hwatched, hfollowed.change hwatched ev⟩

theorem put (h : ConfigInv lib c read sub) {n : Member} (hn : lib.Prints n) {data : Text}
    (hdata : n.marshal lib = .ok data) :
    ConfigInv lib (c.put n.addr.logicAddr.string data) read sub := by
  refine h.change (.put n.addr.logicAddr.string data) ?_
  intro k v heq
  obtain ⟨rfl, rfl⟩ := Event.put.inj heq
  exact ⟨n, hn, hdata, rfl⟩

theorem delete (h : ConfigInv lib c read sub) (key : String) :
    ConfigInv lib (c.delete key) read sub := by
  unfold Channel.delete
  split_ifs
  · exact h.change (.delete key) fun _ _ heq => by cases heq
  · exact h

theorem watch (h : ConfigInv lib c read sub) :
    ConfigInv lib { c with watched := true } read sub :=
  ⟨h.ordered.watch, h.written, h.queued, h.readable, fun hread => ⟨rfl, (h.followed hread).2⟩⟩

theorem follows (hlib : lib.Lawful) (h : ConfigInv lib c read sub) {ev : Event}
    (hev : ev ∈ c.queue) :
    ev.Follows (Event.configEntry lib) (fun sub => sub.members.get) (membersView lib)
      OnlyReadable := by
  cases ev with
  | put key value => exact put_follows hlib (h.queued key value hev)
  | delete key => exact delete_follows key

theorem deliver (hlib : lib.Lawful) (h : ConfigInv lib c read sub) (size : Nat) :
    ConfigInv lib { c with queue := c.queue.drop size } read
      (handleConfigEvents lib sub (c.queue.take size)).1 := by
  have hbatch : ∀ ev ∈ c.queue.take size, ev.Follows (Event.configEntry lib)
      (fun sub => sub.members.get) (membersView lib) OnlyReadable :=
    fun ev hev => h.follows hlib (List.mem_of_mem_take hev)
  refine ⟨h.ordered.deliver size, h.written, ?_, fit_batch hbatch h.readable, ?_⟩
  · intro k v hmem
    exact h.queued k v (List.mem_of_mem_drop hmem)
  · intro hread
    obtain ⟨hwatched, hfollowed⟩ := h.followed hread
    refine ⟨hwatched, ?_⟩
    have hsplit := List.take_append_drop size c.queue
    exact settled_batch hbatch (hsplit.symm ▸ h.ordered.latest) h.readable
      (hsplit.symm ▸ hfollowed)

/-- A snapshot. -/
theorem take (hlib : lib.Lawful) (h : ConfigInv lib c read sub) {kvs : List (String × Text)}
    (henum : Enumerates c.keys kvs) (oldKeys newKeys : List String) :
    ConfigInv lib c c.watched (getMembers lib sub kvs oldKeys newKeys).1 := by
  have hget : ∀ k, (Members.read lib (kvs.map Prod.snd)).get k = membersView lib k (c.keys k) :=
    Members.get_read henum fun k v n hv hn => ((h.written k v hv).parse_eq_some hlib hn).1
  refine ⟨h.ordered, h.written, h.queued, ?_, fun hwatched => ⟨hwatched, settled_copy hget _⟩⟩
  intro k n hn
  obtain ⟨v, hv, hparse⟩ := Option.bind_eq_some_iff.mp ((hget k).symm.trans hn)
  exact ((h.written k v hv).parse_eq_some hlib hparse).2

end ConfigInv

end Config

/-! ## The heartbeats -/

def alivesView (_key : String) (value : Option Text) : Bool := value.isSome

theorem alive_follows (ev : Event) :
    ev.Follows Event.aliveEntry (fun sub => sub.alive) alivesView fun _ => True := by
  cases ev with
  | put key value =>
    have hup : ∀ sub : Subscriber, Subscriber.Handles sub (.up key)
        (sub.handleElem Event.aliveEntry (.put key value)) := fun sub => sub.handles (.up key)
    exact ⟨fun sub _ => congrArg Prod.snd (hup sub).self,
      fun sub k hk => congrArg Prod.snd ((hup sub).other k hk), fun _ _ => trivial⟩
  | delete key =>
    have hdown : ∀ sub : Subscriber, Subscriber.Handles sub (.down key)
        (sub.handleElem Event.aliveEntry (.delete key)) := fun sub => sub.handles (.down key)
    exact ⟨fun sub _ => congrArg Prod.snd (hdown sub).self,
      fun sub k hk => congrArg Prod.snd ((hdown sub).other k hk), fun _ _ => trivial⟩

structure AliveInv (c : Channel) (read : Bool) (sub : Subscriber) : Prop where
  ordered : c.Ordered
  followed : read = true → c.watched = true ∧ c.Followed alivesView sub.alive

namespace AliveInv

variable {c : Channel} {read : Bool} {sub : Subscriber}

theorem frame (h : AliveInv c read sub) {sub' : Subscriber} (halive : sub'.alive = sub.alive) :
    AliveInv c read sub' :=
  ⟨h.ordered, halive ▸ h.followed⟩

theorem change (h : AliveInv c read sub) (ev : Event) :
    AliveInv ({ c with keys := Function.update c.keys ev.change.1 ev.change.2 }.notify ev) read
      sub := by
  refine ⟨h.ordered.change ev, ?_⟩
  intro hread
  obtain ⟨hwatched, hfollowed⟩ := h.followed hread
  exact ⟨(Channel.watched_notify _ _).trans hwatched, hfollowed.change hwatched ev⟩

theorem put (h : AliveInv c read sub) (key : String) (value : Text) :
    AliveInv (c.put key value) read sub :=
  h.change (.put key value)

theorem delete (h : AliveInv c read sub) (key : String) : AliveInv (c.delete key) read sub := by
  unfold Channel.delete
  split_ifs
  · exact h.change (.delete key)
  · exact h

theorem watch (h : AliveInv c read sub) : AliveInv { c with watched := true } read sub :=
  ⟨h.ordered.watch, fun hread => ⟨rfl, (h.followed hread).2⟩⟩

theorem deliver (h : AliveInv c read sub) (size : Nat) :
    AliveInv { c with queue := c.queue.drop size } read
      (handleAliveEvents sub (c.queue.take size)).1 := by
  refine ⟨h.ordered.deliver size, ?_⟩
  intro hread
  obtain ⟨hwatched, hfollowed⟩ := h.followed hread
  refine ⟨hwatched, ?_⟩
  have hsplit := List.take_append_drop size c.queue
  exact settled_batch (fun ev _ => alive_follows ev) (hsplit.symm ▸ h.ordered.latest) trivial
    (hsplit.symm ▸ hfollowed)

theorem take (h : AliveInv c read sub) {kvs : List (String × Text)}
    (henum : Enumerates c.keys kvs) (oldKeys newKeys : List String) :
    AliveInv c c.watched (getAlives sub kvs oldKeys newKeys).1 := by
  refine ⟨h.ordered, fun hwatched => ⟨hwatched, settled_copy ?_ _⟩⟩
  intro k
  show decide (k ∈ kvs.map Prod.fst) = (c.keys k).isSome
  rw [Bool.eq_iff_iff, decide_eq_true_iff]
  exact henum.mem_keys k

end AliveInv

/-! ## Whole runs -/

theorem configEntry_alive {lib : RecordLib N} {ev : Event} {x : Entry}
    (hx : ev.configEntry lib = some x) (c : Cell) : (x.cell c).2 = c.2 := by
  cases ev with
  | put key value =>
    obtain ⟨n, _, rfl⟩ := Option.map_eq_some_iff.mp hx
    rfl
  | delete key =>
    obtain rfl := Option.some.inj hx
    rfl

theorem aliveEntry_members {ev : Event} {x : Entry} (hx : ev.aliveEntry = some x) (c : Cell) :
    (x.cell c).1 = c.1 := by
  cases ev <;> obtain rfl := Option.some.inj hx <;> rfl

structure Inv (lib : RecordLib N) (s : System) : Prop where
  config : ConfigInv lib s.config s.membersRead s.sub
  alive : AliveInv s.alive s.alivesRead s.sub

theorem ordered_start : ({} : Channel).Ordered := ⟨latest_nil _, fun _ => rfl⟩

theorem inv_start (lib : RecordLib N) : Inv lib {} := by
  refine ⟨⟨ordered_start, ?_, ?_, ?_, ?_⟩, ⟨ordered_start, ?_⟩⟩
  · intro k v hk
    cases hk
  · intro k v hmem
    cases hmem
  · intro k n hn
    cases hn
  · intro hread
    cases hread
  · intro hread
    cases hread

theorem Inv.step {lib : RecordLib N} (hlib : lib.Lawful) {s t : System} {a : Action}
    (h : Inv lib s) (hallowed : a.Allowed lib s) (hstep : step lib s a = some t) : Inv lib t := by
  cases a with
  | updateMember n =>
    obtain ⟨data, hdata⟩ := marshal_ok hlib n
    rw [Etcd.step, hdata] at hstep
    obtain rfl := Option.some.inj hstep
    exact ⟨h.config.put hallowed hdata, h.alive⟩
  | removeMember n =>
    obtain rfl := Option.some.inj hstep
    exact ⟨h.config.delete n.string, h.alive⟩
  | keepAlive n =>
    obtain rfl := Option.some.inj hstep
    exact ⟨h.config, h.alive.put n.string ['1']⟩
  | leaseExpired key =>
    obtain ⟨_, hstep⟩ := Option.ite_none_right_eq_some.mp hstep
    obtain rfl := Option.some.inj hstep
    exact ⟨h.config, h.alive.delete key⟩
  | watchConfig =>
    obtain rfl := Option.some.inj hstep
    exact ⟨h.config.watch, h.alive⟩
  | watchAlive =>
    obtain rfl := Option.some.inj hstep
    exact ⟨h.config, h.alive.watch⟩
  | configEvents size =>
    obtain rfl := Option.some.inj hstep
    refine ⟨h.config.deliver hlib size, h.alive.frame (funext fun k => ?_)⟩
    exact Subscriber.handleAll_frame Prod.snd (fun _ _ hx => configEntry_alive hx) s.sub _ k
  | aliveEvents size =>
    obtain rfl := Option.some.inj hstep
    refine ⟨h.config.frame (funext fun k => ?_), h.alive.deliver size⟩
    exact Subscriber.handleAll_frame Prod.fst (fun _ _ hx => aliveEntry_members hx) s.sub _ k
  | getMembers kvs oldKeys newKeys =>
    obtain rfl := Option.some.inj hstep
    exact ⟨h.config.take hlib hallowed oldKeys newKeys, h.alive.frame rfl⟩
  | getAlives kvs oldKeys newKeys =>
    obtain rfl := Option.some.inj hstep
    exact ⟨h.config.frame rfl, h.alive.take hallowed oldKeys newKeys⟩

/-- In every state in which all events are delivered and both snapshots were
taken since the watches started, the members are the members in the store
that can be parsed, and the alive addresses are the keys of the heartbeats. -/
theorem etcd_maps_converge {lib : RecordLib N} (hlib : lib.Lawful) {s : System}
    (hreach : Reach (step lib) (fun s a => a.Allowed lib s) {} s)
    (hconfig : s.config.queue = []) (halive : s.alive.queue = [])
    (hmembersRead : s.membersRead = true) (halivesRead : s.alivesRead = true) :
    (∀ k, s.sub.members.get k = (s.config.keys k).bind (Member.parse lib)) ∧
      ∀ k, s.sub.alive k = (s.alive.keys k).isSome := by
  have hinv : Inv lib s := Reach.invariant (inv_start lib)
    (fun _ _ _ _ hs hallowed hstep => hs.step hlib hallowed hstep) hreach
  have hmembers := (hinv.config.followed hmembersRead).2
  have halives := (hinv.alive.followed halivesRead).2
  rw [Channel.Followed, hconfig] at hmembers
  rw [Channel.Followed, halive] at halives
  refine ⟨?_, ?_⟩
  · intro k
    have hk := Settled.all hmembers k
    exact hk
  · intro k
    have hk := Settled.all halives k
    exact hk

/-- Snapshots of an empty store, and the event of a new member. -/
def guestActions : List Action :=
  [.watchConfig, .watchAlive, .getMembers [] [] [], .getAlives [] [] [], .updateMember guest,
    .configEvents 1]

theorem etcd_maps_converge_guest :
    ∃ s, Transition.run (step plainLib) {} guestActions = some s ∧
      ((∀ k, s.sub.members.get k = (s.config.keys k).bind (Member.parse plainLib)) ∧
        ∀ k, s.sub.alive k = (s.alive.keys k).isSome) ∧
      s.sub.members.get "1.2.3" = some guest := by
  have halong : Along (step plainLib) (fun s a => a.Allowed plainLib s) {} guestActions := by
    refine ⟨trivial, fun s₁ h₁ => ⟨trivial, fun s₂ h₂ => ?_⟩⟩
    obtain rfl := Option.some.inj h₁
    obtain rfl := Option.some.inj h₂
    refine ⟨enumerates_empty, fun s₃ h₃ => ?_⟩
    obtain rfl := Option.some.inj h₃
    exact ⟨enumerates_empty, fun _ _ => ⟨plainLib_prints guest, fun _ _ =>
      ⟨trivial, fun _ _ => trivial⟩⟩⟩
  refine ⟨_, rfl, ?_, by decide +kernel⟩
  exact etcd_maps_converge plainLib_lawful (Reach.of_along .start halong rfl) rfl rfl rfl rfl

end ClusterGo.Etcd
