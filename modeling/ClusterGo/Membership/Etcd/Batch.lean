import ClusterGo.Membership.Etcd.Basic
import ClusterGo.Membership.Regroup
import ClusterGo.NodeCache.Tidy

/-!
# Watch batches and the node cache

One answer of an etcd watch carries a batch of events, and a key may occur
in it several times.  `handleConfigEvents` reports the whole batch in one
`MemberInfo`, which the node cache takes list by list.

`batch_intact_iff` says when the cache agrees with the members of the
backend afterwards: when every visible address is written in an orderly way
(`Orderly`).  The etcd server does not promise that.
-/

namespace ClusterGo

open LocalLoop

namespace Etcd

variable {N : Type} {lib : RecordLib N} {s : Subscriber} {events : List Event}
  {a : LogicAddr}

/-! ## The writes of an address -/

/-- The text of the address that an event is about. -/
def Event.address (lib : RecordLib N) (e : Event) : Option String :=
  (e.configEntry lib).map Entry.key

/-- What an event writes to an address: `some n` puts a record and `none`
deletes it. -/
def Event.write (lib : RecordLib N) (a : LogicAddr) (e : Event) : Option (Option Member) :=
  match e.configEntry lib with
  | some (.put n) => if n.addr.logicAddr = a then some (some n) else none
  | some (.delete k) => if k = a.string then some none else none
  | _ => none

def writes (lib : RecordLib N) (a : LogicAddr) (events : List Event) : List (Option Member) :=
  events.filterMap (Event.write lib a)

/-- An event is about another address, or it writes its address. -/
theorem Event.write_cases (lib : RecordLib N) (a : LogicAddr) (e : Event) :
    e.address lib ≠ some a.string ∧ e.write lib a = none ∨
      ∃ x w, e.configEntry lib = some x ∧ e.address lib = some a.string ∧
        e.write lib a = some w ∧
        (∀ c, x.cell c = (w, c.2)) ∧
          ∀ m alive ws, (x.out (m, alive)).toList ++ reports alive w ws =
            reports alive m (w :: ws) := by
  have hother : ∀ x, e.configEntry lib = some x → x.key ≠ a.string →
      e.address lib ≠ some a.string := by
    intro x hx hne heq
    rw [Event.address, hx, Option.map_some, Option.some_inj] at heq
    exact hne heq
  cases e with
  | put key value =>
    cases hparse : Member.parse lib value with
    | none =>
      have hx : Event.configEntry lib (.put key value) = none := by
        rw [Event.configEntry, hparse, Option.map_none]
      refine Or.inl ⟨?_, by rw [Event.write, hx]⟩
      rw [Event.address, hx]
      exact (Option.some_ne_none _).symm
    | some n =>
      have hx : Event.configEntry lib (.put key value) = some (.put n) := by
        rw [Event.configEntry, hparse, Option.map_some]
      by_cases ha : n.addr.logicAddr = a
      · refine Or.inr ⟨.put n, some n, hx, ?_, ?_, fun _ => rfl, ?_⟩
        · rw [Event.address, hx, ← ha]
          rfl
        · rw [Event.write, hx]
          exact if_pos ha
        · intro m alive ws
          cases m <;> rfl
      · refine Or.inl ⟨hother _ hx fun heq => ha (LogicAddr.string_injective heq), ?_⟩
        rw [Event.write, hx]
        exact if_neg ha
  | delete k =>
    by_cases ha : k = a.string
    · refine Or.inr ⟨.delete k, none, rfl, congrArg some ha, if_pos ha, fun _ => rfl, ?_⟩
      intro m alive ws
      cases m <;> rfl
    · exact Or.inl ⟨hother (.delete k) rfl ha, if_neg ha⟩

/-- The cell of an address after a batch. -/
theorem cell_handleConfigEvents (lib : RecordLib N) (s : Subscriber) (events : List Event)
    (a : LogicAddr) :
    (handleConfigEvents lib s events).1.cell a.string =
      ((writes lib a events).getLastD (s.members.get a.string), s.alive a.string) := by
  rw [handleConfigEvents, Subscriber.handleAll,
    obs_loop (Subscriber.handleAll_isLocal (Event.configEntry lib))]
  show List.foldl _ (s.members.get a.string, s.alive a.string)
    (ofKey (Event.address lib) a.string events) = _
  generalize s.members.get a.string = m
  generalize s.alive a.string = alive
  induction events generalizing m with
  | nil => rfl
  | cons e events ih =>
    rcases e.write_cases lib a with ⟨hkey, hwrite⟩ | ⟨x, w, hx, hkey, hwrite, hcell, _⟩
    · rw [ofKey_cons_of_ne hkey, writes, List.filterMap_cons_none hwrite]
      exact ih m
    · rw [ofKey_cons_self hkey, List.foldl_cons, writes, List.filterMap_cons_some hwrite,
        List.getLastD_cons, hx]
      show List.foldl _ (x.cell (m, alive)) _ = _
      rw [hcell]
      exact ih w

/-- What a batch reports of an address. -/
theorem filter_handleConfigEvents (lib : RecordLib N) (s : Subscriber) (events : List Event)
    (a : LogicAddr) :
    (handleConfigEvents lib s events).2.filter (fun y => y.key = a) =
      reports (s.alive a.string) (s.members.get a.string) (writes lib a events) := by
  have hkeys : (fun y : Change => decide (y.key = a)) =
      fun y : Change => decide (y.key.string = a.string) := by
    funext y
    exact decide_eq_decide.mpr ⟨congrArg _, fun h => LogicAddr.string_injective h⟩
  rw [hkeys, handleConfigEvents, Subscriber.handleAll,
    outputs_of_key (Subscriber.handleAll_isLocal (Event.configEntry lib))
      (Subscriber.key_of_bind_out (Event.configEntry lib))]
  show outputs _ _ (s.members.get a.string, s.alive a.string)
    (ofKey (Event.address lib) a.string events) = _
  generalize s.members.get a.string = m
  generalize s.alive a.string = alive
  induction events generalizing m with
  | nil => rfl
  | cons e events ih =>
    rcases e.write_cases lib a with ⟨hkey, hwrite⟩ | ⟨x, w, hx, hkey, hwrite, hcell, hout⟩
    · rw [ofKey_cons_of_ne hkey, writes, List.filterMap_cons_none hwrite]
      exact ih m
    · rw [ofKey_cons_self hkey, outputs, writes, List.filterMap_cons_some hwrite, ← hout, hx]
      show (x.out (m, alive)).toList ++ outputs _ _ (x.cell (m, alive)) _ = _
      rw [hcell]
      exact congrArg _ (ih w)

end Etcd

/-! ## The cache and the members -/

/-- The callback passes what is reported to the node cache. -/
def NodeCache.notify (cache : NodeCache) (info : MemberInfo) : Option NodeCache :=
  info.callback.foldlM NodeCache.onNodeInfoUpdate cache

theorem NodeCache.notify_eq (cache : NodeCache) (info : MemberInfo) :
    cache.notify info = cache.onNodeInfoUpdate info := by
  unfold notify
  rcases callback_cases info with ⟨hnil, hchanges⟩ | hone
  · rw [hnil, onNodeInfoUpdate, loops_eq, hchanges]
    rfl
  · rw [hone]
    show (cache.onNodeInfoUpdate info).bind _ = _
    cases cache.onNodeInfoUpdate info <;> rfl

/-- The cache holds the visible members of a backend with their joined
availability, the index lists hold the available ones of them, and no other
node is left. -/
structure NodeCache.Agrees (cache : NodeCache) (s : Subscriber) : Prop where
  wf : cache.WF
  tidy : cache.Tidy
  view : ∀ a, cache.view a = shown cache.localAddr (s.view a)

theorem visible_congr {localAddr : LogicAddr} {v w : Member}
    (haddr : v.addr.logicAddr = w.addr.logicAddr) (hexport : v.exported = w.exported) :
    visible localAddr v = visible localAddr w := by
  unfold visible
  rw [haddr, hexport]

namespace Etcd

variable {N : Type} {lib : RecordLib N} {s : Subscriber} {events : List Event}
  {a : LogicAddr}

/-- A record of the members or of the batch. -/
def Occurs (lib : RecordLib N) (s : Subscriber) (events : List Event) (v : Member) : Prop :=
  s.members.get v.addr.logicAddr.string = some v ∨
    ∃ e ∈ events, e.configEntry lib = some (.put v)

/-- No address changes its `Export` flag. -/
def KeepsExport (lib : RecordLib N) (s : Subscriber) (events : List Event) : Prop :=
  ∀ v w, Occurs lib s events v → Occurs lib s events w →
    v.addr.logicAddr = w.addr.logicAddr → v.exported = w.exported

/-- Every visible address is written in an orderly way. -/
def OrderlyBatch (lib : RecordLib N) (localAddr : LogicAddr) (s : Subscriber)
    (events : List Event) : Prop :=
  ∀ v, Occurs lib s events v → visible localAddr v = true →
    Orderly (s.members.get v.addr.logicAddr.string).isSome (writes lib v.addr.logicAddr events)

theorem occurs_of_get {n : Member} (h : s.members.get a.string = some n) :
    Occurs lib s events n ∧ n.addr.logicAddr = a := by
  have hkey := s.members.keyed a.string n h
  refine ⟨Or.inl ?_, LogicAddr.string_injective hkey⟩
  rw [hkey]
  exact h

theorem occurs_of_write {n : Member} (h : some n ∈ writes lib a events) :
    Occurs lib s events n ∧ n.addr.logicAddr = a := by
  obtain ⟨e, he, hwrite⟩ := List.mem_filterMap.mp h
  unfold Event.write at hwrite
  split at hwrite
  · rename_i n' hentry
    split_ifs at hwrite with ha
    obtain rfl := Option.some.inj (Option.some.inj hwrite)
    exact ⟨Or.inr ⟨e, he, hentry⟩, ha⟩
  · split_ifs at hwrite
    cases hwrite
  · cases hwrite

/-- The records of an address are all visible or all invisible. -/
theorem visible_cases (hexport : KeepsExport lib s events) (localAddr a : LogicAddr) :
    (∃ v, Occurs lib s events v ∧ v.addr.logicAddr = a ∧ visible localAddr v = true) ∧
        (∀ n, Occurs lib s events n ∧ n.addr.logicAddr = a → visible localAddr n = true) ∨
      ∀ n, Occurs lib s events n ∧ n.addr.logicAddr = a → visible localAddr n = false := by
  by_cases h : ∃ v, Occurs lib s events v ∧ v.addr.logicAddr = a ∧ visible localAddr v = true
  · refine Or.inl ⟨h, ?_⟩
    intro n hn
    obtain ⟨v, hv, ha, hvis⟩ := h
    have haddr := hn.2.trans ha.symm
    rw [visible_congr haddr (hexport n v hn.1 hv haddr)]
    exact hvis
  · exact Or.inr fun n hn => Bool.eq_false_iff.mpr fun hvis => h ⟨n, hn.1, hn.2, hvis⟩

/-! ## A whole batch -/

variable {cache : NodeCache}

/-- The changes of an address lead to its record after the batch if and only
if it is not visible or written in an orderly way. -/
theorem foldCell_batch_iff (hexport : KeepsExport lib s events) (localAddr a : LogicAddr) :
    foldCell localAddr (shown localAddr (s.view a))
        ((MemberInfo.ofChanges (handleConfigEvents lib s events).2).changes.filter
          fun y => y.key = a) =
      some (shown localAddr ((handleConfigEvents lib s events).1.view a)) ↔
    ∀ v, Occurs lib s events v → v.addr.logicAddr = a → visible localAddr v = true →
      Orderly (s.members.get a.string).isSome (writes lib a events) := by
  have hafter : (handleConfigEvents lib s events).1.view a =
      ((writes lib a events).getLastD (s.members.get a.string)).map
        (Member.joined (s.alive a.string)) :=
    congrArg Cell.shown (cell_handleConfigEvents lib s events a)
  rw [filter_changes, filter_handleConfigEvents, hafter]
  rcases visible_cases hexport localAddr a with ⟨⟨v, hv, ha, hvis⟩, hall⟩ | hnone
  · refine (regrouped_iff (fun n hn => hall n (occurs_of_get hn))
      fun n hn => hall n (occurs_of_write hn)).trans ?_
    exact ⟨fun h _ _ _ _ => h, fun h => h v hv ha hvis⟩
  · refine iff_of_true (regrouped_of_invisible (fun n hn => hnone n (occurs_of_get hn))
      fun n hn => hnone n (occurs_of_write hn)) ?_
    intro v hv ha hvis
    rw [hnone v ⟨hv, ha⟩] at hvis
    cases hvis

/-- A reported change is one of the reports of its address. -/
theorem mem_reports {y : Change} (hy : y ∈ (handleConfigEvents lib s events).2) :
    y ∈ reports (s.alive y.key.string) (s.members.get y.key.string)
      (writes lib y.key events) := by
  rw [← filter_handleConfigEvents, List.mem_filter]
  exact ⟨hy, by simp⟩

/-- A batch that does not touch the local address does not report it. -/
theorem reported_away {localAddr : LogicAddr}
    (hlocal : ∀ e ∈ events, e.address lib ≠ some localAddr.string) {y : Change}
    (hy : y ∈ (handleConfigEvents lib s events).2) : y.key ≠ localAddr := by
  intro hkey
  have hnil : writes lib localAddr events = [] := by
    rw [writes, List.filterMap_eq_nil_iff]
    intro e he
    rcases e.write_cases lib localAddr with ⟨_, hwrite⟩ | ⟨_, _, _, haddr, _⟩
    · exact hwrite
    · exact absurd haddr (hlocal e he)
  have hmem := mem_reports hy
  rw [hkey, hnil] at hmem
  cases hmem

/-- The view of the cache after a batch. -/
theorem batch_view_iff (hagrees : cache.Agrees s) (hexport : KeepsExport lib s events)
    (hlocal : ∀ e ∈ events, e.address lib ≠ some cache.localAddr.string) :
    (∃ cache', cache.onNodeInfoUpdate
        (MemberInfo.ofChanges (handleConfigEvents lib s events).2) = some cache' ∧
      (cache'.view = fun a =>
        shown cache.localAddr ((handleConfigEvents lib s events).1.view a)) ∧
      cache'.WF ∧ cache'.localAddr = cache.localAddr) ↔
    OrderlyBatch lib cache.localAddr s events := by
  have haway : ∀ x ∈ (MemberInfo.ofChanges (handleConfigEvents lib s events).2).changes,
      x.key ≠ cache.localAddr :=
    fun x hx => reported_away hlocal ((MemberInfo.ofChanges_perm _).mem_iff.mp hx)
  rw [← NodeCache.onNodeInfoUpdate_of_simulates
    (NodeCache.changes_simulates_of_away hagrees.wf haway), Keyed.applyAll_eq_some_iff]
  have hcell : ∀ a, _ ↔ _ := foldCell_batch_iff hexport cache.localAddr
  constructor
  · intro h v hv hvis
    have hfold := h v.addr.logicAddr
    rw [hagrees.view] at hfold
    exact (hcell _).mp hfold v hv rfl hvis
  · intro h a
    rw [hagrees.view]
    exact (hcell a).mpr fun v hv ha hvis => ha ▸ h v hv hvis

/-- In an orderly batch the visible address of a report is written in an
orderly way. -/
theorem OrderlyBatch.of_reported (h : OrderlyBatch lib cache.localAddr s events)
    (hexport : KeepsExport lib s events) {y : Change}
    (hy : y ∈ (handleConfigEvents lib s events).2)
    (hvis : visible cache.localAddr y.member = true) :
    Orderly (s.members.get y.key.string).isSome (writes lib y.key events) := by
  rcases visible_cases hexport cache.localAddr y.key with ⟨⟨v, hv, ha, hvisv⟩, _⟩ | hnone
  · exact ha ▸ h v hv hvisv
  · have hinvis := visible_of_mem_reports (fun n hn => hnone n (occurs_of_get hn))
      (fun n hn => hnone n (occurs_of_write hn)) (mem_reports hy)
    rw [hinvis] at hvis
    cases hvis

/-- The additions of an address. -/
theorem filter_add_handleConfigEvents (lib : RecordLib N) (s : Subscriber)
    (events : List Event) (a : LogicAddr) :
    ((MemberInfo.ofChanges (handleConfigEvents lib s events).2).add.filter
        fun v => v.addr.logicAddr = a).map Change.add =
      (reports (s.alive a.string) (s.members.get a.string) (writes lib a events)).filter
        Change.isAdd := by
  have hmap := List.filter_map (f := Change.add) (p := fun y => decide (y.key = a))
    (l := (MemberInfo.ofChanges (handleConfigEvents lib s events).2).add)
  refine Eq.trans hmap.symm ?_
  rw [map_add_ofChanges, ← filter_handleConfigEvents]
  simp only [List.filter_filter, Bool.and_comm]

/-- An orderly batch adds a visible address at most once, and only when it
is new. -/
theorem OrderlyBatch.add (h : OrderlyBatch lib cache.localAddr s events)
    (hexport : KeepsExport lib s events) {v : Member}
    (hv : v ∈ (MemberInfo.ofChanges (handleConfigEvents lib s events).2).add)
    (hvis : visible cache.localAddr v = true) :
    s.members.get v.addr.logicAddr.string = none ∧
      ((MemberInfo.ofChanges (handleConfigEvents lib s events).2).add.filter
        fun w => w.addr.logicAddr = v.addr.logicAddr).length = 1 := by
  have hadds := filter_add_handleConfigEvents lib s events v.addr.logicAddr
  have hlength := congrArg List.length hadds
  rw [List.length_map] at hlength
  have horderly := h.of_reported hexport (MemberInfo.mem_ofChanges_add.mp hv) hvis
  rcases horderly.adds with hnil | ⟨hnone, w, hone⟩
  · -- the addition itself would be missing
    have hmem := List.mem_filter.mpr
      ⟨mem_reports (MemberInfo.mem_ofChanges_add.mp hv), (rfl : Change.isAdd (.add v) = true)⟩
    exact absurd hmem (hnil ▸ List.not_mem_nil)
  · refine ⟨hnone, ?_⟩
    rw [hlength]
    exact congrArg List.length hone

theorem batch_tidy (hagrees : cache.Agrees s) (hexport : KeepsExport lib s events)
    (h : OrderlyBatch lib cache.localAddr s events) {cache' : NodeCache}
    (hcall : cache.onNodeInfoUpdate
      (MemberInfo.ofChanges (handleConfigEvents lib s events).2) = some cache') :
    cache'.Tidy := by
  refine NodeCache.onNodeInfoUpdate_tidy hagrees.wf hagrees.tidy ?_ ?_ hcall
  · rw [List.nodup_iff_count_le_one]
    intro a
    rw [List.count, List.countP_map, List.countP_eq_length_filter]
    by_contra hmany
    obtain ⟨v, hv⟩ := List.exists_mem_of_length_pos (Nat.lt_trans Nat.zero_lt_one
      (Nat.lt_of_not_le hmany))
    obtain ⟨hv, hkey⟩ := List.mem_filter.mp hv
    obtain ⟨hv, hvis⟩ := List.mem_filter.mp hv
    have hkey : v.addr.logicAddr = a := by simpa using hkey
    have hone := (h.add hexport hv hvis).2
    rw [hkey] at hone
    have hle := ((List.filter_sublist (l := (MemberInfo.ofChanges
      (handleConfigEvents lib s events).2).add) (p := visible cache.localAddr)).filter
        fun w => w.addr.logicAddr = a).length_le
    exact hmany (Nat.le_trans hle (Nat.le_of_eq hone))
  · intro v hv hvis
    have hnone := (h.add hexport hv hvis).1
    have hview := hagrees.view v.addr.logicAddr
    rw [Subscriber.view, Subscriber.cell, hnone] at hview
    exact Option.map_eq_none_iff.mp hview

/-- The single report of a batch never dereferences a missing entry and
leaves the cache in agreement with the members after the batch, with no node
left over, if and only if every visible address is written in an orderly
way. -/
theorem batch_intact_iff (lib : RecordLib N) (s : Subscriber) (events : List Event)
    (cache : NodeCache) (hagrees : cache.Agrees s) (hexport : KeepsExport lib s events)
    (hlocal : ∀ e ∈ events, e.address lib ≠ some cache.localAddr.string) :
    (∃ cache', cache.notify (MemberInfo.ofChanges (handleConfigEvents lib s events).2) =
        some cache' ∧ cache'.Agrees (handleConfigEvents lib s events).1) ↔
      OrderlyBatch lib cache.localAddr s events := by
  rw [NodeCache.notify_eq, ← batch_view_iff hagrees hexport hlocal]
  constructor
  · intro h
    obtain ⟨cache', hcall, hagrees'⟩ := h
    have hlocal' := NodeCache.onNodeInfoUpdate_localAddr hcall
    refine ⟨cache', hcall, funext fun a => ?_, hagrees'.wf, hlocal'⟩
    rw [hagrees'.view, hlocal']
  · intro h
    have horderly := (batch_view_iff hagrees hexport hlocal).mp h
    obtain ⟨cache', hcall, hview, hwf, hlocal'⟩ := h
    refine ⟨cache', hcall, hwf, batch_tidy hagrees hexport horderly hcall, ?_⟩
    intro a
    rw [hview, hlocal']

/-! ## A guest that comes and goes -/

/-- The cache of the node `1.1.1` before the first report. -/
def emptyCache : NodeCache := newNodeCache (LogicAddr.ofFields 1 1 1)

/-- A backend that has no members yet and heard all heartbeats. -/
def watcher : Subscriber := { alive := fun _ => true }

theorem emptyCache_agrees : emptyCache.Agrees watcher where
  wf := newNodeCache_wf _
  tidy := fun _ _ h => by rcases h with h | h <;> cases h
  view := fun _ => rfl

/-- The writes of the guest, `true` for a put. -/
def guestBatch (puts : List Bool) : List Event :=
  puts.map fun b => if b then .put "1.2.3" guestInfo else .delete "1.2.3"

theorem occurs_guestBatch {puts : List Bool} {v : Member}
    (h : Occurs plainLib watcher (guestBatch puts) v) : v = guest := by
  rcases h with h | ⟨e, he, hv⟩
  · cases h
  · obtain ⟨b, _, rfl⟩ := List.mem_map.mp he
    cases b with
    | true =>
      have hguest : Event.configEntry plainLib (.put "1.2.3" guestInfo) = some (.put guest) := rfl
      exact Entry.put.inj (Option.some.inj (hv.symm.trans hguest))
    | false => cases hv

theorem keepsExport_guestBatch (puts : List Bool) :
    KeepsExport plainLib watcher (guestBatch puts) := by
  intro v w hv hw _
  rw [occurs_guestBatch hv, occurs_guestBatch hw]

theorem guestBatch_away (puts : List Bool) :
    ∀ e ∈ guestBatch puts, e.address plainLib ≠ some emptyCache.localAddr.string := by
  intro e he
  obtain ⟨b, _, rfl⟩ := List.mem_map.mp he
  cases b <;> decide +kernel

theorem batch_intact_guest :
    ∃ cache', emptyCache.notify (MemberInfo.ofChanges
        (handleConfigEvents plainLib watcher (guestBatch [false, true, true])).2) = some cache' ∧
      cache'.Agrees (handleConfigEvents plainLib watcher (guestBatch [false, true, true])).1 := by
  refine (batch_intact_iff plainLib watcher _ emptyCache emptyCache_agrees
    (keepsExport_guestBatch _) (guestBatch_away _)).mpr ?_
  intro v hv _
  rw [occurs_guestBatch hv]
  decide +kernel

/-- A new member that is put twice and deleted crashes the update.  One that
is put, deleted and put again is in the members but not in the cache, where
its first node stays in a list. -/
theorem guestBatch_scrambled :
    emptyCache.Agrees watcher ∧
    (∀ puts, KeepsExport plainLib watcher (guestBatch puts) ∧
      ∀ e ∈ guestBatch puts, e.address plainLib ≠ some emptyCache.localAddr.string) ∧
    (emptyCache.notify (MemberInfo.ofChanges
      (handleConfigEvents plainLib watcher (guestBatch [true, true, false])).2)).isNone ∧
    (handleConfigEvents plainLib watcher (guestBatch [true, false, true])).1.view
      guest.addr.logicAddr = some guest ∧
    (emptyCache.notify (MemberInfo.ofChanges
        (handleConfigEvents plainLib watcher (guestBatch [true, false, true])).2)).map
      (fun cache => (cache.view guest.addr.logicAddr, Grouping.members cache.nodes 2,
        cache.allnodes (cache.logicAddr 0))) = some (none, [0], none) :=
  ⟨emptyCache_agrees, fun puts => ⟨keepsExport_guestBatch puts, guestBatch_away puts⟩,
    by decide +kernel, by decide +kernel, by decide +kernel⟩

end Etcd

end ClusterGo
