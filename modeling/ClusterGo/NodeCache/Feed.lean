import ClusterGo.Membership.Coherence
import ClusterGo.Membership.Watch
import ClusterGo.NodeCache.Lists
import ClusterGo.NodeCache.Visibility

/-!
# The cache behind a backend

`Start` subscribes with a callback that passes every report of the backend
to `onNodeInfoUpdate`.  So there are two refinements in a row: the backend
keeps a copy of the store and reports how it changes, and the cache keeps
the part of it that the node may see.

`feed` lets the two run together.  As long as the reports are `Calm`, which
is about what the administrator does and not about the code, no report makes
the cache dereference nil, and after every one of them the cache shows the
visible members of the backend, with their joined availability, and its
lists are exact (`cache_follows_backend`).  When the backend mirrors the
store, this is the visible part of the store.
-/

namespace ClusterGo

open Transition

namespace Change

/-- The change neither removes the local node nor gives it another net
address. -/
def SparesLocal (localAddr : LogicAddr) : Change → Option Member → Prop
  | .remove v, _ => v.addr.logicAddr ≠ localAddr
  | .update v, some u => v.addr.logicAddr = localAddr → v.addr.netAddr = u.addr.netAddr
  | .add _, _ | .update _, none => True

instance (localAddr : LogicAddr) : (x : Change) → (old : Option Member) →
    Decidable (x.SparesLocal localAddr old)
  | .remove v, _ => inferInstanceAs (Decidable (v.addr.logicAddr ≠ localAddr))
  | .update v, some u => inferInstanceAs
      (Decidable (v.addr.logicAddr = localAddr → v.addr.netAddr = u.addr.netAddr))
  | .add _, _ | .update _, none => inferInstanceAs (Decidable True)

/-- The change leaves its member on its side of the filter, and the local
node where it is. -/
def Calm (localAddr : LogicAddr) (x : Change) (old : Option Member) : Prop :=
  x.KeepsVisibility localAddr old ∧ x.SparesLocal localAddr old

instance (localAddr : LogicAddr) (x : Change) (old : Option Member) :
    Decidable (x.Calm localAddr old) :=
  inferInstanceAs (Decidable (_ ∧ _))

end Change

/-! ## The backend as a membership -/

/-- What the subscriber has, as a membership map. -/
def Subscriber.membership (s : Subscriber) : Membership where
  get := s.view
  keyed := by
    intro a v h
    obtain ⟨n, hn, rfl⟩ := Option.map_eq_some_iff.mp h
    have hkeyed : n.addr.logicAddr.string = a.string := s.cell_keyed hn
    exact LogicAddr.string_injective hkeyed

/-- What a change leaves in the cell of its address is its target. -/
theorem target_of_place {x : Change} {old new : Option Member}
    (h : x.place old = some new) : x.target = new := by
  cases x <;> cases old <;> simp_all [Change.place, Change.target]

/-- A change that can be placed and is calm fits. -/
theorem Change.Calm.fits {localAddr : LogicAddr} {x : Change} {old new : Option Member}
    (hcalm : x.Calm localAddr old) (hplace : x.place old = some new) :
    x.Fits localAddr old := by
  obtain ⟨_, hlocal⟩ := hcalm
  cases x with
  | add v =>
    cases old with
    | none => trivial
    | some u => cases hplace
  | remove v =>
    cases old with
    | none => cases hplace
    | some u => exact hlocal
  | update v =>
    cases old with
    | none => cases hplace
    | some u => exact hlocal

namespace Explains

variable {s s' : Subscriber} {cs : List Change} {localAddr : LogicAddr}

/-- The report leads from one membership to the next. -/
theorem apply_membership (h : Explains s s' cs) (a : LogicAddr) :
    (s.membership.apply (MemberInfo.ofChanges cs)).get a = s'.view a := by
  have hperm := MemberInfo.ofChanges_perm cs
  have hkeys := hperm.map Change.key
  by_cases ha : a ∈ (MemberInfo.ofChanges cs).changes.map Change.key
  · obtain ⟨x, hx, rfl⟩ := List.mem_map.mp ha
    rw [Membership.apply_of_mem _ (hkeys.nodup_iff.mpr h.distinct) hx]
    exact target_of_place (h.moves x (hperm.mem_iff.mp hx))
  · rw [Membership.apply_of_notMem _ ha]
    exact (h.rest a fun hmem => ha (hkeys.mem_iff.mpr hmem)).symm

theorem faithful (h : Explains s s' cs)
    (hcalm : ∀ x ∈ cs, x.Calm localAddr (s.view x.key)) :
    Faithful localAddr s.membership (MemberInfo.ofChanges cs) where
  distinct := ((MemberInfo.ofChanges_perm cs).map Change.key).nodup_iff.mpr h.distinct
  fits := by
    intro x hx
    have hmem := (MemberInfo.ofChanges_perm cs).mem_iff.mp hx
    exact (hcalm x hmem).fits (h.moves x hmem)

end Explains

namespace NodeCache

/-! ## The cache takes a report -/

variable {cache : NodeCache} {s s' : Subscriber} {cs : List Change}

/-- The cache shows what the subscriber has, and its invariants hold. -/
structure Follows (localAddr : LogicAddr) (s : Subscriber) (cache : NodeCache) : Prop where
  wf : cache.WF
  tidy : cache.Tidy
  localAddr_eq : cache.localAddr = localAddr
  view_eq : ∀ a, cache.view a = shown localAddr (s.view a)

theorem follows_new (localAddr : LogicAddr) {s : Subscriber} (hs : ∀ a, s.view a = none) :
    Follows localAddr s (newNodeCache localAddr) where
  wf := newNodeCache_wf localAddr
  tidy := tidy_newNodeCache localAddr
  localAddr_eq := rfl
  view_eq a := by
    rw [hs]
    rfl

theorem allnodes_eq_none_iff (cache : NodeCache) (a : LogicAddr) :
    cache.allnodes a = none ↔ cache.view a = none :=
  Option.map_eq_none_iff.symm

/-- Calm changes of what the cache shows are those that it expects. -/
theorem Follows.expects {localAddr : LogicAddr} (h : Follows localAddr s cache) {x : Change}
    {new : Option Member} (hcalm : x.Calm localAddr (s.view x.key))
    (hplace : x.place (s.view x.key) = some new) : cache.Expects x := by
  have hview := h.view_eq x.key
  have hkeeps := hcalm.1
  have hkey := cache.allnodes_eq_none_iff x.key
  rw [hview] at hkey
  have hlocal := h.localAddr_eq
  subst hlocal
  cases hold : s.view x.key with
  | none =>
    rw [hold] at hplace hkey
    cases x with
    | add v => exact fun _ => hkey.mpr rfl
    | remove v => cases hplace
    | update v => cases hplace
  | some u =>
    rw [hold] at hplace hkeeps hkey
    cases x with
    | add v => cases hplace
    | remove v | update v =>
      intro hvisible
      have hu : visible cache.localAddr u = true := hkeeps ▸ hvisible
      rw [shown_of_visible hu] at hkey
      exact fun hnone => nomatch hkey.mp hnone

/-- A calm report is taken, and the cache follows. -/
theorem Follows.onNodeInfoUpdate {localAddr : LogicAddr} (h : Follows localAddr s cache)
    (hexplains : Explains s s' cs) (hcalm : ∀ x ∈ cs, x.Calm localAddr (s.view x.key)) :
    ∃ cache', cache.onNodeInfoUpdate (MemberInfo.ofChanges cs) = some cache' ∧
      Follows localAddr s' cache' := by
  obtain ⟨hwf, htidy, rfl, hview⟩ := h
  have hfaithful := hexplains.faithful hcalm
  have hperm := MemberInfo.ofChanges_perm cs
  have hkeeps : ∀ x ∈ (MemberInfo.ofChanges cs).changes,
      x.KeepsVisibility cache.localAddr (s.view x.key) :=
    fun x hx => (hcalm x (hperm.mem_iff.mp hx)).1
  obtain ⟨cache', hupdate, hexact, hwf', hlocal⟩ :=
    (onNodeInfoUpdate_exact_iff hwf (m := s.membership) hview hfaithful).mpr hkeeps
  have hregular : cache.Regular (MemberInfo.ofChanges cs) := by
    refine ⟨hfaithful.distinct, fun x hx => ?_⟩
    have hmem := hperm.mem_iff.mp hx
    exact Follows.expects ⟨hwf, htidy, rfl, hview⟩ (hcalm x hmem) (hexplains.moves x hmem)
  obtain ⟨cache'', hupdate', _, htidy'⟩ := onNodeInfoUpdate_keeps hwf htidy hregular
  rw [hupdate, Option.some_inj] at hupdate'
  subst hupdate'
  refine ⟨cache', hupdate, hwf', htidy', hlocal, fun a => ?_⟩
  rw [hexact a, hexplains.apply_membership, hlocal]

end NodeCache

/-! ## The backend and the cache -/

section Feed

variable {σ ε : Type} (call : σ → ε → Option (σ × List Change)) (sub : σ → Subscriber)

/-- One call of a backend, with what the callback makes of the cache. -/
def feed (r : σ × NodeCache) (e : ε) : Option (σ × NodeCache) :=
  (call r.1 e).bind fun (s, changes) =>
    ((MemberInfo.ofChanges changes).callback.foldlM NodeCache.onNodeInfoUpdate r.2).map
      fun cache => (s, cache)

/-- The changes of a call are calm. -/
def CalmCall (localAddr : LogicAddr) (s : σ) (e : ε) : Prop :=
  ∀ s' changes, call s e = some (s', changes) →
    ∀ x ∈ changes, x.Calm localAddr ((sub s).view x.key)

instance (localAddr : LogicAddr) (s : σ) (e : ε) :
    Decidable (CalmCall call sub localAddr s e) :=
  decidable_of_iff (∀ r ∈ call s e, ∀ x ∈ r.2, x.Calm localAddr ((sub s).view x.key))
    ⟨fun h s' changes hcall => h (s', changes) hcall, fun h r hr => h r.1 r.2 hr⟩

variable {call sub}

/-- An empty report is not passed on, and would change nothing. -/
theorem NodeCache.Follows.callback {localAddr : LogicAddr} {s s' : Subscriber}
    {cache : NodeCache} {cs : List Change} (h : cache.Follows localAddr s)
    (hexplains : Explains s s' cs) (hcalm : ∀ x ∈ cs, x.Calm localAddr (s.view x.key)) :
    ∃ cache', (MemberInfo.ofChanges cs).callback.foldlM NodeCache.onNodeInfoUpdate cache =
      some cache' ∧ cache'.Follows localAddr s' := by
  rcases callback_cases (MemberInfo.ofChanges cs) with ⟨hnil, hchanges⟩ | hone
  · have hcs : cs = [] := by
      have hperm := MemberInfo.ofChanges_perm cs
      rw [hchanges] at hperm
      exact hperm.nil_eq.symm
    refine ⟨cache, by rw [hnil]; rfl, h.wf, h.tidy, h.localAddr_eq, fun a => ?_⟩
    rw [h.view_eq, hexplains.rest a (by simp [hcs])]
  · obtain ⟨cache', hupdate, hfollows⟩ := h.onNodeInfoUpdate hexplains hcalm
    refine ⟨cache', ?_, hfollows⟩
    rw [hone, List.foldlM_cons, hupdate]
    rfl

variable {guard : σ → ε → Prop} {localAddr : LogicAddr}
  (hexplains : ∀ s e s' changes, guard s e → call s e = some (s', changes) →
    Explains (sub s) (sub s') changes)

include hexplains

/-- A calm call goes through, and the cache follows. -/
theorem exists_feed {s s' : σ} {cache : NodeCache} {e : ε} {changes : List Change}
    (h : cache.Follows localAddr (sub s)) (hguard : guard s e)
    (hcalm : CalmCall call sub localAddr s e) (hcall : call s e = some (s', changes)) :
    ∃ cache', feed call (s, cache) e = some (s', cache') ∧ cache'.Follows localAddr (sub s') := by
  obtain ⟨cache', hcache, hfollows⟩ :=
    h.callback (hexplains s e s' changes hguard hcall) (hcalm s' changes hcall)
  refine ⟨cache', ?_, hfollows⟩
  simp only [feed, hcall, Option.bind_some]
  rw [hcache]
  rfl

theorem follows_of_reach {s₀ s : σ} {cache : NodeCache} (hstart : ∀ a, (sub s₀).view a = none)
    (hs : Reach (feed call) (fun r e => guard r.1 e ∧ CalmCall call sub localAddr r.1 e)
      (s₀, newNodeCache localAddr) (s, cache)) : cache.Follows localAddr (sub s) := by
  refine Reach.invariant (P := fun r : σ × NodeCache => r.2.Follows localAddr (sub r.1))
    (NodeCache.follows_new localAddr hstart) ?_ hs
  intro r e t _ hr hguard hstep
  obtain ⟨⟨s', changes⟩, hcall, _⟩ := Option.bind_eq_some_iff.mp hstep
  obtain ⟨cache', hfeed, hfollows⟩ := exists_feed hexplains hr hguard.1 hguard.2 hcall
  have hsame : t = (s', cache') := Option.some.inj (hstep.symm.trans hfeed)
  rw [hsame]
  exact hfollows

end Feed

/-! ## The store and the cache -/

/-- What the store has of an address, with its joined availability. -/
def storeView {N : Type} (lib : RecordLib N) (config alive : String → Option Text)
    (a : LogicAddr) : Option Member :=
  ((config a.string).bind (Member.parse lib)).map (Member.joined (alive a.string).isSome)

theorem view_of_mirrors {N : Type} {lib : RecordLib N} {s : Subscriber}
    {config alive : String → Option Text} (h : Watch.Mirrors lib s config alive) :
    s.view = storeView lib config alive := by
  funext a
  show (s.members.get a.string).map (Member.joined (s.alive a.string)) = _
  rw [h.members, h.alive]
  rfl

/-- The cache shows the visible members that the backend has, the lists hold
the available ones, and all this is the store if the backend mirrors it. -/
structure NodeCache.Shows {N : Type} (lib : RecordLib N) (localAddr : LogicAddr)
    (s : Subscriber) (cache : NodeCache) : Prop where
  backend : ∀ a, cache.view a = shown localAddr (s.view a)
  lists : cache.ListsExact
  store : ∀ config alive, Watch.Mirrors lib s config alive →
    ∀ a, cache.view a = shown localAddr (storeView lib config alive a)

theorem NodeCache.Follows.shows {N : Type} (lib : RecordLib N) {localAddr : LogicAddr}
    {s : Subscriber} {cache : NodeCache} (h : cache.Follows localAddr s) :
    cache.Shows lib localAddr s where
  backend := h.view_eq
  lists := h.wf.listsExact h.tidy
  store config alive hmirrors a := by
    rw [h.view_eq, view_of_mirrors hmirrors]

/-- The redis backend with a cache. -/
def redisFeed {N : Type} (lib : RecordLib N) :=
  feed (Redis.Client.call lib)

/-- The natsjet backend with a cache. -/
def natsjetFeed {N : Type} (lib : RecordLib N) :=
  feed fun s c => some (Natsjet.call lib s c)

/-- The condition on a fetch. -/
def RedisCalm {N : Type} (lib : RecordLib N) (localAddr : LogicAddr)
    (r : Redis.Client × NodeCache) (f : Redis.Fetch) : Prop :=
  f.Distinct lib ∧ CalmCall (Redis.Client.call lib) Redis.Client.sub localAddr r.1 f

/-- The condition on a call of the natsjet backend. -/
def NatsjetCalm {N : Type} (lib : RecordLib N) (localAddr : LogicAddr)
    (r : Subscriber × NodeCache) (c : Natsjet.Call) : Prop :=
  c.Ranging lib r.1 ∧ CalmCall (fun s c => some (Natsjet.call lib s c)) id localAddr r.1 c

/-- Behind the redis backend and behind the natsjet backend, whatever their
stores answer: while the reports are calm, every report is taken without a
nil dereference, and the cache shows what the backend has. -/
theorem cache_follows_backend {N : Type} (lib : RecordLib N) (localAddr : LogicAddr) :
    (∀ cli cache,
      Reach (redisFeed lib) (RedisCalm lib localAddr) ({}, newNodeCache localAddr) (cli, cache) →
      cache.Shows lib localAddr cli.sub ∧
      ∀ f cli' changes, RedisCalm lib localAddr (cli, cache) f →
        cli.call lib f = some (cli', changes) →
        ∃ cache', redisFeed lib (cli, cache) f = some (cli', cache')) ∧
    (∀ s cache,
      Reach (natsjetFeed lib) (NatsjetCalm lib localAddr) ({}, newNodeCache localAddr) (s, cache) →
      cache.Shows lib localAddr s ∧
      ∀ c, NatsjetCalm lib localAddr (s, cache) c →
        ∃ r, natsjetFeed lib (s, cache) c = some r) := by
  have hredis : ∀ cli f cli' changes, Redis.Fetch.Distinct lib f →
      Redis.Client.call lib cli f = some (cli', changes) →
      Explains cli.sub cli'.sub changes :=
    fun _ _ _ _ => Redis.call_explains
  have hnatsjet : ∀ s c s' changes, Natsjet.Call.Ranging lib s c →
      some (Natsjet.call lib s c) = some (s', changes) → Explains s s' changes := by
    intro s c s' changes hranging hcall
    have hexplains := Natsjet.call_explains hranging
    rw [Option.some.inj hcall] at hexplains
    exact hexplains
  refine ⟨fun cli cache hs => ?_, fun s cache hs => ?_⟩
  · have hfollows := follows_of_reach hredis (fun _ => rfl) hs
    refine ⟨hfollows.shows lib, fun f cli' changes hcalm hcall => ?_⟩
    obtain ⟨cache', hfeed, _⟩ := exists_feed hredis hfollows hcalm.1 hcalm.2 hcall
    exact ⟨cache', hfeed⟩
  · have hfollows := follows_of_reach hnatsjet (fun _ => rfl) hs
    refine ⟨hfollows.shows lib, fun c hcalm => ?_⟩
    obtain ⟨cache', hfeed, _⟩ := exists_feed hnatsjet hfollows hcalm.1 hcalm.2 rfl
    exact ⟨_, hfeed⟩

instance {N : Type} (lib : RecordLib N) : (f : Redis.Fetch) → Decidable (f.Distinct lib)
  | .getMembers _ | .getAlives _ => inferInstanceAs (Decidable (List.Nodup _))
  | .failed => inferInstanceAs (Decidable True)

instance {N : Type} (lib : RecordLib N) (localAddr : LogicAddr) (r : Redis.Client × NodeCache)
    (f : Redis.Fetch) : Decidable (RedisCalm lib localAddr r f) :=
  inferInstanceAs (Decidable (_ ∧ _))

def guestHost : LogicAddr := LogicAddr.ofFields 1 1 1

/-- The guest joins and comes to life, first through redis and then through
natsjet, and the cache of a node of its cluster shows it. -/
theorem cache_follows_backend_guest :
    (∃ cli cache, Reach (redisFeed plainLib) (RedisCalm plainLib guestHost)
        ({}, newNodeCache guestHost) (cli, cache) ∧
      cache.view guest.addr.logicAddr = some (guest.addr, true) ∧
      cache.Shows plainLib guestHost cli.sub) ∧
    (∃ s cache, Reach (natsjetFeed plainLib) (NatsjetCalm plainLib guestHost)
        ({}, newNodeCache guestHost) (s, cache) ∧
      cache.view guest.addr.logicAddr = some (guest.addr, true) ∧
      cache.Shows plainLib guestHost s) := by
  obtain ⟨hredis, hnatsjet⟩ := cache_follows_backend plainLib guestHost
  constructor
  · have hrun : (run (fun r f => if RedisCalm plainLib guestHost r f then redisFeed plainLib r f
        else none) ({}, newNodeCache guestHost) guestFetches).map
          (fun r => r.2.view guest.addr.logicAddr) = some (some (guest.addr, true)) := by
      decide +kernel
    obtain ⟨⟨cli, cache⟩, hs, hview⟩ := Option.map_eq_some_iff.mp hrun
    have hreach := Reach.of_guarded_run hs
    exact ⟨cli, cache, hreach, hview, (hredis cli cache hreach).1⟩
  · have hrun : (run (natsjetFeed plainLib) ({}, newNodeCache guestHost) guestCalls).map
        (fun r => r.2.view guest.addr.logicAddr) = some (some (guest.addr, true)) := by
      decide +kernel
    obtain ⟨⟨s, cache⟩, hs, hview⟩ := Option.map_eq_some_iff.mp hrun
    have halong : Along (natsjetFeed plainLib) (NatsjetCalm plainLib guestHost)
        ({}, newNodeCache guestHost) guestCalls := by
      refine ⟨⟨trivial, by decide +kernel⟩, fun r hr => ?_⟩
      obtain rfl := Option.some.inj hr
      exact ⟨⟨trivial, by decide +kernel⟩, fun _ _ => trivial⟩
    have hreach := Reach.of_along .start halong hs
    exact ⟨s, cache, hreach, hview, (hnatsjet s cache hreach).1⟩

end ClusterGo
