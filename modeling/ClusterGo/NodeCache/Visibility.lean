import ClusterGo.NodeCache.View

/-!
# The cache follows the membership

`doc/membership.md` says which members a node sees: the exported ones, those
of its own cluster, and for a harbor all harbors.  The purpose of the cache
is to hold exactly these members with their current data (`Exact`).

`onNodeInfoUpdate` looks at the new record alone when it decides whether a
change concerns it.  A member that crosses the filter is therefore lost in
both directions.  An update that makes it visible finds no entry and
dereferences nil, and an update that hides it is skipped, so the old entry
stays.  `allnodes_exact_iff` says that nothing else goes wrong: along a
faithful log the cache is exact after every call if and only if no member
crosses the filter.
-/

namespace ClusterGo

/-- What a node at `localAddr` should know of an address. -/
def shown (localAddr : LogicAddr) : Option Member → Option (Addr × Bool)
  | none => none
  | some v => if visible localAddr v then some (v.addr, v.available) else none

namespace NodeCache

/-- `allnodes` holds the visible members, each with its net address and
availability, and nothing else. -/
def Exact (cache : NodeCache) (m : Membership) : Prop :=
  ∀ a, cache.view a = shown cache.localAddr (m.get a)

/-- No call along the log dereferences nil, and after each of them the
cache is exact. -/
def Tracks : NodeCache → Membership → List MemberInfo → Prop
  | _, _, [] => True
  | cache, m, info :: log => ∃ cache', cache.onNodeInfoUpdate info = some cache' ∧
      cache'.Exact (m.apply info) ∧ Tracks cache' (m.apply info) log

/-! ## One change -/

variable {localAddr : LogicAddr} {x : Change} {old : Option Member}

theorem shown_of_visible {v : Member} (h : visible localAddr v = true) :
    shown localAddr (some v) = some (v.addr, v.available) :=
  if_pos h

theorem shown_of_invisible {v : Member} (h : visible localAddr v = false) :
    shown localAddr (some v) = none := by
  rw [shown, h]
  rfl

/-- A change brings the cell of its address from the old record to the new
one if and only if it stays on its side of the filter. -/
theorem cell_shown_iff (hfits : x.Fits localAddr old) :
    cell localAddr x (shown localAddr old) = some (shown localAddr x.target) ↔
      x.KeepsVisibility localAddr old := by
  cases x with
  | add v =>
    cases old with
    | none =>
      refine iff_of_true ?_ trivial
      cases hv : visible localAddr v <;> simp [cell, Change.target, shown, hv]
    | some u => exact hfits.elim
  | remove v =>
    cases old with
    | none => exact hfits.elim
    | some u =>
      show _ ↔ visible localAddr v = visible localAddr u
      cases hv : visible localAddr v <;> cases hu : visible localAddr u <;>
        simp [cell, Change.target, shown, hv, hu]
  | update v =>
    cases old with
    | none => exact hfits.elim
    | some u =>
      show _ ↔ visible localAddr v = visible localAddr u
      cases hv : visible localAddr v <;> cases hu : visible localAddr u <;>
        simp [cell, Change.target, shown, hv, hu]

theorem staysUp_of_fits (hfits : x.Fits localAddr old) :
    StaysUp localAddr x (shown localAddr old) := by
  cases x with
  | add v => trivial
  | remove v =>
    cases old with
    | none => exact hfits.elim
    | some u => exact hfits
  | update v =>
    cases old with
    | none => exact hfits.elim
    | some u =>
      intro hlocal w hw
      cases hu : visible localAddr u with
      | true =>
        rw [shown_of_visible hu, Option.some_inj] at hw
        rw [← hw]
        exact hfits hlocal
      | false =>
        rw [shown_of_invisible hu] at hw
        cases hw

/-! ## One report -/

variable {cache : NodeCache} {m : Membership} {info : MemberInfo}

/-- The map that the changes of a report lead to is the one that should be
shown if and only if every change stays on its side of the filter. -/
theorem applyAll_shown_iff (hfaithful : Faithful localAddr m info) :
    Keyed.applyAll Change.key (cell localAddr) (fun a => shown localAddr (m.get a))
        info.changes = some (fun a => shown localAddr ((m.apply info).get a)) ↔
      ∀ x ∈ info.changes, x.KeepsVisibility localAddr (m.get x.key) := by
  rw [Keyed.applyAll_eq_some hfaithful.distinct]
  constructor
  · intro hboth x hx
    rcases hboth with ⟨hcells, _⟩
    have hcell := hcells x hx
    rw [m.apply_of_mem hfaithful.distinct hx] at hcell
    exact (cell_shown_iff (hfaithful.fits x hx)).mp hcell
  · intro hkeeps
    refine ⟨?_, ?_⟩
    · intro x hx
      rw [m.apply_of_mem hfaithful.distinct hx]
      exact (cell_shown_iff (hfaithful.fits x hx)).mpr (hkeeps x hx)
    · intro a ha
      rw [m.apply_of_notMem ha]

theorem onNodeInfoUpdate_exact_iff (hwf : cache.WF) (hexact : cache.Exact m)
    (hfaithful : Faithful cache.localAddr m info) :
    (∃ cache', cache.onNodeInfoUpdate info = some cache' ∧ cache'.Exact (m.apply info) ∧
        cache'.WF ∧ cache'.localAddr = cache.localAddr) ↔
      ∀ x ∈ info.changes, x.KeepsVisibility cache.localAddr (m.get x.key) := by
  have hview : cache.view = fun a => shown cache.localAddr (m.get a) := funext hexact
  have hup : ∀ x ∈ info.changes, StaysUp cache.localAddr x (cache.view x.key) := by
    intro x hx
    rw [hview]
    exact staysUp_of_fits (hfaithful.fits x hx)
  rw [← applyAll_shown_iff hfaithful, ← hview,
    onNodeInfoUpdate_simulates hwf hfaithful.distinct hup]
  constructor
  · intro hpack
    rcases hpack with ⟨cache', hcall, hexact', hwf', hlocal⟩
    refine ⟨cache', hcall, ?_, hwf', hlocal⟩
    rw [← hlocal]
    exact funext hexact'
  · intro hpack
    rcases hpack with ⟨cache', hcall, hview', hwf', hlocal⟩
    refine ⟨cache', hcall, ?_, hwf', hlocal⟩
    intro a
    rw [hview', hlocal]

/-! ## Whole logs -/

theorem tracks_iff (hwf : cache.WF) (hexact : cache.Exact m) {log : List MemberInfo}
    (hlog : FaithfulLog cache.localAddr m log) :
    cache.Tracks m log ↔ KeepsVisibility cache.localAddr m log := by
  induction log generalizing cache m with
  | nil => exact Iff.rfl
  | cons info log ih =>
    obtain ⟨hfaithful, hlog⟩ := hlog
    have hcall := onNodeInfoUpdate_exact_iff hwf hexact hfaithful
    constructor
    · intro hpack
      rcases hpack with ⟨cache', hupdate, hexact', htracks⟩
      -- the call that is known to return is the one that the report describes
      have hwf' := onNodeInfoUpdate_wf hwf hupdate
      have hlocal : cache'.localAddr = cache.localAddr := onNodeInfoUpdate_localAddr hupdate
      refine ⟨hcall.mp ⟨cache', hupdate, hexact', hwf', hlocal⟩, ?_⟩
      rw [← hlocal] at hlog ⊢
      exact (ih hwf' hexact' hlog).mp htracks
    · intro hpack
      rcases hpack with ⟨hkeeps, hrest⟩
      obtain ⟨cache', hupdate, hexact', hwf', hlocal⟩ := hcall.mpr hkeeps
      refine ⟨cache', hupdate, hexact', ?_⟩
      rw [← hlocal] at hlog hrest
      exact (ih hwf' hexact' hlog).mpr hrest

/-- Along every faithful log, no call dereferences a missing entry and the
cache is exact after each call, if and only if no removal or update is
reported with a record on the other side of the visibility filter. -/
theorem allnodes_exact_iff (localAddr : LogicAddr) (log : List MemberInfo)
    (hlog : FaithfulLog localAddr .empty log) :
    (newNodeCache localAddr).Tracks .empty log ↔ KeepsVisibility localAddr .empty log :=
  tracks_iff (newNodeCache_wf localAddr) (fun _ => rfl) hlog

/-! ## A node that crosses the filter -/

/-- The node `1.1.1`. -/
def self : Member :=
  { addr := ⟨.ofFields 1 1 1, "10.0.0.1:8110"⟩, exported := false, available := true }

/-- The node `2.1.1` of another cluster. -/
def stranger (exported : Bool) : Member :=
  { addr := ⟨.ofFields 2 1 1, "10.0.1.1:8110"⟩, exported, available := true }

/-- A member that moves, becomes unavailable and goes. -/
def movingLog : List MemberInfo :=
  [{ add := [self, stranger true] },
    { update := [{ stranger true with
        addr := ⟨.ofFields 2 1 1, "10.0.1.2:8110"⟩, available := false }] },
    { remove := [stranger true] }]

theorem allnodes_exact_moving :
    FaithfulLog self.addr.logicAddr .empty movingLog ∧
      (newNodeCache self.addr.logicAddr).Tracks .empty movingLog :=
  ⟨by decide, (allnodes_exact_iff self.addr.logicAddr movingLog (by decide)).mpr (by decide)⟩

/-- A member whose `Export` flag changes. -/
def flagLog (before after : Bool) : List MemberInfo :=
  [{ add := [self, stranger before] }, { update := [stranger after] }]

/-- Exporting a member crashes the update, and hiding it again leaves its
entry behind. -/
theorem allnodes_wrong_after_export :
    FaithfulLog self.addr.logicAddr .empty (flagLog false true) ∧
    (Transition.run onNodeInfoUpdate (newNodeCache self.addr.logicAddr)
      (flagLog false true)).isNone ∧
    FaithfulLog self.addr.logicAddr .empty (flagLog true false) ∧
    (Transition.run onNodeInfoUpdate (newNodeCache self.addr.logicAddr)
      (flagLog true false)).map (fun cache => cache.view (.ofFields 2 1 1)) =
        some (some ((stranger true).addr, true)) ∧
    shown self.addr.logicAddr (some (stranger false)) = none := by
  decide

end NodeCache

end ClusterGo
