import ClusterGo.NodeCache.Tidy
import ClusterGo.NodeCache.View

/-!
# The lists hold the available entries

`nodes` and `harbors` are kept by hand beside `allnodes`.  They are exact
when the list of a key holds the available entries of that key, once each,
and nothing else.

Reports are regular when they name no address twice, when an addition is
about an address without entry, and when a removal or an update is about
one with entry.  What the filter hides need not be regular.

After any number of regular reports the lists are exact, and no loop body
has met a nil entry (`lists_exact`).  The invariant of `Index` says which
entries are in the lists, and the one of `Tidy` that nothing else is.
-/

namespace ClusterGo

namespace NodeCache

open Grouping Transition

/-- `allnodes` is keyed by the logic address, and each list holds the
available entries of its key, once each. -/
structure ListsExact (cache : NodeCache) : Prop where
  keyed : ∀ a n, cache.allnodes a = some n → cache.logicAddr n = a
  nodup : ∀ k, (members cache.nodes k).Nodup ∧ (members cache.harbors k).Nodup
  mem_nodes : ∀ type n, n ∈ members cache.nodes type ↔
    (∃ a, cache.allnodes a = some n) ∧ (cache.heap n).available = true ∧
      (cache.logicAddr n).type = type ∧ type ≠ harbarType
  mem_harbors : ∀ cluster n, n ∈ members cache.harbors cluster ↔
    (∃ a, cache.allnodes a = some n) ∧ (cache.heap n).available = true ∧
      (cache.logicAddr n).type = harbarType ∧ (cache.logicAddr n).cluster = cluster

/-- A visible change is about an address without entry if it is an
addition, and about one with entry otherwise. -/
def Expects (cache : NodeCache) : Change → Prop
  | .add v => visible cache.localAddr v = true → cache.allnodes v.addr.logicAddr = none
  | .remove v | .update v =>
    visible cache.localAddr v = true → cache.allnodes v.addr.logicAddr ≠ none

instance (cache : NodeCache) : (x : Change) → Decidable (cache.Expects x)
  | .add v => inferInstanceAs
      (Decidable (visible cache.localAddr v = true → cache.allnodes v.addr.logicAddr = none))
  | .remove v | .update v => inferInstanceAs
      (Decidable (visible cache.localAddr v = true → cache.allnodes v.addr.logicAddr ≠ none))

/-- A report that the cache expects and that names no address twice. -/
def Regular (cache : NodeCache) (info : MemberInfo) : Prop :=
  (info.changes.map Change.key).Nodup ∧ ∀ x ∈ info.changes, cache.Expects x

instance (cache : NodeCache) (info : MemberInfo) : Decidable (cache.Regular info) :=
  inferInstanceAs (Decidable (_ ∧ _))

variable {cache cache' : NodeCache} {x : Change}

/-! ## Exact lists -/

/-- A cache with the invariant in which only entries are listed. -/
theorem WF.listsExact (h : WF cache) (ht : Tidy cache) : ListsExact cache where
  keyed := h.keyed
  nodup := fun k => ⟨h.nodes.nodup k, h.harbors.nodup k⟩
  mem_nodes := by
    intro type n
    constructor
    · intro hn
      obtain ⟨_, havail, hkind, htype⟩ := h.nodes.sound type n hn
      exact ⟨ht type n (Or.inl hn), havail, htype, htype ▸ hkind⟩
    · intro hn
      obtain ⟨⟨a, ha⟩, havail, htype, hkind⟩ := hn
      exact htype ▸ h.nodes.complete a n ha havail (htype.symm ▸ hkind)
  mem_harbors := by
    intro cluster n
    constructor
    · intro hn
      obtain ⟨_, havail, hkind, hcluster⟩ := h.harbors.sound cluster n hn
      exact ⟨ht cluster n (Or.inr hn), havail, hkind, hcluster⟩
    · intro hn
      obtain ⟨⟨a, ha⟩, havail, hkind, hcluster⟩ := hn
      exact hcluster ▸ h.harbors.complete a n ha havail hkind

/-! ## One change -/

theorem change_keeps (h : WF cache) (ht : Tidy cache) (hx : cache.Expects x) :
    Exits (fun c => WF c ∧ Tidy c) (cache.change x) := by
  cases x with
  | add v => exact ⟨addMember_wf h v, addMember_tidy ht hx⟩
  | remove v => exact (removeMember_wf h v).and (removeMember_tidy h ht v)
  | update v => exact (updateMember_wf h v).and (updateMember_tidy h ht v)

theorem removeMember_ne_nil {v : Member}
    (hentry : visible cache.localAddr v = true → cache.allnodes v.addr.logicAddr ≠ none) :
    cache.removeMember v ≠ .error .nilDereference := by
  unfold removeMember
  split_ifs with hvis hlocal
  · intro heq
    cases heq
  · obtain ⟨n, hn⟩ := Option.ne_none_iff_exists'.mp (hentry hvis)
    rw [hn]
    intro heq
    cases heq
  · intro heq
    cases heq

theorem moveNode_ne_nil (n : Ptr) (netAddr : String) :
    cache.moveNode n netAddr ≠ .error .nilDereference := by
  unfold moveNode
  split_ifs
  all_goals
    intro heq
    cases heq

theorem updateMember_ne_nil {v : Member}
    (hentry : visible cache.localAddr v = true → cache.allnodes v.addr.logicAddr ≠ none) :
    cache.updateMember v ≠ .error .nilDereference := by
  unfold updateMember
  split_ifs with hvis
  · obtain ⟨n, hn⟩ := Option.ne_none_iff_exists'.mp (hentry hvis)
    have hmove := cache.moveNode_ne_nil n v.addr.netAddr
    rw [hn]
    dsimp only
    cases hmoved : cache.moveNode n v.addr.netAddr with
    | error e =>
      rw [hmoved] at hmove
      exact hmove
    | ok moved =>
      intro heq
      cases heq
  · intro heq
    cases heq

theorem change_ne_nil (hx : cache.Expects x) : cache.change x ≠ .error .nilDereference := by
  cases x with
  | add v =>
    intro heq
    cases heq
  | remove v => exact removeMember_ne_nil hx
  | update v => exact updateMember_ne_nil hx

theorem removeMember_allnodes_of_ne (h : Entries cache) {v : Member} {a : LogicAddr}
    (hok : cache.removeMember v = .ok cache') (ha : a ≠ v.addr.logicAddr) :
    cache'.allnodes a = cache.allnodes a := by
  unfold removeMember at hok
  split_ifs at hok
  · cases hentry : cache.allnodes v.addr.logicAddr with
    | none =>
      rw [hentry] at hok
      cases hok
    | some n =>
      have hkey : cache.logicAddr n = v.addr.logicAddr := h.keyed _ _ hentry
      have hdeleted : (cache.deleteNode n).allnodes a = cache.allnodes a :=
        Function.update_of_ne (hkey ▸ ha) ..
      rw [hentry] at hok
      cases hok
      show (if (cache.heap n).available then (cache.deleteNode n).unfile n
        else cache.deleteNode n).allnodes a = cache.allnodes a
      split_ifs
      · rw [unfile_allnodes, hdeleted]
      · exact hdeleted
  · cases hok
    rfl

theorem switchNode_allnodes (n : Ptr) (available : Bool) :
    (cache.switchNode n available).allnodes = cache.allnodes := by
  unfold switchNode
  split_ifs
  · exact file_allnodes
  · rfl
  · exact unfile_allnodes
  · rfl

theorem updateMember_allnodes {v : Member} (hok : cache.updateMember v = .ok cache') :
    cache'.allnodes = cache.allnodes := by
  unfold updateMember at hok
  split_ifs at hok
  · cases hentry : cache.allnodes v.addr.logicAddr with
    | none =>
      rw [hentry] at hok
      cases hok
    | some n =>
      rw [hentry] at hok
      obtain ⟨moved, hmoved, hok⟩ := Fallible.bind_eq_ok.mp hok
      cases hok
      rw [switchNode_allnodes, (moveNode_frame hmoved).2]
  · cases hok
    rfl

/-- A change that does not stop the node leaves the entries of the other
addresses and the local address alone. -/
theorem change_frame (h : Entries cache) (hok : cache.change x = .ok cache') :
    cache'.localAddr = cache.localAddr ∧
      ∀ a, a ≠ x.key → cache'.allnodes a = cache.allnodes a := by
  cases x with
  | add v =>
    cases hok
    exact ⟨addMember_localAddr v, fun a ha => addMember_allnodes_of_ne fun _ => ha⟩
  | remove v =>
    have hlocal := cache.removeMember_localAddr v
    rw [show cache.removeMember v = .ok cache' from hok] at hlocal
    refine ⟨hlocal, fun a ha => ?_⟩
    exact removeMember_allnodes_of_ne h hok ha
  | update v =>
    have hlocal := cache.updateMember_localAddr v
    rw [show cache.updateMember v = .ok cache' from hok] at hlocal
    exact ⟨hlocal, fun a _ => congrFun (updateMember_allnodes hok) a⟩

/-- The changes to come are still expected after a change of another
address. -/
theorem Expects.of_change {y : Change} (hy : cache.Expects y) (h : Entries cache)
    (hok : cache.change x = .ok cache') (hne : y.key ≠ x.key) : cache'.Expects y := by
  obtain ⟨hlocal, hframe⟩ := change_frame h hok
  have hentry := hframe y.key hne
  cases y with
  | add v | remove v | update v =>
    intro hvis
    rw [hlocal] at hvis
    rw [show cache'.allnodes v.addr.logicAddr = _ from hentry]
    exact hy hvis

/-! ## A whole report -/

/-- No loop body met a nil entry, and the invariants hold where the loops
end or stop the node. -/
def Keeps (r : Except Exit NodeCache) : Prop :=
  Exits (fun c => WF c ∧ Tidy c) r ∧ r ≠ .error .nilDereference

theorem changes_keep (h : WF cache) (ht : Tidy cache) {l : List Change}
    (hdistinct : (l.map Change.key).Nodup) (hl : ∀ x ∈ l, cache.Expects x) :
    Keeps (l.foldlM change cache) := by
  induction l generalizing cache with
  | nil => exact ⟨⟨h, ht⟩, fun heq => nomatch heq⟩
  | cons x l ih =>
    rw [List.map_cons, List.nodup_cons] at hdistinct
    rw [List.forall_mem_cons] at hl
    have hkeeps := change_keeps h ht hl.1
    have hnil := change_ne_nil hl.1
    rw [List.foldlM_cons]
    cases hchange : cache.change x with
    | error e =>
      rw [hchange] at hkeeps hnil
      exact ⟨hkeeps, fun heq => hnil (congrArg Except.error (Except.error.inj heq))⟩
    | ok c =>
      rw [hchange] at hkeeps
      refine ih hkeeps.1 hkeeps.2 hdistinct.2 fun y hy => ?_
      refine (hl.2 y hy).of_change h.toEntries hchange fun heq => ?_
      exact hdistinct.1 (heq ▸ List.mem_map_of_mem hy)

theorem onNodeInfoUpdate_keeps (h : WF cache) (ht : Tidy cache) {info : MemberInfo}
    (hregular : cache.Regular info) :
    ∃ cache', cache.onNodeInfoUpdate info = some cache' ∧ WF cache' ∧ Tidy cache' := by
  have hkeeps : Keeps (cache.loops info) :=
    cache.loops_eq info ▸ changes_keep h ht hregular.1 hregular.2
  unfold onNodeInfoUpdate
  match hr : cache.loops info, hkeeps with
  | .ok c, hkeeps => exact ⟨c, rfl, hkeeps.1⟩
  | .error (.stop c), hkeeps => exact ⟨c, rfl, hkeeps.1⟩
  | .error .nilDereference, hkeeps => exact absurd rfl hkeeps.2

theorem tidy_newNodeCache (localAddr : LogicAddr) : Tidy (newNodeCache localAddr) := by
  intro k n hn
  rcases hn with hn | hn
  · cases hn
  · cases hn

/-- After regular reports the index lists are exact. -/
theorem lists_exact (localAddr : LogicAddr) {infos : List MemberInfo}
    (h : Along onNodeInfoUpdate Regular (newNodeCache localAddr) infos) :
    ∃ cache, run onNodeInfoUpdate (newNodeCache localAddr) infos = some cache ∧
      ListsExact cache := by
  obtain ⟨cache, hrun, hwf, htidy⟩ :=
    Along.exists_run (P := fun c => WF c ∧ Tidy c)
      ⟨newNodeCache_wf localAddr, tidy_newNodeCache localAddr⟩
      (fun _ _ hc hregular => onNodeInfoUpdate_keeps hc.1 hc.2 hregular) h
  exact ⟨cache, hrun, hwf.listsExact htidy⟩

/-- A node and a harbor come, then the node is switched off and the harbor
leaves. -/
def harborReports : List MemberInfo :=
  let node : Addr := ⟨LogicAddr.ofFields 1 2 3, "10.0.0.1:8110"⟩
  let harbor : Addr := ⟨LogicAddr.ofFields 1 255 1, "10.0.0.2:8110"⟩
  [{ add := [⟨node, false, true⟩, ⟨harbor, false, true⟩] },
    { remove := [⟨harbor, false, true⟩], update := [⟨node, false, false⟩] }]

theorem lists_exact_harborReports :
    ((run onNodeInfoUpdate (newNodeCache (LogicAddr.ofFields 1 1 1)) (harborReports.take 1)).map
        fun cache => (members cache.nodes 2, members cache.harbors 1)) = some ([0], [1]) ∧
      ∃ cache, run onNodeInfoUpdate (newNodeCache (LogicAddr.ofFields 1 1 1)) harborReports =
          some cache ∧ ListsExact cache := by
  refine ⟨by decide +kernel, lists_exact _ ⟨by decide +kernel, fun cache hcache => ?_⟩⟩
  obtain rfl := Option.some.inj hcache
  exact ⟨by decide +kernel, fun _ _ => trivial⟩

end NodeCache

end ClusterGo
