import ClusterGo.NodeCache.Index

/-!
# Nodes that only a list knows

`WF` lets an index list hold nodes that are not in `allnodes` any more: an
addition for an address that has an entry overwrites it and leaves the old
node in its list.  A cache is tidy when there is no such node.

Removals and updates keep a cache tidy, and so do additions when the
addresses of the visible ones are new and distinct
(`onNodeInfoUpdate_tidy`).
-/

namespace ClusterGo.NodeCache

open Grouping

/-- Every node in `nodes` or `harbors` is an entry of `allnodes`. -/
def Tidy (cache : NodeCache) : Prop :=
  ∀ k n, n ∈ members cache.nodes k ∨ n ∈ members cache.harbors k →
    ∃ a, cache.allnodes a = some n

variable {cache cache' : NodeCache} {n m : Ptr} {k : UInt32}

/-! ## The lists after filing -/

theorem mem_add {κ α : Type} [DecidableEq κ] {g : κ → Option (List α)} {j k : κ} {x y : α}
    (h : y ∈ members (add k x g) j) : y = x ∨ y ∈ members g j := by
  rw [members_add] at h
  split_ifs at h
  · rw [List.mem_append, List.mem_singleton] at h
    exact h.symm
  · exact Or.inr h

theorem mem_file (h : m ∈ members (cache.file n).nodes k ∨ m ∈ members (cache.file n).harbors k) :
    m = n ∨ m ∈ members cache.nodes k ∨ m ∈ members cache.harbors k := by
  rw [file_nodes, file_harbors] at h
  rcases h with h | h
  · split_ifs at h
    · exact (mem_add h).imp_right Or.inl
    · exact Or.inr (Or.inl h)
  · split_ifs at h
    · exact (mem_add h).imp_right Or.inr
    · exact Or.inr (Or.inr h)

/-- A node that is taken out of the list of its key is in no list. -/
theorem Filed.mem_unfiled {index : UInt32 → Option (List Ptr)} {key : LogicAddr → UInt32}
    {kind : LogicAddr → Prop} [DecidablePred kind] (h : Filed cache index key kind)
    (haddr : cache'.logicAddr n = cache.logicAddr n)
    (hmem : m ∈ members (if kind (cache'.logicAddr n) then
      remove (key (cache'.logicAddr n)) n index else index) k) :
    m ≠ n ∧ m ∈ members index k := by
  rw [haddr] at hmem
  have hother : kind (cache.logicAddr n) ∧ k = key (cache.logicAddr n) ∨ n ∉ members index k := by
    by_cases hn : n ∈ members index k
    · obtain ⟨_, _, hkind, hkey⟩ := h.sound k n hn
      exact Or.inl ⟨hkind, hkey.symm⟩
    · exact Or.inr hn
  rcases hother with ⟨hkind, hk⟩ | hn
  · rw [if_pos hkind, members_remove, if_pos hk] at hmem
    exact (mem_swapRemove (h.nodup k)).mp hmem
  · have hold : m ∈ members index k := by
      split_ifs at hmem
      · rw [members_remove] at hmem
        split_ifs at hmem
        · exact ((mem_swapRemove (h.nodup k)).mp hmem).2
        · exact hmem
      · exact hmem
    exact ⟨fun heq => hn (heq ▸ hold), hold⟩

theorem WF.mem_unfile (h : WF cache) (cache' : NodeCache) (hnodes : cache'.nodes = cache.nodes)
    (hharbors : cache'.harbors = cache.harbors)
    (haddr : cache'.logicAddr n = cache.logicAddr n)
    (hmem : m ∈ members (cache'.unfile n).nodes k ∨ m ∈ members (cache'.unfile n).harbors k) :
    m ≠ n ∧ (m ∈ members cache.nodes k ∨ m ∈ members cache.harbors k) := by
  rw [unfile_nodes, unfile_harbors, hnodes, hharbors] at hmem
  rcases hmem with hmem | hmem
  · have hm := h.nodes.mem_unfiled haddr hmem
    exact ⟨hm.1, Or.inl hm.2⟩
  · have hm := h.harbors.mem_unfiled haddr hmem
    exact ⟨hm.1, Or.inr hm.2⟩

/-! ## The loop bodies -/

theorem insertNode_keeps {v : Member} (hnew : cache.allnodes v.addr.logicAddr = none)
    {a : LogicAddr} (ha : cache.allnodes a = some m) :
    (cache.insertNode v).allnodes a = some m := by
  have hne : a ≠ v.addr.logicAddr := by
    intro heq
    rw [heq, hnew] at ha
    cases ha
  exact (Function.update_of_ne hne ..).trans ha

theorem addMember_tidy (ht : Tidy cache) {v : Member}
    (hnew : visible cache.localAddr v = true → cache.allnodes v.addr.logicAddr = none) :
    Tidy (cache.addMember v) := by
  unfold addMember
  dsimp only
  split_ifs with hvis havail
  · intro k m hm
    rw [file_allnodes]
    rcases mem_file hm with rfl | hm
    · exact ⟨v.addr.logicAddr, Function.update_self ..⟩
    · obtain ⟨a, ha⟩ := ht k m hm
      exact ⟨a, insertNode_keeps (hnew hvis) ha⟩
  · intro k m hm
    obtain ⟨a, ha⟩ := ht k m hm
    exact ⟨a, insertNode_keeps (hnew hvis) ha⟩
  · exact ht

theorem deleteNode_keeps {a : LogicAddr} (hm : m ≠ n)
    (ha : cache.allnodes a = some m) (hn : cache.allnodes (cache.logicAddr n) = some n) :
    (cache.deleteNode n).allnodes a = some m := by
  have hne : a ≠ cache.logicAddr n := by
    intro heq
    rw [heq, hn] at ha
    exact hm (Option.some.inj ha).symm
  exact (Function.update_of_ne hne ..).trans ha

theorem deleteNode_tidy (h : WF cache) (ht : Tidy cache)
    (hn : cache.allnodes (cache.logicAddr n) = some n) :
    Tidy (if (cache.heap n).available then (cache.deleteNode n).unfile n
      else cache.deleteNode n) := by
  intro k m hm
  split_ifs at hm ⊢ with havail
  · obtain ⟨hne, hm⟩ := h.mem_unfile (cache.deleteNode n) rfl rfl rfl hm
    obtain ⟨a, ha⟩ := ht k m hm
    rw [unfile_allnodes]
    exact ⟨a, deleteNode_keeps hne ha hn⟩
  · -- an unavailable node is in no list
    have hout := h.notMem (Or.inr (Bool.eq_false_iff.mpr havail)) k
    have hne : m ≠ n := by
      intro heq
      rw [heq] at hm
      exact hm.elim hout.1 hout.2
    obtain ⟨a, ha⟩ := ht k m hm
    exact ⟨a, deleteNode_keeps hne ha hn⟩

theorem removeMember_tidy (h : WF cache) (ht : Tidy cache) (v : Member) :
    Exits Tidy (cache.removeMember v) := by
  unfold removeMember
  split_ifs with hvis hlocal
  · exact ht
  · cases hentry : cache.allnodes v.addr.logicAddr with
    | none => trivial
    | some n =>
      have hkey : cache.logicAddr n = v.addr.logicAddr := h.keyed _ _ hentry
      exact deleteNode_tidy h ht (hkey ▸ hentry)
  · exact ht

theorem switchNode_tidy (h : WF cache) (ht : Tidy cache) {a : LogicAddr}
    (hn : cache.allnodes a = some n) (available : Bool) :
    Tidy (cache.switchNode n available) := by
  unfold switchNode setAvailable
  split_ifs with hon havail havail
  · intro k m hm
    rw [file_allnodes]
    rcases mem_file hm with rfl | hm
    · exact ⟨a, hn⟩
    · exact ht k m hm
  · exact ht
  · intro k m hm
    rw [unfile_allnodes]
    refine ht k m (h.mem_unfile (cache.setRec n _) rfl rfl ?_ hm).2
    exact setRec_logicAddr (r := { cache.heap n with available := false }) rfl n
  · exact ht

theorem moveNode_tidy (ht : Tidy cache) (n : Ptr) (netAddr : String) :
    Exits Tidy (cache.moveNode n netAddr) := by
  unfold moveNode
  split_ifs <;> exact ht

theorem updateMember_tidy (h : WF cache) (ht : Tidy cache) (v : Member) :
    Exits Tidy (cache.updateMember v) := by
  unfold updateMember
  split_ifs with hvis
  · cases hentry : cache.allnodes v.addr.logicAddr with
    | none => trivial
    | some n =>
      have hwf := moveNode_wf h n v.addr.netAddr
      have htidy := moveNode_tidy ht n v.addr.netAddr
      dsimp only
      cases hmoved : cache.moveNode n v.addr.netAddr with
      | error e =>
        rw [hmoved] at htidy
        exact htidy
      | ok moved =>
        rw [hmoved] at hwf htidy
        refine switchNode_tidy hwf htidy (a := v.addr.logicAddr) ?_ v.available
        rw [← hentry, (moveNode_frame hmoved).2]
  · exact ht

/-! ## A whole report -/

theorem addMember_allnodes_of_ne {v : Member} {a : LogicAddr}
    (ha : visible cache.localAddr v = true → a ≠ v.addr.logicAddr) :
    (cache.addMember v).allnodes a = cache.allnodes a := by
  unfold addMember
  dsimp only
  split_ifs with hvis havail
  · rw [file_allnodes]
    exact Function.update_of_ne (ha hvis) ..
  · exact Function.update_of_ne (ha hvis) ..
  · rfl

theorem addMembers_tidy (ht : Tidy cache) {vs : List Member}
    (hdistinct : ((vs.filter (visible cache.localAddr)).map (·.addr.logicAddr)).Nodup)
    (hnew : ∀ v ∈ vs, visible cache.localAddr v = true →
      cache.allnodes v.addr.logicAddr = none) :
    Tidy (vs.foldl addMember cache) := by
  induction vs generalizing cache with
  | nil => exact ht
  | cons v vs ih =>
    rw [List.forall_mem_cons] at hnew
    -- the additions to come are about other addresses
    have hrest : ((vs.filter (visible cache.localAddr)).map (·.addr.logicAddr)).Nodup ∧
        ∀ w ∈ vs, visible cache.localAddr w = true → visible cache.localAddr v = true →
          w.addr.logicAddr ≠ v.addr.logicAddr := by
      by_cases hvis : visible cache.localAddr v = true
      · rw [List.filter_cons_of_pos hvis, List.map_cons, List.nodup_cons] at hdistinct
        refine ⟨hdistinct.2, ?_⟩
        intro w hw hwvis _ heq
        exact hdistinct.1 (heq ▸ List.mem_map_of_mem (List.mem_filter.mpr ⟨hw, hwvis⟩))
      · rw [List.filter_cons_of_neg hvis] at hdistinct
        exact ⟨hdistinct, fun _ _ _ h => absurd h hvis⟩
    have hlocal : (cache.addMember v).localAddr = cache.localAddr := addMember_localAddr v
    refine ih (addMember_tidy ht hnew.1) ?_ ?_
    · rw [hlocal]
      exact hrest.1
    · intro w hw hvis
      rw [hlocal] at hvis
      rw [addMember_allnodes_of_ne (hrest.2 w hw hvis)]
      exact hnew.2 w hw hvis

theorem Exits.and {P Q : NodeCache → Prop} {r : Except Exit NodeCache} (hP : Exits P r)
    (hQ : Exits Q r) : Exits (fun c => P c ∧ Q c) r := by
  match r, hP, hQ with
  | .ok c, hP, hQ => exact ⟨hP, hQ⟩
  | .error (.stop c), hP, hQ => exact ⟨hP, hQ⟩
  | .error .nilDereference, _, _ => trivial

theorem onNodeInfoUpdate_tidy (h : WF cache) (ht : Tidy cache) {info : MemberInfo}
    (hdistinct : ((info.add.filter (visible cache.localAddr)).map (·.addr.logicAddr)).Nodup)
    (hnew : ∀ v ∈ info.add, visible cache.localAddr v = true →
      cache.allnodes v.addr.logicAddr = none)
    (hcall : cache.onNodeInfoUpdate info = some cache') : Tidy cache' := by
  have hwf : WF (info.add.foldl addMember cache) :=
    List.foldlRecOn info.add addMember h fun c hc v _ => addMember_wf hc v
  have hboth : WF cache' ∧ Tidy cache' :=
    onNodeInfoUpdate_invariant_of_added (P := fun c => WF c ∧ Tidy c)
      ⟨hwf, addMembers_tidy ht hdistinct hnew⟩
      (fun _ v hc => (removeMember_wf hc.1 v).and (removeMember_tidy hc.1 hc.2 v))
      (fun _ v hc => (updateMember_wf hc.1 v).and (updateMember_tidy hc.1 hc.2 v)) hcall
  exact hboth.2

end ClusterGo.NodeCache
