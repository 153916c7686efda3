import ClusterGo.Lib.Guarded
import ClusterGo.NodeCache.Lists

/-!
# Choosing a node

`getNormalNode` and `getHarbor` of `node.go` choose from the list of a type
or of a cluster: the first by a number of the caller, or at random if the
number is 0, and the second by the address of the target.  The index is a
signed remainder, and here it is checked: `none` is the panic of an index
out of range.

Two things can go wrong.  A negative number that is not a multiple of the
length of the list gives a negative index.  And a list may hold a node that
`allnodes` has lost (see `Tidy`), which can then be chosen.
`selection_iff` says that nothing else can, and `selection_of_regular` that
after regular reports only the first remains.
-/

namespace ClusterGo

namespace NodeCache

open Grouping Guarded Transition

/-- `nodeCache.getNormalNode`.  `intn` is `rand.Intn`. -/
def getNormalNode (intn : Nat → Nat) (cache : NodeCache) (tt : UInt32) (n : Int) :
    Option (Option Ptr) :=
  match cache.nodes tt with
  | none => some none
  | some nodeArray =>
    if nodeArray.length = 0 then some none
    else if n = 0 then (index nodeArray (intn nodeArray.length)).map some
    else (indexInt nodeArray (n.tmod nodeArray.length)).map some

/-- `nodeCache.getHarbor`, with the index checked. -/
def getHarborChecked (cache : NodeCache) (cluster : UInt32) (m : LogicAddr) :
    Option (Option Ptr) :=
  match cache.harbors cluster with
  | none => some none
  | some harbors =>
    if harbors.length = 0 then some none
    else (indexInt harbors ((m.val.toNat : Int).tmod harbors.length)).map some

/-! ## The choice from a list -/

/-- What `rand.Intn` promises. -/
def IsIntn (intn : Nat → Nat) : Prop := ∀ k, 0 < k → intn k < k

/-- The number is not negative or a multiple of the length. -/
def InBounds (list : List Ptr) (n : Int) : Prop := list = [] ∨ 0 ≤ n ∨ (list.length : Int) ∣ n

/-- What a choice from a list should answer: it does not panic, it is nil if
and only if the list is empty, and otherwise an available node of `allnodes`
of the right kind. -/
structure Selects (cache : NodeCache) (list : List Ptr) (kind : LogicAddr → Prop)
    (r : Option (Option Ptr)) : Prop where
  returns : r ≠ none
  nil_iff : r = some none ↔ list = []
  member : ∀ n, r = some (some n) →
    (∃ a, cache.allnodes a = some n) ∧ (cache.heap n).available = true ∧
      kind (cache.logicAddr n)

variable {cache : NodeCache} {intn : Nat → Nat} {tt cluster : UInt32}

/-- `getNormalNode` in terms of the list of the type. -/
theorem getNormalNode_eq (intn : Nat → Nat) (cache : NodeCache) (tt : UInt32) (n : Int) :
    getNormalNode intn cache tt n =
      let list := members cache.nodes tt
      if list = [] then some none
      else if n = 0 then (index list (intn list.length)).map some
      else (indexInt list (n.tmod list.length)).map some := by
  unfold getNormalNode members
  cases cache.nodes tt with
  | none => rfl
  | some list => simp only [Option.getD_some, List.length_eq_zero_iff]

theorem getHarborChecked_eq (cache : NodeCache) (cluster : UInt32) (m : LogicAddr) :
    getHarborChecked cache cluster m =
      let list := members cache.harbors cluster
      if list = [] then some none
      else (index list (m.val.toNat % list.length)).map some := by
  unfold getHarborChecked members
  cases cache.harbors cluster with
  | none => rfl
  | some list => simp only [Option.getD_some, List.length_eq_zero_iff, indexInt_tmod_natCast]

/-- The index of `getHarbor` is never out of range. -/
theorem getHarborChecked_eq_some (cache : NodeCache) (cluster : UInt32) (m : LogicAddr) :
    getHarborChecked cache cluster m = some (cache.getHarbor cluster m) := by
  unfold getHarborChecked getHarbor
  cases cache.harbors cluster with
  | none => rfl
  | some list =>
    by_cases hlist : list.length = 0
    · simp only [if_pos hlist]
    · have hlt : m.val.toNat % list.length < list.length := Nat.mod_lt _ (by omega)
      simp only [if_neg hlist, indexInt_tmod_natCast, index, List.getElem?_eq_getElem hlt,
        Option.map_some]

theorem getNormalNode_ne_none_iff (hintn : IsIntn intn) (cache : NodeCache) (tt : UInt32)
    (n : Int) :
    getNormalNode intn cache tt n ≠ none ↔ InBounds (members cache.nodes tt) n := by
  rw [getNormalNode_eq]
  unfold InBounds
  by_cases hlist : members cache.nodes tt = []
  · simp only [hlist, if_true, true_or, iff_true]
    exact Option.some_ne_none _
  · simp only [hlist, if_false, false_or]
    by_cases hn : n = 0
    · have hlt := hintn _ (List.length_pos_iff.mpr hlist)
      simp [hn, index, hlt]
    · rw [if_neg hn, ne_eq, Option.map_eq_none_iff]
      exact indexInt_tmod_ne_none_iff hlist n

/-- The answer of `getNormalNode` is nil for an empty list and else a node
of the list. -/
theorem getNormalNode_eq_some {n : Int} {r : Option Ptr}
    (h : getNormalNode intn cache tt n = some r) :
    (r = none ↔ members cache.nodes tt = []) ∧ ∀ p, r = some p → p ∈ members cache.nodes tt := by
  rw [getNormalNode_eq] at h
  by_cases hlist : members cache.nodes tt = []
  · simp only [if_pos hlist, Option.some_inj] at h
    rw [← h]
    exact ⟨⟨fun _ => hlist, fun _ => rfl⟩, fun p hp => nomatch hp⟩
  · simp only [if_neg hlist] at h
    -- a node is taken from the list in both cases
    have hmem : ∃ p, r = some p ∧ p ∈ members cache.nodes tt := by
      split_ifs at h
      · obtain ⟨p, hp, rfl⟩ := Option.map_eq_some_iff.mp h
        exact ⟨p, rfl, List.mem_of_getElem? hp⟩
      · obtain ⟨p, hp, rfl⟩ := Option.map_eq_some_iff.mp h
        exact ⟨p, rfl, mem_of_indexInt hp⟩
    obtain ⟨p, rfl, hp⟩ := hmem
    refine ⟨⟨fun hnone => (nomatch hnone), fun hnil => absurd hnil hlist⟩, ?_⟩
    intro p' hp'
    rw [← Option.some.inj hp']
    exact hp

/-- A number other than 0 that chooses a given place of the list. -/
theorem getNormalNode_of_lt (intn : Nat → Nat) {i : Nat}
    (hi : i < (members cache.nodes tt).length) :
    getNormalNode intn cache tt ((i + (members cache.nodes tt).length : Nat) : Int) =
      some (some (members cache.nodes tt)[i]) := by
  have hlist : members cache.nodes tt ≠ [] := List.ne_nil_of_length_pos (by omega)
  have hn : ((i + (members cache.nodes tt).length : Nat) : Int) ≠ 0 := by omega
  rw [getNormalNode_eq]
  simp only [if_neg hlist, if_neg hn, indexInt_tmod_natCast, Nat.add_mod_right,
    Nat.mod_eq_of_lt hi, index, List.getElem?_eq_getElem hi, Option.map_some]

/-- An address that chooses a given place of the list. -/
theorem getHarborChecked_of_lt {i : Nat} (hi : i < (members cache.harbors cluster).length)
    (hword : i < 2 ^ 32) :
    getHarborChecked cache cluster ⟨UInt32.ofNat i⟩ =
      some (some (members cache.harbors cluster)[i]) := by
  have hlist : members cache.harbors cluster ≠ [] := List.ne_nil_of_length_pos (by omega)
  have hval : (UInt32.ofNat i).toNat % (members cache.harbors cluster).length = i := by
    rw [UInt32.toNat_ofNat_of_lt' hword, Nat.mod_eq_of_lt hi]
  rw [getHarborChecked_eq]
  simp only [if_neg hlist, hval, index, List.getElem?_eq_getElem hi, Option.map_some]

/-! ## Choices from a reachable cache -/

theorem WF.selects_node (h : WF cache) (hintn : IsIntn intn) {n : Int}
    (hin : InBounds (members cache.nodes tt) n)
    (hcurrent : ∀ p ∈ members cache.nodes tt, ∃ a, cache.allnodes a = some p) :
    Selects cache (members cache.nodes tt) (fun a => a.type = tt)
      (getNormalNode intn cache tt n) := by
  have hne := (getNormalNode_ne_none_iff hintn cache tt n).mpr hin
  obtain ⟨r, hr⟩ := Option.ne_none_iff_exists'.mp hne
  obtain ⟨hnil, hmem⟩ := getNormalNode_eq_some hr
  rw [hr]
  refine ⟨Option.some_ne_none r, by rw [Option.some_inj]; exact hnil, ?_⟩
  intro p hp
  have hlisted := hmem p (Option.some.inj hp)
  obtain ⟨_, havailable, _, htype⟩ := h.nodes.sound tt p hlisted
  exact ⟨hcurrent p hlisted, havailable, htype⟩

theorem WF.selects_harbor (h : WF cache) {m : LogicAddr}
    (hcurrent : ∀ p ∈ (members cache.harbors cluster).take (2 ^ 32),
      ∃ a, cache.allnodes a = some p) :
    Selects cache (members cache.harbors cluster)
      (fun a => a.type = harbarType ∧ a.cluster = cluster)
      (getHarborChecked cache cluster m) := by
  have hm : m.val.toNat < 2 ^ 32 := m.val.toNat_lt
  by_cases hlist : members cache.harbors cluster = []
  · rw [getHarborChecked_eq]
    simp only [if_pos hlist]
    exact ⟨Option.some_ne_none _, ⟨fun _ => hlist, fun _ => rfl⟩, fun p hp => nomatch hp⟩
  · have hlt : m.val.toNat % (members cache.harbors cluster).length <
        (members cache.harbors cluster).length :=
      Nat.mod_lt _ (List.length_pos_iff.mpr hlist)
    have hle := Nat.mod_le m.val.toNat (members cache.harbors cluster).length
    rw [getHarborChecked_eq]
    simp only [if_neg hlist, index, List.getElem?_eq_getElem hlt, Option.map_some]
    refine ⟨Option.some_ne_none _, ⟨fun hnil => ?_, fun hnil => absurd hnil hlist⟩, ?_⟩
    · cases hnil
    · intro p hp
      rw [Option.some_inj, Option.some_inj] at hp
      obtain ⟨_, havailable, htype, hcluster⟩ :=
        h.harbors.sound cluster _ (List.getElem_mem hlt)
      rw [← hp]
      refine ⟨hcurrent _ ?_, havailable, htype, hcluster⟩
      rw [List.mem_take_iff_getElem]
      exact ⟨_, by omega, rfl⟩

/-- The three conditions under which choices are as they should be, and
that a number other than 0 decides the choice from a list. -/
theorem selection_iff {localAddr : LogicAddr} (h : ReachableCache localAddr cache)
    (tt cluster : UInt32) :
    (∀ intn, IsIntn intn → ∀ n,
      (getNormalNode intn cache tt n ≠ none ↔ InBounds (members cache.nodes tt) n)) ∧
    ((∀ intn, IsIntn intn → ∀ n, InBounds (members cache.nodes tt) n →
        Selects cache (members cache.nodes tt) (fun a => a.type = tt)
          (getNormalNode intn cache tt n)) ↔
      ∀ p ∈ members cache.nodes tt, ∃ a, cache.allnodes a = some p) ∧
    ((∀ m, Selects cache (members cache.harbors cluster)
        (fun a => a.type = harbarType ∧ a.cluster = cluster)
        (getHarborChecked cache cluster m)) ↔
      ∀ p ∈ (members cache.harbors cluster).take (2 ^ 32), ∃ a, cache.allnodes a = some p) ∧
    ∀ intn intn' cache' n, n ≠ 0 → cache'.nodes tt = cache.nodes tt →
      getNormalNode intn' cache' tt n = getNormalNode intn cache tt n := by
  refine ⟨fun intn hintn n => getNormalNode_ne_none_iff hintn cache tt n, ⟨?_, ?_⟩,
    ⟨?_, ?_⟩, ?_⟩
  · intro hselects p hp
    obtain ⟨i, hi, rfl⟩ := List.getElem_of_mem hp
    have hzero : IsIntn fun _ => 0 := fun k hk => hk
    have hin : InBounds (members cache.nodes tt)
        ((i + (members cache.nodes tt).length : Nat) : Int) :=
      Or.inr (Or.inl (Int.natCast_nonneg _))
    exact ((hselects _ hzero _ hin).member _ (getNormalNode_of_lt _ hi)).1
  · intro hcurrent intn hintn n hin
    exact h.wf.selects_node hintn hin hcurrent
  · intro hselects p hp
    obtain ⟨i, hi, rfl⟩ := List.mem_take_iff_getElem.mp hp
    exact ((hselects _).member _ (getHarborChecked_of_lt (by omega) (by omega))).1
  · intro hcurrent m
    exact h.wf.selects_harbor hcurrent
  · intro intn intn' cache' n hn hsame
    simp only [getNormalNode, hsame, if_neg hn]

/-- Two nodes of one type, and a node that comes twice. -/
def typeTwoReports : List MemberInfo :=
  [{ add := [⟨⟨.ofFields 1 2 1, "10.0.0.1:8110"⟩, false, true⟩,
      ⟨⟨.ofFields 1 2 2, "10.0.0.2:8110"⟩, false, true⟩] },
    { add := [⟨⟨.ofFields 1 2 1, "10.0.0.3:8110"⟩, false, true⟩] }]

/-- The number -1 panics with two nodes, and a node that was added again is
still chosen at its old place in the list. -/
theorem selection_wrong :
    (run onNodeInfoUpdate (newNodeCache (.ofFields 1 1 1)) (typeTwoReports.take 1)).map
        (fun cache => (members cache.nodes 2, getNormalNode (fun _ => 0) cache 2 (-1))) =
      some ([0, 1], none) ∧
    (run onNodeInfoUpdate (newNodeCache (.ofFields 1 1 1)) typeTwoReports).map
        (fun cache => (getNormalNode (fun _ => 0) cache 2 3, cache.logicAddr 0,
          cache.allnodes (.ofFields 1 2 1))) =
      some (some (some 0), .ofFields 1 2 1, some 2) := by
  decide +kernel

/-- Two nodes of one type with numbers that are in bounds. -/
theorem selection_iff_two :
    ∃ cache, run onNodeInfoUpdate (newNodeCache (.ofFields 1 1 1)) (typeTwoReports.take 1) =
        some cache ∧ getNormalNode (fun _ => 0) cache 2 (-2) ≠ none := by
  obtain ⟨cache, hcache⟩ := Option.isSome_iff_exists.mp
    (show (run onNodeInfoUpdate (newNodeCache (.ofFields 1 1 1)) (typeTwoReports.take 1)).isSome
      by decide +kernel)
  refine ⟨cache, hcache, ?_⟩
  have hlist : members cache.nodes 2 = [0, 1] := by
    have hmap : (run onNodeInfoUpdate (newNodeCache (.ofFields 1 1 1))
        (typeTwoReports.take 1)).map (fun cache => members cache.nodes 2) = some [0, 1] := by
      decide +kernel
    rw [hcache] at hmap
    exact Option.some.inj hmap
  rw [(selection_iff (Reach.of_run hcache) 2 1).1 _ (fun k hk => hk), hlist]
  exact Or.inr (Or.inr (by decide))

/-- After regular reports a choice by a number in bounds is as it should be,
and so is every choice of a harbor. -/
theorem selection_of_regular (localAddr : LogicAddr) {infos : List MemberInfo}
    (h : Along onNodeInfoUpdate Regular (newNodeCache localAddr) infos) :
    ∃ cache, run onNodeInfoUpdate (newNodeCache localAddr) infos = some cache ∧
      (∀ tt intn, IsIntn intn → ∀ n, InBounds (members cache.nodes tt) n →
        Selects cache (members cache.nodes tt) (fun a => a.type = tt)
          (getNormalNode intn cache tt n)) ∧
      ∀ cluster m, Selects cache (members cache.harbors cluster)
        (fun a => a.type = harbarType ∧ a.cluster = cluster)
        (getHarborChecked cache cluster m) := by
  obtain ⟨cache, hrun, hwf, htidy⟩ :=
    Along.exists_run (P := fun c => WF c ∧ Tidy c)
      ⟨newNodeCache_wf localAddr, tidy_newNodeCache localAddr⟩
      (fun _ _ hc hregular => onNodeInfoUpdate_keeps hc.1 hc.2 hregular) h
  refine ⟨cache, hrun, ?_, ?_⟩
  · intro tt intn hintn n hin
    exact hwf.selects_node hintn hin fun p hp => htidy tt p (Or.inl hp)
  · intro cluster m
    exact hwf.selects_harbor fun p hp => htidy cluster p (Or.inr (List.mem_of_mem_take hp))

end NodeCache

/-! ## Addresses by type -/

/-- The errors of `GetAddrByType`. -/
inductive GetAddrErr where
  | serverDie
  | serverNotStart
  | noAvailableNode
deriving DecidableEq, Repr

/-- `Node.GetAddrByType`.  `ready` is the answer of the `select` over `die`
and `started`, and `n` the optional arguments. -/
def Node.getAddrByType (ready : Except GetAddrErr Unit) (intn : Nat → Nat) (s : Node)
    (tt : UInt32) (n : List Int) : Option (Except GetAddrErr LogicAddr) :=
  match ready with
  | .error err => some (.error err)
  | .ok () => do
    let node ← s.nodeCache.getNormalNode intn tt (n.head?.getD 0)
    match node with
    | some node => return .ok (s.nodeCache.logicAddr node)
    | none => return .error .noAvailableNode

/-- An address that `GetAddrByType` returns is the address of an available
node and has the type asked for. -/
theorem getAddrByType_ok {ready : Except GetAddrErr Unit} {intn : Nat → Nat} {s : Node}
    (h : ReachableCache s.nodeCache.localAddr s.nodeCache) {tt : UInt32} {n : List Int}
    {a : LogicAddr} (hok : s.getAddrByType ready intn tt n = some (.ok a)) :
    a.type = tt ∧ ∃ p ∈ Grouping.members s.nodeCache.nodes tt,
      s.nodeCache.logicAddr p = a ∧ (s.nodeCache.heap p).available = true := by
  cases ready with
  | error err => cases hok
  | ok =>
    obtain ⟨node, hnode, hok⟩ := Option.bind_eq_some_iff.mp hok
    cases node with
    | none => cases hok
    | some p =>
      have hp := (NodeCache.getNormalNode_eq_some hnode).2 p rfl
      obtain ⟨_, havailable, _, htype⟩ := h.wf.nodes.sound tt p hp
      have ha : s.nodeCache.logicAddr p = a := Except.ok.inj (Option.some.inj hok)
      exact ⟨ha ▸ htype, p, hp, ha, havailable⟩

end ClusterGo
