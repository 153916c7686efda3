import ClusterGo.Lib.Descent
import ClusterGo.NodeCache.Handler

/-!
# Routes between clusters

A message travels from node to node.  Each node that is not its target
sends it to the node that `getNodeByLogicAddr` chooses from its own cache.
The caches need not agree with each other or with the truth.  What is used
of them is `Routable`: an entry of `allnodes` has the address it is found
by, and the harbor list of a cluster holds harbors of that cluster.

`README.md` describes the route of a message to another cluster: a harbor
of the sender's cluster, a harbor of the target's cluster, the target.
`Hop` is one transmission, and `hop_cases` its three kinds.  They lower
`distance`, so a route has at most three transmissions and visits no node
twice, whatever the caches say.
-/

namespace ClusterGo

/-- What routing needs of a cache. -/
structure NodeCache.Routable (cache : NodeCache) : Prop where
  keyed : ∀ a n, cache.allnodes a = some n → cache.logicAddr n = a
  harbors : ∀ cluster n, n ∈ cache.harborsOf cluster →
    (cache.logicAddr n).type = harbarType ∧ (cache.logicAddr n).cluster = cluster

/-- Every cache that updates lead to is good for routing. -/
theorem ReachableCache.routable {localAddr : LogicAddr} {cache : NodeCache}
    (h : ReachableCache localAddr cache) : cache.Routable where
  keyed := h.wf.keyed
  harbors := fun cluster n hn => (h.wf.harbors.sound cluster n hn).2.2

theorem NodeCache.getHarbor_mem {cache : NodeCache} {cluster : UInt32} {m : LogicAddr}
    {n : Ptr} (h : cache.getHarbor cluster m = some n) : n ∈ cache.harborsOf cluster := by
  rw [getHarbor_eq] at h
  exact List.mem_of_getElem? h

/-- The address of the node that a message for `toAddr` is sent to. -/
def Node.nextHop (s : Node) (toAddr : LogicAddr) : Option LogicAddr :=
  (s.getNodeByLogicAddr toAddr).map s.nodeCache.logicAddr

/-- Some node at `x` with some cache sends a message for `toAddr` to
`y`. -/
def Hop (toAddr x y : LogicAddr) : Prop :=
  x ≠ toAddr ∧ ∃ s : Node, s.localAddr.logicAddr = x ∧ s.nodeCache.Routable ∧
    s.nextHop toAddr = some y

/-! ## The three kinds of hops -/

variable {toAddr x y : LogicAddr}

/-- Within the target's cluster a message goes to the target.  A harbor
sends it to a harbor of the target's cluster, and any other node to a
harbor of its own cluster. -/
theorem hop_cases (h : Hop toAddr x y) :
    (x.cluster = toAddr.cluster ∧ y = toAddr) ∨
    (x.cluster ≠ toAddr.cluster ∧ x.type = harbarType ∧ y.type = harbarType ∧
      y.cluster = toAddr.cluster) ∨
    (x.cluster ≠ toAddr.cluster ∧ x.type ≠ harbarType ∧ y.type = harbarType ∧
      y.cluster = x.cluster) := by
  obtain ⟨_, s, rfl, hrout, hnext⟩ := h
  obtain ⟨n, hn, rfl⟩ := Option.map_eq_some_iff.mp hnext
  unfold Node.getNodeByLogicAddr at hn
  split_ifs at hn with hcluster htype
  · exact Or.inl ⟨hcluster.symm, hrout.keyed toAddr n hn⟩
  · obtain ⟨hharbor, hfar⟩ := hrout.harbors _ n (NodeCache.getHarbor_mem hn)
    exact Or.inr (Or.inl ⟨fun he => hcluster he.symm, htype, hharbor, hfar⟩)
  · obtain ⟨hharbor, hown⟩ := hrout.harbors _ n (NodeCache.getHarbor_mem hn)
    exact Or.inr (Or.inr ⟨fun he => hcluster he.symm, htype, hharbor, hown⟩)

/-- The number of hops that are left at most. -/
def distance (toAddr x : LogicAddr) : Nat :=
  if x = toAddr then 0
  else if x.cluster = toAddr.cluster then 1
  else if x.type = harbarType then 2
  else 3

theorem distance_le_three : distance toAddr x ≤ 3 := by
  unfold distance
  split_ifs <;> omega

theorem distance_le_one (h : x.cluster = toAddr.cluster) : distance toAddr x ≤ 1 := by
  unfold distance
  split_ifs <;> omega

theorem distance_lt_of_hop (h : Hop toAddr x y) : distance toAddr y < distance toAddr x := by
  have hne : x ≠ toAddr := h.1
  rcases hop_cases h with ⟨hcluster, rfl⟩ | ⟨hcluster, htype, _, hy⟩ |
    ⟨hcluster, htype, hharbor, hy⟩
  · have hx : distance y x = 1 := by rw [distance, if_neg hne, if_pos hcluster]
    have hzero : distance y y = 0 := if_pos rfl
    omega
  · have hx : distance toAddr x = 2 := by
      rw [distance, if_neg hne, if_neg hcluster, if_pos htype]
    have := distance_le_one hy
    omega
  · have hx : distance toAddr x = 3 := by
      rw [distance, if_neg hne, if_neg hcluster, if_neg htype]
    have hle : distance toAddr y ≤ 2 := by
      unfold distance
      split_ifs <;> omega
    omega

/-! ## Routes -/

/-- The nodes that a message visits, the sender first. -/
def Route (toAddr : LogicAddr) (path : List LogicAddr) : Prop :=
  List.IsChain (Hop toAddr) path

variable {path : List LogicAddr}

theorem Route.length_le (h : Route toAddr (x :: path)) : path.length ≤ 3 :=
  Nat.le_trans (Descent.length_le_rank (fun _ _ hhop => distance_lt_of_hop hhop) h)
    distance_le_three

theorem Route.nodup (h : Route toAddr (x :: path)) : (x :: path).Nodup :=
  Descent.nodup_of_isChain (fun _ _ hhop => distance_lt_of_hop hhop) h

/-- A route ends at its target. -/
theorem Route.eq_nil_of_target (h : Route toAddr (toAddr :: path)) : path = [] := by
  cases path with
  | nil => rfl
  | cons y path => exact absurd rfl (List.isChain_cons_cons.mp h).1.1

/-- The route has come to its target. -/
def Complete (toAddr : LogicAddr) (path : List LogicAddr) : Prop :=
  path.getLast? = some toAddr

theorem Complete.tail (h : Complete toAddr (x :: y :: path)) : Complete toAddr (y :: path) := by
  rwa [Complete, List.getLast?_cons_cons] at h

theorem Complete.eq_of_singleton (h : Complete toAddr [x]) : x = toAddr :=
  Option.some.inj h

/-- The last part of a complete route, from a node of the target's
cluster. -/
theorem Route.from_cluster (h : Route toAddr (x :: path)) (hend : Complete toAddr (x :: path))
    (hx : x.cluster = toAddr.cluster) : ∃ far : Option LogicAddr,
      x :: path = far.toList ++ [toAddr] ∧ ∀ a ∈ far, a = x := by
  cases path with
  | nil =>
    refine ⟨none, ?_, by simp⟩
    rw [hend.eq_of_singleton]
    rfl
  | cons y path =>
    obtain ⟨hhop, hrest⟩ := List.isChain_cons_cons.mp h
    have hy : y = toAddr := by
      rcases hop_cases hhop with ⟨_, hy⟩ | ⟨hne, _⟩ | ⟨hne, _⟩
      · exact hy
      · exact absurd hx hne
      · exact absurd hx hne
    subst hy
    refine ⟨some x, ?_, by simp⟩
    rw [Route.eq_nil_of_target hrest]
    rfl

/-- The last part of a complete route, from a harbor of another cluster. -/
theorem Route.from_harbor (h : Route toAddr (x :: path)) (hend : Complete toAddr (x :: path))
    (hx : x.cluster ≠ toAddr.cluster) (htype : x.type = harbarType) :
    ∃ far : Option LogicAddr, path = far.toList ++ [toAddr] ∧
      ∀ a ∈ far, a.type = harbarType ∧ a.cluster = toAddr.cluster := by
  cases path with
  | nil => exact absurd (congrArg LogicAddr.cluster hend.eq_of_singleton) hx
  | cons y path =>
    obtain ⟨hhop, hrest⟩ := List.isChain_cons_cons.mp h
    rcases hop_cases hhop with ⟨he, _⟩ | ⟨_, _, hharbor, hy⟩ | ⟨_, hne, _⟩
    · exact absurd he hx
    · obtain ⟨far, hpath, hfar⟩ := Route.from_cluster hrest hend.tail hy
      refine ⟨far, hpath, ?_⟩
      intro a ha
      rw [hfar a ha]
      exact ⟨hharbor, hy⟩
    · exact absurd htype hne

/-- The way from `x` to `toAddr` that `README.md` describes: `own` is a
harbor of the sender's cluster or missing, and `far` a harbor of the
target's cluster or missing. -/
def Shape (x toAddr : LogicAddr) (path : List LogicAddr) : Prop :=
  ∃ own far : Option LogicAddr, path = x :: (own.toList ++ (far.toList ++ [toAddr])) ∧
    (∀ a ∈ own, a.type = harbarType ∧ a.cluster = x.cluster ∧ x.type ≠ harbarType) ∧
    (∀ a ∈ far, a.type = harbarType ∧ a.cluster = toAddr.cluster) ∧
    (x.cluster = toAddr.cluster → own = none ∧ far = none)

theorem Route.shape (h : Route toAddr (x :: path)) (hend : Complete toAddr (x :: path))
    (hne : x ≠ toAddr) : Shape x toAddr (x :: path) := by
  cases path with
  | nil => exact absurd hend.eq_of_singleton hne
  | cons y path =>
    obtain ⟨hhop, hrest⟩ := List.isChain_cons_cons.mp h
    rcases hop_cases hhop with ⟨_, hy⟩ | ⟨hx, htype, _⟩ | ⟨hx, htype, hharbor, hy⟩
    · subst hy
      refine ⟨none, none, ?_, by simp, by simp, fun _ => ⟨rfl, rfl⟩⟩
      rw [Route.eq_nil_of_target hrest]
      rfl
    · obtain ⟨far, hpath, hfar⟩ := Route.from_harbor h hend hx htype
      exact ⟨none, far, congrArg (x :: ·) hpath, by simp, hfar, fun he => absurd he hx⟩
    · have hyne : y.cluster ≠ toAddr.cluster := hy ▸ hx
      obtain ⟨far, hpath, hfar⟩ := Route.from_harbor hrest hend.tail hyne hharbor
      refine ⟨some y, far, ?_, ?_, hfar, fun he => absurd he hx⟩
      · rw [hpath]
        rfl
      · intro a ha
        cases ha
        exact ⟨hharbor, hy, htype⟩

end ClusterGo
