import ClusterGo.NodeCache.Index

/-!
# The identity check of the packet handler

`onEstablish` installs a packet handler on the connection to a node `n`.
Before it passes a packet on, the handler asks `getNodeByLogicAddr` for the
address of `n` and closes the connection with `ErrInvaildNode` unless the
answer is `n` itself.

That function is made for routing.  For an address of another cluster it
answers with a harbor of that cluster, picked by the address modulo the
number of available harbors there, which need not be the harbor that has
the address.  `packetHandler_accepts_iff` says when it is.
-/

namespace ClusterGo

open Grouping

namespace NodeCache

variable {cache : NodeCache}

/-- The available harbors of a cluster, in the order of their list. -/
def harborsOf (cache : NodeCache) (cluster : UInt32) : List Ptr :=
  members cache.harbors cluster

theorem getHarbor_eq (cache : NodeCache) (cluster : UInt32) (m : LogicAddr) :
    cache.getHarbor cluster m =
      (cache.harborsOf cluster)[m.val.toNat % (cache.harborsOf cluster).length]? := by
  unfold getHarbor harborsOf members
  cases cache.harbors cluster with
  | none => rfl
  | some harbors =>
    cases harbors with
    | nil => rfl
    | cons n harbors => rfl

/-- A harbor is picked for an address if and only if it is in the list and
its position is the address modulo the length. -/
theorem WF.getHarbor_eq_some_iff (h : cache.WF) {cluster : UInt32} {m : LogicAddr} {n : Ptr} :
    cache.getHarbor cluster m = some n ↔
      n ∈ cache.harborsOf cluster ∧
        (cache.harborsOf cluster).idxOf n =
          m.val.toNat % (cache.harborsOf cluster).length := by
  have hnodup : (cache.harborsOf cluster).Nodup := h.harbors.nodup cluster
  rw [getHarbor_eq]
  constructor
  · intro hget
    obtain ⟨hlt, hn⟩ := List.getElem?_eq_some_iff.mp hget
    rw [← hn]
    exact ⟨List.getElem_mem hlt, hnodup.idxOf_getElem _ hlt⟩
  · intro hpack
    rcases hpack with ⟨hmem, hidx⟩
    rw [← hidx]
    exact List.getElem?_idxOf hmem

/-- An entry of harbor type is in the list of its cluster while it is
available. -/
theorem WF.mem_harborsOf_iff (h : cache.WF) {a : LogicAddr} {n : Ptr}
    (hentry : cache.allnodes a = some n) (htype : a.type = harbarType) :
    n ∈ cache.harborsOf a.cluster ↔ (cache.heap n).available = true := by
  have hkey : cache.logicAddr n = a := h.keyed a n hentry
  constructor
  · intro hmem
    exact (h.harbors.sound a.cluster n hmem).2.1
  · intro havail
    have hmem := h.harbors.complete a n hentry havail (hkey.symm ▸ htype)
    rwa [hkey] at hmem

end NodeCache

inductive HandlerErr where
  | invaildNode
deriving DecidableEq, Repr

namespace Node

/-- The check that `onEstablish` installs for the connection to `n`.
`none` passes the packet to `onMessage`. -/
def packetHandler (self : Node) (n : Ptr) : Option HandlerErr :=
  if self.getNodeByLogicAddr (self.nodeCache.logicAddr n) ≠ some n then some .invaildNode
  else none

/-- A direct connection with `a` is legitimate. -/
def MayConnect (self : Node) (a : LogicAddr) : Prop :=
  a.cluster = self.localAddr.logicAddr.cluster ∨
    a.type = harbarType ∧ self.localAddr.logicAddr.type = harbarType

instance (self : Node) (a : LogicAddr) : Decidable (self.MayConnect a) :=
  inferInstanceAs (Decidable (_ ∨ _))

/-- The routing function answers with the harbor `n` for its own address. -/
def RoutesToItself (self : Node) (a : LogicAddr) (n : Ptr) : Prop :=
  (self.nodeCache.heap n).available = true ∧
    (self.nodeCache.harborsOf a.cluster).idxOf n =
      a.val.toNat % (self.nodeCache.harborsOf a.cluster).length

instance (self : Node) (a : LogicAddr) (n : Ptr) : Decidable (self.RoutesToItself a n) :=
  inferInstanceAs (Decidable (_ ∧ _))

theorem packetHandler_eq_none {self : Node} {n : Ptr} :
    self.packetHandler n = none ↔
      self.getNodeByLogicAddr (self.nodeCache.logicAddr n) = some n := by
  unfold packetHandler
  split_ifs with h
  · exact iff_of_false (by simp) h
  · exact iff_of_true rfl (not_not.mp h)

/-- Packets of a legitimately connected entry are accepted if and only if
it is of the local cluster, or it is available and its position among the
available harbors of its cluster is its address modulo their number. -/
theorem packetHandler_accepts_iff (self : Node) {localAddr : LogicAddr}
    (hreach : ReachableCache localAddr self.nodeCache) {a : LogicAddr} {n : Ptr}
    (hentry : self.nodeCache.allnodes a = some n) (hdirect : self.MayConnect a) :
    self.packetHandler n = none ↔
      a.cluster = self.localAddr.logicAddr.cluster ∨ self.RoutesToItself a n := by
  have hwf := hreach.wf
  have hkey : self.nodeCache.logicAddr n = a := hwf.keyed a n hentry
  rw [packetHandler_eq_none, hkey, getNodeByLogicAddr]
  by_cases hcluster : a.cluster = self.localAddr.logicAddr.cluster
  · rw [if_pos hcluster]
    exact iff_of_true hentry (Or.inl hcluster)
  · obtain ⟨htype, hlocal⟩ := hdirect.resolve_left hcluster
    rw [if_neg hcluster, if_pos hlocal, hwf.getHarbor_eq_some_iff,
      hwf.mem_harborsOf_iff hentry htype]
    exact (or_iff_right hcluster).symm

/-! ## One harbor and two harbors in the other cluster -/

/-- An available harbor. -/
def harbor (cluster server : UInt32) : Member :=
  { addr := ⟨.ofFields cluster 255 server, "10.0.0.1:8110"⟩, exported := false,
    available := true }

/-- A node after a report that adds it and the given members. -/
def afterReport (self : Member) (others : List Member) : Node where
  localAddr := self.addr
  nodeCache := (self :: others).foldl NodeCache.addMember (newNodeCache self.addr.logicAddr)
  started := by
    rw [NodeCache.addMember_foldl_localAddr]
    rfl

theorem afterReport_reachable (self : Member) (others : List Member) :
    ReachableCache self.addr.logicAddr (afterReport self others).nodeCache :=
  .next .start trivial (e := { add := self :: others }) rfl

/-- The harbor `1.255.1` that knows `2.255.1`. -/
def loneHarbor : Node := afterReport (harbor 1 1) [harbor 2 1]

theorem packetHandler_accepts_single :
    loneHarbor.nodeCache.allnodes (.ofFields 2 255 1) = some 1 ∧
      loneHarbor.packetHandler 1 = none := by
  have hentry : loneHarbor.nodeCache.allnodes (.ofFields 2 255 1) = some 1 := by decide
  have hdirect : loneHarbor.MayConnect (.ofFields 2 255 1) := by decide
  have hposition : loneHarbor.RoutesToItself (.ofFields 2 255 1) 1 := by decide
  have hreach := afterReport_reachable (harbor 1 1) [harbor 2 1]
  exact ⟨hentry, (packetHandler_accepts_iff loneHarbor hreach hentry hdirect).mpr
    (Or.inr hposition)⟩

/-- With two available harbors in the other cluster each of them is taken
for the other one, and both connections are closed. -/
theorem packetHandler_rejects_both :
    let self := afterReport (harbor 1 1) [harbor 2 1, harbor 2 2]
    ReachableCache (harbor 1 1).addr.logicAddr self.nodeCache ∧
    self.nodeCache.allnodes (.ofFields 2 255 1) = some 1 ∧
    self.nodeCache.allnodes (.ofFields 2 255 2) = some 2 ∧
    self.MayConnect (.ofFields 2 255 1) ∧ self.MayConnect (.ofFields 2 255 2) ∧
    self.packetHandler 1 = some .invaildNode ∧ self.packetHandler 2 = some .invaildNode :=
  ⟨afterReport_reachable _ _, by decide⟩

end Node

end ClusterGo
