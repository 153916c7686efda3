import ClusterGo.Lib.Fallible
import ClusterGo.NodeCache.Basic

/-!
# The index lists agree with the nodes

`WF` is the invariant of the node cache: an entry of `allnodes` has the
logic address it is found by, and each index list holds available nodes of
its kind and key, no node twice, and among them every entry of `allnodes`
that belongs there.

Every update keeps it, also one that is not a faithful report, and also one
that leaves through `self.Stop`.  An `Add` for an address that is already
there makes the old node unreachable from `allnodes` but leaves it in its
list, so the lists may hold more than the current entries.

All changes of the code are changes at one node.  `Filed.change` says what
has to be checked then, and `Filed.filed`, `Filed.unfiled` and `Filed.kept`
are its three uses: the node is filed, taken out, or stays as it is.
-/

namespace ClusterGo

namespace NodeCache

open Grouping

/-- The index list `index` holds the available nodes with addresses of the
given kind under their key. -/
structure Filed (cache : NodeCache) (index : UInt32 → Option (List Ptr))
    (key : LogicAddr → UInt32) (kind : LogicAddr → Prop) : Prop where
  nodup : ∀ k, (members index k).Nodup
  sound : ∀ k n, n ∈ members index k →
    n < cache.next ∧ (cache.heap n).available = true ∧
      kind (cache.logicAddr n) ∧ key (cache.logicAddr n) = k
  complete : ∀ a n, cache.allnodes a = some n → (cache.heap n).available = true →
    kind (cache.logicAddr n) → n ∈ members index (key (cache.logicAddr n))

/-- The entries of `allnodes` are allocated and found by their address. -/
structure Entries (cache : NodeCache) : Prop where
  bounded : ∀ a n, cache.allnodes a = some n → n < cache.next
  keyed : ∀ a n, cache.allnodes a = some n → cache.logicAddr n = a

/-- The invariant of the node cache. -/
structure WF (cache : NodeCache) : Prop extends Entries cache where
  nodes : Filed cache cache.nodes LogicAddr.type (fun a => a.type ≠ harbarType)
  harbors : Filed cache cache.harbors LogicAddr.cluster (fun a => a.type = harbarType)

/-! ## Changes at one node -/

/-- `cache'` differs from `cache` at the node `n` only. -/
structure ChangesAt (n : Ptr) (cache cache' : NodeCache) : Prop where
  heap : ∀ m, m ≠ n → cache'.heap m = cache.heap m
  next : cache.next ≤ cache'.next
  allnodes : ∀ a m, m ≠ n → cache'.allnodes a = some m → cache.allnodes a = some m

variable {cache cache' : NodeCache} {n : Ptr} {index index' : UInt32 → Option (List Ptr)}
  {key : LogicAddr → UInt32} {kind : LogicAddr → Prop}

theorem ChangesAt.logicAddr (h : ChangesAt n cache cache') {m : Ptr} (hm : m ≠ n) :
    cache'.logicAddr m = cache.logicAddr m := by
  unfold NodeCache.logicAddr
  rw [h.heap m hm]

theorem Filed.change (h : Filed cache index key kind) (hc : ChangesAt n cache cache')
    (hnodup : ∀ k, (members index' k).Nodup)
    (hmem : ∀ k m, m ≠ n → (m ∈ members index' k ↔ m ∈ members index k))
    (hsound : ∀ k, n ∈ members index' k →
      n < cache'.next ∧ (cache'.heap n).available = true ∧
        kind (cache'.logicAddr n) ∧ key (cache'.logicAddr n) = k)
    (hcomplete : ∀ a, cache'.allnodes a = some n → (cache'.heap n).available = true →
      kind (cache'.logicAddr n) → n ∈ members index' (key (cache'.logicAddr n))) :
    Filed cache' index' key kind where
  nodup := hnodup
  sound := by
    intro k m hm
    by_cases hmn : m = n
    · subst hmn
      exact hsound k hm
    · obtain ⟨hlt, havail, hkind, hkey⟩ := h.sound k m ((hmem k m hmn).mp hm)
      rw [hc.logicAddr hmn, hc.heap m hmn]
      exact ⟨Nat.lt_of_lt_of_le hlt hc.next, havail, hkind, hkey⟩
  complete := by
    intro a m ha havail hkind
    by_cases hmn : m = n
    · subst hmn
      exact hcomplete a ha havail hkind
    · rw [hc.heap m hmn] at havail
      rw [hc.logicAddr hmn] at hkind ⊢
      exact (hmem _ m hmn).mpr (h.complete a m (hc.allnodes a m hmn ha) havail hkind)

/-- A node that is in no list and becomes available is filed. -/
theorem Filed.filed [DecidablePred kind] (h : Filed cache index key kind)
    (hc : ChangesAt n cache cache') (hfresh : ∀ k, n ∉ members index k)
    (hlt : n < cache'.next) (havail : (cache'.heap n).available = true) :
    Filed cache' (if kind (cache'.logicAddr n) then add (key (cache'.logicAddr n)) n index
      else index) key kind := by
  by_cases hkind : kind (cache'.logicAddr n)
  · rw [if_pos hkind]
    refine h.change hc ?_ ?_ ?_ ?_
    · intro k
      rw [members_add]
      split_ifs
      · rw [← List.concat_eq_append]
        exact List.Nodup.concat (hfresh k) (h.nodup k)
      · exact h.nodup k
    · intro k m hm
      rw [members_add]
      split_ifs
      · simp [hm]
      · exact Iff.rfl
    · intro k hn
      rw [members_add] at hn
      split_ifs at hn with hk
      · exact ⟨hlt, havail, hkind, hk.symm⟩
      · exact absurd hn (hfresh k)
    · intro a _ _ _
      rw [members_add, if_pos rfl]
      simp
  · rw [if_neg hkind]
    refine h.change hc h.nodup (fun k m _ => Iff.rfl) ?_ ?_
    · intro k hn
      exact absurd hn (hfresh k)
    · intro a _ _ hk
      exact absurd hk hkind

/-- A node that becomes unavailable or leaves `allnodes` is taken out. -/
theorem Filed.unfiled [DecidablePred kind] (h : Filed cache index key kind)
    (hc : ChangesAt n cache cache') (haddr : cache'.logicAddr n = cache.logicAddr n)
    (hout : (cache'.heap n).available = false ∨ ∀ a, cache'.allnodes a ≠ some n) :
    Filed cache' (if kind (cache'.logicAddr n) then remove (key (cache'.logicAddr n)) n index
      else index) key kind := by
  have hcomplete : ∀ a (i : UInt32 → Option (List Ptr)), cache'.allnodes a = some n →
      (cache'.heap n).available = true → kind (cache'.logicAddr n) →
        n ∈ members i (key (cache'.logicAddr n)) := by
    intro a i ha havail _
    rcases hout with hout | hout
    · rw [hout] at havail
      cases havail
    · exact absurd ha (hout a)
  by_cases hkind : kind (cache'.logicAddr n)
  · rw [if_pos hkind]
    refine h.change hc ?_ ?_ ?_ (fun a => hcomplete a _)
    · intro k
      rw [members_remove]
      split_ifs
      · exact nodup_swapRemove (h.nodup k) n
      · exact h.nodup k
    · intro k m hm
      rw [members_remove]
      split_ifs
      · rw [mem_swapRemove (h.nodup k)]
        exact and_iff_right hm
      · exact Iff.rfl
    · intro k hn
      rw [members_remove] at hn
      split_ifs at hn with hk
      · exact absurd rfl ((mem_swapRemove (h.nodup k)).mp hn).1
      · rw [haddr] at hk
        exact absurd (h.sound k n hn).2.2.2.symm hk
  · rw [if_neg hkind]
    refine h.change hc h.nodup (fun k m _ => Iff.rfl) ?_ (fun a => hcomplete a _)
    intro k hn
    rw [haddr] at hkind
    exact absurd (h.sound k n hn).2.2.1 hkind

/-- A node whose address and availability stay, or that is unavailable and
in no list, needs no change of the lists. -/
theorem Filed.kept (h : Filed cache index key kind) (hc : ChangesAt n cache cache')
    (hn : (cache'.heap n).available = false ∧ (∀ k, n ∉ members index k) ∨
      (cache'.heap n).available = (cache.heap n).available ∧
        cache'.logicAddr n = cache.logicAddr n ∧
          ∀ a, cache'.allnodes a = some n → cache.allnodes a = some n) :
    Filed cache' index key kind := by
  refine h.change hc h.nodup (fun k m _ => Iff.rfl) ?_ ?_
  · intro k hmem
    rcases hn with ⟨_, hfresh⟩ | ⟨havail, haddr, _⟩
    · exact absurd hmem (hfresh k)
    · obtain ⟨hlt, hrest⟩ := h.sound k n hmem
      rw [havail, haddr]
      exact ⟨Nat.lt_of_lt_of_le hlt hc.next, hrest⟩
  · intro a ha hav hkind
    rcases hn with ⟨hunavail, _⟩ | ⟨havail, haddr, hall⟩
    · rw [hunavail] at hav
      cases hav
    · rw [havail] at hav
      rw [haddr] at hkind ⊢
      exact h.complete a n (hall a ha) hav hkind

/-! ## Filing keeps the invariant -/

@[simp] theorem file_heap : (cache.file n).heap = cache.heap := by
  unfold file
  split_ifs <;> rfl

@[simp] theorem file_next : (cache.file n).next = cache.next := by
  unfold file
  split_ifs <;> rfl

@[simp] theorem file_allnodes : (cache.file n).allnodes = cache.allnodes := by
  unfold file
  split_ifs <;> rfl

@[simp] theorem file_localAddr : (cache.file n).localAddr = cache.localAddr := by
  unfold file
  split_ifs <;> rfl

theorem file_nodes : (cache.file n).nodes =
    if (cache.logicAddr n).type ≠ harbarType then
      add (cache.logicAddr n).type n cache.nodes else cache.nodes := by
  unfold file
  split_ifs <;> rfl

theorem file_harbors : (cache.file n).harbors =
    if (cache.logicAddr n).type = harbarType then
      add (cache.logicAddr n).cluster n cache.harbors else cache.harbors := by
  unfold file
  by_cases h : (cache.logicAddr n).type = harbarType
  · rw [if_neg (not_not.mpr h), if_pos h]
    rfl
  · rw [if_pos h, if_neg h]
    rfl

@[simp] theorem unfile_heap : (cache.unfile n).heap = cache.heap := by
  unfold unfile
  split_ifs <;> rfl

@[simp] theorem unfile_next : (cache.unfile n).next = cache.next := by
  unfold unfile
  split_ifs <;> rfl

@[simp] theorem unfile_allnodes : (cache.unfile n).allnodes = cache.allnodes := by
  unfold unfile
  split_ifs <;> rfl

@[simp] theorem unfile_localAddr : (cache.unfile n).localAddr = cache.localAddr := by
  unfold unfile
  split_ifs <;> rfl

theorem unfile_nodes : (cache.unfile n).nodes =
    if (cache.logicAddr n).type ≠ harbarType then
      remove (cache.logicAddr n).type n cache.nodes else cache.nodes := by
  unfold unfile
  split_ifs <;> rfl

theorem unfile_harbors : (cache.unfile n).harbors =
    if (cache.logicAddr n).type = harbarType then
      remove (cache.logicAddr n).cluster n cache.harbors else cache.harbors := by
  unfold unfile
  by_cases h : (cache.logicAddr n).type = harbarType
  · rw [if_neg (not_not.mpr h), if_pos h]
    rfl
  · rw [if_pos h, if_neg h]
    rfl

/-- The lists are read through the heap and `allnodes` only. -/
theorem Filed.congr (h : Filed cache index key kind) (hheap : cache'.heap = cache.heap)
    (hnext : cache'.next = cache.next) (hall : cache'.allnodes = cache.allnodes) :
    Filed cache' index key kind where
  nodup := h.nodup
  sound := by
    unfold logicAddr
    rw [hheap, hnext]
    exact h.sound
  complete := by
    unfold logicAddr
    rw [hheap, hall]
    exact h.complete

theorem Entries.congr (h : Entries cache) (hheap : cache'.heap = cache.heap)
    (hnext : cache'.next = cache.next) (hall : cache'.allnodes = cache.allnodes) :
    Entries cache' where
  bounded := by
    rw [hnext, hall]
    exact h.bounded
  keyed := by
    unfold logicAddr
    rw [hheap, hall]
    exact h.keyed

theorem WF.filed (h : WF cache) (hc : ChangesAt n cache cache') (hentries : Entries cache')
    (hnodes : cache'.nodes = cache.nodes) (hharbors : cache'.harbors = cache.harbors)
    (hfresh : ∀ k, n ∉ members cache.nodes k ∧ n ∉ members cache.harbors k)
    (hlt : n < cache'.next) (havail : (cache'.heap n).available = true) :
    WF (cache'.file n) where
  toEntries := hentries.congr file_heap file_next file_allnodes
  nodes := by
    rw [file_nodes, hnodes]
    exact (h.nodes.filed hc (fun k => (hfresh k).1) hlt havail).congr
      file_heap file_next file_allnodes
  harbors := by
    rw [file_harbors, hharbors]
    exact (h.harbors.filed hc (fun k => (hfresh k).2) hlt havail).congr
      file_heap file_next file_allnodes

theorem WF.unfiled (h : WF cache) (hc : ChangesAt n cache cache') (hentries : Entries cache')
    (hnodes : cache'.nodes = cache.nodes) (hharbors : cache'.harbors = cache.harbors)
    (haddr : cache'.logicAddr n = cache.logicAddr n)
    (hout : (cache'.heap n).available = false ∨ ∀ a, cache'.allnodes a ≠ some n) :
    WF (cache'.unfile n) where
  toEntries := hentries.congr unfile_heap unfile_next unfile_allnodes
  nodes := by
    rw [unfile_nodes, hnodes]
    exact (h.nodes.unfiled hc haddr hout).congr unfile_heap unfile_next unfile_allnodes
  harbors := by
    rw [unfile_harbors, hharbors]
    exact (h.harbors.unfiled hc haddr hout).congr unfile_heap unfile_next unfile_allnodes

theorem WF.kept (h : WF cache) (hc : ChangesAt n cache cache') (hentries : Entries cache')
    (hnodes : cache'.nodes = cache.nodes) (hharbors : cache'.harbors = cache.harbors)
    (hn : (cache'.heap n).available = false ∧
        (∀ k, n ∉ members cache.nodes k ∧ n ∉ members cache.harbors k) ∨
      (cache'.heap n).available = (cache.heap n).available ∧
        cache'.logicAddr n = cache.logicAddr n ∧
          ∀ a, cache'.allnodes a = some n → cache.allnodes a = some n) : WF cache' where
  toEntries := hentries
  nodes := by
    rw [hnodes]
    exact h.nodes.kept hc (hn.imp_left fun hn => ⟨hn.1, fun k => (hn.2 k).1⟩)
  harbors := by
    rw [hharbors]
    exact h.harbors.kept hc (hn.imp_left fun hn => ⟨hn.1, fun k => (hn.2 k).2⟩)

theorem WF.congr (h : WF cache) (hheap : cache'.heap = cache.heap)
    (hnext : cache'.next = cache.next) (hall : cache'.allnodes = cache.allnodes)
    (hnodes : cache'.nodes = cache.nodes) (hharbors : cache'.harbors = cache.harbors) :
    WF cache' where
  toEntries := h.toEntries.congr hheap hnext hall
  nodes := hnodes ▸ h.nodes.congr hheap hnext hall
  harbors := hharbors ▸ h.harbors.congr hheap hnext hall

/-- Only available nodes that were allocated are in a list. -/
theorem WF.notMem (h : WF cache) (hn : cache.next ≤ n ∨ (cache.heap n).available = false)
    (k : UInt32) : n ∉ members cache.nodes k ∧ n ∉ members cache.harbors k := by
  refine ⟨fun hmem => ?_, fun hmem => ?_⟩
  · obtain ⟨hlt, havail, _⟩ := h.nodes.sound k n hmem
    rcases hn with hn | hn
    · exact absurd hlt (Nat.not_lt.mpr hn)
    · rw [hn] at havail
      cases havail
  · obtain ⟨hlt, havail, _⟩ := h.harbors.sound k n hmem
    rcases hn with hn | hn
    · exact absurd hlt (Nat.not_lt.mpr hn)
    · rw [hn] at havail
      cases havail

/-! ## The three loop bodies -/

theorem insertNode_changesAt (cache : NodeCache) (v : Member) :
    ChangesAt cache.next cache (cache.insertNode v) where
  heap := fun _ hm => Function.update_of_ne hm _ _
  next := Nat.le_succ _
  allnodes := by
    intro a m hm ha
    by_cases hkey : a = v.addr.logicAddr
    · simp only [insertNode, hkey, Function.update_self, Option.some_inj] at ha
      exact absurd ha.symm hm
    · simpa only [insertNode, Function.update_of_ne hkey] using ha

theorem insertNode_entries (h : Entries cache) (v : Member) :
    Entries (cache.insertNode v) := by
  have hnew : (cache.insertNode v).logicAddr cache.next = v.addr.logicAddr := by
    simp only [insertNode, setRec, logicAddr, Function.update_self]
  refine ⟨?_, ?_⟩
  · intro a n ha
    by_cases hn : n = cache.next
    · exact hn ▸ Nat.lt_succ_self _
    · have hold := (insertNode_changesAt cache v).allnodes a n hn ha
      exact Nat.lt_succ_of_lt (h.bounded a n hold)
  · intro a n ha
    by_cases hkey : a = v.addr.logicAddr
    · simp only [insertNode, hkey, Function.update_self, Option.some_inj] at ha
      rw [hkey, ← hnew, ha]
    · have hold : cache.allnodes a = some n := by
        simpa only [insertNode, Function.update_of_ne hkey] using ha
      have hn : n ≠ cache.next := Nat.ne_of_lt (h.bounded a n hold)
      rw [(insertNode_changesAt cache v).logicAddr hn]
      exact h.keyed a n hold

theorem addMember_wf (h : WF cache) (v : Member) : WF (cache.addMember v) := by
  have hfresh := h.notMem (Or.inl (Nat.le_refl cache.next))
  have hheap : (cache.insertNode v).heap cache.next = ⟨v.addr, v.available⟩ := by
    simp only [insertNode, setRec, Function.update_self]
  unfold addMember
  dsimp only
  split_ifs with hvis havail
  · exact h.filed (insertNode_changesAt cache v) (insertNode_entries h.toEntries v) rfl rfl
      hfresh (Nat.lt_succ_self _) (by rw [hheap]; exact havail)
  · refine h.kept (insertNode_changesAt cache v) (insertNode_entries h.toEntries v) rfl rfl ?_
    rw [hheap]
    exact Or.inl ⟨Bool.eq_false_iff.mpr havail, hfresh⟩
  · exact h

theorem deleteNode_changesAt (cache : NodeCache) (n : Ptr) :
    ChangesAt n cache (cache.deleteNode n) where
  heap := fun _ _ => rfl
  next := Nat.le_refl _
  allnodes := by
    intro a m _ ha
    by_cases hkey : a = cache.logicAddr n
    · simp only [deleteNode, hkey, Function.update_self, reduceCtorEq] at ha
    · simpa only [deleteNode, Function.update_of_ne hkey] using ha

/-- The entries after a deletion are entries from before it at another
address. -/
theorem deleteNode_allnodes {a : LogicAddr} {m : Ptr}
    (ha : (cache.deleteNode n).allnodes a = some m) :
    cache.allnodes a = some m ∧ a ≠ cache.logicAddr n := by
  by_cases hkey : a = cache.logicAddr n
  · simp only [deleteNode, hkey, Function.update_self, reduceCtorEq] at ha
  · simp only [deleteNode, Function.update_of_ne hkey] at ha
    exact ⟨ha, hkey⟩

theorem deleteNode_entries (h : Entries cache) (n : Ptr) : Entries (cache.deleteNode n) where
  bounded := fun a m ha => h.bounded a m (deleteNode_allnodes ha).1
  keyed := fun a m ha => h.keyed a m (deleteNode_allnodes ha).1

theorem deleteNode_wf (h : WF cache) (n : Ptr) :
    WF (if (cache.heap n).available then (cache.deleteNode n).unfile n
      else cache.deleteNode n) := by
  have hc := deleteNode_changesAt cache n
  have hentries := deleteNode_entries h.toEntries n
  split_ifs with havail
  · refine h.unfiled hc hentries rfl rfl rfl (Or.inr ?_)
    intro a ha
    obtain ⟨hold, hne⟩ := deleteNode_allnodes ha
    exact hne (h.keyed a n hold).symm
  · exact h.kept hc hentries rfl rfl
      (Or.inr ⟨rfl, rfl, fun a ha => (deleteNode_allnodes ha).1⟩)

theorem setRec_changesAt (cache : NodeCache) (n : Ptr) (r : NodeRec) :
    ChangesAt n cache (cache.setRec n r) where
  heap := fun _ hm => Function.update_of_ne hm _ _
  next := Nat.le_refl _
  allnodes := fun _ _ _ ha => ha

theorem setRec_logicAddr {r : NodeRec} (haddr : r.addr.logicAddr = cache.logicAddr n)
    (m : Ptr) : (cache.setRec n r).logicAddr m = cache.logicAddr m := by
  by_cases hm : m = n
  · rw [hm, ← haddr]
    simp only [setRec, logicAddr, Function.update_self]
  · exact (setRec_changesAt cache n r).logicAddr hm

theorem setRec_entries (h : Entries cache) {r : NodeRec}
    (haddr : r.addr.logicAddr = cache.logicAddr n) : Entries (cache.setRec n r) where
  bounded := h.bounded
  keyed := by
    intro a m ha
    rw [setRec_logicAddr haddr]
    exact h.keyed a m ha

theorem setRec_heap_self (cache : NodeCache) (n : Ptr) (r : NodeRec) :
    (cache.setRec n r).heap n = r :=
  Function.update_self ..

theorem updateNetAddr_wf (h : WF cache) (n : Ptr) (netAddr : String) :
    WF (cache.updateNetAddr n netAddr) := by
  unfold updateNetAddr
  refine h.kept (setRec_changesAt cache n _) (setRec_entries h.toEntries rfl) rfl rfl
    (Or.inr ⟨?_, ?_, fun _ ha => ha⟩)
  · rw [setRec_heap_self]
  · apply setRec_logicAddr
    rfl

theorem switchNode_wf (h : WF cache) (hlt : n < cache.next) (available : Bool) :
    WF (cache.switchNode n available) := by
  unfold switchNode setAvailable
  split_ifs with hon havail havail
  · have hoff : (cache.heap n).available = false := by simpa using havail
    refine h.filed (setRec_changesAt cache n _) (setRec_entries h.toEntries rfl) rfl rfl
      (h.notMem (Or.inr hoff)) hlt ?_
    rw [setRec_heap_self]
  · exact h
  · refine h.unfiled (setRec_changesAt cache n _) (setRec_entries h.toEntries rfl) rfl rfl
      ?_ (Or.inl ?_)
    · apply setRec_logicAddr
      rfl
    · rw [setRec_heap_self]
  · exact h

/-- A property holds where a loop body ends and where it stops the node. -/
def Exits (P : NodeCache → Prop) : Except Exit NodeCache → Prop
  | .ok cache | .error (.stop cache) => P cache
  | .error .nilDereference => True

theorem removeMember_wf (h : WF cache) (v : Member) : Exits WF (cache.removeMember v) := by
  unfold removeMember
  split_ifs with hvis hlocal
  · exact h.congr rfl rfl rfl rfl rfl
  · cases hentry : cache.allnodes v.addr.logicAddr with
    | none => trivial
    | some n => exact (deleteNode_wf h n).congr rfl rfl rfl rfl rfl
  · exact h

theorem moveNode_wf (h : WF cache) (n : Ptr) (netAddr : String) :
    Exits WF (cache.moveNode n netAddr) := by
  unfold moveNode
  split_ifs with hmoved hlocal
  · exact h.congr rfl rfl rfl rfl rfl
  · have hclosed : WF (cache.closeSocket n) := h.congr rfl rfl rfl rfl rfl
    exact updateNetAddr_wf hclosed n netAddr
  · exact h

theorem moveNode_frame {netAddr : String} (h : cache.moveNode n netAddr = .ok cache') :
    cache'.next = cache.next ∧ cache'.allnodes = cache.allnodes := by
  unfold moveNode at h
  split_ifs at h
  · cases h
    exact ⟨rfl, rfl⟩
  · cases h
    exact ⟨rfl, rfl⟩

theorem updateMember_wf (h : WF cache) (v : Member) : Exits WF (cache.updateMember v) := by
  unfold updateMember
  split_ifs with hvis
  · cases hentry : cache.allnodes v.addr.logicAddr with
    | none => trivial
    | some n =>
      have hmove := moveNode_wf h n v.addr.netAddr
      have hlt := h.bounded _ _ hentry
      dsimp only
      cases hmoved : cache.moveNode n v.addr.netAddr with
      | error e =>
        rw [hmoved] at hmove
        exact hmove
      | ok moved =>
        rw [hmoved] at hmove
        rw [← (moveNode_frame hmoved).1] at hlt
        exact switchNode_wf hmove hlt v.available
  · exact h

/-! ## Every update keeps the invariant -/

/-- What holds after the additions and is kept by the other two loop bodies
holds after an update. -/
theorem onNodeInfoUpdate_invariant_of_added {P : NodeCache → Prop} {info : MemberInfo}
    (hadded : P (info.add.foldl addMember cache))
    (hremove : ∀ c v, P c → Exits P (c.removeMember v))
    (hupdate : ∀ c v, P c → Exits P (c.updateMember v))
    (hcall : cache.onNodeInfoUpdate info = some cache') : P cache' := by
  have hremoved : Exits P (info.remove.foldlM removeMember (info.add.foldl addMember cache)) :=
    Fallible.foldlM_invariant (fun c v hc => hremove c v hc) hadded info.remove
  have hloops : Exits P (cache.loops info) :=
    Fallible.bind_invariant hremoved fun c hc =>
      Fallible.foldlM_invariant (fun c v hc => hupdate c v hc) hc info.update
  unfold onNodeInfoUpdate at hcall
  cases hr : cache.loops info with
  | ok c =>
    rw [hr] at hcall hloops
    cases hcall
    exact hloops
  | error e =>
    cases e with
    | stop c =>
      rw [hr] at hcall hloops
      cases hcall
      exact hloops
    | nilDereference =>
      rw [hr] at hcall
      cases hcall

/-- What the three loop bodies keep an update keeps. -/
theorem onNodeInfoUpdate_invariant {P : NodeCache → Prop}
    (hadd : ∀ c v, P c → P (c.addMember v))
    (hremove : ∀ c v, P c → Exits P (c.removeMember v))
    (hupdate : ∀ c v, P c → Exits P (c.updateMember v)) (h : P cache) {info : MemberInfo}
    (hcall : cache.onNodeInfoUpdate info = some cache') : P cache' := by
  have hadded : P (info.add.foldl addMember cache) :=
    List.foldlRecOn info.add addMember h fun c hc v _ => hadd c v hc
  exact onNodeInfoUpdate_invariant_of_added hadded hremove hupdate hcall

theorem onNodeInfoUpdate_wf (h : WF cache) {info : MemberInfo}
    (hcall : cache.onNodeInfoUpdate info = some cache') : WF cache' :=
  onNodeInfoUpdate_invariant (fun _ v hc => addMember_wf hc v)
    (fun _ v hc => removeMember_wf hc v) (fun _ v hc => updateMember_wf hc v) h hcall

theorem addMember_localAddr (v : Member) : (cache.addMember v).localAddr = cache.localAddr := by
  unfold addMember
  dsimp only
  split_ifs
  · exact file_localAddr
  · rfl
  · rfl

theorem addMember_foldl_localAddr (l : List Member) :
    (l.foldl addMember cache).localAddr = cache.localAddr := by
  induction l generalizing cache with
  | nil => rfl
  | cons v l ih =>
    rw [List.foldl_cons, ih]
    exact addMember_localAddr v

theorem removeMember_localAddr (v : Member) :
    Exits (fun c => c.localAddr = cache.localAddr) (cache.removeMember v) := by
  unfold removeMember
  split_ifs
  · exact rfl
  · cases cache.allnodes v.addr.logicAddr with
    | none => trivial
    | some n =>
      show (if (cache.heap n).available then (cache.deleteNode n).unfile n
        else cache.deleteNode n).localAddr = cache.localAddr
      split_ifs
      · exact unfile_localAddr
      · rfl
  · exact rfl

theorem switchNode_localAddr (available : Bool) :
    (cache.switchNode n available).localAddr = cache.localAddr := by
  unfold switchNode
  split_ifs
  · exact file_localAddr
  · rfl
  · exact unfile_localAddr
  · rfl

theorem updateMember_localAddr (v : Member) :
    Exits (fun c => c.localAddr = cache.localAddr) (cache.updateMember v) := by
  unfold updateMember
  split_ifs
  · cases cache.allnodes v.addr.logicAddr with
    | none => trivial
    | some n =>
      dsimp only
      unfold moveNode
      split_ifs
      · exact rfl
      · exact switchNode_localAddr v.available
      · exact switchNode_localAddr v.available
  · exact rfl

theorem onNodeInfoUpdate_localAddr {info : MemberInfo}
    (hcall : cache.onNodeInfoUpdate info = some cache') :
    cache'.localAddr = cache.localAddr :=
  onNodeInfoUpdate_invariant (P := fun c => c.localAddr = cache.localAddr)
    (fun _ v hc => (addMember_localAddr v).trans hc)
    (fun _ v hc => hc ▸ removeMember_localAddr v) (fun _ v hc => hc ▸ updateMember_localAddr v)
    rfl hcall

end NodeCache

theorem newNodeCache_wf (localAddr : LogicAddr) : NodeCache.WF (newNodeCache localAddr) where
  bounded := fun _ _ h => (by cases h)
  keyed := fun _ _ h => (by cases h)
  nodes := ⟨fun _ => List.nodup_nil, fun _ _ h => (by cases h), fun _ _ h => (by cases h)⟩
  harbors := ⟨fun _ => List.nodup_nil, fun _ _ h => (by cases h), fun _ _ h => (by cases h)⟩

/-- The caches that membership updates lead to. -/
abbrev ReachableCache (localAddr : LogicAddr) : NodeCache → Prop :=
  Transition.Reachable NodeCache.onNodeInfoUpdate (newNodeCache localAddr)

theorem ReachableCache.wf {localAddr : LogicAddr} {cache : NodeCache}
    (h : ReachableCache localAddr cache) : cache.WF :=
  h.invariant (newNodeCache_wf localAddr) fun _ _ _ _ hs _ hstep =>
    NodeCache.onNodeInfoUpdate_wf hs hstep

end ClusterGo
