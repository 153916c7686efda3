import ClusterGo.Membership.Natsjet
import ClusterGo.Membership.Report
import ClusterGo.NodeCache.Basic

/-!
# Snapshots with failed reads

`getMembers` of the natsjet backend lists the keys of the bucket and gets
the records one by one.  A `Get` that fails is skipped, and so is a record
that cannot be parsed.  What was skipped is missing in `currentMembers`, and
the loop over the old `members` takes it for a member that is gone.

A snapshot spares the listed members when it reports no removal of an
address whose key is listed and keeps every member whose key is.  It does so
if and only if for every listed member some record of its address was read
(`snapshot_spares_iff`), so one failed `Get` is enough to remove a member
that is still in the bucket.  The removal of the local node stops it.
-/

namespace ClusterGo

/-! ## What was read -/

namespace Members

theorem foldl_insert_ne_none {ns : List Member} {k : String}
    (hk : k ∈ ns.map fun n => n.addr.logicAddr.string) (m : Members) :
    (ns.foldl insert m).get k ≠ none := by
  induction ns generalizing m with
  | nil => cases hk
  | cons n ns ih =>
    by_cases hlater : k ∈ ns.map fun n => n.addr.logicAddr.string
    · exact ih hlater _
    · have hself : k = n.addr.logicAddr.string := (List.mem_cons.mp hk).resolve_right hlater
      rw [List.foldl_cons, foldl_insert_of_notMem hlater, hself, get_insert_self]
      exact Option.some_ne_none n

/-- The addresses that are read are those of the records that parse. -/
theorem read_ne_none_iff {N : Type} {lib : RecordLib N} {records : List Text} {k : String} :
    (read lib records).get k ≠ none ↔
      ∃ text ∈ records, ∃ n, Member.parse lib text = some n ∧ n.addr.logicAddr.string = k := by
  have hmem : k ∈ (records.filterMap (Member.parse lib)).map (fun n => n.addr.logicAddr.string) ↔
      ∃ text ∈ records, ∃ n, Member.parse lib text = some n ∧ n.addr.logicAddr.string = k := by
    simp only [List.mem_map, List.mem_filterMap]
    constructor
    · intro h
      obtain ⟨n, ⟨text, htext, hparse⟩, hkey⟩ := h
      exact ⟨text, htext, n, hparse, hkey⟩
    · intro h
      obtain ⟨text, htext, n, hparse, hkey⟩ := h
      exact ⟨n, ⟨text, htext, hparse⟩, hkey⟩
  rw [← hmem]
  constructor
  · intro h
    by_contra hout
    exact h (foldl_insert_of_notMem hout _)
  · exact fun h => foldl_insert_ne_none h _

end Members

namespace Natsjet

open MemberInfo Transition

variable {N : Type}

/-- A record of the address was read: the `Get` of a listed key succeeded
with it. -/
def Fetched (lib : RecordLib N) (keys : List String) (get : String → Option Text)
    (k : String) : Prop :=
  ∃ k' ∈ keys, ∃ text, get k' = some text ∧
    ∃ n, Member.parse lib text = some n ∧ n.addr.logicAddr.string = k

theorem read_ne_none_iff_fetched {lib : RecordLib N} {keys : List String}
    {get : String → Option Text} {k : String} :
    (Members.read lib (keys.filterMap get)).get k ≠ none ↔ Fetched lib keys get k := by
  rw [Members.read_ne_none_iff]
  simp only [List.mem_filterMap]
  constructor
  · intro h
    obtain ⟨text, ⟨k', hk', hget⟩, hrecord⟩ := h
    exact ⟨k', hk', text, hget, hrecord⟩
  · intro h
    obtain ⟨k', hk', text, hget, hrecord⟩ := h
    exact ⟨text, ⟨k', hk', hget⟩, hrecord⟩

/-! ## Listed members -/

/-- The result of a snapshot reports no removal of an address whose key is
listed, and keeps every member whose key is listed.  A return without a
change does. -/
def Spares (s : Subscriber) (keys : List String) : Option (Subscriber × List Change) → Prop
  | none => True
  | some (s', changes) =>
    (∀ info ∈ callback (ofChanges changes), ∀ v ∈ info.remove,
      v.addr.logicAddr.string ∉ keys) ∧
    ∀ k ∈ keys, s.members.get k ≠ none → s'.members.get k ≠ none

/-- A removal is of an old member that was not read. -/
theorem of_remove_mem {s : Subscriber} {current : Members} {oldKeys newKeys : List String}
    {v : Member} (h : .remove v ∈ (s.takeMembers gone current oldKeys newKeys).2) :
    s.members.get v.addr.logicAddr.string ≠ none ∧
      current.get v.addr.logicAddr.string = none := by
  rcases List.mem_append.mp h with h | h
  · obtain ⟨k, _, hk⟩ := List.mem_filterMap.mp h
    obtain ⟨n, hn, hnone, hv⟩ := Subscriber.removal_eq_some hk
    obtain rfl := Change.remove.inj hv
    have hkey : n.addr.logicAddr.string = k := s.members.keyed k n hn
    show s.members.get n.addr.logicAddr.string ≠ none ∧
      current.get n.addr.logicAddr.string = none
    rw [hkey, hn]
    exact ⟨Option.some_ne_none n, hnone⟩
  · obtain ⟨k, _, hk⟩ := List.mem_filterMap.mp h
    obtain ⟨n, _, hv⟩ := Subscriber.presence_eq_some hk
    split_ifs at hv

theorem spares_takeMembers_iff {s : Subscriber} {keys oldKeys newKeys : List String}
    {current : Members} :
    Spares s keys (some (s.takeMembers gone current oldKeys newKeys)) ↔
      ∀ k ∈ keys, s.members.get k ≠ none → current.get k ≠ none := by
  constructor
  · exact fun h => h.2
  · intro h
    refine ⟨fun info hinfo v hv hlisted => ?_, h⟩
    have hreport : info = ofChanges (s.takeMembers gone current oldKeys newKeys).2 := by
      unfold callback at hinfo
      split_ifs at hinfo
      · exact List.mem_singleton.mp hinfo
      · cases hinfo
    rw [hreport, mem_ofChanges_remove] at hv
    obtain ⟨hknown, hmissing⟩ := of_remove_mem hv
    exact h _ hlisted hknown hmissing

/-- A snapshot spares the listed members if and only if it read a record of
each of them. -/
theorem snapshot_spares_iff (lib : RecordLib N) (s : Subscriber) (listing : Listing)
    (get : String → Option Text) (oldKeys newKeys : List String) :
    (∀ keys, listing.toKeys = some keys →
      Spares s keys (getMembers lib s listing get oldKeys newKeys)) ↔
    ∀ keys, listing.toKeys = some keys →
      ∀ k ∈ keys, s.members.get k ≠ none → Fetched lib keys get k := by
  refine forall_congr' fun keys => imp_congr_right fun hkeys => ?_
  rw [getMembers, hkeys, Option.map_some, spares_takeMembers_iff]
  simp only [read_ne_none_iff_fetched]

/-- A subscriber that knows the guest. -/
def guestKnown : Subscriber :=
  { members := Members.empty.insert guest, alive := fun k => k == "1.2.3" }

/-- The key of the guest is listed and its `Get` fails: the guest is
removed, and when it is the local node it stops. -/
theorem failed_get_removes :
    ¬ Spares guestKnown ["1.2.3"]
        (getMembers plainLib guestKnown (.found ["1.2.3"]) (fun _ => none) ["1.2.3"] []) ∧
      ((getMembers plainLib guestKnown (.found ["1.2.3"]) (fun _ => none) ["1.2.3"] []).map
        fun r => (r.1.members.get "1.2.3", ofChanges r.2)) =
          some (none, { remove := [{ guest with available := false }] }) ∧
      ((run NodeCache.onNodeInfoUpdate (newNodeCache guest.addr.logicAddr)
        [{ add := [guest] }, { remove := [{ guest with available := false }] }]).map
          (·.stopped)) = some true := by
  refine ⟨fun h => ?_, by decide +kernel, by decide +kernel⟩
  exact h.2 "1.2.3" (by decide) (by decide +kernel) rfl

end Natsjet

end ClusterGo
