import ClusterGo.Lib.Keyed
import ClusterGo.NodeCache.Index

/-!
# The cache as a map

`view` forgets the pointers and the lists: it maps a logic address to the
address and the availability that the cache has for it.  On views a change
touches the cell of its own address only.  `cell` is what it makes of that
cell, and `none` is the nil dereference.

`changes_simulates` connects the two levels.  As long as no report asks
the node to stop, `onNodeInfoUpdate` on the cache is `Keyed.applyAll` of the
reported changes on its view.
-/

namespace ClusterGo.NodeCache

/-- What the cache says about each address. -/
def view (cache : NodeCache) (a : LogicAddr) : Option (Addr × Bool) :=
  (cache.allnodes a).map fun n => ((cache.heap n).addr, (cache.heap n).available)

/-- What a change makes of the cell of its address. -/
def cell (localAddr : LogicAddr) : Change → Option (Addr × Bool) →
    Option (Option (Addr × Bool))
  | .add v, old => if visible localAddr v then some (some (v.addr, v.available)) else some old
  | .remove v, old =>
    if visible localAddr v then old.map fun _ => none else some old
  | .update v, old =>
    if visible localAddr v then old.map fun _ => some (v.addr, v.available) else some old

/-- The change does not remove the local node and does not give it a net
address other than the one that the cache has. -/
def StaysUp (localAddr : LogicAddr) : Change → Option (Addr × Bool) → Prop
  | .add _, _ => True
  | .remove v, _ => v.addr.logicAddr ≠ localAddr
  | .update v, old => v.addr.logicAddr = localAddr →
      ∀ u, old = some u → v.addr.netAddr = u.1.netAddr

theorem staysUp_of_away {localAddr : LogicAddr} {x : Change} {old : Option (Addr × Bool)}
    (h : x.key ≠ localAddr) : StaysUp localAddr x old := by
  cases x with
  | add v => trivial
  | remove v => exact h
  | update v => exact fun heq => absurd heq h

/-! ## The view after one operation -/

variable {cache cache' : NodeCache} {n : Ptr} {a : LogicAddr}

theorem view_congr (hheap : cache'.heap = cache.heap)
    (hall : cache'.allnodes = cache.allnodes) : cache'.view = cache.view := by
  unfold view
  rw [hheap, hall]

theorem view_of_entry (h : cache.allnodes a = some n) :
    cache.view a = some ((cache.heap n).addr, (cache.heap n).available) := by
  rw [view, h, Option.map_some]

/-- A node is the entry of at most one address. -/
theorem Entries.ne_of_ne (h : Entries cache) (hn : cache.allnodes a = some n)
    {b : LogicAddr} {m : Ptr} (hb : b ≠ a) (hm : cache.allnodes b = some m) : m ≠ n := by
  intro heq
  subst heq
  exact hb ((h.keyed b m hm).symm.trans (h.keyed a m hn))

theorem insertNode_view (h : Entries cache) (v : Member) :
    (cache.insertNode v).view =
      Function.update cache.view v.addr.logicAddr (some (v.addr, v.available)) := by
  funext a
  by_cases ha : a = v.addr.logicAddr
  · have hentry : (cache.insertNode v).allnodes a = some cache.next := by
      rw [ha]
      exact Function.update_self ..
    have hheap : (cache.insertNode v).heap cache.next = ⟨v.addr, v.available⟩ :=
      Function.update_self ..
    rw [view_of_entry hentry, hheap, ha, Function.update_self]
  · have hentry : (cache.insertNode v).allnodes a = cache.allnodes a :=
      Function.update_of_ne ha ..
    rw [Function.update_of_ne ha, view, view, hentry]
    cases hn : cache.allnodes a with
    | none => rfl
    | some n =>
      have hne : n ≠ cache.next := Nat.ne_of_lt (h.bounded a n hn)
      rw [Option.map_some, Option.map_some, (insertNode_changesAt cache v).heap n hne]

theorem deleteNode_view (h : Entries cache) (hn : cache.allnodes a = some n) :
    (cache.deleteNode n).view = Function.update cache.view a none := by
  funext b
  have hkey : cache.logicAddr n = a := h.keyed a n hn
  by_cases hb : b = a
  · have hentry : (cache.deleteNode n).allnodes b = none := by
      rw [hb, ← hkey]
      exact Function.update_self ..
    rw [view, hentry, hb, Function.update_self, Option.map_none]
  · have hentry : (cache.deleteNode n).allnodes b = cache.allnodes b :=
      Function.update_of_ne (hkey ▸ hb) ..
    rw [Function.update_of_ne hb, view, hentry]
    rfl

theorem setRec_view (h : Entries cache) (hn : cache.allnodes a = some n) (r : NodeRec) :
    (cache.setRec n r).view = Function.update cache.view a (some (r.addr, r.available)) := by
  funext b
  by_cases hb : b = a
  · have hentry : (cache.setRec n r).allnodes b = some n := hb ▸ hn
    rw [view_of_entry hentry, setRec_heap_self, hb, Function.update_self]
  · rw [Function.update_of_ne hb, view, view]
    show (cache.allnodes b).map _ = (cache.allnodes b).map _
    cases hm : cache.allnodes b with
    | none => rfl
    | some m =>
      have hne : m ≠ n := h.ne_of_ne hn hb hm
      rw [Option.map_some, Option.map_some, (setRec_changesAt cache n r).heap m hne]

theorem switchNode_view (h : Entries cache) (hn : cache.allnodes a = some n)
    (available : Bool) :
    (cache.switchNode n available).view =
      Function.update cache.view a (some ((cache.heap n).addr, available)) := by
  have hsame : (cache.heap n).available = available →
      cache.view = Function.update cache.view a (some ((cache.heap n).addr, available)) := by
    intro havail
    rw [← havail, ← view_of_entry hn, Function.update_eq_self]
  unfold switchNode setAvailable
  split_ifs with hon havail havail
  · rw [view_congr file_heap file_allnodes, setRec_view h hn, hon]
  · exact hsame (by simpa [hon] using havail)
  · rw [view_congr unfile_heap unfile_allnodes, setRec_view h hn,
      Bool.eq_false_iff.mpr hon]
  · exact hsame (by simp [Bool.eq_false_iff.mpr hon, Bool.eq_false_iff.mpr havail])

/-! ## One change -/

/-- A loop body, chosen by the list that the record is in. -/
def change (cache : NodeCache) : Change → Except Exit NodeCache
  | .add v => .ok (cache.addMember v)
  | .remove v => cache.removeMember v
  | .update v => cache.updateMember v

/-- The result of a loop body agrees with a result on views. -/
def Simulates (localAddr : LogicAddr) :
    Except Exit NodeCache → Option (LogicAddr → Option (Addr × Bool)) → Prop
  | .ok cache, some view => cache.WF ∧ cache.localAddr = localAddr ∧ cache.view = view
  | .error .nilDereference, none => True
  | _, _ => False

/-- What a change makes of a view. -/
def applyTo (localAddr : LogicAddr) :
    (LogicAddr → Option (Addr × Bool)) → Change →
      Option (LogicAddr → Option (Addr × Bool)) :=
  Keyed.apply Change.key (cell localAddr)

theorem applyTo_of_cell {localAddr : LogicAddr} {f : LogicAddr → Option (Addr × Bool)}
    {x : Change} {c : Option (Option (Addr × Bool))}
    (h : cell localAddr x (f x.key) = c) :
    applyTo localAddr f x = c.map (Function.update f x.key) := by
  rw [applyTo, Keyed.apply, h]

/-- An invisible record changes nothing on either level. -/
theorem simulates_invisible (h : WF cache) {x : Change}
    (hcell : cell cache.localAddr x (cache.view x.key) = some (cache.view x.key)) :
    Simulates cache.localAddr (.ok cache) (applyTo cache.localAddr cache.view x) := by
  rw [applyTo_of_cell hcell, Option.map_some, Function.update_eq_self]
  exact ⟨h, rfl, rfl⟩

theorem addMember_simulates (h : WF cache) (v : Member) :
    Simulates cache.localAddr (.ok (cache.addMember v))
      (applyTo cache.localAddr cache.view (.add v)) := by
  have hwf := addMember_wf h v
  by_cases hvis : visible cache.localAddr v
  · have hcell : cell cache.localAddr (.add v) (cache.view v.addr.logicAddr) =
        some (some (v.addr, v.available)) := if_pos hvis
    rw [applyTo_of_cell hcell]
    refine ⟨hwf, ?_, ?_⟩
    · exact addMember_localAddr v
    · show _ = Function.update cache.view v.addr.logicAddr (some (v.addr, v.available))
      rw [← insertNode_view h.toEntries v]
      simp only [addMember, if_pos hvis]
      split_ifs
      · exact view_congr file_heap file_allnodes
      · rfl
  · have hsame : cache.addMember v = cache := if_neg hvis
    rw [hsame]
    exact simulates_invisible h (if_neg hvis)

theorem removeMember_simulates (h : WF cache) {v : Member}
    (hup : v.addr.logicAddr ≠ cache.localAddr) :
    Simulates cache.localAddr (cache.removeMember v)
      (applyTo cache.localAddr cache.view (.remove v)) := by
  have hwf := removeMember_wf h v
  by_cases hvis : visible cache.localAddr v
  · have hcell : cell cache.localAddr (.remove v) (cache.view v.addr.logicAddr) =
        (cache.view v.addr.logicAddr).map fun _ => none := if_pos hvis
    rw [applyTo_of_cell hcell]
    rw [removeMember, if_pos hvis, if_neg hup] at hwf ⊢
    cases hentry : cache.allnodes v.addr.logicAddr with
    | none =>
      rw [view, hentry]
      trivial
    | some n =>
      rw [hentry] at hwf
      rw [view_of_entry hentry]
      refine ⟨hwf, ?_, ?_⟩
      · show (if (cache.heap n).available then (cache.deleteNode n).unfile n
          else cache.deleteNode n).localAddr = cache.localAddr
        split_ifs
        · exact unfile_localAddr
        · rfl
      · show _ = Function.update cache.view v.addr.logicAddr none
        rw [← deleteNode_view h.toEntries hentry]
        show (if (cache.heap n).available then (cache.deleteNode n).unfile n
          else cache.deleteNode n).view = _
        split_ifs
        · exact view_congr unfile_heap unfile_allnodes
        · rfl
  · have hsame : cache.removeMember v = .ok cache := if_neg hvis
    rw [hsame]
    exact simulates_invisible h (if_neg hvis)

/-- The net address part of an update, when the local node keeps its net
address. -/
theorem moveNode_spec (h : WF cache) {v : Member}
    (hentry : cache.allnodes v.addr.logicAddr = some n)
    (hup : v.addr.logicAddr = cache.localAddr →
      v.addr.netAddr = (cache.heap n).addr.netAddr) :
    ∃ moved, cache.moveNode n v.addr.netAddr = .ok moved ∧
      moved.localAddr = cache.localAddr ∧ moved.allnodes = cache.allnodes ∧
      (moved.heap n).addr = v.addr ∧
      moved.view = Function.update cache.view v.addr.logicAddr
        (some (v.addr, (cache.heap n).available)) := by
  have hkey : cache.logicAddr n = v.addr.logicAddr := h.keyed _ _ hentry
  by_cases hmoved : v.addr.netAddr = (cache.heap n).addr.netAddr
  · have haddr : (cache.heap n).addr = v.addr := Addr.ext hkey hmoved.symm
    refine ⟨cache, if_neg (not_not.mpr hmoved), rfl, rfl, haddr, ?_⟩
    rw [← haddr] at hentry ⊢
    rw [← view_of_entry hentry, Function.update_eq_self]
  · have hlocal : cache.logicAddr n ≠ cache.localAddr := by
      intro heq
      exact hmoved (hup (hkey ▸ heq))
    have haddr : ({ (cache.heap n).addr with netAddr := v.addr.netAddr } : Addr) = v.addr :=
      Addr.ext hkey rfl
    have hclosed : Entries (cache.closeSocket n) := h.toEntries.congr rfl rfl rfl
    have hentry' : (cache.closeSocket n).allnodes v.addr.logicAddr = some n := hentry
    refine ⟨(cache.closeSocket n).updateNetAddr n v.addr.netAddr, ?_, rfl, rfl, ?_, ?_⟩
    · rw [moveNode, if_pos hmoved, if_neg hlocal]
    · rw [updateNetAddr, setRec_heap_self]
      exact haddr
    · rw [updateNetAddr, setRec_view hclosed hentry']
      show Function.update cache.view v.addr.logicAddr (some
        ({ (cache.heap n).addr with netAddr := v.addr.netAddr }, (cache.heap n).available)) = _
      rw [haddr]

theorem updateMember_simulates (h : WF cache) {v : Member}
    (hup : StaysUp cache.localAddr (.update v) (cache.view v.addr.logicAddr)) :
    Simulates cache.localAddr (cache.updateMember v)
      (applyTo cache.localAddr cache.view (.update v)) := by
  have hwf := updateMember_wf h v
  by_cases hvis : visible cache.localAddr v
  · have hcell : cell cache.localAddr (.update v) (cache.view v.addr.logicAddr) =
        (cache.view v.addr.logicAddr).map fun _ => some (v.addr, v.available) := if_pos hvis
    rw [applyTo_of_cell hcell]
    rw [updateMember, if_pos hvis] at hwf ⊢
    cases hentry : cache.allnodes v.addr.logicAddr with
    | none =>
      rw [view, hentry]
      trivial
    | some n =>
      have hmove := moveNode_wf h n v.addr.netAddr
      obtain ⟨moved, hmoved, hlocal, hall, haddr, hview⟩ := moveNode_spec h hentry
        fun heq => hup heq _ (view_of_entry hentry)
      rw [hmoved] at hmove
      rw [hentry] at hwf
      dsimp only at hwf ⊢
      rw [hmoved] at hwf ⊢
      rw [view_of_entry hentry]
      have hswitched := switchNode_view (WF.toEntries hmove)
        (hall ▸ hentry) v.available
      refine ⟨hwf, ?_, ?_⟩
      · show (moved.switchNode n v.available).localAddr = cache.localAddr
        rw [switchNode_localAddr, hlocal]
      · show (moved.switchNode n v.available).view =
          Function.update cache.view v.addr.logicAddr (some (v.addr, v.available))
        rw [hswitched, hview, haddr, Function.update_idem]
  · have hsame : cache.updateMember v = .ok cache := if_neg hvis
    rw [hsame]
    exact simulates_invisible h (if_neg hvis)

theorem change_simulates (h : WF cache) {x : Change}
    (hup : StaysUp cache.localAddr x (cache.view x.key)) :
    Simulates cache.localAddr (cache.change x) (applyTo cache.localAddr cache.view x) := by
  cases x with
  | add v => exact addMember_simulates h v
  | remove v => exact removeMember_simulates h hup
  | update v => exact updateMember_simulates h hup

/-! ## A whole report -/

/-- A change and what comes after it. -/
theorem simulates_cons {localAddr : LogicAddr} {x : Change} {l : List Change}
    (hx : Simulates localAddr (cache.change x) (applyTo localAddr cache.view x))
    (hl : ∀ c : NodeCache, c.WF → c.localAddr = localAddr →
      applyTo localAddr cache.view x = some c.view →
      Simulates localAddr (l.foldlM change c)
        (Keyed.applyAll Change.key (cell localAddr) c.view l)) :
    Simulates localAddr ((x :: l).foldlM change cache)
      (Keyed.applyAll Change.key (cell localAddr) cache.view (x :: l)) := by
  rw [List.foldlM_cons, Keyed.applyAll_cons]
  unfold applyTo at hx hl
  cases hc : cache.change x with
  | error e =>
    rw [hc] at hx
    cases e with
    | stop c => cases Keyed.apply Change.key (cell localAddr) cache.view x <;> exact hx.elim
    | nilDereference =>
      cases ha : Keyed.apply Change.key (cell localAddr) cache.view x with
      | none => trivial
      | some view =>
        rw [ha] at hx
        exact hx.elim
  | ok c =>
    rw [hc] at hx
    cases ha : Keyed.apply Change.key (cell localAddr) cache.view x with
    | none =>
      rw [ha] at hx
      exact hx.elim
    | some view =>
      rw [ha] at hx
      obtain ⟨hwf, hlocal, rfl⟩ := hx
      exact hl c hwf hlocal ha

theorem changes_simulates (h : WF cache) {l : List Change}
    (hdistinct : (l.map Change.key).Nodup)
    (hup : ∀ x ∈ l, StaysUp cache.localAddr x (cache.view x.key)) :
    Simulates cache.localAddr (l.foldlM change cache)
      (Keyed.applyAll Change.key (cell cache.localAddr) cache.view l) := by
  induction l generalizing cache with
  | nil => exact ⟨h, rfl, rfl⟩
  | cons x l ih =>
    rw [List.map_cons, List.nodup_cons] at hdistinct
    refine simulates_cons (change_simulates h (hup x List.mem_cons_self)) ?_
    intro c hwf hlocal happly
    obtain ⟨b, -, hview⟩ := Keyed.apply_eq_some.mp happly
    rw [← hlocal]
    refine ih hwf hdistinct.2 ?_
    -- the changes to come are about other addresses
    intro y hy
    have hne : y.key ≠ x.key := fun heq =>
      hdistinct.1 (heq ▸ List.mem_map_of_mem hy)
    rw [hview, Function.update_of_ne hne, hlocal]
    exact hup y (List.mem_cons_of_mem x hy)

/-- Changes of other addresses than the local one never stop the node, also
when an address is reported several times. -/
theorem changes_simulates_of_away (h : WF cache) {l : List Change}
    (haway : ∀ x ∈ l, x.key ≠ cache.localAddr) :
    Simulates cache.localAddr (l.foldlM change cache)
      (Keyed.applyAll Change.key (cell cache.localAddr) cache.view l) := by
  induction l generalizing cache with
  | nil => exact ⟨h, rfl, rfl⟩
  | cons x l ih =>
    rw [List.forall_mem_cons] at haway
    refine simulates_cons (change_simulates h (staysUp_of_away haway.1)) ?_
    intro c hwf hlocal _
    rw [← hlocal] at haway ⊢
    exact ih hwf haway.2

theorem foldlM_add (l : List Member) :
    (l.map Change.add).foldlM change cache = .ok (l.foldl addMember cache) := by
  induction l generalizing cache with
  | nil => rfl
  | cons v l ih =>
    rw [List.map_cons, List.foldlM_cons]
    exact ih

/-- The three loops take the changes one after the other. -/
theorem loops_eq (cache : NodeCache) (info : MemberInfo) :
    cache.loops info = info.changes.foldlM change cache := by
  rw [MemberInfo.changes, List.foldlM_append, foldlM_add]
  simp only [Fallible.ok_bind, List.foldlM_append, List.foldlM_map]
  rfl

/-- An update that is simulated gives a view if and only if the changes
lead to it. -/
theorem onNodeInfoUpdate_of_simulates {info : MemberInfo}
    (hsim : Simulates cache.localAddr (info.changes.foldlM change cache)
      (Keyed.applyAll Change.key (cell cache.localAddr) cache.view info.changes))
    (view : LogicAddr → Option (Addr × Bool)) :
    Keyed.applyAll Change.key (cell cache.localAddr) cache.view info.changes = some view ↔
      ∃ cache', cache.onNodeInfoUpdate info = some cache' ∧ cache'.view = view ∧
        cache'.WF ∧ cache'.localAddr = cache.localAddr := by
  rw [← loops_eq] at hsim
  unfold onNodeInfoUpdate
  generalize Keyed.applyAll Change.key (cell cache.localAddr) cache.view info.changes = o at hsim ⊢
  generalize cache.loops info = r at hsim ⊢
  match r, o, hsim with
  | .ok c, some g, ⟨hwf, hlocal, hview⟩ =>
    constructor
    · intro hg
      cases hg
      exact ⟨c, rfl, hview, hwf, hlocal⟩
    · intro hpack
      rcases hpack with ⟨c', hc, hview', _⟩
      cases hc
      rw [← hview', hview]
  | .error .nilDereference, none, _ =>
    constructor
    · intro hg
      cases hg
    · intro hpack
      rcases hpack with ⟨c', hc, _⟩
      cases hc

theorem onNodeInfoUpdate_simulates (h : WF cache) {info : MemberInfo}
    (hdistinct : (info.changes.map Change.key).Nodup)
    (hup : ∀ x ∈ info.changes, StaysUp cache.localAddr x (cache.view x.key))
    (view : LogicAddr → Option (Addr × Bool)) :
    Keyed.applyAll Change.key (cell cache.localAddr) cache.view info.changes = some view ↔
      ∃ cache', cache.onNodeInfoUpdate info = some cache' ∧ cache'.view = view ∧
        cache'.WF ∧ cache'.localAddr = cache.localAddr :=
  onNodeInfoUpdate_of_simulates (changes_simulates h hdistinct hup) view

end ClusterGo.NodeCache
