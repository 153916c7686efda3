import ClusterGo.Membership.Report
import ClusterGo.NodeCache.Visibility

/-!
# Reports of one address, taken list by list

A backend handles the records of an address in the order in which they were
written.  The node cache takes all additions of a report first, then the
removals and then the updates, so the changes of an address that was written
several times reach it in another order.

Here `writes` are the writes of one address: `some n` puts the record `n` and
`none` deletes it.  In their own order the changes always lead to the right
cell (`foldCell_reports`).  In the order of the lists they do if and only if
the writes are `Orderly` (`regrouped_iff`).
-/

namespace ClusterGo

/-! ## The order of the lists -/

namespace Change

def isAdd : Change → Bool
  | .add _ => true
  | .remove _ | .update _ => false

def isRemove : Change → Bool
  | .remove _ => true
  | .add _ | .update _ => false

def isUpdate : Change → Bool
  | .update _ => true
  | .add _ | .remove _ => false

end Change

open Change

theorem map_filterMap_eq_filter {mk : Member → Change} {f : Change → Option Member}
    {p : Change → Bool} (h : ∀ y, (f y).map mk = Option.guard p y) (cs : List Change) :
    (cs.filterMap f).map mk = cs.filter p := by
  rw [List.map_filterMap, ← List.filterMap_eq_filter, funext h]

theorem map_add_ofChanges (cs : List Change) :
    (MemberInfo.ofChanges cs).add.map Change.add = cs.filter isAdd :=
  map_filterMap_eq_filter (fun y => by cases y <;> rfl) cs

/-- The changes of a report, in the order of the cache. -/
theorem changes_ofChanges (cs : List Change) :
    (MemberInfo.ofChanges cs).changes =
      cs.filter isAdd ++ (cs.filter isRemove ++ cs.filter isUpdate) := by
  have hremove : (MemberInfo.ofChanges cs).remove.map Change.remove = cs.filter isRemove :=
    map_filterMap_eq_filter (fun y => by cases y <;> rfl) cs
  have hupdate : (MemberInfo.ofChanges cs).update.map Change.update = cs.filter isUpdate :=
    map_filterMap_eq_filter (fun y => by cases y <;> rfl) cs
  rw [MemberInfo.changes, map_add_ofChanges, hremove, hupdate]

/-- The changes of some addresses are regrouped on their own. -/
theorem filter_changes (cs : List Change) (p : Change → Bool) :
    (MemberInfo.ofChanges cs).changes.filter p = (MemberInfo.ofChanges (cs.filter p)).changes := by
  simp only [changes_ofChanges, List.filter_append, List.filter_filter, Bool.and_comm]

/-! ## The writes of one address -/

/-- What the writes of an address report, when its record before them is
`m`. -/
def reports (alive : Bool) : Option Member → List (Option Member) → List Change
  | _, [] => []
  | none, some n :: writes => .add (n.joined alive) :: reports alive (some n) writes
  | some _, some n :: writes => .update (n.joined alive) :: reports alive (some n) writes
  | some m, none :: writes => .remove { m with available := false } :: reports alive none writes
  | none, none :: writes => reports alive none writes

/-- The writes that the order of the lists does not disturb.  A known address
is only put or only deleted.  A new one is put any number of times, or it is
put once and deleted afterwards. -/
def Orderly (known : Bool) (writes : List (Option Member)) : Prop :=
  if known then (∀ e ∈ writes, e.isSome) ∨ ∀ e ∈ writes, e.isNone
  else (∀ e ∈ writes.dropWhile (·.isNone), e.isSome) ∨
    ∀ e ∈ (writes.dropWhile (·.isNone)).tail, e.isNone

instance (known : Bool) (writes : List (Option Member)) : Decidable (Orderly known writes) := by
  unfold Orderly
  infer_instance

/-- The cell of an address after changes of it, one after the other. -/
def foldCell (localAddr : LogicAddr) (old : Option (Addr × Bool)) (ys : List Change) :
    Option (Option (Addr × Bool)) :=
  ys.foldlM (fun b y => NodeCache.cell localAddr y b) old

variable {alive : Bool} {localAddr : LogicAddr} {m : Option Member}
  {writes : List (Option Member)} {old : Option (Addr × Bool)} {ys : List Change}

theorem foldCell_append (ys zs : List Change) :
    foldCell localAddr old (ys ++ zs) =
      (foldCell localAddr old ys).bind fun b => foldCell localAddr b zs :=
  List.foldlM_append ..

theorem foldCell_cons (y : Change) (ys : List Change) :
    foldCell localAddr old (y :: ys) =
      (NodeCache.cell localAddr y old).bind fun b => foldCell localAddr b ys :=
  List.foldlM_cons ..

@[simp] theorem visible_joined (n : Member) :
    visible localAddr (n.joined alive) = visible localAddr n := rfl

@[simp] theorem visible_unavailable (n : Member) :
    visible localAddr { n with available := false } = visible localAddr n := rfl

/-- In the order of the writes the changes lead to the last record. -/
theorem foldCell_reports (hm : ∀ n, m = some n → visible localAddr n = true)
    (hwrites : ∀ n, some n ∈ writes → visible localAddr n = true) :
    foldCell localAddr (shown localAddr (m.map (Member.joined alive))) (reports alive m writes) =
      some (shown localAddr ((writes.getLastD m).map (Member.joined alive))) := by
  induction writes generalizing m with
  | nil => rfl
  | cons e writes ih =>
    have he : ∀ n, e = some n → visible localAddr n = true :=
      fun n hn => hwrites n (hn ▸ List.mem_cons_self)
    rw [List.getLastD_cons, ← ih he fun n hn => hwrites n (List.mem_cons_of_mem e hn)]
    cases e with
    | some n =>
      have hn := he n rfl
      cases m with
      | none => simp [reports, foldCell_cons, NodeCache.cell, shown, hn]
      | some u =>
        have hu := hm u rfl
        simp [reports, foldCell_cons, NodeCache.cell, shown, hn, hu]
    | none =>
      cases m with
      | none => rfl
      | some u =>
        have hu := hm u rfl
        simp [reports, foldCell_cons, NodeCache.cell, shown, hu]

/-- The changes of an invisible member are skipped. -/
theorem foldCell_of_invisible (h : ∀ y ∈ ys, visible localAddr y.member = false) :
    foldCell localAddr old ys = some old := by
  induction ys with
  | nil => rfl
  | cons y ys ih =>
    rw [List.forall_mem_cons] at h
    have hcell : NodeCache.cell localAddr y old = some old := by
      have hy := h.1
      cases y <;> simp_all [NodeCache.cell, Change.member]
    rw [foldCell_cons, hcell]
    exact ih h.2

/-- The reports carry records of the address. -/
theorem visible_of_mem_reports {v : Bool} (hm : ∀ n, m = some n → visible localAddr n = v)
    (hwrites : ∀ n, some n ∈ writes → visible localAddr n = v) {y : Change}
    (hy : y ∈ reports alive m writes) : visible localAddr y.member = v := by
  induction writes generalizing m with
  | nil => cases hy
  | cons e writes ih =>
    have he : ∀ n, e = some n → visible localAddr n = v :=
      fun n hn => hwrites n (hn ▸ List.mem_cons_self)
    have hrest := ih he fun n hn => hwrites n (List.mem_cons_of_mem e hn)
    cases e with
    | some n =>
      cases m with
      | none =>
        rcases List.mem_cons.mp hy with rfl | hy
        · exact he n rfl
        · exact hrest hy
      | some u =>
        rcases List.mem_cons.mp hy with rfl | hy
        · exact he n rfl
        · exact hrest hy
    | none =>
      cases m with
      | none => exact hrest hy
      | some u =>
        rcases List.mem_cons.mp hy with rfl | hy
        · exact hm u rfl
        · exact hrest hy

/-! ## Orderly writes keep their order -/

/-- Changes of a known address that are in the order of the lists. -/
def Steady (ys : List Change) : Prop :=
  (∀ y ∈ ys, y.isUpdate = true) ∨ ∃ v, ys = [.remove v]

theorem Steady.filter_isAdd (h : Steady ys) : ys.filter isAdd = [] := by
  rcases h with h | ⟨v, rfl⟩
  · rw [List.filter_eq_nil_iff]
    intro y hy
    have hupdate := h y hy
    cases y <;> simp_all [isAdd, isUpdate]
  · rfl

theorem Steady.changes (h : Steady ys) : (MemberInfo.ofChanges ys).changes = ys := by
  rw [changes_ofChanges, h.filter_isAdd, List.nil_append]
  rcases h with h | ⟨v, rfl⟩
  · have hremove : ys.filter isRemove = [] := by
      rw [List.filter_eq_nil_iff]
      intro y hy
      have hupdate := h y hy
      cases y <;> simp_all [isRemove, isUpdate]
    rw [hremove, List.nil_append, List.filter_eq_self]
    exact h
  · rfl

theorem reports_of_isNone (h : ∀ e ∈ writes, e.isNone = true) :
    reports alive none writes = [] := by
  induction writes with
  | nil => rfl
  | cons e writes ih =>
    rw [List.forall_mem_cons] at h
    rw [Option.isNone_iff_eq_none.mp h.1]
    exact ih h.2

theorem reports_steady {u : Member}
    (h : (∀ e ∈ writes, e.isSome = true) ∨ ∀ e ∈ writes, e.isNone = true) :
    Steady (reports alive (some u) writes) := by
  rcases h with h | h
  · refine Or.inl ?_
    induction writes generalizing u with
    | nil => exact fun _ hy => absurd hy List.not_mem_nil
    | cons e writes ih =>
      rw [List.forall_mem_cons] at h
      obtain ⟨n, rfl⟩ := Option.isSome_iff_exists.mp h.1
      rw [reports, List.forall_mem_cons]
      exact ⟨rfl, ih h.2⟩
  · cases writes with
    | nil => exact Or.inl fun _ hy => absurd hy List.not_mem_nil
    | cons e writes =>
      rw [List.forall_mem_cons] at h
      rw [Option.isNone_iff_eq_none.mp h.1, reports, reports_of_isNone h.2]
      exact Or.inr ⟨_, rfl⟩

theorem reports_dropWhile (writes : List (Option Member)) :
    reports alive none (writes.dropWhile (·.isNone)) = reports alive none writes := by
  induction writes with
  | nil => rfl
  | cons e writes ih =>
    cases e with
    | none => exact ih
    | some n => rfl

theorem getLastD_dropWhile (writes : List (Option Member)) :
    (writes.dropWhile (·.isNone)).getLastD none = writes.getLastD none := by
  induction writes with
  | nil => rfl
  | cons e writes ih =>
    cases e with
    | none => rw [List.getLastD_cons, ← ih]; rfl
    | some n => rfl

/-- What is left of writes after the first deletes begins with a put. -/
theorem dropWhile_isNone_cases (writes : List (Option Member)) :
    writes.dropWhile (·.isNone) = [] ∨
      ∃ n rest, writes.dropWhile (·.isNone) = some n :: rest := by
  induction writes with
  | nil => exact Or.inl rfl
  | cons e writes ih =>
    cases e with
    | none => exact ih
    | some n => exact Or.inr ⟨n, writes, rfl⟩

/-- Orderly writes of a new address add it at most once. -/
theorem reports_new (alive : Bool) (h : Orderly false writes) :
    reports alive none writes = [] ∨
      ∃ v ys, reports alive none writes = .add v :: ys ∧ Steady ys := by
  rw [← reports_dropWhile]
  rcases dropWhile_isNone_cases writes with hrest | ⟨n, rest, hrest⟩
  · rw [hrest]
    exact Or.inl rfl
  · rw [Orderly, if_neg Bool.false_ne_true, hrest, List.tail_cons, List.forall_mem_cons] at h
    rw [hrest]
    exact Or.inr ⟨_, _, rfl, reports_steady (h.imp_left (·.2))⟩

theorem Orderly.changes (h : Orderly m.isSome writes) :
    (MemberInfo.ofChanges (reports alive m writes)).changes = reports alive m writes := by
  cases m with
  | some u => exact (reports_steady h).changes
  | none =>
    rcases reports_new alive h with hnil | ⟨v, ys, hadd, hsteady⟩
    · rw [hnil]
      rfl
    · rw [hadd]
      show Change.add v :: (MemberInfo.ofChanges ys).changes = _
      rw [hsteady.changes]

/-- Orderly writes add an address when it is new, and only once. -/
theorem Orderly.adds (h : Orderly m.isSome writes) :
    (reports alive m writes).filter isAdd = [] ∨
      m = none ∧ ∃ v, (reports alive m writes).filter isAdd = [.add v] := by
  cases m with
  | some u => exact Or.inl (reports_steady h).filter_isAdd
  | none =>
    rcases reports_new alive h with hnil | ⟨v, ys, hadd, hsteady⟩
    · exact Or.inl (by rw [hnil]; rfl)
    · refine Or.inr ⟨rfl, v, ?_⟩
      rw [hadd, List.filter_cons_of_pos rfl, hsteady.filter_isAdd]

/-! ## Other writes do not -/

/-- Nothing can be removed from an absent cell, and nothing updated in it. -/
theorem foldCell_absent (hadd : ∀ y ∈ ys, y.isAdd = false)
    (hvis : ∀ y ∈ ys, visible localAddr y.member = true) {b : Option (Addr × Bool)}
    (h : foldCell localAddr none ys = some b) : ys = [] ∧ b = none := by
  cases ys with
  | nil => exact ⟨rfl, (Option.some.inj h).symm⟩
  | cons y ys =>
    have hy := hvis y List.mem_cons_self
    have hcell : NodeCache.cell localAddr y none = none := by
      cases y with
      | add v => exact absurd (hadd _ List.mem_cons_self) (by simp [isAdd])
      | remove v => exact if_pos hy
      | update v => exact if_pos hy
    rw [foldCell_cons, hcell] at h
    cases h

/-- After a removal nothing else can be removed or updated. -/
theorem foldCell_remove {y : Change} (hy : y.isRemove = true)
    (hadd : ∀ z ∈ ys, z.isAdd = false)
    (hvis : ∀ z ∈ y :: ys, visible localAddr z.member = true) {b : Option (Addr × Bool)}
    (h : foldCell localAddr old (y :: ys) = some b) : ys = [] ∧ b = none := by
  rw [List.forall_mem_cons] at hvis
  rw [foldCell_cons] at h
  obtain ⟨c, hc, h⟩ := Option.bind_eq_some_iff.mp h
  have hnone : c = none := by
    cases y with
    | add v | update v => cases hy
    | remove v =>
      have hcell : NodeCache.cell localAddr (.remove v) old = old.map fun _ => none :=
        if_pos hvis.1
      rw [hcell, Option.map_eq_some_iff] at hc
      obtain ⟨_, _, hc⟩ := hc
      exact hc.symm
  rw [hnone] at h
  exact foldCell_absent hadd hvis.2 h

theorem isSome_of_no_removal {u : Member}
    (h : (reports alive (some u) writes).filter isRemove = []) :
    ∀ e ∈ writes, e.isSome = true := by
  induction writes generalizing u with
  | nil => exact fun _ he => absurd he List.not_mem_nil
  | cons e writes ih =>
    cases e with
    | some n =>
      rw [List.forall_mem_cons]
      exact ⟨rfl, ih h⟩
    | none => cases h

/-- What holds of the record before the writes and of all records that are
put holds of the last one. -/
theorem getLastD_of_forall {P : Option Member → Prop} (hm : P m) (h : ∀ e ∈ writes, P e) :
    P (writes.getLastD m) := by
  have hmem : writes.getLastD m ∈ m :: writes := List.getLastD_mem_cons
  rcases List.mem_cons.mp hmem with heq | hmem
  · exact heq.symm ▸ hm
  · exact h _ hmem

/-- An address that is new and gone at the end, and never removed, is never
put. -/
theorem isNone_of_no_removal (h : (reports alive none writes).filter isRemove = [])
    (hlast : writes.getLastD none = none) : ∀ e ∈ writes, e.isNone = true := by
  induction writes with
  | nil => exact fun _ he => absurd he List.not_mem_nil
  | cons e writes ih =>
    rw [List.getLastD_cons] at hlast
    cases e with
    | some n =>
      have hsome : (writes.getLastD (some n)).isSome = true :=
        getLastD_of_forall (P := fun e => e.isSome = true) rfl (isSome_of_no_removal h)
      rw [hlast] at hsome
      cases hsome
    | none =>
      rw [List.forall_mem_cons]
      exact ⟨rfl, ih h hlast⟩

/-- What the order of the lists can cope with at a known address: no removal,
or a removal alone at the end. -/
theorem orderly_of_known {u : Member}
    (h : (reports alive (some u) writes).filter isRemove = [] ∨
      ((reports alive (some u) writes).filter isRemove).length = 1 ∧
        (reports alive (some u) writes).filter isUpdate = [] ∧
          writes.getLastD (some u) = none) :
    (∀ e ∈ writes, e.isSome = true) ∨ ∀ e ∈ writes, e.isNone = true := by
  rcases h with hnone | ⟨hone, hupdate, hlast⟩
  · exact Or.inl (isSome_of_no_removal hnone)
  · cases writes with
    | nil => cases hlast
    | cons e writes =>
      cases e with
      | some n => cases hupdate
      | none =>
        rw [List.getLastD_cons] at hlast
        rw [reports, List.filter_cons_of_pos rfl, List.length_cons] at hone
        have hremove : (reports alive none writes).filter isRemove = [] :=
          List.eq_nil_of_length_eq_zero (by omega)
        refine Or.inr ?_
        rw [List.forall_mem_cons]
        exact ⟨rfl, isNone_of_no_removal hremove hlast⟩

/-- In the order of the lists a removal is the last change of its
address. -/
theorem lone_removal (hvis : ∀ y ∈ ys, visible localAddr y.member = true)
    {b : Option (Addr × Bool)}
    (h : foldCell localAddr old (ys.filter isRemove ++ ys.filter isUpdate) = some b) :
    ys.filter isRemove = [] ∨
      (ys.filter isRemove).length = 1 ∧ ys.filter isUpdate = [] ∧ b = none := by
  have hadd : ∀ z ∈ ys.filter isRemove ++ ys.filter isUpdate, z.isAdd = false := by
    intro z hz
    rw [List.mem_append, List.mem_filter, List.mem_filter] at hz
    cases z <;> simp_all [isAdd, isRemove, isUpdate]
  have hvis' : ∀ z ∈ ys.filter isRemove ++ ys.filter isUpdate,
      visible localAddr z.member = true := by
    intro z hz
    rw [List.mem_append, List.mem_filter, List.mem_filter] at hz
    exact hvis z (hz.elim (·.1) (·.1))
  cases hremove : ys.filter isRemove with
  | nil => exact Or.inl rfl
  | cons y rest =>
    have hy : y ∈ ys.filter isRemove := hremove ▸ List.mem_cons_self
    rw [hremove, List.cons_append] at h hadd hvis'
    rw [List.forall_mem_cons] at hadd
    obtain ⟨hnil, hb⟩ := foldCell_remove (List.mem_filter.mp hy).2 hadd.2 hvis' h
    obtain ⟨rfl, hupdate⟩ := List.append_eq_nil_iff.mp hnil
    exact Or.inr ⟨rfl, hupdate, hb⟩

/-- In the order of the lists the changes of an address lead to its last
record if and only if its writes are orderly. -/
theorem regrouped_iff (hm : ∀ n, m = some n → visible localAddr n = true)
    (hwrites : ∀ n, some n ∈ writes → visible localAddr n = true) :
    foldCell localAddr (shown localAddr (m.map (Member.joined alive)))
        (MemberInfo.ofChanges (reports alive m writes)).changes =
      some (shown localAddr ((writes.getLastD m).map (Member.joined alive))) ↔
    Orderly m.isSome writes := by
  constructor
  · intro h
    have hvis : ∀ y ∈ reports alive m writes, visible localAddr y.member = true :=
      fun y hy => visible_of_mem_reports hm hwrites hy
    have hvislast : ∀ n, writes.getLastD m = some n → visible localAddr n = true :=
      getLastD_of_forall (P := fun e => ∀ n, e = some n → visible localAddr n = true) hm
        fun e he n hn => hwrites n (hn ▸ he)
    have hlast : shown localAddr ((writes.getLastD m).map (Member.joined alive)) = none →
        writes.getLastD m = none := by
      intro hnone
      cases hn : writes.getLastD m with
      | none => rfl
      | some n =>
        have hvisn : visible localAddr (n.joined alive) = true := hvislast n hn
        rw [hn, Option.map_some, NodeCache.shown_of_visible hvisn] at hnone
        cases hnone
    rw [changes_ofChanges, foldCell_append] at h
    obtain ⟨b, _, h⟩ := Option.bind_eq_some_iff.mp h
    have hlone := (lone_removal hvis h).imp_right (And.imp_right (And.imp_right hlast))
    cases m with
    | some u => exact orderly_of_known hlone
    | none =>
      rw [← reports_dropWhile, ← getLastD_dropWhile] at hlone
      show Orderly false writes
      rw [Orderly, if_neg Bool.false_ne_true]
      rcases dropWhile_isNone_cases writes with hrest | ⟨n, rest, hrest⟩
      · rw [hrest]
        exact Or.inl fun _ he => absurd he List.not_mem_nil
      · -- after the first put the address is known
        rw [hrest, List.getLastD_cons] at hlone
        rw [hrest, List.tail_cons, List.forall_mem_cons]
        exact (orderly_of_known hlone).imp_left fun hsome => ⟨rfl, hsome⟩
  · intro h
    rw [h.changes]
    exact foldCell_reports hm hwrites

theorem shown_joined_of_invisible (h : ∀ n, m = some n → visible localAddr n = false) :
    shown localAddr (m.map (Member.joined alive)) = none := by
  cases m with
  | none => rfl
  | some n => exact NodeCache.shown_of_invisible (h n rfl)

/-- The order does not matter for an invisible address. -/
theorem regrouped_of_invisible (hm : ∀ n, m = some n → visible localAddr n = false)
    (hwrites : ∀ n, some n ∈ writes → visible localAddr n = false) :
    foldCell localAddr (shown localAddr (m.map (Member.joined alive)))
        (MemberInfo.ofChanges (reports alive m writes)).changes =
      some (shown localAddr ((writes.getLastD m).map (Member.joined alive))) := by
  have hlast : ∀ n, writes.getLastD m = some n → visible localAddr n = false :=
    getLastD_of_forall (P := fun e => ∀ n, e = some n → visible localAddr n = false) hm
      fun e he n hn => hwrites n (hn ▸ he)
  rw [shown_joined_of_invisible hm, shown_joined_of_invisible hlast]
  refine foldCell_of_invisible ?_
  intro y hy
  exact visible_of_mem_reports hm hwrites ((MemberInfo.ofChanges_perm _).mem_iff.mp hy)

end ClusterGo
