import ClusterGo.Lib.Keyed
import ClusterGo.Membership.Subscriber

/-!
# What a subscriber is told

The changes of a loop are collected in a `MemberInfo`, which is passed to the
callback when it is not empty.  `Explains` says that a list of changes
reports exactly what is different between two states of the subscriber, as
members with their joined availability.  Then the `MemberInfo` can be folded
over the first view and gives the second one (`Explains.foldOver`).

The loop over the entries of one answer explains what it does when their
addresses are distinct (`handleAll_explains`), and a snapshot always does
(`takeMembers_explains`, `takeAlives_explains`).
-/

namespace ClusterGo

open LocalLoop

/-! ## Reports -/

namespace MemberInfo

/-- The three lists that the changes are appended to. -/
def ofChanges (cs : List Change) : MemberInfo where
  add := cs.filterMap fun | .add v => some v | _ => none
  remove := cs.filterMap fun | .remove v => some v | _ => none
  update := cs.filterMap fun | .update v => some v | _ => none

theorem mem_filterMap_iff {mk : Member → Change} {f : Change → Option Member}
    (hf : ∀ y v, f y = some v ↔ y = mk v) {cs : List Change} {v : Member} :
    v ∈ cs.filterMap f ↔ mk v ∈ cs := by
  rw [List.mem_filterMap]
  constructor
  · intro h
    obtain ⟨y, hy, hv⟩ := h
    rw [hf] at hv
    exact hv ▸ hy
  · exact fun h => ⟨_, h, (hf _ v).mpr rfl⟩

theorem mem_ofChanges_add {cs : List Change} {v : Member} :
    v ∈ (ofChanges cs).add ↔ .add v ∈ cs :=
  mem_filterMap_iff fun y v => by cases y <;> simp

theorem mem_ofChanges_remove {cs : List Change} {v : Member} :
    v ∈ (ofChanges cs).remove ↔ .remove v ∈ cs :=
  mem_filterMap_iff fun y v => by cases y <;> simp

theorem mem_ofChanges_update {cs : List Change} {v : Member} :
    v ∈ (ofChanges cs).update ↔ .update v ∈ cs :=
  mem_filterMap_iff fun y v => by cases y <;> simp

/-- `cb` is called when one of the lists is not empty. -/
def callback (info : MemberInfo) : List MemberInfo :=
  if info.add.length > 0 ∨ info.update.length > 0 ∨ info.remove.length > 0 then [info] else []

theorem ofChanges_perm (cs : List Change) : ((ofChanges cs).changes).Perm cs := by
  induction cs with
  | nil => exact List.Perm.refl _
  | cons x cs ih =>
    cases x with
    | add v => exact ih.cons _
    | remove v => exact List.perm_middle.trans (ih.cons _)
    | update v =>
      refine List.Perm.trans ?_ (ih.cons (.update v))
      show ((ofChanges cs).add.map Change.add ++ ((ofChanges cs).remove.map Change.remove ++
        .update v :: (ofChanges cs).update.map Change.update)).Perm _
      rw [← List.append_assoc]
      refine List.perm_middle.trans (List.Perm.cons _ ?_)
      rw [List.append_assoc]
      exact List.Perm.refl _

end MemberInfo

/-- The fold of a `MemberInfo`: an addition inserts an absent address, an
update changes a present one and a removal deletes a present one. -/
def Change.place : Change → Option Member → Option (Option Member)
  | .add v, none => some (some v)
  | .update v, some _ => some (some v)
  | .remove _, some _ => some none
  | .add _, some _ | .update _, none | .remove _, none => none

def MemberInfo.foldOver (info : MemberInfo) (view : LogicAddr → Option Member) :
    Option (LogicAddr → Option Member) :=
  Keyed.applyAll Change.key Change.place view info.changes

/-- The changes report exactly what is different between two states of a
subscriber. -/
structure Explains (s s' : Subscriber) (cs : List Change) : Prop where
  distinct : (cs.map Change.key).Nodup
  moves : ∀ x ∈ cs, x.place (s.view x.key) = some (s'.view x.key)
  rest : ∀ a, a ∉ cs.map Change.key → s'.view a = s.view a

/-- The callback gets the whole report, or nothing when it is empty. -/
theorem callback_cases (info : MemberInfo) :
    info.callback = [] ∧ info.changes = [] ∨ info.callback = [info] := by
  unfold MemberInfo.callback
  split_ifs with hany
  · exact Or.inr rfl
  · simp only [not_or, Nat.not_lt, Nat.le_zero, List.length_eq_zero_iff] at hany
    refine Or.inl ⟨rfl, ?_⟩
    simp only [MemberInfo.changes, hany, List.map_nil, List.append_nil]

theorem Explains.foldOver {s s' : Subscriber} {cs : List Change} (h : Explains s s' cs) :
    (MemberInfo.ofChanges cs).foldOver s.view = some s'.view := by
  have hperm := MemberInfo.ofChanges_perm cs
  have hkeys := hperm.map Change.key
  rw [MemberInfo.foldOver, Keyed.applyAll_eq_some (hkeys.nodup_iff.mpr h.distinct)]
  exact ⟨fun x hx => h.moves x (hperm.mem_iff.mp hx),
    fun a ha => h.rest a fun hmem => ha (hkeys.mem_iff.mpr hmem)⟩

/-! ## Entries -/

namespace Entry

/-- A report leads from what was shown of the address to what is to be
shown. -/
theorem place_of_out (x : Entry) {c : Cell} {y : Change} (hy : x.out c = some y) :
    y.place c.shown = some (x.cell c).shown := by
  obtain ⟨m, alive⟩ := c
  cases x with
  | put n =>
    obtain rfl := Option.some.inj hy
    cases m <;> rfl
  | markdel n | delete k | dead k =>
    cases m with
    | none => cases hy
    | some n =>
      obtain rfl := Option.some.inj hy
      rfl
  | down k =>
    cases alive with
    | false => cases hy
    | true =>
      cases m with
      | none => cases hy
      | some n =>
        obtain rfl := Option.some.inj hy
        rfl
  | up k =>
    cases alive with
    | true => cases hy
    | false =>
      obtain ⟨n, hn, rfl⟩ := Option.map_eq_some_iff.mp hy
      obtain ⟨rfl, havail⟩ := Option.filter_eq_some_iff.mp hn
      show some (some { n with available := true }) =
        some (some { n with available := true && n.available })
      rw [havail]
      rfl

/-- Without a report nothing else is to be shown. -/
theorem shown_of_out_eq_none (x : Entry) {c : Cell} (hx : x.out c = none) :
    (x.cell c).shown = c.shown := by
  obtain ⟨m, alive⟩ := c
  cases x with
  | put n => cases hx
  | markdel n | delete k | dead k =>
    cases m with
    | none => rfl
    | some n => cases hx
  | down k =>
    cases alive with
    | false => rfl
    | true =>
      cases m with
      | none => rfl
      | some n => cases hx
  | up k =>
    cases alive with
    | true => rfl
    | false =>
      cases m with
      | none => rfl
      | some n =>
        -- a record that says unavailable is shown as unavailable either way
        have havail : n.available = false := by
          by_contra htrue
          have hout : Entry.out (.up k) (some n, false) =
              some (.update { n with available := true }) := by
            simp [out, Option.filter, Bool.not_eq_false _ ▸ htrue]
          rw [hout] at hx
          cases hx
        show some { n with available := true && n.available } =
          some { n with available := false && n.available }
        rw [havail]
        rfl

end Entry

/-! ## Loops -/

namespace Subscriber

variable {ε : Type} {toEntry : ε → Option Entry} {l : List ε}

/-- When the elements are about distinct addresses, the reports of the loop
explain what it does. -/
theorem handleAll_explains
    (hdistinct : (l.filterMap fun e => (toEntry e).map Entry.key).Nodup) (s : Subscriber) :
    Explains s (s.handleAll toEntry l).1 (s.handleAll toEntry l).2 := by
  have hlocal := handleAll_isLocal toEntry
  have hkeys : ((s.handleAll toEntry l).2.map fun y => y.key.string).Nodup :=
    (keys_sublist hlocal (key_of_bind_out toEntry) s l).nodup hdistinct
  refine ⟨?_, ?_, ?_⟩
  · refine List.Nodup.of_map LogicAddr.string ?_
    rw [List.map_map]
    exact hkeys
  · intro y hy
    obtain ⟨e, he, k, hkey, hout⟩ := (mem_loop_iff hdistinct hlocal s).mp hy
    have hk := key_of_bind_out toEntry s e k y hkey hout
    obtain ⟨x, hx, rfl⟩ := Option.map_eq_some_iff.mp hkey
    have hcell := obs_loop_of_mem hdistinct hlocal he hkey s
    rw [hx] at hout hcell
    rw [view, view, hk]
    exact (x.place_of_out hout).trans (congrArg (fun c => some (Cell.shown c)) hcell.symm)
  · intro a ha
    by_cases hmem : ∃ e ∈ l, (toEntry e).map Entry.key = some a.string
    · obtain ⟨e, he, hkey⟩ := hmem
      obtain ⟨x, hx, hxa⟩ := Option.map_eq_some_iff.mp hkey
      have hcell := obs_loop_of_mem hdistinct hlocal he hkey s
      rw [hx] at hcell
      have hnone : x.out (s.cell a.string) = none := by
        rw [Option.eq_none_iff_forall_ne_some]
        intro y hy
        apply ha
        have hout : ((toEntry e).bind fun x => x.out (s.cell a.string)) = some y := by
          rw [hx]
          exact hy
        have hya := key_of_bind_out toEntry s e _ y hkey hout
        rw [← LogicAddr.string_injective hya]
        exact List.mem_map_of_mem ((mem_loop_iff hdistinct hlocal s).mpr ⟨e, he, _, hkey, hout⟩)
      exact (congrArg Cell.shown hcell).trans (x.shown_of_out_eq_none hnone)
    · have hcell := obs_loop_of_notMem hlocal (fun e he heq => hmem ⟨e, he, heq⟩) s
      exact congrArg Cell.shown hcell

end Subscriber

/-! ## Snapshots, key by key -/

/-- What is appended for the keys of a list, one change at most for each. -/
theorem keys_filterMap_sublist {f : String → Option Change}
    (hf : ∀ k y, f k = some y → y.key.string = k) (keys : List String) :
    ((keys.filterMap f).map fun y => y.key.string).Sublist keys := by
  induction keys with
  | nil => exact List.Sublist.refl _
  | cons k keys ih =>
    cases hk : f k with
    | none =>
      rw [List.filterMap_cons_none hk]
      exact ih.cons k
    | some y =>
      rw [List.filterMap_cons_some hk, List.map_cons, hf k y hk]
      exact ih.cons_cons k

/-- Two loops over disjoint sets of keys explain a change of the maps when
each key explains the change of its own cell. -/
theorem explains_of_loops {s s' : Subscriber} {f g : String → Option Change}
    {fkeys gkeys : List String} (hfkeys : fkeys.Nodup) (hgkeys : gkeys.Nodup)
    (hf : ∀ k y, f k = some y → y.key.string = k)
    (hg : ∀ k y, g k = some y → y.key.string = k)
    (hapart : ∀ k y, k ∈ fkeys → f k = some y → k ∈ gkeys → g k = none)
    (hmoves : ∀ k y, k ∈ fkeys ∧ f k = some y ∨ k ∈ gkeys ∧ g k = some y →
      y.place (s.cell k).shown = some (s'.cell k).shown)
    (hrest : ∀ k, (k ∈ fkeys → f k = none) → (k ∈ gkeys → g k = none) →
      (s'.cell k).shown = (s.cell k).shown) :
    Explains s s' (fkeys.filterMap f ++ gkeys.filterMap g) := by
  have hmem : ∀ y ∈ fkeys.filterMap f ++ gkeys.filterMap g, ∃ k,
      (k ∈ fkeys ∧ f k = some y ∨ k ∈ gkeys ∧ g k = some y) ∧ y.key.string = k := by
    intro y hy
    rcases List.mem_append.mp hy with hy | hy
    · obtain ⟨k, hmem, hk⟩ := List.mem_filterMap.mp hy
      exact ⟨k, Or.inl ⟨hmem, hk⟩, hf k y hk⟩
    · obtain ⟨k, hmem, hk⟩ := List.mem_filterMap.mp hy
      exact ⟨k, Or.inr ⟨hmem, hk⟩, hg k y hk⟩
  refine ⟨?_, ?_, ?_⟩
  · refine List.Nodup.of_map LogicAddr.string ?_
    rw [List.map_map, List.map_append]
    refine List.Nodup.append ((keys_filterMap_sublist hf fkeys).nodup hfkeys)
      ((keys_filterMap_sublist hg gkeys).nodup hgkeys) ?_
    intro k hkf hkg
    obtain ⟨y, hy, rfl⟩ := List.mem_map.mp hkf
    obtain ⟨z, hz, hzk⟩ := List.mem_map.mp hkg
    obtain ⟨k, hk, hfk⟩ := List.mem_filterMap.mp hy
    obtain ⟨k', hk', hgk⟩ := List.mem_filterMap.mp hz
    have hsame : k' = k := by
      rw [← hg k' z hgk, ← hf k y hfk]
      exact hzk
    rw [hsame] at hgk hk'
    rw [hapart k y hk hfk hk'] at hgk
    cases hgk
  · intro y hy
    obtain ⟨k, hk, hkey⟩ := hmem y hy
    rw [Subscriber.view, Subscriber.view, hkey]
    exact hmoves k y hk
  · intro a ha
    have hnone : ∀ y ∈ fkeys.filterMap f ++ gkeys.filterMap g, y.key.string ≠ a.string := by
      intro y hy heq
      apply ha
      rw [← LogicAddr.string_injective heq]
      exact List.mem_map_of_mem hy
    refine hrest a.string ?_ ?_
    · intro hk
      rw [Option.eq_none_iff_forall_ne_some]
      intro y hy
      exact hnone y (List.mem_append_left _ (List.mem_filterMap.mpr ⟨_, hk, hy⟩)) (hf _ y hy)
    · intro hk
      rw [Option.eq_none_iff_forall_ne_some]
      intro y hy
      exact hnone y (List.mem_append_right _ (List.mem_filterMap.mpr ⟨_, hk, hy⟩)) (hg _ y hy)

namespace Subscriber

variable {s : Subscriber} {current : Members} {oldKeys newKeys : List String}

theorem removal_eq_some {gone : Bool → Member → Member} {k : String} {y : Change}
    (h : s.removal gone current k = some y) :
    ∃ n, s.members.get k = some n ∧ current.get k = none ∧
      y = .remove (gone (s.alive k) n) := by
  unfold removal at h
  split at h
  · rename_i n hn hnone
    exact ⟨n, hn, hnone, (Option.some.inj h).symm⟩
  · cases h

theorem presence_eq_some {k : String} {y : Change} (h : s.presence current k = some y) :
    ∃ n, current.get k = some n ∧
      y = if (s.members.get k).isSome then .update (n.joined (s.alive k))
        else .add (n.joined (s.alive k)) := by
  unfold presence at h
  split at h
  · rename_i n m hn hm
    refine ⟨n, hn, (Option.some.inj h).symm.trans ?_⟩
    rw [hm]
    rfl
  · rename_i n hn hm
    refine ⟨n, hn, (Option.some.inj h).symm.trans ?_⟩
    rw [hm]
    rfl
  · cases h

theorem takeMembers_explains {gone : Bool → Member → Member}
    (hgone : ∀ b n, (gone b n).addr = n.addr)
    (hold : Ranges (fun k => (s.members.get k).isSome) oldKeys)
    (hnew : Ranges (fun k => (current.get k).isSome) newKeys) :
    Explains s (s.takeMembers gone current oldKeys newKeys).1
      (s.takeMembers gone current oldKeys newKeys).2 := by
  refine explains_of_loops hold.nodup hnew.nodup ?_ ?_ ?_ ?_ ?_
  · intro k y hy
    obtain ⟨n, hn, _, rfl⟩ := removal_eq_some hy
    show (gone (s.alive k) n).addr.logicAddr.string = k
    rw [hgone]
    exact s.members.keyed k n hn
  · intro k y hy
    obtain ⟨n, hn, rfl⟩ := presence_eq_some hy
    have hkey := current.keyed k n hn
    split_ifs <;> exact hkey
  · -- a member that is removed is not in the snapshot
    intro k y _ hy _
    obtain ⟨_, _, hnone, _⟩ := removal_eq_some hy
    rw [presence, hnone]
  · intro k y hy
    show y.place ((s.members.get k).map _) = some ((current.get k).map _)
    rcases hy with ⟨_, hy⟩ | ⟨_, hy⟩
    · obtain ⟨n, hn, hnone, rfl⟩ := removal_eq_some hy
      rw [hn, hnone]
      rfl
    · obtain ⟨n, hn, rfl⟩ := presence_eq_some hy
      rw [hn]
      cases s.members.get k <;> rfl
  · intro k hremoval hpresence
    show (current.get k).map _ = (s.members.get k).map _
    cases hc : current.get k with
    | some n =>
      have hnone := hpresence ((hnew.mem_iff k).mpr (by simp [hc]))
      unfold presence at hnone
      rw [hc] at hnone
      cases hm : s.members.get k <;> simp [hm] at hnone
    | none =>
      cases hm : s.members.get k with
      | none => rfl
      | some n =>
        have hnone := hremoval ((hold.mem_iff k).mpr (by simp [hm]))
        simp [removal, hc, hm] at hnone

theorem rising_eq_some {k : String} {y : Change} (h : s.rising k = some y) :
    ∃ n, s.cell k = (some n, false) ∧ n.available = true ∧
      y = .update { n with available := true } := by
  unfold rising at h
  split at h
  · rename_i n halive hn
    obtain ⟨havail, h⟩ := Option.ite_none_right_eq_some.mp h
    exact ⟨n, Prod.ext hn halive, havail, (Option.some.inj h).symm⟩
  · cases h

theorem falling_eq_some {current : String → Bool} {k : String} {y : Change}
    (h : s.falling current k = some y) :
    ∃ n, s.members.get k = some n ∧ current k = false ∧
      y = .update { n with available := false } := by
  unfold falling at h
  split at h
  · rename_i n hcurrent hn
    exact ⟨n, hn, hcurrent, (Option.some.inj h).symm⟩
  · cases h

theorem takeAlives_explains {current : String → Bool}
    (hold : Ranges (fun k => s.alive k = true) oldKeys)
    (hnew : Ranges (fun k => current k = true) newKeys) :
    Explains s (s.takeAlives current oldKeys newKeys).1
      (s.takeAlives current oldKeys newKeys).2 := by
  refine explains_of_loops hnew.nodup hold.nodup ?_ ?_ ?_ ?_ ?_
  · intro k y hy
    obtain ⟨n, hcell, _, rfl⟩ := rising_eq_some hy
    exact s.members.keyed k n (congrArg Prod.fst hcell)
  · intro k y hy
    obtain ⟨n, hn, _, rfl⟩ := falling_eq_some hy
    exact s.members.keyed k n hn
  · -- an address that rises is in the snapshot, so it does not fall
    intro k y hk _ _
    have hcurrent := (hnew.mem_iff k).mp hk
    rw [falling, hcurrent]
  · intro k y hy
    show y.place (s.cell k).shown = some ((s.members.get k).map (Member.joined (current k)))
    rcases hy with ⟨hk, hy⟩ | ⟨_, hy⟩
    · obtain ⟨n, hcell, havail, rfl⟩ := rising_eq_some hy
      have hn : s.members.get k = some n := congrArg Prod.fst hcell
      rw [hcell, hn, (hnew.mem_iff k).mp hk]
      show some (some { n with available := true }) =
        some (some { n with available := true && n.available })
      rw [havail]
      rfl
    · obtain ⟨n, hn, hcurrent, rfl⟩ := falling_eq_some hy
      have hcell : s.cell k = (some n, s.alive k) := Prod.ext hn rfl
      rw [hcell, hn, hcurrent]
      rfl
  · intro k hrising hfalling
    show (s.members.get k).map (Member.joined (current k)) =
      (s.members.get k).map (Member.joined (s.alive k))
    cases hn : s.members.get k with
    | none => rfl
    | some n =>
      cases hcurrent : current k <;> cases halive : s.alive k
      · rfl
      · have hnone := hfalling ((hold.mem_iff k).mpr halive)
        simp [falling, hcurrent, hn] at hnone
      · -- not reported, so the record says unavailable
        have hnone := hrising ((hnew.mem_iff k).mpr hcurrent)
        have havail : n.available = false := by simpa [rising, halive, hn] using hnone
        simp [Member.joined, havail]
      · rfl

end Subscriber

end ClusterGo
