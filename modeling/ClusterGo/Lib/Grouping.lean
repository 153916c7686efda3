import Mathlib.Data.List.Nodup
import Mathlib.Logic.Function.Basic

/-!
# Grouped lists with swap removal

A grouping is a partial map from keys to lists.  An element is appended to
the list of its key, and it is removed by moving the last element of the
list into its place.  The order of a list therefore depends on the history
of the removals, while its elements do not: `swapRemove_perm_erase` says
that swap removal is `List.erase` up to order.

The list of a key that was never used is empty (`members`), so clients
state their invariants about `members` and never look at the map.
-/

namespace Grouping

variable {κ α : Type}

section

variable [DecidableEq α]

/-! ## Swap removal -/

/-- Overwrite the first `x` with the last element and drop the last
place. -/
def swapRemove (x : α) (l : List α) : List α :=
  if x ∈ l then (l.set (l.idxOf x) (l.getLast?.getD x)).dropLast else l

theorem swapRemove_of_notMem {x : α} {l : List α} (h : x ∉ l) : swapRemove x l = l :=
  if_neg h

/-- Around the first `x`, the elements before it stay in place. -/
theorem swapRemove_split {x : α} {before after : List α} (hx : x ∉ before) :
    swapRemove x (before ++ x :: after) =
      before ++ ((x :: after).set 0 ((x :: after).getLast?.getD x)).dropLast := by
  have hmem : x ∈ before ++ x :: after := by simp
  have hidx : (before ++ x :: after).idxOf x = before.length := by
    rw [List.idxOf_append_of_notMem hx, List.idxOf_cons_self, Nat.add_zero]
  have hlast : (before ++ x :: after).getLast? = (x :: after).getLast? := by
    rw [List.getLast?_append, List.getLast?_cons, Option.some_or]
  rw [swapRemove, if_pos hmem, hidx, hlast, List.set_append_right _ _ (Nat.le_refl _),
    Nat.sub_self, List.dropLast_append_of_ne_nil (by simp)]

theorem swapRemove_perm_erase (x : α) (l : List α) : (swapRemove x l).Perm (l.erase x) := by
  by_cases hmem : x ∈ l
  · obtain ⟨before, after, rfl, hx⟩ := List.eq_append_cons_of_mem hmem
    rw [swapRemove_split hx, List.erase_append_right _ hx, List.erase_cons_head]
    refine List.Perm.append_left before ?_
    rcases List.eq_nil_or_concat' after with rfl | ⟨init, y, rfl⟩
    · exact List.Perm.refl _
    · have hlast : (x :: (init ++ [y])).getLast?.getD x = y := by
        rw [← List.cons_append, List.getLast?_append]
        rfl
      rw [hlast, List.set_cons_zero, ← List.cons_append, List.dropLast_concat]
      exact (List.perm_append_singleton y init).symm
  · rw [swapRemove_of_notMem hmem, List.erase_of_not_mem hmem]

theorem nodup_swapRemove {l : List α} (h : l.Nodup) (x : α) : (swapRemove x l).Nodup :=
  (swapRemove_perm_erase x l).nodup_iff.mpr (h.erase x)

theorem mem_swapRemove {l : List α} (h : l.Nodup) {x y : α} :
    y ∈ swapRemove x l ↔ y ≠ x ∧ y ∈ l := by
  rw [(swapRemove_perm_erase x l).mem_iff, h.mem_erase_iff]

end

/-! ## Grouped lists -/

variable [DecidableEq κ]

/-- The elements that are filed under a key. -/
def members (g : κ → Option (List α)) (k : κ) : List α := (g k).getD []

def add (k : κ) (x : α) (g : κ → Option (List α)) : κ → Option (List α) :=
  match g k with
  | none => Function.update g k (some [x])
  | some l => Function.update g k (some (l ++ [x]))

def remove [DecidableEq α] (k : κ) (x : α) (g : κ → Option (List α)) : κ → Option (List α) :=
  match g k with
  | none => g
  | some l => Function.update g k (some (swapRemove x l))

theorem members_update (g : κ → Option (List α)) (k j : κ) (l : List α) :
    members (Function.update g k (some l)) j = if j = k then l else members g j := by
  unfold members
  by_cases hj : j = k
  · rw [if_pos hj, hj, Function.update_self, Option.getD_some]
  · rw [if_neg hj, Function.update_of_ne hj]

theorem members_add (g : κ → Option (List α)) (k j : κ) (x : α) :
    members (add k x g) j = if j = k then members g j ++ [x] else members g j := by
  unfold add
  cases hg : g k with
  | none =>
    rw [members_update]
    by_cases hj : j = k
    · rw [if_pos hj, if_pos hj, hj, members, hg, Option.getD_none, List.nil_append]
    · rw [if_neg hj, if_neg hj]
  | some l =>
    rw [members_update]
    by_cases hj : j = k
    · rw [if_pos hj, if_pos hj, hj, members, hg, Option.getD_some]
    · rw [if_neg hj, if_neg hj]

theorem members_remove [DecidableEq α] (g : κ → Option (List α)) (k j : κ) (x : α) :
    members (remove k x g) j = if j = k then swapRemove x (members g j) else members g j := by
  unfold remove
  cases hg : g k with
  | none =>
    have hempty : members g k = [] := by rw [members, hg, Option.getD_none]
    by_cases hj : j = k
    · rw [if_pos hj, hj, hempty, swapRemove_of_notMem List.not_mem_nil]
    · rw [if_neg hj]
  | some l =>
    rw [members_update]
    by_cases hj : j = k
    · rw [if_pos hj, if_pos hj, hj, members, hg, Option.getD_some]
    · rw [if_neg hj, if_neg hj]

end Grouping
