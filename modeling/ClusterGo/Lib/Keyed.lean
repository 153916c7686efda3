import Mathlib.Data.List.Nodup
import Mathlib.Data.Option.Basic
import Mathlib.Logic.Function.Basic

/-!
# Change lists over a keyed map

A change reads and writes the cell of its own key in a map `κ → β`, and it
may fail.  `cell x b` is the cell after the change `x` when it was `b`, or
`none` when the change is not possible.  `applyAll` makes a list of changes
one after the other.

Only changes of one key see each other: `applyAll_eq_some_iff` takes a list
apart into the changes of each key.  When no key occurs twice they do not
see each other at all.  `applyAll_eq_some` says so: the whole list succeeds
if and only if each change succeeds on the cell of the first map, and the
last map is read off cell by cell.
-/

namespace Keyed

variable {κ α β : Type} [DecidableEq κ]

section

variable (key : α → κ) (cell : α → β → Option β)

def apply (f : κ → β) (x : α) : Option (κ → β) :=
  (cell x (f (key x))).map (Function.update f (key x))

def applyAll (f : κ → β) (l : List α) : Option (κ → β) :=
  l.foldlM (apply key cell) f

end

variable {key : α → κ} {cell : α → β → Option β}

@[simp] theorem applyAll_nil (f : κ → β) : applyAll key cell f [] = some f := rfl

theorem applyAll_cons (f : κ → β) (x : α) (l : List α) :
    applyAll key cell f (x :: l) =
      (apply key cell f x).bind fun f => applyAll key cell f l := by
  rw [applyAll, List.foldlM_cons]
  rfl

theorem apply_eq_some {f g : κ → β} {x : α} :
    apply key cell f x = some g ↔
      ∃ b, cell x (f (key x)) = some b ∧ g = Function.update f (key x) b := by
  rw [apply, Option.map_eq_some_iff]
  constructor
  · intro hpack
    rcases hpack with ⟨b, hb, hg⟩
    exact ⟨b, hb, hg.symm⟩
  · intro hpack
    rcases hpack with ⟨b, hb, hg⟩
    exact ⟨b, hb, hg.symm⟩

/-- A list of changes leads from `f` to `g` if and only if for every key the
changes of that key lead from its cell of `f` to its cell of `g`. -/
theorem applyAll_eq_some_iff {l : List α} {f g : κ → β} :
    applyAll key cell f l = some g ↔
      ∀ k, (l.filter fun x => key x = k).foldlM (fun b x => cell x b) (f k) = some (g k) := by
  induction l generalizing f with
  | nil =>
    rw [applyAll_nil, Option.some_inj]
    exact ⟨fun h k => by rw [h]; rfl, fun h => funext fun k => Option.some.inj (h k)⟩
  | cons x l ih =>
    have hself : ((x :: l).filter fun y => key y = key x) =
        x :: l.filter fun y => key y = key x := List.filter_cons_of_pos (by simp)
    have hother : ∀ k, k ≠ key x →
        ((x :: l).filter fun y => key y = k) = l.filter fun y => key y = k :=
      fun k hk => List.filter_cons_of_neg (by simpa using Ne.symm hk)
    rw [applyAll_cons, Option.bind_eq_some_iff]
    constructor
    · intro hpack k
      obtain ⟨f', hx, hl⟩ := hpack
      obtain ⟨b, hb, rfl⟩ := apply_eq_some.mp hx
      have hk := ih.mp hl k
      by_cases hkx : k = key x
      · rw [hkx, Function.update_self] at hk
        rw [hkx, hself, List.foldlM_cons, hb]
        exact hk
      · rw [Function.update_of_ne hkx] at hk
        rw [hother k hkx]
        exact hk
    · intro h
      have hx := h (key x)
      rw [hself, List.foldlM_cons] at hx
      obtain ⟨b, hb, hx⟩ := Option.bind_eq_some_iff.mp hx
      refine ⟨Function.update f (key x) b, apply_eq_some.mpr ⟨b, hb, rfl⟩, ih.mpr ?_⟩
      intro k
      by_cases hkx : k = key x
      · rw [hkx, Function.update_self]
        exact hx
      · rw [Function.update_of_ne hkx, ← hother k hkx]
        exact h k

/-- With distinct keys a key selects one change at most. -/
theorem filter_key_of_mem {l : List α} (hnodup : (l.map key).Nodup) {x : α} (hx : x ∈ l) :
    (l.filter fun y => key y = key x) = [x] := by
  induction l with
  | nil => cases hx
  | cons y l ih =>
    rw [List.map_cons, List.nodup_cons] at hnodup
    obtain ⟨hfresh, hnodup⟩ := hnodup
    rcases List.mem_cons.mp hx with rfl | hx
    · rw [List.filter_cons_of_pos (by simp), List.filter_eq_nil_iff.mpr]
      intro z hz hkey
      exact hfresh (of_decide_eq_true hkey ▸ List.mem_map_of_mem hz)
    · have hne : key y ≠ key x := fun heq => hfresh (heq ▸ List.mem_map_of_mem hx)
      rw [List.filter_cons_of_neg (by simpa using hne)]
      exact ih hnodup hx

theorem filter_key_of_notMem {l : List α} {k : κ} (hk : k ∉ l.map key) :
    (l.filter fun y => key y = k) = [] := by
  refine List.filter_eq_nil_iff.mpr ?_
  intro y hy hkey
  exact hk (of_decide_eq_true hkey ▸ List.mem_map_of_mem hy)

/-- A list of changes with distinct keys leads from `f` to `g` if and only
if each change leads from its cell of `f` to its cell of `g` and no other
cell is different. -/
theorem applyAll_eq_some {l : List α} (hnodup : (l.map key).Nodup) {f g : κ → β} :
    applyAll key cell f l = some g ↔
      (∀ x ∈ l, cell x (f (key x)) = some (g (key x))) ∧
        ∀ k, k ∉ l.map key → g k = f k := by
  have hone : ∀ x ∈ l, (l.filter fun y => key y = key x).foldlM (fun b y => cell y b)
      (f (key x)) = cell x (f (key x)) := by
    intro x hx
    rw [filter_key_of_mem hnodup hx, List.foldlM_cons]
    exact Option.bind_fun_some _
  rw [applyAll_eq_some_iff]
  constructor
  · intro h
    refine ⟨fun x hx => (hone x hx).symm.trans (h (key x)), ?_⟩
    intro k hk
    have hsame := h k
    rw [filter_key_of_notMem hk] at hsame
    exact (Option.some.inj hsame).symm
  · intro h k
    by_cases hk : k ∈ l.map key
    · obtain ⟨x, hx, rfl⟩ := List.mem_map.mp hk
      exact (hone x hx).trans (h.1 x hx)
    · rw [filter_key_of_notMem hk, h.2 k hk]
      rfl

/-! ## Looking up a list by key -/

/-- With distinct keys a lookup finds the member itself. -/
theorem find?_key_of_mem {l : List α} (hnodup : (l.map key).Nodup) {x : α} (hx : x ∈ l) :
    l.find? (fun y => key y = key x) = some x := by
  cases hfind : l.find? fun y => key y = key x with
  | none => simpa using List.find?_eq_none.mp hfind x hx
  | some y =>
    have hy := List.find?_some hfind
    rw [decide_eq_true_eq] at hy
    rw [List.inj_on_of_nodup_map hnodup (List.mem_of_find?_eq_some hfind) hx hy]

/-- Every member of a list is the first with its key if and only if the
keys are distinct. -/
theorem find?_key_iff {l : List α} (hl : l.Nodup) :
    (∀ x ∈ l, l.find? (fun y => key y = key x) = some x) ↔ (l.map key).Nodup := by
  constructor
  · intro hfind
    refine List.Nodup.map_on (fun x hx y hy hxy => ?_) hl
    have hfirst := hfind x hx
    rw [hxy, hfind y hy] at hfirst
    exact (Option.some.inj hfirst).symm
  · intro hnodup x hx
    exact find?_key_of_mem hnodup hx

end Keyed
