import Mathlib.Data.List.Basic

/-!
# Select statements

A `select` statement has cases that are ready or not, each with a result,
and perhaps a default.  It takes one of the cases that are ready, which of
them is not determined, and the default when none is.  Without a default it
then blocks.

`outcomes` is the list of the results that a statement can have, so it is
empty for a statement that blocks, and `mem_outcomes` says which they are.
-/

namespace Select

variable {α : Type}

/-- The results of a `select` statement. -/
def outcomes (cases : List (Bool × α)) (default : Option α) : List α :=
  let ready := cases.filter (·.1)
  if ready.isEmpty then default.toList else ready.map (·.2)

theorem mem_outcomes {cases : List (Bool × α)} {default : Option α} {x : α} :
    x ∈ outcomes cases default ↔
      (true, x) ∈ cases ∨ (∀ c ∈ cases, c.1 = false) ∧ default = some x := by
  unfold outcomes
  by_cases hready : ∃ c ∈ cases, c.1 = true
  · -- some case is ready, so the default is not taken
    have hne : (cases.filter (·.1)).isEmpty = false := by
      obtain ⟨c, hc, htrue⟩ := hready
      rw [Bool.eq_false_iff, ne_eq, List.isEmpty_iff]
      exact List.ne_nil_of_mem (List.mem_filter.mpr ⟨hc, htrue⟩)
    have hdefault : ¬ ∀ c ∈ cases, c.1 = false := by
      intro hall
      obtain ⟨c, hc, htrue⟩ := hready
      rw [hall c hc] at htrue
      cases htrue
    simp only [hne, hdefault, false_and, or_false, Bool.false_eq_true, if_false, List.mem_map,
      List.mem_filter]
    constructor
    · intro hmem
      obtain ⟨⟨ready, y⟩, ⟨hc, htrue⟩, hx⟩ := hmem
      rw [← hx]
      exact htrue ▸ hc
    · intro hc
      exact ⟨(true, x), ⟨hc, rfl⟩, rfl⟩
  · have hnone : ∀ c ∈ cases, c.1 = false := by
      intro c hc
      exact Bool.eq_false_iff.mpr fun htrue => hready ⟨c, hc, htrue⟩
    have hempty : cases.filter (·.1) = [] := by
      rw [List.filter_eq_nil_iff]
      intro c hc
      simp [hnone c hc]
    simp only [hempty, List.isEmpty_nil, if_true, Option.mem_toList]
    constructor
    · intro hx
      exact Or.inr ⟨hnone, hx⟩
    · intro hx
      rcases hx with hc | ⟨_, hx⟩
      · exact absurd (hnone _ hc) (by simp)
      · exact hx

end Select
