import Mathlib.Data.List.Chain
import Mathlib.Data.List.Nodup

/-!
# Paths along a relation with a rank

A relation `r` descends in a rank when every step lowers it.  A path along
such a relation never comes back to an element it has left, and from an
element of rank `k` it has at most `k` steps.
-/

namespace Descent

variable {α : Type} {r : α → α → Prop} {rank : α → Nat} {x : α} {l : List α}

/-- Every later element of a path has a smaller rank. -/
theorem rank_lt_of_mem (hdescends : ∀ a b, r a b → rank b < rank a)
    (hpath : List.IsChain r (x :: l)) {y : α} (hy : y ∈ l) : rank y < rank x := by
  induction l generalizing x with
  | nil => exact absurd hy List.not_mem_nil
  | cons z l ih =>
    rw [List.isChain_cons_cons] at hpath
    have hz := hdescends x z hpath.1
    rcases List.mem_cons.mp hy with rfl | hy
    · exact hz
    · exact Nat.lt_trans (ih hpath.2 hy) hz

theorem nodup_of_isChain (hdescends : ∀ a b, r a b → rank b < rank a)
    (hpath : List.IsChain r (x :: l)) : (x :: l).Nodup := by
  induction l generalizing x with
  | nil => exact List.nodup_singleton x
  | cons z l ih =>
    refine List.nodup_cons.mpr ⟨?_, ih (List.isChain_cons_cons.mp hpath).2⟩
    intro hmem
    exact Nat.lt_irrefl _ (rank_lt_of_mem hdescends hpath hmem)

theorem length_le_rank (hdescends : ∀ a b, r a b → rank b < rank a)
    (hpath : List.IsChain r (x :: l)) : l.length ≤ rank x := by
  induction l generalizing x with
  | nil => exact Nat.zero_le _
  | cons z l ih =>
    rw [List.isChain_cons_cons] at hpath
    have hz := hdescends x z hpath.1
    have hl := ih hpath.2
    rw [List.length_cons]
    omega

end Descent
