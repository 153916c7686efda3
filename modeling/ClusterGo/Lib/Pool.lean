import Mathlib.Data.List.Basic
import Mathlib.Logic.Function.Basic

/-!
# Pools of reusable objects

Objects are named by numbers.  A pool keeps the objects that were put back
and makes a new one when it is asked for one and does not hand out an old
one.  `next` is the first name that was never handed out.

Users `ι` hold objects.  `Sound pool next own` says that no object has two
users and that no pooled object has one.  This is what a program gets from
a pool as long as it puts back only what it holds, and at most once; a user
may also drop its object and never put it back.
-/

namespace Pool

variable {ι : Type}

/-- What a request for an object may be answered with: a pooled object or a
new one. -/
def get (pool : List Nat) (next : Nat) : Option Nat → Option (Nat × List Nat × Nat)
  | none => some (next, pool, next + 1)
  | some p => if p ∈ pool then some (p, pool.erase p, next) else none

/-- Every object has at most one user, and none while it is pooled. -/
structure Sound (pool : List Nat) (next : Nat) (own : ι → Option Nat) : Prop where
  nodup : pool.Nodup
  pooled_lt : ∀ p ∈ pool, p < next
  owned_lt : ∀ i p, own i = some p → p < next
  owned_free : ∀ i p, own i = some p → p ∉ pool
  exclusive : ∀ i j p, own i = some p → own j = some p → i = j

variable {pool : List Nat} {next : Nat} {own : ι → Option Nat}

theorem Sound.empty : Sound [] 0 (fun _ : ι => none) where
  nodup := List.nodup_nil
  pooled_lt := by simp
  owned_lt := by simp
  owned_free := by simp
  exclusive := by simp

/-- An object that is handed out is not in the pool any more, its name is
now used, and nobody held it. -/
theorem Sound.get_fresh (h : Sound pool next own) {choice : Option Nat} {p : Nat}
    {pool' : List Nat} {next' : Nat}
    (hget : Pool.get pool next choice = some (p, pool', next')) :
    p ∉ pool' ∧ p < next' ∧ next ≤ next' ∧ pool'.Sublist pool ∧
      ∀ j, own j ≠ some p := by
  cases choice with
  | none =>
    simp only [Pool.get, Option.some.injEq, Prod.mk.injEq] at hget
    rcases hget with ⟨rfl, rfl, rfl⟩
    exact ⟨fun hp => Nat.lt_irrefl _ (h.pooled_lt _ hp), by omega, by omega,
      List.Sublist.refl _, fun j hj => Nat.lt_irrefl _ (h.owned_lt j _ hj)⟩
  | some q =>
    simp only [Pool.get, Option.ite_none_right_eq_some, Option.some.injEq,
      Prod.mk.injEq] at hget
    rcases hget with ⟨hq, rfl, rfl, rfl⟩
    exact ⟨fun hp => (h.nodup.mem_erase_iff.mp hp).1 rfl, h.pooled_lt _ hq, by omega,
      List.erase_sublist, fun j hj => h.owned_free j _ hj hq⟩

variable [DecidableEq ι]

/-- Who holds an object after one user changed. -/
theorem holder_update {i j : ι} {o : Option Nat} {q : Nat}
    (h : Function.update own i o j = some q) :
    j = i ∧ o = some q ∨ j ≠ i ∧ own j = some q := by
  rcases eq_or_ne j i with rfl | hji
  · rw [Function.update_self] at h
    exact .inl ⟨rfl, h⟩
  · rw [Function.update_of_ne hji] at h
    exact .inr ⟨hji, h⟩

/-- A user that got an object is its only user. -/
theorem Sound.get (h : Sound pool next own) {choice : Option Nat} {p : Nat}
    {pool' : List Nat} {next' : Nat}
    (hget : Pool.get pool next choice = some (p, pool', next')) (i : ι) :
    Sound pool' next' (Function.update own i (some p)) := by
  obtain ⟨hout, hlt, hnext, hsub, hown⟩ := h.get_fresh hget
  refine ⟨h.nodup.sublist hsub, fun q hq => ?_, fun j q hj => ?_, fun j q hj => ?_,
    fun j k q hj hk => ?_⟩
  · exact Nat.lt_of_lt_of_le (h.pooled_lt q (hsub.subset hq)) hnext
  · rcases holder_update hj with ⟨-, hq⟩ | ⟨-, hj⟩
    · exact Option.some_inj.mp hq ▸ hlt
    · exact Nat.lt_of_lt_of_le (h.owned_lt j q hj) hnext
  · rcases holder_update hj with ⟨-, hq⟩ | ⟨-, hj⟩
    · exact Option.some_inj.mp hq ▸ hout
    · exact fun hq => h.owned_free j q hj (hsub.subset hq)
  · rcases holder_update hj with ⟨hji, hq⟩ | ⟨-, hj⟩ <;>
      rcases holder_update hk with ⟨hki, hq'⟩ | ⟨-, hk⟩
    · rw [hji, hki]
    · exact absurd (hk.trans hq.symm) (hown k)
    · exact absurd (hj.trans hq'.symm) (hown j)
    · exact h.exclusive j k q hj hk

/-- A user may forget its object. -/
theorem Sound.drop (h : Sound pool next own) (i : ι) :
    Sound pool next (Function.update own i none) := by
  have hkeep : ∀ j q, Function.update own i none j = some q → own j = some q := by
    intro j q hj
    rcases holder_update hj with ⟨-, hq⟩ | ⟨-, hj⟩
    · exact absurd hq.symm (Option.some_ne_none q)
    · exact hj
  exact ⟨h.nodup, h.pooled_lt, fun j q hj => h.owned_lt j q (hkeep j q hj),
    fun j q hj => h.owned_free j q (hkeep j q hj),
    fun j k q hj hk => h.exclusive j k q (hkeep j q hj) (hkeep k q hk)⟩

/-- A user may put back the object that it holds. -/
theorem Sound.put (h : Sound pool next own) {i : ι} {p : Nat} (hi : own i = some p) :
    Sound (p :: pool) next (Function.update own i none) := by
  have hdrop := h.drop i
  refine ⟨List.nodup_cons.mpr ⟨h.owned_free i p hi, h.nodup⟩, fun q hq => ?_,
    hdrop.owned_lt, fun j q hj hq => ?_, hdrop.exclusive⟩
  · rcases List.mem_cons.mp hq with rfl | hq
    · exact h.owned_lt i _ hi
    · exact h.pooled_lt q hq
  · rcases List.mem_cons.mp hq with rfl | hq
    · rcases holder_update hj with ⟨-, hq⟩ | ⟨hji, hj⟩
      · exact absurd hq.symm (Option.some_ne_none _)
      · exact hji (h.exclusive j i _ hj hi)
    · exact hdrop.owned_free j q hj hq

end Pool
