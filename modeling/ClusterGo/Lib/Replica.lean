import Mathlib.Logic.Function.Basic

/-!
# A replica behind a queue of changes

A store gives every key a value.  A change of a key is appended to a queue,
and a replica takes the changes from the front of the queue.  Besides, the
replica may be copied from the store at any moment, while changes are in the
queue that are older than the copy.

* `Latest`: the last change of a key in the queue is what the store has.
* `Settled`: a key without a change in the queue is replicated.

`Latest` holds from the empty queue on, and `Settled` from the first copy
on.  With an empty queue `Settled` says that the replica is the view of the
store (`Settled.all`).
-/

namespace Replica

variable {κ ν β : Type} [DecidableEq κ]

/-- The last change of a key. -/
def lastOf (k : κ) : List (κ × ν) → Option ν
  | [] => none
  | (k', v) :: queue =>
    match lastOf k queue with
    | some v' => some v'
    | none => if k' = k then some v else none

def Latest (store : κ → ν) (queue : List (κ × ν)) : Prop :=
  ∀ k v, lastOf k queue = some v → store k = v

def Settled (view : κ → ν → β) (store : κ → ν) (queue : List (κ × ν)) (replica : κ → β) : Prop :=
  ∀ k, lastOf k queue = none → replica k = view k (store k)

theorem lastOf_push (k k' : κ) (v : ν) (queue : List (κ × ν)) :
    lastOf k (queue ++ [(k', v)]) = if k' = k then some v else lastOf k queue := by
  induction queue with
  | nil => rfl
  | cons c queue ih =>
    rw [List.cons_append, lastOf, ih]
    by_cases hk : k' = k
    · rw [if_pos hk, if_pos hk]
    · rw [if_neg hk, if_neg hk]
      rfl

theorem lastOf_cons_of_ne {k k' : κ} (h : k' ≠ k) (v : ν) (queue : List (κ × ν)) :
    lastOf k ((k', v) :: queue) = lastOf k queue := by
  rw [lastOf, if_neg h]
  cases lastOf k queue <;> rfl

variable {view : κ → ν → β} {store : κ → ν} {queue : List (κ × ν)} {replica replica' : κ → β}
  {k : κ} {v : ν}

theorem latest_nil (store : κ → ν) : Latest store [] := by
  intro k v h
  cases h

/-- A change of the store. -/
theorem Latest.push (h : Latest store queue) (k : κ) (v : ν) :
    Latest (Function.update store k v) (queue ++ [(k, v)]) := by
  intro k' v' hlast
  rw [lastOf_push] at hlast
  by_cases hk : k' = k
  · rw [hk, Function.update_self]
    rw [if_pos hk.symm] at hlast
    exact Option.some.inj hlast
  · rw [Function.update_of_ne hk]
    rw [if_neg (Ne.symm hk)] at hlast
    exact h k' v' hlast

/-- The front of the queue is taken. -/
theorem Latest.tail (h : Latest store ((k, v) :: queue)) : Latest store queue := by
  intro k' v' hlast
  refine h k' v' ?_
  rw [lastOf, hlast]

theorem Settled.push (h : Settled view store queue replica) (k : κ) (v : ν) :
    Settled view (Function.update store k v) (queue ++ [(k, v)]) replica := by
  intro k' hlast
  rw [lastOf_push] at hlast
  by_cases hk : k = k'
  · rw [if_pos hk] at hlast
    cases hlast
  · rw [if_neg hk] at hlast
    rw [Function.update_of_ne (Ne.symm hk)]
    exact h k' hlast

/-- The replica takes a change.  It need not be what the store has, but then
there is a later change of the key. -/
theorem Settled.deliver (h : Settled view store ((k, v) :: queue) replica)
    (hlatest : Latest store ((k, v) :: queue)) (hself : replica' k = view k v)
    (hother : ∀ k', k' ≠ k → replica' k' = replica k') :
    Settled view store queue replica' := by
  intro k' hlast
  by_cases hk : k = k'
  · rw [← hk] at hlast ⊢
    rw [hself, hlatest k v (by rw [lastOf, hlast]; exact if_pos rfl)]
  · rw [hother k' (Ne.symm hk)]
    exact h k' (by rw [lastOf_cons_of_ne hk, hlast])

/-- The store is copied. -/
theorem settled_copy (hcopy : ∀ k, replica k = view k (store k)) (queue : List (κ × ν)) :
    Settled view store queue replica :=
  fun k _ => hcopy k

theorem Settled.all (h : Settled view store [] replica) (k : κ) : replica k = view k (store k) :=
  h k rfl

end Replica
