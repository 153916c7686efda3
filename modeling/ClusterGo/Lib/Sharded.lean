import Mathlib.Data.Option.Basic
import Mathlib.Logic.Function.Basic

/-!
# A map split into shards

A table of shards, each of them a map, with a function that selects the
shard of a key.  The selection may fail, and then a read or a write of the
key fails too.

`view` is the table as one map.  A write of a key is a write of that one
map (`view_write`), and as long as all writes go through `write`, every
entry is in the shard of its key (`Placed`) and the view misses none
(`exists_iff_view`).
-/

namespace Sharded

variable {ι κ α : Type}

/-- The shards, by index. -/
abbrev Table (ι κ α : Type) := ι → κ → Option α

/-- The table without entries. -/
def empty : Table ι κ α := fun _ _ => none

section

variable (shard : κ → Option ι) (t : Table ι κ α)

/-- The cell of a key, in the shard of the key. -/
def read (k : κ) : Option (Option α) := (shard k).map fun i => t i k

/-- Set the cell of a key, in the shard of the key. -/
def write [DecidableEq ι] [DecidableEq κ] (k : κ) (v : Option α) : Option (Table ι κ α) :=
  (shard k).map fun i => Function.update t i (Function.update (t i) k v)

/-- The table as one map. -/
def view (k : κ) : Option α := (shard k).bind fun i => t i k

/-- Every entry is in the shard of its key. -/
def Placed : Prop := ∀ i k a, t i k = some a → shard k = some i

end

variable {shard : κ → Option ι} {t t' : Table ι κ α} {k : κ} {v : Option α}

theorem placed_empty : Placed shard (empty : Table ι κ α) := fun _ _ _ h => nomatch h

theorem read_eq_some {i : ι} (h : shard k = some i) : read shard t k = some (view shard t k) := by
  rw [read, view, h]
  rfl

/-- An entry anywhere in the table is an entry of the view. -/
theorem Placed.exists_iff_view (ht : Placed shard t) {a : α} :
    (∃ i, t i k = some a) ↔ view shard t k = some a := by
  constructor
  · intro hex
    obtain ⟨i, hentry⟩ := hex
    rw [view, ht i k a hentry]
    exact hentry
  · intro hview
    obtain ⟨i, _, hentry⟩ := Option.bind_eq_some_iff.mp hview
    exact ⟨i, hentry⟩

variable [DecidableEq ι] [DecidableEq κ]

theorem write_eq_some {i : ι} (h : shard k = some i) (v : Option α) :
    write shard t k v = some (Function.update t i (Function.update (t i) k v)) := by
  rw [write, h]
  rfl

/-- A key that is written selects a shard. -/
theorem exists_of_write (h : write shard t k v = some t') : ∃ i, shard k = some i := by
  obtain ⟨i, hi, _⟩ := Option.map_eq_some_iff.mp h
  exact ⟨i, hi⟩

/-- A write changes the one key of the view. -/
theorem view_write (h : write shard t k v = some t') :
    view shard t' = Function.update (view shard t) k v := by
  obtain ⟨i, hi, rfl⟩ := Option.map_eq_some_iff.mp h
  funext k'
  by_cases hk : k' = k
  · rw [hk, Function.update_self, view, hi, Option.bind_some, Function.update_self,
      Function.update_self]
  · rw [Function.update_of_ne hk, view, view]
    cases hshard : shard k' with
    | none => rfl
    | some j =>
      rw [Option.bind_some, Option.bind_some]
      by_cases hj : j = i
      · rw [hj, Function.update_self, Function.update_of_ne hk]
      · rw [Function.update_of_ne hj]

/-- An entry after a write is the one written or was there before. -/
theorem entry_of_write (h : write shard t k v = some t') {i : ι} {k' : κ} {a : α}
    (hentry : t' i k' = some a) : k' = k ∧ v = some a ∨ t i k' = some a := by
  obtain ⟨j, _, rfl⟩ := Option.map_eq_some_iff.mp h
  by_cases hi : i = j
  · rw [hi, Function.update_self] at hentry
    by_cases hk : k' = k
    · rw [hk, Function.update_self] at hentry
      exact Or.inl ⟨hk, hentry⟩
    · rw [Function.update_of_ne hk] at hentry
      rw [hi]
      exact Or.inr hentry
  · rw [Function.update_of_ne hi] at hentry
    exact Or.inr hentry

theorem Placed.write (ht : Placed shard t) (h : Sharded.write shard t k v = some t') :
    Placed shard t' := by
  obtain ⟨i, hi, rfl⟩ := Option.map_eq_some_iff.mp h
  intro j k' a hentry
  by_cases hj : j = i
  · rw [hj, Function.update_self] at hentry
    by_cases hk : k' = k
    · rw [hk, hi, hj]
    · rw [Function.update_of_ne hk] at hentry
      rw [hj]
      exact ht i k' a hentry
  · rw [Function.update_of_ne hj] at hentry
    exact ht j k' a hentry

end Sharded
