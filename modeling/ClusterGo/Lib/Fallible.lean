import Mathlib.Logic.Basic

/-!
# Computations that can fail

Facts about `Except` that the proofs use to take a computation apart.  A
computation `x >>= f` answers only if `x` does and `f` then does, so a
chain of reads is peeled off read by read with `bind_eq_ok`.
-/

namespace Fallible

variable {ε α β : Type}

@[simp] theorem ok_bind (a : α) (f : α → Except ε β) :
    ((Except.ok a : Except ε α) >>= f) = f a := rfl

@[simp] theorem error_bind (e : ε) (f : α → Except ε β) :
    ((Except.error e : Except ε α) >>= f) = .error e := rfl

/-- A sequence answers when its first part does and the second part then
does. -/
theorem bind_eq_ok {x : Except ε α} {f : α → Except ε β} {b : β} :
    x >>= f = .ok b ↔ ∃ a, x = .ok a ∧ f a = .ok b := by
  cases x <;> simp

/-- Changing the answer of a sequence is changing the answer of its last
part. -/
theorem map_bind {γ : Type} (g : β → γ) (x : Except ε α) (f : α → Except ε β) :
    (x >>= f).map g = x >>= fun a => (f a).map g := by
  cases x <;> rfl

/-- What holds of the first part of a sequence, an exit included, and is
kept by the second part holds of the whole. -/
theorem bind_invariant {R : Except ε α → Prop} {x : Except ε α} {f : α → Except ε α}
    (hx : R x) (hf : ∀ a, R (.ok a) → R (f a)) : R (x >>= f) := by
  cases x with
  | error e => exact hx
  | ok a => exact hf a hx

/-- What every step of a loop keeps holds at its end, or where it is left
before. -/
theorem foldlM_invariant {σ : Type} {R : Except ε σ → Prop} {f : σ → α → Except ε σ}
    (hf : ∀ s x, R (.ok s) → R (f s x)) {s : σ} (hs : R (.ok s)) (l : List α) :
    R (l.foldlM f s) := by
  induction l generalizing s with
  | nil => exact hs
  | cons x l ih =>
    rw [List.foldlM_cons]
    exact bind_invariant (hf s x hs) fun t ht => ih ht

end Fallible
