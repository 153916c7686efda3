import Mathlib.Data.List.Basic

/-!
# Cipher block chaining

A block cipher maps lists of one fixed length to such lists.  Chaining makes
a cipher for any number of blocks from it: each block is mixed with the one
that was encrypted before it, the first with a given one.

Decrypting gives back what was encrypted when the cipher can be undone and
mixing twice with the same block changes nothing (`decrypt_encrypt`).
-/

namespace Chaining

variable {α : Type}

/-- Encrypt `n` blocks, after the block `iv`. -/
def encrypt (enc : List α → List α) (mix : α → α → α) (size : Nat) :
    Nat → List α → List α → List α
  | 0, _, _ => []
  | n + 1, iv, bs =>
    let c := enc (List.zipWith mix iv (bs.take size))
    c ++ encrypt enc mix size n c (bs.drop size)

/-- Decrypt `n` blocks, after the block `iv`. -/
def decrypt (dec : List α → List α) (mix : α → α → α) (size : Nat) :
    Nat → List α → List α → List α
  | 0, _, _ => []
  | n + 1, iv, cs =>
    List.zipWith mix iv (dec (cs.take size)) ++ decrypt dec mix size n (cs.take size) (cs.drop size)

/-- Mixing twice with the same block changes nothing. -/
theorem zipWith_zipWith {mix : α → α → α} (hmix : ∀ a b, mix a (mix a b) = b)
    {xs ys : List α} (hlen : xs.length = ys.length) :
    List.zipWith mix xs (List.zipWith mix xs ys) = ys := by
  induction xs generalizing ys with
  | nil => rw [List.zipWith_nil_left, List.length_eq_zero_iff.mp hlen.symm]
  | cons x xs ih =>
    cases ys with
    | nil => cases hlen
    | cons y ys =>
      rw [List.zipWith_cons_cons, List.zipWith_cons_cons, hmix, ih (Nat.succ.inj hlen)]

section

variable {enc dec : List α → List α} {mix : α → α → α} {size : Nat}

/-- A block cipher keeps the length of a block. -/
def KeepsLength (enc : List α → List α) (size : Nat) : Prop :=
  ∀ b, b.length = size → (enc b).length = size

/-- The first of several blocks. -/
theorem length_take_block {n : Nat} {bs : List α} (hbs : bs.length = (n + 1) * size) :
    (bs.take size).length = size := by
  rw [List.length_take, hbs, Nat.succ_mul]
  omega

theorem length_drop_block {n : Nat} {bs : List α} (hbs : bs.length = (n + 1) * size) :
    (bs.drop size).length = n * size := by
  rw [List.length_drop, hbs, Nat.succ_mul]
  omega

/-- The block that is encrypted first. -/
theorem length_mixed (mix : α → α → α) {n : Nat} {iv bs : List α} (hiv : iv.length = size)
    (hbs : bs.length = (n + 1) * size) :
    (List.zipWith mix iv (bs.take size)).length = size := by
  rw [List.length_zipWith, hiv, length_take_block hbs, Nat.min_self]

theorem length_encrypt (henc : KeepsLength enc size) {n : Nat} {iv bs : List α}
    (hiv : iv.length = size) (hbs : bs.length = n * size) :
    (encrypt enc mix size n iv bs).length = n * size := by
  induction n generalizing iv bs with
  | zero => simp [encrypt]
  | succ n ih =>
    have hc := henc _ (length_mixed mix hiv hbs)
    rw [encrypt, List.length_append, hc, ih hc (length_drop_block hbs), Nat.succ_mul, Nat.add_comm]

/-- Decrypting gives back what was encrypted. -/
theorem decrypt_encrypt (henc : KeepsLength enc size)
    (hdec : ∀ b, b.length = size → dec (enc b) = b) (hmix : ∀ a b, mix a (mix a b) = b)
    {n : Nat} {iv bs : List α} (hiv : iv.length = size) (hbs : bs.length = n * size) :
    decrypt dec mix size n iv (encrypt enc mix size n iv bs) = bs := by
  induction n generalizing iv bs with
  | zero =>
    rw [Nat.zero_mul] at hbs
    rw [List.length_eq_zero_iff.mp hbs]
    rfl
  | succ n ih =>
    have hlen := length_mixed mix hiv hbs
    have hc := henc _ hlen
    rw [encrypt, decrypt, List.take_left' hc, List.drop_left' hc, hdec _ hlen,
      zipWith_zipWith hmix (hiv.trans (length_take_block hbs).symm),
      ih hc (length_drop_block hbs), List.take_append_drop]

end

end Chaining
