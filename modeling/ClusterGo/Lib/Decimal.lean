import Mathlib.Data.Int.Basic
import Mathlib.Data.Option.Basic

/-!
# Decimal numbers as text

`Nat.toDigits 10` prints a natural number.  `print` puts a minus sign in
front of a negative one, and `integer` reads an optional sign and at least
one digit.  `integer_toDigits` is the round trip of the natural numbers, and
`isNumeral_of_mem_print` says which characters a printed number is made of.
-/

namespace Decimal

/-- The value of a text that is made of digits only. -/
def natural (text : List Char) : Option Nat :=
  if text ≠ [] ∧ text.all Char.isDigit then some (Nat.ofDigitChars 10 text 0) else none

/-- The value of a text with an optional sign. -/
def integer : List Char → Option Int
  | '-' :: text => (natural text).map fun n : Nat => -(n : Int)
  | '+' :: text => (natural text).map fun n : Nat => (n : Int)
  | text => (natural text).map fun n : Nat => (n : Int)

def print (i : Int) : List Char :=
  if i < 0 then '-' :: Nat.toDigits 10 i.natAbs else Nat.toDigits 10 i.natAbs

theorem isDigit_of_mem_toDigits {n : Nat} {c : Char} (h : c ∈ Nat.toDigits 10 n) :
    c.isDigit = true :=
  Nat.isDigit_of_mem_toDigits (by decide) (by decide) h

theorem natural_toDigits (n : Nat) : natural (Nat.toDigits 10 n) = some n := by
  have hall : (Nat.toDigits 10 n).all Char.isDigit = true :=
    List.all_eq_true.mpr fun c hc => isDigit_of_mem_toDigits hc
  rw [natural, if_pos ⟨Nat.toDigits_ne_nil, hall⟩,
    Nat.ofDigitChars_toDigits (by decide) (by decide)]

/-- A text that starts with a digit has no sign. -/
theorem integer_of_isDigit {text : List Char} (h : ∀ c ∈ text, c.isDigit = true) :
    integer text = (natural text).map fun n : Nat => (n : Int) := by
  cases text with
  | nil => rfl
  | cons c text =>
    have hc := h c List.mem_cons_self
    have hminus : c ≠ '-' := fun heq => absurd (heq ▸ hc) (by decide)
    have hplus : c ≠ '+' := fun heq => absurd (heq ▸ hc) (by decide)
    rw [integer]
    · intro rest heq
      exact hminus (List.cons.inj heq).1
    · intro rest heq
      exact hplus (List.cons.inj heq).1

theorem integer_toDigits (n : Nat) : integer (Nat.toDigits 10 n) = some (n : Int) := by
  rw [integer_of_isDigit fun c hc => isDigit_of_mem_toDigits hc, natural_toDigits,
    Option.map_some]

/-- A printed number is made of digits and perhaps a minus sign. -/
theorem isNumeral_of_mem_print {i : Int} {c : Char} (h : c ∈ print i) :
    c.isDigit = true ∨ c = '-' := by
  unfold print at h
  split_ifs at h
  · rcases List.mem_cons.mp h with hc | hc
    · exact Or.inr hc
    · exact Or.inl (isDigit_of_mem_toDigits hc)
  · exact Or.inl (isDigit_of_mem_toDigits h)

theorem toDigits_injective {m n : Nat} (h : Nat.toDigits 10 m = Nat.toDigits 10 n) : m = n := by
  have hvalue : natural (Nat.toDigits 10 m) = natural (Nat.toDigits 10 n) := by rw [h]
  rw [natural_toDigits, natural_toDigits] at hvalue
  exact Option.some.inj hvalue

end Decimal
