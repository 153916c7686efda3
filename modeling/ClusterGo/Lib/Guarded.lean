import ClusterGo.Lib.BigEndian
import ClusterGo.Lib.Fallible

/-!
# Computations that can panic

A computation of a language with checked index and slice expressions ends
in one of three ways: it returns a value, it returns an error, or it
panics.  `Guarded ε α` is `Option (Except ε α)` with `none` for a panic, and
the expressions that can panic are functions into `Option`.

`Returns x e` says that `x` does not panic and ends in `e`.  The rules
follow the shape of the computation, so a proof of `Returns` walks through
the checked program beside the program that has no checks.
-/

namespace Guarded

variable {ε α β : Type}

/-! ## Index and slice expressions -/

/-- `b[i]`. -/
def index (b : List α) (i : Nat) : Option α := b[i]?

/-- `b[i]` for an index that may be negative. -/
def indexInt (b : List α) (i : Int) : Option α := if 0 ≤ i then index b i.toNat else none

theorem mem_of_indexInt {b : List α} {i : Int} {x : α} (h : indexInt b i = some x) : x ∈ b := by
  unfold indexInt at h
  split_ifs at h
  exact List.mem_of_getElem? h

theorem indexInt_natCast (b : List α) (i : Nat) : indexInt b i = index b i :=
  if_pos (Int.natCast_nonneg i)

/-- `b[n % len(b)]` for `n ≥ 0`. -/
theorem indexInt_tmod_natCast (b : List α) (n : Nat) :
    indexInt b ((n : Int).tmod b.length) = index b (n % b.length) :=
  indexInt_natCast b (n % b.length)

/-- The signed remainder by the length is an index of a list that is not
empty unless it is negative. -/
theorem indexInt_tmod_ne_none_iff {b : List α} (hb : b ≠ []) (n : Int) :
    indexInt b (n.tmod b.length) ≠ none ↔ 0 ≤ n ∨ (b.length : Int) ∣ n := by
  have hpos : 0 < b.length := List.length_pos_iff.mpr hb
  constructor
  · intro h
    by_contra hnot
    rw [not_or] at hnot
    -- the remainder of a negative number is not positive, and not zero here
    have hrem : n.tmod b.length ≠ 0 := fun h0 => hnot.2 (Int.dvd_of_tmod_eq_zero h0)
    have hneg : 0 ≤ (-n).tmod b.length := Int.tmod_nonneg _ (by omega)
    rw [Int.neg_tmod] at hneg
    exact h (if_neg (by omega))
  · intro h
    have hnonneg : 0 ≤ n.tmod b.length := by
      rcases h with h | h
      · exact Int.tmod_nonneg _ h
      · rw [Int.tmod_eq_zero_of_dvd h]
    have hlt : n.tmod b.length < b.length := Int.tmod_lt_of_pos n (by omega)
    rw [indexInt, if_pos hnonneg, index, ne_eq, List.getElem?_eq_none_iff]
    omega

/-- `b[lo:hi]`. -/
def slice (b : List α) (lo hi : Nat) : Option (List α) :=
  if lo ≤ hi ∧ hi ≤ b.length then some ((b.drop lo).take (hi - lo)) else none

theorem slice_of_le {b : List α} {lo hi : Nat} (hle : lo ≤ hi) (hlen : hi ≤ b.length) :
    slice b lo hi = some ((b.drop lo).take (hi - lo)) :=
  if_pos ⟨hle, hlen⟩

/-- `b[lo:]`. -/
theorem slice_to_end {b : List α} {lo : Nat} (h : lo ≤ b.length) :
    slice b lo b.length = some (b.drop lo) := by
  have hlen : (b.drop lo).length ≤ b.length - lo := Nat.le_of_eq List.length_drop
  rw [slice_of_le h (Nat.le_refl _), List.take_of_length_le hlen]

/-- `b[:hi]`. -/
theorem slice_from_start {b : List α} {hi : Nat} (h : hi ≤ b.length) :
    slice b 0 hi = some (b.take hi) := by
  rw [slice_of_le (Nat.zero_le _) h]
  rfl

/-- `b[lo:hi]` for bounds that may be negative. -/
def sliceInt (b : List α) (lo hi : Int) : Option (List α) :=
  if 0 ≤ lo ∧ lo ≤ hi then slice b lo.toNat hi.toNat else none

theorem sliceInt_of_le {b : List α} {lo hi : Nat} (hle : lo ≤ hi) (hlen : hi ≤ b.length) :
    sliceInt b lo hi = some ((b.drop lo).take (hi - lo)) := by
  rw [sliceInt, if_pos ⟨Int.natCast_nonneg lo, Int.ofNat_le.mpr hle⟩]
  exact slice_of_le hle hlen

/-- `copy(dst, src)`. -/
def copy (dst src : List α) : List α := src.take dst.length ++ dst.drop src.length

theorem copy_of_le {dst src : List α} (h : src.length ≤ dst.length) :
    copy dst src = src ++ dst.drop src.length := by
  rw [copy, List.take_of_length_le h]

/-! ## Words at the front of a slice -/

/-- A big-endian word is read from the first bytes of a slice. -/
def uint (n : Nat) (b : List UInt8) : Option Nat := (slice b 0 n).map BigEndian.decode

/-- A big-endian word is written over the bytes from `i` on. -/
def put (b : List UInt8) (i : Nat) (v : List UInt8) : Option (List UInt8) :=
  if i ≤ b.length ∧ v.length ≤ (b.drop i).length then some (BigEndian.patch b i v) else none

theorem uint_of_le {n : Nat} {b : List UInt8} (h : n ≤ b.length) :
    uint n b = some (BigEndian.decode (b.take n)) := by
  rw [uint, slice_from_start h]
  rfl

theorem put_of_le {b v : List UInt8} {i : Nat} (h : i + v.length ≤ b.length) :
    put b i v = some (BigEndian.patch b i v) := by
  refine if_pos ⟨by omega, ?_⟩
  rw [List.length_drop]
  omega

/-- A word that is written over the zeros that were appended for it. -/
theorem put_placeholder (bs zeros v : List UInt8) (h : v.length = zeros.length) :
    put (bs ++ zeros) bs.length v = some (bs ++ v) := by
  have hpatch := BigEndian.patch_append bs zeros v [] h.symm
  rw [List.append_nil, List.append_nil] at hpatch
  rw [put_of_le, hpatch]
  rw [List.length_append, h]

end Guarded

/-! ## Computations -/

/-- A computation that returns a value or an error, or panics. -/
abbrev Guarded (ε α : Type) := ExceptT ε Option α

namespace Guarded

variable {ε α β : Type}

/-- An expression that panics when it has no value. -/
def check (o : Option α) : Guarded ε α := ExceptT.lift o

/-- A call that does not panic. -/
def call (e : Except ε α) : Guarded ε α := ExceptT.mk (some e)

/-- The computation does not panic and ends in `e`. -/
def Returns (x : Guarded ε α) (e : Except ε α) : Prop := x.run = some e

theorem returns_pure (a : α) : Returns (pure a : Guarded ε α) (.ok a) := rfl

theorem returns_call (e : Except ε α) : Returns (call e) e := rfl

theorem returns_throw (e : ε) : Returns (throw e : Guarded ε α) (.error e) := rfl

/-- An expression that is in range. -/
theorem returns_check {o : Option α} {a : α} (h : o = some a) :
    Returns (check o : Guarded ε α) (.ok a) := by
  rw [h]
  rfl

/-- A sequence returns what its parts return one after the other. -/
theorem returns_bind {x : Guarded ε α} {e : Except ε α} {f : α → Guarded ε β}
    {g : α → Except ε β} (hx : Returns x e) (hf : ∀ a, e = .ok a → Returns (f a) (g a)) :
    Returns (x >>= f) (e >>= g) := by
  cases e with
  | error err =>
    rw [Returns, ExceptT.run_bind, hx]
    rfl
  | ok a =>
    rw [Returns, ExceptT.run_bind, hx]
    exact hf a rfl

/-- An expression that is in range, and the rest of the computation. -/
theorem returns_check_bind {o : Option α} {a : α} {f : α → Guarded ε β} {e : Except ε β}
    (h : o = some a) (hf : Returns (f a) e) : Returns (check o >>= f) e :=
  returns_bind (g := fun _ => e) (returns_check h) fun _ heq => Except.ok.inj heq ▸ hf

theorem check_some_bind (a : α) (f : α → Guarded ε β) : check (some a) >>= f = f a := rfl

theorem Returns.ite {p : Prop} [Decidable p] {x y : Guarded ε α} {e e' : Except ε α}
    (hx : p → Returns x e) (hy : ¬ p → Returns y e') :
    Returns (if p then x else y) (if p then e else e') := by
  by_cases hp : p
  · rw [if_pos hp, if_pos hp]
    exact hx hp
  · rw [if_neg hp, if_neg hp]
    exact hy hp

end Guarded
