import Mathlib.Algebra.Group.Basic
import Mathlib.Tactic.Ring

/-!
# Big-endian words in byte lists

`encode width n` is the `width` big-endian bytes of `n` and `decode` reads
a byte list back.  A word wider than its field loses its upper part:
`decode_encode` says that exactly the remainder modulo `256 ^ width`
survives.

`patch` overwrites the bytes at an offset.  Length-prefixed formats write
a placeholder first, append a body whose size is not known yet, and patch
the size in afterwards; `patch_append` is that last step.
-/

namespace BigEndian

/-- The `width` low bytes of `n`, most significant first. -/
def encode : Nat → Nat → List UInt8
  | 0, _ => []
  | width + 1, n => UInt8.ofNat (n / 256 ^ width) :: encode width n

/-- The number that a byte list spells, most significant byte first. -/
def decode : List UInt8 → Nat
  | [] => 0
  | b :: bs => b.toNat * 256 ^ bs.length + decode bs

@[simp] theorem encode_length (width n : Nat) :
    (encode width n).length = width := by
  induction width with
  | zero => rfl
  | succ width ih => simp [encode, ih]

/-- Reading the field back gives the part of `n` that the field holds. -/
theorem decode_encode (width n : Nat) :
    decode (encode width n) = n % 256 ^ width := by
  induction width with
  | zero => simp [encode, decode, Nat.mod_one]
  | succ width ih =>
    have hbyte : (UInt8.ofNat (n / 256 ^ width)).toNat = n / 256 ^ width % 256 := by
      simp
    rw [encode, decode, encode_length, hbyte, ih, Nat.mod_pow_succ, Nat.mul_comm,
      Nat.add_comm]

/-- A word that fits its field survives the round trip. -/
theorem decode_encode_of_lt {width n : Nat} (h : n < 256 ^ width) :
    decode (encode width n) = n := by
  rw [decode_encode, Nat.mod_eq_of_lt h]

theorem decode_lt (bs : List UInt8) : decode bs < 256 ^ bs.length := by
  induction bs with
  | nil => exact Nat.one_pos
  | cons b bs ih =>
    have hb : (b.toNat + 1) * 256 ^ bs.length ≤ 256 * 256 ^ bs.length :=
      Nat.mul_le_mul_right _ (UInt8.toNat_lt b)
    rw [decode, List.length_cons, Nat.pow_succ, Nat.mul_comm _ 256]
    rw [Nat.add_mul, Nat.one_mul] at hb
    omega

/-- The bytes of a field do not depend on what lies above it. -/
theorem encode_mod {width k : Nat} (hle : width ≤ k) (n : Nat) :
    encode width (n % 256 ^ k) = encode width n := by
  induction width with
  | zero => rfl
  | succ width ih =>
    have hsplit : 256 ^ k = 256 ^ (k - width) * 256 ^ width := by
      rw [← Nat.pow_add, Nat.sub_add_cancel (by omega)]
    have hdvd : 256 ∣ 256 ^ (k - width) := dvd_pow_self 256 (by omega)
    have hdigit : UInt8.ofNat (n % 256 ^ k / 256 ^ width) = UInt8.ofNat (n / 256 ^ width) := by
      apply UInt8.toNat.inj
      rw [UInt8.toNat_ofNat', UInt8.toNat_ofNat', hsplit, Nat.mod_mul_left_div_self,
        Nat.mod_mod_of_dvd _ hdvd]
    rw [encode, encode, hdigit, ih (by omega)]

/-- Writing what a field spells gives the field back. -/
theorem encode_decode (bs : List UInt8) : encode bs.length (decode bs) = bs := by
  induction bs with
  | nil => rfl
  | cons b bs ih =>
    have hlt := decode_lt bs
    have hpos : 0 < 256 ^ bs.length := Nat.lt_of_le_of_lt (Nat.zero_le _) hlt
    have hfirst : (b.toNat * 256 ^ bs.length + decode bs) / 256 ^ bs.length = b.toNat := by
      rw [Nat.mul_comm, Nat.mul_add_div hpos, Nat.div_eq_of_lt hlt, Nat.add_zero]
    have hrest : (b.toNat * 256 ^ bs.length + decode bs) % 256 ^ bs.length = decode bs := by
      rw [Nat.mul_comm, Nat.mul_add_mod, Nat.mod_eq_of_lt hlt]
    rw [List.length_cons, decode, encode, hfirst, UInt8.ofNat_toNat,
      ← encode_mod (Nat.le_refl bs.length), hrest, ih]

/-! ## A field in front of a list -/

theorem decode_take_append {width n : Nat} (h : n < 256 ^ width) (rest : List UInt8) :
    decode ((encode width n ++ rest).take width) = n := by
  rw [List.take_left' (encode_length width n), decode_encode_of_lt h]

theorem encode_append_drop (width n : Nat) (rest : List UInt8) :
    (encode width n ++ rest).drop width = rest :=
  List.drop_left' (encode_length width n)

/-- A list that is long enough is a field and the rest. -/
theorem eq_encode_append {width : Nat} {bs : List UInt8} (h : width ≤ bs.length) :
    bs = encode width (decode (bs.take width)) ++ bs.drop width ∧
      decode (bs.take width) < 256 ^ width := by
  have hlen : (bs.take width).length = width := by
    rw [List.length_take, Nat.min_eq_left h]
  have henc := encode_decode (bs.take width)
  have hlt := decode_lt (bs.take width)
  rw [hlen] at henc hlt
  rw [henc, List.take_append_drop]
  exact ⟨rfl, hlt⟩

/-! ## Patching a field -/

/-- Overwrite the bytes of `bs` from offset `off` on with `field`. -/
def patch (bs : List UInt8) (off : Nat) (field : List UInt8) : List UInt8 :=
  bs.take off ++ field ++ bs.drop (off + field.length)

/-- A patch of a placeholder replaces the placeholder and nothing else. -/
theorem patch_append (pre old field rest : List UInt8)
    (hlen : old.length = field.length) :
    patch (pre ++ old ++ rest) pre.length field = pre ++ field ++ rest := by
  have htake : (pre ++ old ++ rest).take pre.length = pre := by
    rw [List.append_assoc, List.take_left]
  have hdrop : (pre ++ old ++ rest).drop (pre.length + field.length) = rest := by
    rw [← hlen, ← List.length_append, List.drop_left]
  rw [patch, htake, hdrop]

end BigEndian
