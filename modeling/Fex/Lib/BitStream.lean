import Mathlib.Data.Nat.Bitwise
import Mathlib.Tactic.Common
import Mathlib.Tactic.Ring

/-!
# Bit streams in a register

Least significant bit first.  A register that holds the bits `bs` has the value
`value bs`; shifting reads bits off its low end and a shifted `or` appends at
its high end.  Bytes are groups of eight bits.
-/

namespace Fex.Lib.BitStream

/-- The number whose binary digits are `bs`, lowest first. -/
def value : List Bool → Nat
  | [] => 0
  | b :: bs => b.toNat + 2 * value bs

/-- The `k` lowest digits of `n`. -/
def digits : Nat → Nat → List Bool
  | 0, _ => []
  | k + 1, n => n.testBit 0 :: digits k (n / 2)

@[simp] theorem value_nil : value [] = 0 := rfl

theorem value_cons (b : Bool) (bs : List Bool) : value (b :: bs) = b.toNat + 2 * value bs := rfl

theorem digits_succ (k n : Nat) : digits (k + 1) n = n.testBit 0 :: digits k (n / 2) := rfl

theorem value_lt (bs : List Bool) : value bs < 2 ^ bs.length := by
  induction bs with
  | nil => simp
  | cons b bs ih =>
      rw [List.length_cons, Nat.pow_succ]
      cases b <;> simp only [value_cons, Bool.toNat_false, Bool.toNat_true] <;> omega

theorem value_append (xs ys : List Bool) :
    value (xs ++ ys) = value xs + 2 ^ xs.length * value ys := by
  induction xs with
  | nil => simp
  | cons x xs ih =>
      simp only [List.cons_append, value_cons, ih, List.length_cons, Nat.pow_succ]
      ring

/-- Appending at the high end of the register. -/
theorem value_or_shift (xs ys : List Bool) :
    value xs ||| value ys <<< xs.length = value (xs ++ ys) := by
  rw [value_append, Nat.or_comm, Nat.shiftLeft_eq, Nat.mul_comm (value ys),
    ← Nat.two_pow_add_eq_or_of_lt (value_lt xs) (value ys), Nat.add_comm]

theorem value_append_mod (xs ys : List Bool) : value (xs ++ ys) % 2 ^ xs.length = value xs := by
  rw [value_append, Nat.add_mul_mod_self_left, Nat.mod_eq_of_lt (value_lt xs)]

/-- Reading the low end of the register. -/
theorem value_append_shift (xs ys : List Bool) : value (xs ++ ys) >>> xs.length = value ys := by
  rw [value_append, Nat.shiftRight_eq_div_pow, Nat.add_mul_div_left _ _ (Nat.two_pow_pos _),
    Nat.div_eq_of_lt (value_lt xs), Nat.zero_add]

theorem value_cons_shift (b : Bool) (bs : List Bool) : value (b :: bs) >>> 1 = value bs :=
  value_append_shift [b] bs

theorem value_replicate_false (k : Nat) : value (List.replicate k false) = 0 := by
  induction k with
  | zero => rfl
  | succ k ih => simp [List.replicate_succ, value_cons, ih]

/-- Zeros beyond the high end do not show. -/
theorem value_append_zeros (xs : List Bool) (k : Nat) :
    value (xs ++ List.replicate k false) = value xs := by
  rw [value_append, value_replicate_false, Nat.mul_zero, Nat.add_zero]

@[simp] theorem length_digits (k n : Nat) : (digits k n).length = k := by
  induction k generalizing n with
  | zero => rfl
  | succ k ih => simp [digits_succ, ih]

theorem value_digits {k n : Nat} (h : n < 2 ^ k) : value (digits k n) = n := by
  induction k generalizing n with
  | zero =>
      rw [Nat.pow_zero] at h
      rw [digits, value_nil]
      omega
  | succ k ih =>
      have hhalf : n / 2 < 2 ^ k := by
        rw [Nat.pow_succ] at h
        omega
      rw [digits_succ, value_cons, ih hhalf, Nat.toNat_testBit]
      omega

theorem digits_value (bs : List Bool) : digits bs.length (value bs) = bs := by
  induction bs with
  | nil => rfl
  | cons b bs ih =>
      have hhalf : value (b :: bs) / 2 = value bs := by
        cases b <;> simp only [value_cons, Bool.toNat_false, Bool.toNat_true] <;> omega
      have hlow : (value (b :: bs)).testBit 0 = b := by
        cases b <;> simp [value_cons]
      rw [List.length_cons, digits_succ, hhalf, hlow, ih]

/-- The bits of one byte. -/
def byteBits (b : UInt8) : List Bool := digits 8 b.toNat

/-- The bits of a byte string. -/
def bits (bytes : List UInt8) : List Bool := bytes.flatMap byteBits

@[simp] theorem length_byteBits (b : UInt8) : (byteBits b).length = 8 := length_digits 8 _

@[simp] theorem value_byteBits (b : UInt8) : value (byteBits b) = b.toNat :=
  value_digits b.toNat_lt

/-- The byte of eight bits. -/
theorem byteBits_ofNat {bs : List Bool} (h : bs.length = 8) :
    byteBits (UInt8.ofNat (value bs)) = bs := by
  have hlt : value bs < 256 := by
    have := value_lt bs
    rwa [h] at this
  unfold byteBits
  rw [UInt8.toNat_ofNat_of_lt' hlt, ← h]
  exact digits_value bs

@[simp] theorem bits_nil : bits [] = [] := rfl

@[simp] theorem bits_cons (b : UInt8) (bytes : List UInt8) :
    bits (b :: bytes) = byteBits b ++ bits bytes := rfl

@[simp] theorem length_bits (bytes : List UInt8) : (bits bytes).length = 8 * bytes.length := by
  induction bytes with
  | nil => rfl
  | cons b bytes ih =>
      rw [bits_cons, List.length_append, length_byteBits, ih, List.length_cons]
      omega

@[simp] theorem bits_append (xs ys : List UInt8) : bits (xs ++ ys) = bits xs ++ bits ys :=
  List.flatMap_append

end Fex.Lib.BitStream
