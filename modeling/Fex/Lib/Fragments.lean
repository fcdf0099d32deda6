import Fex.Lib.Buffer
import Mathlib.Data.Nat.Bitwise

/-!
# Fragments in a buffer

Bytes are cut into fragments of one size, which are stored at their places in any order.  A mask
keeps the numbers of the fragments that are there.
-/

namespace Fex.Lib

/-- The `n`-th fragment. -/
def fragment (size : Nat) (data : List UInt8) (n : Nat) : List UInt8 :=
  (data.drop (n * size)).take size

/-- How many fragments there are. -/
def numFragments (size : Nat) (data : List UInt8) : Nat := (data.length + size - 1) / size

variable {size : Nat} {data : List UInt8} {b : Buffer} {mask n : Nat}

theorem length_fragment (size : Nat) (data : List UInt8) (n : Nat) :
    (fragment size data n).length = min size (data.length - n * size) := by
  rw [fragment, List.length_take, List.length_drop]

theorem length_fragment_le (size : Nat) (data : List UInt8) (n : Nat) :
    (fragment size data n).length ≤ size := List.length_take_le _ _

theorem length_le_numFragments (hsize : 0 < size) :
    data.length ≤ numFragments size data * size := by
  have hmod := Nat.div_add_mod (data.length + size - 1) size
  have hlt := Nat.mod_lt (data.length + size - 1) hsize
  rw [numFragments, Nat.mul_comm]
  omega

/-- The last fragment ends the bytes. -/
theorem last_fragment (hsize : 0 < size) (hdata : data ≠ []) :
    (numFragments size data - 1) * size + (fragment size data (numFragments size data - 1)).length =
      data.length := by
  have hpos := List.length_pos_iff.mpr hdata
  have hmod := Nat.div_add_mod (data.length + size - 1) size
  have hlt := Nat.mod_lt (data.length + size - 1) hsize
  have hle : data.length ≤ numFragments size data * size := length_le_numFragments hsize
  have hnum : 1 ≤ numFragments size data := Nat.div_pos (by omega) hsize
  have hprev : (numFragments size data - 1) * size + size = numFragments size data * size := by
    rw [← Nat.succ_mul, Nat.succ_eq_add_one, Nat.sub_add_cancel hnum]
  have hnumle : numFragments size data * size ≤ data.length + size - 1 := by
    rw [numFragments, Nat.mul_comm]
    omega
  rw [length_fragment]
  omega

/-- The fragments in the mask are at their places. -/
def Filled (size : Nat) (data : List UInt8) (b : Buffer) (mask : Nat) : Prop :=
  ∀ n, mask.testBit n = true →
    b.slice (n * size) (fragment size data n).length = fragment size data n

theorem filled_zero (size : Nat) (data : List UInt8) (b : Buffer) : Filled size data b 0 := by
  intro n hn
  rw [Nat.zero_testBit] at hn
  cases hn

theorem testBit_or_shift (mask m n : Nat) :
    (mask ||| 1 <<< m).testBit n = true ↔ mask.testBit n = true ∨ n = m := by
  rw [Nat.testBit_or, Bool.or_eq_true, Nat.one_shiftLeft, Nat.testBit_two_pow,
    decide_eq_true_eq, eq_comm (a := m)]

/-- Storing a fragment leaves the others where they are. -/
theorem Filled.copy (h : Filled size data b mask) (m : Nat) :
    Filled size data (b.copy (m * size) (fragment size data m)) (mask ||| 1 <<< m) := by
  intro n hn
  rcases Nat.lt_trichotomy n m with hlt | rfl | hgt
  · have hbit := (testBit_or_shift mask m n).mp hn
    have hle := length_fragment_le size data n
    have hmul : n * size + size ≤ m * size := by
      rw [← Nat.succ_mul]
      exact Nat.mul_le_mul_right size hlt
    rw [Buffer.slice_copy_before b _ (by omega), h n (hbit.resolve_right (Nat.ne_of_lt hlt))]
  · exact Buffer.slice_copy b _ _
  · have hbit := (testBit_or_shift mask m n).mp hn
    have hle := length_fragment_le size data m
    have hmul : m * size + size ≤ n * size := by
      rw [← Nat.succ_mul]
      exact Nat.mul_le_mul_right size hgt
    rw [Buffer.slice_copy_after b _ (by omega), h n (hbit.resolve_right (Nat.ne_of_gt hgt))]

theorem slice_fragments (hfilled : Filled size data b mask) (k : Nat)
    (h : ∀ n < k, mask.testBit n = true) : b.slice 0 (min (k * size) data.length) =
      data.take (min (k * size) data.length) := by
  induction k with
  | zero => simp
  | succ k ih =>
      have hfragment := hfilled k (h k (Nat.lt_succ_self k))
      have hlength := length_fragment size data k
      have hih := ih fun n hn => h n (Nat.lt_succ_of_lt hn)
      have hsplit : min ((k + 1) * size) data.length =
          min (k * size) data.length + (fragment size data k).length := by
        rw [hlength, Nat.succ_mul]
        omega
      rw [hsplit, Buffer.slice_add, Nat.zero_add, hih, List.take_add]
      congr 1
      by_cases hle : k * size ≤ data.length
      · rw [Nat.min_eq_left hle, hfragment]
        exact List.prefix_iff_eq_take.mp (List.take_prefix size (data.drop (k * size)))
      · have hnil : (fragment size data k).length = 0 := by
          rw [hlength]
          omega
        rw [hnil]
        rfl

/-- All fragments are all bytes. -/
theorem Filled.all (hfilled : Filled size data b mask) (hsize : 0 < size)
    (h : ∀ n < numFragments size data, mask.testBit n = true) : b.slice 0 data.length = data := by
  have hslice := slice_fragments hfilled _ h
  rwa [Nat.min_eq_right (length_le_numFragments hsize), List.take_length] at hslice

end Fex.Lib
