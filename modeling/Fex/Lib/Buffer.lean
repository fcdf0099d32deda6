import Mathlib.Data.List.Basic
import Mathlib.Tactic.Common

/-!
# Byte buffers

A buffer is a byte array whose bounds are checked by the code that uses it.
`copy` stores a run of bytes and `slice` reads one back; a copy shows in the
slices it covers and in no slice disjoint from it.
-/

namespace Fex.Lib

def Buffer : Type := Nat → UInt8

namespace Buffer

/-- The buffer after `mem_zero`. -/
def zero : Buffer := fun _ => 0

/-- Store `src` from `a` on. -/
def copy (b : Buffer) (a : Nat) (src : List UInt8) : Buffer :=
  fun i => if i < a then b i else (src[i - a]?).getD (b i)

/-- The `n` bytes from `a` on. -/
def slice (b : Buffer) (a n : Nat) : List UInt8 := (List.range n).map fun i => b (a + i)

@[simp] theorem length_slice (b : Buffer) (a n : Nat) : (b.slice a n).length = n := by
  simp [slice]

@[simp] theorem slice_zero (b : Buffer) (a : Nat) : b.slice a 0 = [] := rfl

theorem slice_add (b : Buffer) (a m n : Nat) :
    b.slice a (m + n) = b.slice a m ++ b.slice (a + m) n := by
  simp [slice, List.range_add, Nat.add_assoc, Function.comp_def]

theorem slice_succ (b : Buffer) (a n : Nat) :
    b.slice a (n + 1) = b a :: b.slice (a + 1) n := by
  rw [Nat.add_comm n 1, slice_add]
  rfl

/-- Slices that agree byte by byte are equal. -/
theorem slice_congr {b c : Buffer} {a n : Nat} (h : ∀ i, a ≤ i → i < a + n → c i = b i) :
    c.slice a n = b.slice a n := by
  apply List.map_congr_left
  intro i hi
  exact h (a + i) (by omega) (by have := List.mem_range.mp hi; omega)

theorem copy_of_lt (b : Buffer) {a i : Nat} (src : List UInt8) (h : i < a) :
    b.copy a src i = b i := if_pos h

theorem copy_of_ge (b : Buffer) {a i : Nat} (src : List UInt8) (h : a + src.length ≤ i) :
    b.copy a src i = b i := by
  unfold copy
  rw [if_neg (by omega), List.getElem?_eq_none (by omega)]
  rfl

theorem copy_add (b : Buffer) (a i : Nat) (src : List UInt8) (h : i < src.length) :
    b.copy a src (a + i) = src[i] := by
  unfold copy
  rw [if_neg (by omega), Nat.add_sub_cancel_left, List.getElem?_eq_getElem h]
  rfl

@[simp] theorem slice_copy (b : Buffer) (a : Nat) (src : List UInt8) :
    (b.copy a src).slice a src.length = src := by
  apply List.ext_getElem (by simp)
  intro i h₁ h₂
  simp [slice, copy_add b a i src h₂]

theorem slice_copy_before (b : Buffer) {a c n : Nat} (src : List UInt8) (h : c + n ≤ a) :
    (b.copy a src).slice c n = b.slice c n :=
  slice_congr fun _ _ hi => copy_of_lt b src (by omega)

theorem slice_copy_after (b : Buffer) {a c n : Nat} (src : List UInt8)
    (h : a + src.length ≤ c) : (b.copy a src).slice c n = b.slice c n :=
  slice_congr fun _ hi _ => copy_of_ge b src (by omega)

/-- Appending to the bytes in use. -/
theorem slice_copy_append (b : Buffer) (a : Nat) (src : List UInt8) :
    (b.copy a src).slice 0 (a + src.length) = b.slice 0 a ++ src := by
  rw [slice_add, slice_copy_before b src (by omega), Nat.zero_add, slice_copy]

/-- A slice of a slice. -/
theorem slice_eq_drop_take (b : Buffer) {a n c m : Nat} (h : c + m ≤ n) :
    b.slice (a + c) m = ((b.slice a n).drop c).take m := by
  obtain ⟨k, rfl⟩ : ∃ k, n = c + (m + k) := ⟨n - c - m, by omega⟩
  rw [slice_add b a c, slice_add b (a + c) m, List.drop_left' (by simp),
    List.take_left' (by simp)]

end Buffer

end Fex.Lib
