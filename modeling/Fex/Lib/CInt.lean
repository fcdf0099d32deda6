import Mathlib.Algebra.GroupWithZero.Nat
import Mathlib.Algebra.Ring.Int.Defs
import Mathlib.Data.Int.Basic
import Mathlib.Tactic.Common

/-!
# C integers and undefined behaviour

Machine integers are `Int` and `Nat` with the wrap written out.  A computation
that may leave the defined part of the language returns in `Exec`: the `Fault`
says what went wrong.
-/

namespace Fex.Lib

/-- Ways a run leaves the behaviour the language defines. -/
inductive Fault
  /-- Signed arithmetic left the range of its type. -/
  | overflow
  /-- An access outside the object it addresses. -/
  | outOfBounds
  /-- A null pointer was dereferenced. -/
  | nullDeref
  /-- An integer was divided by zero. -/
  | divByZero
  /-- A failed assertion. -/
  | assertion
  /-- A loop did not stop within its bound. -/
  | diverges
  deriving DecidableEq, Repr

/-- Computations that may fault. -/
abbrev Exec := Except Fault

/-- Largest 32-bit `int`. -/
def intMax : Int := 2147483647

/-- Conversion to a 32-bit `int`, two's complement. -/
def wrap32 (x : Int) : Int := (x + 2147483648) % 4294967296 - 2147483648

/-- Values a 32-bit `int` holds. -/
def IsInt32 (x : Int) : Prop := -2147483648 ≤ x ∧ x ≤ 2147483647

instance (x : Int) : Decidable (IsInt32 x) := inferInstanceAs (Decidable (_ ∧ _))

theorem isInt32_wrap32 (x : Int) : IsInt32 (wrap32 x) := by
  unfold IsInt32 wrap32
  omega

theorem wrap32_of_isInt32 {x : Int} (h : IsInt32 x) : wrap32 x = x := by
  unfold IsInt32 at h
  unfold wrap32
  omega

/-- Adding back a wrapped difference recovers the minuend. -/
theorem wrap32_add_sub {x y : Int} (h : IsInt32 y) : wrap32 (x + wrap32 (y - x)) = y := by
  unfold IsInt32 at h
  unfold wrap32
  omega

theorem wrap32_sub_eq_zero {x y : Int} (hx : IsInt32 x) (hy : IsInt32 y) :
    wrap32 (y - x) = 0 ↔ y = x := by
  unfold IsInt32 at hx hy
  unfold wrap32
  omega

end Fex.Lib
