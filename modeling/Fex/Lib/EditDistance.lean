import Mathlib.Data.List.Basic
import Mathlib.Tactic.Common

/-!
# The edit distance of two lists

`levenshtein` is the recursion on the first elements.  It is the cost of a cheapest
script of edits, and scripts can be read backwards: so the distances of prefixes obey
the same recursion on their last elements.
-/

namespace Fex.Lib

variable {α : Type*}

/-- A script of edits from one list to the other and its cost. -/
inductive Edit : Nat → List α → List α → Prop
  | nil : Edit 0 [] []
  | keep {n : Nat} {xs ys : List α} (x : α) : Edit n xs ys → Edit n (x :: xs) (x :: ys)
  | subst {n : Nat} {xs ys : List α} (x y : α) : Edit n xs ys → Edit (n + 1) (x :: xs) (y :: ys)
  | delete {n : Nat} {xs ys : List α} (x : α) : Edit n xs ys → Edit (n + 1) (x :: xs) ys
  | insert {n : Nat} {xs ys : List α} (y : α) : Edit n xs ys → Edit (n + 1) xs (y :: ys)

namespace Edit

theorem deleteAll (xs : List α) : Edit xs.length xs [] := by
  induction xs with
  | nil => exact .nil
  | cons x xs ih => exact .delete x ih

theorem insertAll (ys : List α) : Edit ys.length [] ys := by
  induction ys with
  | nil => exact .nil
  | cons y ys ih => exact .insert y ih

theorem symm {n : Nat} {xs ys : List α} (h : Edit n xs ys) : Edit n ys xs := by
  induction h with
  | nil => exact .nil
  | keep x _ ih => exact .keep x ih
  | subst x y _ ih => exact .subst y x ih
  | delete x _ ih => exact .insert x ih
  | insert y _ ih => exact .delete y ih

/-- Scripts run one after the other on adjacent parts. -/
theorem append {m n : Nat} {xs ys xs' ys' : List α} (h : Edit m xs ys) (h' : Edit n xs' ys') :
    Edit (m + n) (xs ++ xs') (ys ++ ys') := by
  induction h with
  | nil =>
      rw [Nat.zero_add]
      exact h'
  | keep x _ ih => exact .keep x ih
  | subst x y _ ih =>
      rw [Nat.add_right_comm]
      exact .subst x y ih
  | delete x _ ih =>
      rw [Nat.add_right_comm]
      exact .delete x ih
  | insert y _ ih =>
      rw [Nat.add_right_comm]
      exact .insert y ih

theorem reverse {n : Nat} {xs ys : List α} (h : Edit n xs ys) : Edit n xs.reverse ys.reverse := by
  induction h with
  | nil => exact .nil
  | keep x _ ih =>
      rw [List.reverse_cons, List.reverse_cons]
      exact ih.append (.keep x .nil)
  | subst x y _ ih =>
      rw [List.reverse_cons, List.reverse_cons]
      exact ih.append (.subst x y .nil)
  | delete x _ ih =>
      have happend := ih.append (.delete x .nil)
      rw [List.append_nil] at happend
      rw [List.reverse_cons]
      exact happend
  | insert y _ ih =>
      have happend := ih.append (.insert y .nil)
      rw [List.append_nil] at happend
      rw [List.reverse_cons]
      exact happend

end Edit

theorem take_succ_of_getElem? {xs : List α} {i : Nat} {x : α} (h : xs[i]? = some x) :
    xs.take (i + 1) = xs.take i ++ [x] := by
  rw [List.take_add_one, h]
  rfl

variable [DecidableEq α]

/-- The cost of replacing `x` by `y`. -/
def substCost (x y : α) : Nat := if x = y then 0 else 1

def levenshtein : List α → List α → Nat
  | [], ys => ys.length
  | x :: xs, [] => (x :: xs).length
  | x :: xs, y :: ys =>
      min (min (levenshtein xs (y :: ys) + 1) (levenshtein (x :: xs) ys + 1))
        (levenshtein xs ys + substCost x y)
termination_by xs ys => xs.length + ys.length

theorem levenshtein_nil_left (ys : List α) : levenshtein [] ys = ys.length := by
  rw [levenshtein]

theorem levenshtein_nil_right (xs : List α) : levenshtein xs [] = xs.length := by
  cases xs <;> rw [levenshtein]

theorem levenshtein_cons_cons (x y : α) (xs ys : List α) :
    levenshtein (x :: xs) (y :: ys) =
      min (min (levenshtein xs (y :: ys) + 1) (levenshtein (x :: xs) ys + 1))
        (levenshtein xs ys + substCost x y) := by
  rw [levenshtein]

/-- There is a script of this cost. -/
theorem edit_levenshtein (xs ys : List α) : Edit (levenshtein xs ys) xs ys := by
  fun_induction levenshtein xs ys with
  | case1 ys => exact .insertAll ys
  | case2 x xs => exact .deleteAll (x :: xs)
  | case3 x xs y ys ihDelete ihInsert ihSubst =>
      have hsubst : Edit (levenshtein xs ys + substCost x y) (x :: xs) (y :: ys) := by
        unfold substCost
        split
        next heq =>
          rw [heq]
          exact .keep y ihSubst
        next => exact .subst x y ihSubst
      rcases Nat.le_total (min (levenshtein xs (y :: ys) + 1) (levenshtein (x :: xs) ys + 1))
        (levenshtein xs ys + substCost x y) with hle | hle
      · rw [Nat.min_eq_left hle]
        rcases Nat.le_total (levenshtein xs (y :: ys) + 1) (levenshtein (x :: xs) ys + 1) with
          hle' | hle'
        · rw [Nat.min_eq_left hle']
          exact .delete x ihDelete
        · rw [Nat.min_eq_right hle']
          exact .insert y ihInsert
      · rw [Nat.min_eq_right hle]
        exact hsubst

/-- No script is cheaper. -/
theorem levenshtein_le {n : Nat} {xs ys : List α} (h : Edit n xs ys) : levenshtein xs ys ≤ n := by
  induction h with
  | nil => exact Nat.le_of_eq (levenshtein_nil_left [])
  | keep x _ ih =>
      rw [levenshtein_cons_cons, substCost, if_pos rfl]
      exact Nat.le_trans (Nat.min_le_right _ _) ih
  | @subst n xs ys x y _ ih =>
      have hcost : substCost x y ≤ 1 := by
        unfold substCost
        split <;> omega
      rw [levenshtein_cons_cons]
      omega
  | @delete n xs ys x h ih =>
      cases ys with
      | nil =>
          rw [levenshtein_nil_right] at ih ⊢
          exact Nat.succ_le_succ ih
      | cons y ys =>
          rw [levenshtein_cons_cons]
          omega
  | @insert n xs ys y h ih =>
      cases xs with
      | nil =>
          rw [levenshtein_nil_left] at ih ⊢
          exact Nat.succ_le_succ ih
      | cons x xs =>
          rw [levenshtein_cons_cons]
          omega

theorem levenshtein_comm (xs ys : List α) : levenshtein xs ys = levenshtein ys xs :=
  Nat.le_antisymm (levenshtein_le (edit_levenshtein ys xs).symm)
    (levenshtein_le (edit_levenshtein xs ys).symm)

theorem levenshtein_reverse (xs ys : List α) :
    levenshtein xs.reverse ys.reverse = levenshtein xs ys := by
  apply Nat.le_antisymm
  · exact levenshtein_le (edit_levenshtein xs ys).reverse
  · have h := (edit_levenshtein xs.reverse ys.reverse).reverse
    rw [List.reverse_reverse, List.reverse_reverse] at h
    exact levenshtein_le h

/-- The recursion on the last elements. -/
theorem levenshtein_concat (x y : α) (xs ys : List α) :
    levenshtein (xs ++ [x]) (ys ++ [y]) =
      min (min (levenshtein xs (ys ++ [y]) + 1) (levenshtein (xs ++ [x]) ys + 1))
        (levenshtein xs ys + substCost x y) := by
  have hreverse : ∀ (z : α) (zs : List α), (zs ++ [z]).reverse = z :: zs.reverse := by
    intro z zs
    rw [List.reverse_append, List.reverse_singleton, List.singleton_append]
  rw [← levenshtein_reverse (xs ++ [x]), ← levenshtein_reverse xs (ys ++ [y]),
    ← levenshtein_reverse (xs ++ [x]) ys, ← levenshtein_reverse xs ys, hreverse, hreverse,
    levenshtein_cons_cons]

/-! ## Prefixes -/

/-- The distances of prefixes, row by row. -/
theorem levenshtein_take_succ {xs ys : List α} {i j : Nat} {x y : α} (hx : xs[i]? = some x)
    (hy : ys[j]? = some y) :
    levenshtein (xs.take (i + 1)) (ys.take (j + 1)) =
      min (min (levenshtein (xs.take i) (ys.take (j + 1)) + 1)
          (levenshtein (xs.take (i + 1)) (ys.take j) + 1))
        (levenshtein (xs.take i) (ys.take j) + substCost x y) := by
  rw [take_succ_of_getElem? hx, take_succ_of_getElem? hy, levenshtein_concat]

theorem levenshtein_take_zero_left {xs ys : List α} {j : Nat} (hj : j ≤ ys.length) :
    levenshtein (xs.take 0) (ys.take j) = j := by
  rw [List.take_zero, levenshtein_nil_left, List.length_take, Nat.min_eq_left hj]

theorem levenshtein_take_zero_right {xs ys : List α} {i : Nat} (hi : i ≤ xs.length) :
    levenshtein (xs.take i) (ys.take 0) = i := by
  rw [List.take_zero, levenshtein_nil_right, List.length_take, Nat.min_eq_left hi]

end Fex.Lib
