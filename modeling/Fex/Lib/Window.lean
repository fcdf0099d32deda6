import Mathlib.Data.List.Forall2
import Mathlib.Data.Nat.Init
import Mathlib.Tactic.Common

/-!
# Sequence numbers in a window

Items are numbered without bound, and the wire carries the numbers modulo `N`
on top of a start value.  Numbers close to each other are told apart by what is
on the wire, and so is the side of a window border they are on.
-/

namespace Fex.Lib

/-- The number `n` as the wire carries it. -/
def wireSeq (N start n : Nat) : Nat := (start + n) % N

/-- The circle from `lo` up to `hi`. -/
def InCircle (lo hi x : Nat) : Prop := if lo ≤ hi then lo ≤ x ∧ x ≤ hi else lo ≤ x ∨ x ≤ hi

variable {N : Nat}

theorem wireSeq_lt (hN : 0 < N) (start n : Nat) : wireSeq N start n < N := Nat.mod_lt _ hN

theorem wireSeq_succ (start n : Nat) :
    (wireSeq N start n + 1) % N = wireSeq N start (n + 1) := by
  unfold wireSeq
  rw [Nat.mod_add_mod, Nat.add_assoc]

/-- Going on by less than `N` wraps at most once. -/
theorem wireSeq_add (hN : 0 < N) (start n : Nat) {d : Nat} (hd : d < N) :
    wireSeq N start (n + d) = wireSeq N start n + d ∨
      wireSeq N start (n + d) + N = wireSeq N start n + d := by
  have hlt := wireSeq_lt hN start n
  have hsplit : wireSeq N start (n + d) = (wireSeq N start n + d) % N := by
    unfold wireSeq
    rw [Nat.mod_add_mod, Nat.add_assoc]
  rw [hsplit]
  by_cases h : wireSeq N start n + d < N
  · exact .inl (Nat.mod_eq_of_lt h)
  · right
    rw [Nat.mod_eq_sub_mod (by omega), Nat.mod_eq_of_lt (by omega)]
    omega

/-- Numbers less than `N` apart differ on the wire. -/
theorem wireSeq_inj (hN : 0 < N) {start m n : Nat} (h₁ : m < n + N) (h₂ : n < m + N) :
    wireSeq N start m = wireSeq N start n ↔ m = n := by
  constructor
  · intro h
    rcases Nat.le_total m n with hle | hle
    · obtain ⟨d, rfl⟩ := Nat.exists_eq_add_of_le hle
      have := wireSeq_add hN start m (show d < N by omega)
      omega
    · obtain ⟨d, rfl⟩ := Nat.exists_eq_add_of_le hle
      have := wireSeq_add hN start n (show d < N by omega)
      omega
  · rintro rfl
    rfl

/-- A number at most `hi` is on the circle from `lo` to `hi` exactly when it is at least `lo`, as
long as it is less than `N` behind `hi`. -/
theorem inCircle_wireSeq (hN : 0 < N) {start lo hi n : Nat} (hle : lo ≤ hi) (hwin : hi < lo + N)
    (hn : n ≤ hi) (hlate : hi < n + N) :
    InCircle (wireSeq N start lo) (wireSeq N start hi) (wireSeq N start n) ↔ lo ≤ n := by
  obtain ⟨d, rfl⟩ := Nat.exists_eq_add_of_le hle
  have hd := wireSeq_add hN start lo (show d < N by omega)
  have hlo := wireSeq_lt hN start lo
  have hhi := wireSeq_lt hN start (lo + d)
  have hx := wireSeq_lt hN start n
  unfold InCircle
  rcases Nat.le_total lo n with hln | hln
  · obtain ⟨e, rfl⟩ := Nat.exists_eq_add_of_le hln
    have he := wireSeq_add hN start lo (show e < N by omega)
    split <;> omega
  · obtain ⟨e, rfl⟩ := Nat.exists_eq_add_of_le hln
    have he := wireSeq_add hN start n (show e < N by omega)
    have hed := wireSeq_add hN start n (show e + d < N by omega)
    rw [← Nat.add_assoc] at hed
    split <;> omega

end Fex.Lib

/-!
## Two lists side by side

Facts about lists of equal length whose elements are related pairwise.
-/

namespace Fex.Lib

variable {α β : Type*} {R : α → β → Prop} {xs : List α} {ys : List β}

theorem forall₂_left (h : List.Forall₂ R xs ys) {x : α} (hx : x ∈ xs) : ∃ y ∈ ys, R x y := by
  induction h with
  | nil => simp at hx
  | cons hab _ ih =>
      rcases List.mem_cons.mp hx with rfl | hx
      · exact ⟨_, by simp, hab⟩
      · obtain ⟨y, hy, hr⟩ := ih hx
        exact ⟨y, by simp [hy], hr⟩

theorem forall₂_right (h : List.Forall₂ R xs ys) {y : β} (hy : y ∈ ys) : ∃ x ∈ xs, R x y := by
  obtain ⟨x, hx, hr⟩ := forall₂_left (R := flip R) (List.Forall₂.flip h) hy
  exact ⟨x, hx, hr⟩

theorem forall₂_getElem? (h : List.Forall₂ R xs ys) {i : Nat} {x : α} (hx : xs[i]? = some x) :
    ∃ y, ys[i]? = some y ∧ R x y := by
  induction h generalizing i with
  | nil => simp at hx
  | cons hab _ ih =>
      cases i with
      | zero => exact ⟨_, rfl, Option.some.inj hx ▸ hab⟩
      | succ i => exact ih hx

/-- One value beside every element. -/
theorem forall₂_replicate {y : β} (h : ∀ x ∈ xs, R x y) :
    List.Forall₂ R xs (List.replicate xs.length y) := by
  induction xs with
  | nil => exact .nil
  | cons x xs ih => exact .cons (h x (by simp)) (ih fun z hz => h z (by simp [hz]))

/-- Predicates that agree on the pairs drop the same prefix. -/
theorem forall₂_dropWhile {p : α → Bool} {q : β → Bool} (h : List.Forall₂ R xs ys)
    (hpq : ∀ x ∈ xs, ∀ y ∈ ys, R x y → p x = q y) :
    List.Forall₂ R (xs.dropWhile p) (ys.dropWhile q) := by
  induction h with
  | nil => exact .nil
  | cons hab hrest ih =>
      have hhead := hpq _ (by simp) _ (by simp) hab
      have htail := ih fun x hx y hy => hpq x (by simp [hx]) y (by simp [hy])
      rw [List.dropWhile_cons, List.dropWhile_cons, ← hhead]
      split
      · exact htail
      · exact .cons hab hrest

end Fex.Lib
