import Mathlib.Logic.Basic

/-!
# Lexicographic order and prefixes
-/

namespace Fex.Lib

variable {α : Type*} [LT α]

/-- The lexicographic order of lists. -/
def LexLe : List α → List α → Prop
  | [], _ => True
  | _ :: _, [] => False
  | a :: x, b :: y => a < b ∨ a = b ∧ LexLe x y

variable {p x y c : List α} {a b : α}

theorem lexLe_cons_cons : LexLe (a :: x) (b :: y) ↔ a < b ∨ a = b ∧ LexLe x y := Iff.rfl

variable [Std.Asymm (α := α) (· < ·)]

@[simp] theorem lexLe_append_left : LexLe (p ++ x) (p ++ y) ↔ LexLe x y := by
  induction p with
  | nil => rfl
  | cons a p ih =>
      have hirrefl : ¬ a < a := fun h => Std.Asymm.asymm a a h h
      rw [List.cons_append, List.cons_append, lexLe_cons_cons, ih]
      simp [hirrefl]

/-- What lies between two lists has their common prefix. -/
theorem prefix_of_between (hx : LexLe (p ++ x) c) (hy : LexLe c (p ++ y)) : ∃ z, c = p ++ z := by
  induction p generalizing c with
  | nil => exact ⟨c, rfl⟩
  | cons a p ih =>
      cases c with
      | nil => exact hx.elim
      | cons d c =>
          rw [List.cons_append, lexLe_cons_cons] at hx hy
          have hda : d = a := by
            rcases hx with hx | ⟨hx, -⟩
            · rcases hy with hy | ⟨hy, -⟩
              · exact absurd hy (Std.Asymm.asymm a d hx)
              · exact hy
            · exact hx.symm
          subst hda
          have hirrefl : ¬ d < d := fun h => Std.Asymm.asymm d d h h
          obtain ⟨z, hz⟩ := ih (by simpa [hirrefl] using hx) (by simpa [hirrefl] using hy)
          exact ⟨z, by rw [hz, List.cons_append]⟩

/-! ## The strict order -/

/-- The strict lexicographic order of lists. -/
def LexLt : List α → List α → Prop
  | _, [] => False
  | [], _ :: _ => True
  | a :: x, b :: y => a < b ∨ a = b ∧ LexLt x y

omit [Std.Asymm (α := α) (· < ·)] in
omit [Std.Asymm (α := α) (· < ·)] in
theorem LexLt.append_left (p : List α) (h : LexLt x y) : LexLt (p ++ x) (p ++ y) := by
  induction p with
  | nil => exact h
  | cons a p ih => exact .inr ⟨rfl, ih⟩

omit [Std.Asymm (α := α) (· < ·)] in
theorem LexLt.le (h : LexLt x y) : LexLe x y := by
  induction x generalizing y with
  | nil => trivial
  | cons a x ih =>
      cases y with
      | nil => exact h.elim
      | cons b y =>
          rcases h with h | ⟨heq, h⟩
          · exact .inl h
          · exact .inr ⟨heq, ih h⟩

theorem lexLt_irrefl (x : List α) : ¬ LexLt x x := by
  induction x with
  | nil => exact id
  | cons a x ih =>
      rintro (h | ⟨-, h⟩)
      · exact Std.Asymm.asymm a a h h
      · exact ih h

omit [Std.Asymm (α := α) (· < ·)] in
theorem LexLt.trans (htrans : ∀ a b c : α, a < b → b < c → a < c) {z : List α} (h : LexLt x y)
    (h' : LexLt y z) : LexLt x z := by
  induction x generalizing y z with
  | nil =>
      cases y with
      | nil => exact h.elim
      | cons b y =>
          cases z with
          | nil => exact h'.elim
          | cons c z => trivial
  | cons a x ih =>
      cases y with
      | nil => exact h.elim
      | cons b y =>
          cases z with
          | nil => exact h'.elim
          | cons c z =>
              rcases h with hab | ⟨rfl, h⟩
              · rcases h' with hbc | ⟨rfl, -⟩
                · exact .inl (htrans a b c hab hbc)
                · exact .inl hab
              · rcases h' with hbc | ⟨heq, h'⟩
                · exact .inl hbc
                · exact .inr ⟨heq, ih h h'⟩

end Fex.Lib
