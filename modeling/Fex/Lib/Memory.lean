import Fex.Lib.Lex
import Mathlib.Tactic.Common

/-!
# Comparing blocks of memory

The sign of `memcmp` is the lexicographic order of the bytes.
-/

namespace Fex.Lib

/-- `memcmp` of blocks of the same size. -/
def mem_comp : List UInt8 → List UInt8 → Int
  | a :: as, b :: bs => if a < b then -1 else if b < a then 1 else mem_comp as bs
  | _, _ => 0

instance asymm_byte : Std.Asymm (α := UInt8) (· < ·) :=
  ⟨fun a b h h' => Nat.lt_asymm (UInt8.lt_iff_toNat_lt.mp h) (UInt8.lt_iff_toNat_lt.mp h')⟩

theorem byte_cases (a b : UInt8) :
    (a < b ∧ ¬ b < a ∧ a ≠ b) ∨ a = b ∨ (b < a ∧ ¬ a < b ∧ a ≠ b) := by
  by_cases hab : a = b
  · exact .inr (.inl hab)
  · rcases UInt8.lt_or_lt_of_ne hab with h | h
    · exact .inl ⟨h, Std.Asymm.asymm a b h, hab⟩
    · exact .inr (.inr ⟨h, Std.Asymm.asymm b a h, hab⟩)

theorem mem_comp_eq_zero {x y : List UInt8} (h : x.length = y.length) :
    mem_comp x y = 0 ↔ x = y := by
  induction x generalizing y with
  | nil =>
      rw [List.eq_nil_of_length_eq_zero h.symm]
      simp [mem_comp]
  | cons a x ih =>
      cases y with
      | nil => simp at h
      | cons b y =>
          have hlen : x.length = y.length := by simpa using h
          unfold mem_comp
          rw [List.cons_eq_cons, ← ih hlen]
          rcases byte_cases a b with ⟨hab, hba, hne⟩ | rfl | ⟨hba, hab, hne⟩
          · simp [hab, hne]
          · simp [UInt8.lt_irrefl]
          · simp [hab, hba, hne]

theorem mem_comp_nonpos {x y : List UInt8} (h : x.length = y.length) :
    mem_comp x y ≤ 0 ↔ LexLe x y := by
  induction x generalizing y with
  | nil =>
      rw [List.eq_nil_of_length_eq_zero h.symm]
      simp [mem_comp, LexLe]
  | cons a x ih =>
      cases y with
      | nil => simp at h
      | cons b y =>
          have hlen : x.length = y.length := by simpa using h
          unfold mem_comp
          rw [lexLe_cons_cons, ← ih hlen]
          rcases byte_cases a b with ⟨hab, hba, hne⟩ | rfl | ⟨hba, hab, hne⟩
          · simp [hab]
          · simp [UInt8.lt_irrefl]
          · simp [hab, hba, hne]

/-- `memcmp` the other way round has the opposite sign. -/
theorem mem_comp_swap (x y : List UInt8) : mem_comp y x = - mem_comp x y := by
  induction x generalizing y with
  | nil => cases y <;> rfl
  | cons a x ih =>
      cases y with
      | nil => rfl
      | cons b y =>
          unfold mem_comp
          rw [ih y]
          rcases byte_cases a b with ⟨hab, hba, hne⟩ | rfl | ⟨hba, hab, hne⟩
          · simp [hab, hba]
          · simp [UInt8.lt_irrefl]
          · simp [hab, hba]

theorem mem_comp_trans {x y z : List UInt8} (hxy : mem_comp x y < 0) (hyz : mem_comp y z < 0) :
    mem_comp x z < 0 := by
  induction x generalizing y z with
  | nil => exact absurd hxy (by simp [mem_comp])
  | cons a x ih =>
      cases y with
      | nil => exact absurd hxy (by simp [mem_comp])
      | cons b y =>
          cases z with
          | nil => exact absurd hyz (by simp [mem_comp])
          | cons c z =>
              unfold mem_comp at hxy hyz ⊢
              rcases byte_cases a b with ⟨hab, -, -⟩ | rfl | ⟨hba, hab, -⟩
              · rcases byte_cases b c with ⟨hbc, -, -⟩ | rfl | ⟨hcb, hbc, -⟩
                · rw [if_pos (UInt8.lt_trans hab hbc)]
                  decide
                · rw [if_pos hab]
                  decide
                · simp [hbc, hcb] at hyz
              · rcases byte_cases a c with ⟨hac, -, -⟩ | rfl | ⟨hca, hac, -⟩
                · rw [if_pos hac]
                  decide
                · simp only [UInt8.lt_irrefl, if_false] at hxy hyz ⊢
                  exact ih hxy hyz
                · simp [hac, hca] at hyz
              · simp [hab, hba] at hxy

end Fex.Lib
