import Mathlib.Data.List.Basic
import Mathlib.Order.Bounds.Defs

/-!
# Lists cut by a property

The elements with the property are in front of the others, as those below a bound in a sorted
list.  Their number is then the first position without it.
-/

namespace Fex.Lib

variable {α : Type*} {p : α → Bool} {l : List α}

/-- What is in front of an element with the property has it too. -/
def Cut (p : α → Bool) (l : List α) : Prop := l.Pairwise fun a b => p b → p a

/-- A sorted list is cut by what holds below each key with it. -/
theorem cut_of_sorted {β : Type*} [LE β] {key : α → β} (h : l.Pairwise fun a b => key a ≤ key b)
    (hp : ∀ a b, key a ≤ key b → p b → p a) : Cut p l :=
  h.imp fun hle hb => hp _ _ hle hb

namespace Cut

/-- The elements with the property are those in front of the cut. -/
theorem lt_iff (h : Cut p l) {i : Nat} {a : α} (ha : l[i]? = some a) :
    i < l.countP p ↔ p a := by
  induction l generalizing i with
  | nil => cases ha
  | cons b l ih =>
      obtain ⟨hb, hl⟩ := List.pairwise_cons.mp h
      by_cases hpb : p b
      · rw [List.countP_cons_of_pos hpb]
        cases i with
        | zero =>
            cases ha
            exact iff_of_true (Nat.succ_pos _) hpb
        | succ i => exact (Nat.add_lt_add_iff_right).trans (ih hl ha)
      · -- no element has the property
        have hnone : ∀ c ∈ b :: l, ¬ p c := by
          intro c hc hpc
          rcases List.mem_cons.mp hc with rfl | hc
          · exact hpb hpc
          · exact hpb (hb c hc hpc)
        rw [List.countP_eq_zero.mpr hnone]
        exact iff_of_false (Nat.not_lt_zero i) (hnone a (List.mem_of_getElem? ha))

theorem mem_iff (h : Cut p l) {i : Nat} :
    (∃ a, l[i]? = some a ∧ p a) ↔ i < l.countP p := by
  constructor
  · rintro ⟨a, ha, hpa⟩
    exact (h.lt_iff ha).mpr hpa
  · intro hi
    have ha := List.getElem?_eq_getElem (Nat.lt_of_lt_of_le hi List.countP_le_length)
    exact ⟨_, ha, (h.lt_iff ha).mp hi⟩

/-- The last element with the property is right in front of the cut. -/
theorem isGreatest (h : Cut p l) (hpos : 0 < l.countP p) :
    IsGreatest {i | ∃ a, l[i]? = some a ∧ p a} (l.countP p - 1) := by
  constructor
  · exact h.mem_iff.mpr (Nat.sub_one_lt_of_lt hpos)
  · intro i hi
    exact Nat.le_sub_one_of_lt (h.mem_iff.mp hi)

end Cut

end Fex.Lib
