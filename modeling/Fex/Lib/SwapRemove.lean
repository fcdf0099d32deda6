import Mathlib.Data.List.Perm.Basic

/-!
# Removal by swapping

A vector without order drops an element by moving its last one to the place.
-/

namespace Fex.Lib

variable {α : Type*}

/-- The last element replaces the one at `i`, an index past the end drops nothing else. -/
def swapRemove (l : List α) (i : Nat) : List α :=
  match l.getLast? with
  | none => []
  | some last => (l.set i last).dropLast

theorem swapRemove_concat (l : List α) (last : α) (i : Nat) :
    swapRemove (l ++ [last]) i = if i < l.length then l.set i last else l := by
  unfold swapRemove
  rw [List.getLast?_append_cons, List.getLast?_singleton]
  simp only
  split
  next h => rw [List.set_append_left _ _ h, List.dropLast_concat]
  next h =>
    rw [List.set_append_right _ _ (by omega)]
    cases i - l.length with
    | zero => exact List.dropLast_concat
    | succ n => exact List.dropLast_concat

theorem exists_concat {l : List α} {i : Nat} (hi : i < l.length) :
    ∃ init last, l = init ++ [last] ∧ i ≤ init.length := by
  have hne : l ≠ [] := by
    rintro rfl
    cases hi
  refine ⟨l.dropLast, l.getLast hne, (List.dropLast_concat_getLast hne).symm, ?_⟩
  rw [List.length_dropLast]
  omega

theorem length_swapRemove {l : List α} {i : Nat} (hi : i < l.length) :
    (swapRemove l i).length = l.length - 1 := by
  obtain ⟨init, last, rfl, -⟩ := exists_concat hi
  rw [swapRemove_concat]
  split <;> simp

/-- Where the elements are afterwards. -/
theorem getElem?_swapRemove {l : List α} {i : Nat} (hi : i < l.length) (k : Nat) :
    (swapRemove l i)[k]? =
      if k < l.length - 1 then if k = i then l[l.length - 1]? else l[k]? else none := by
  obtain ⟨init, last, rfl, hle⟩ := exists_concat hi
  have hlength : (init ++ [last]).length - 1 = init.length := by simp
  rw [swapRemove_concat, hlength, List.getElem?_concat_length]
  by_cases hk : k < init.length
  · rw [if_pos hk, List.getElem?_append_left hk]
    by_cases heq : k = i
    · rw [if_pos heq, if_pos (heq ▸ hk), heq, List.getElem?_set_self (heq ▸ hk)]
    · rw [if_neg heq]
      split
      · exact List.getElem?_set_ne (Ne.symm heq)
      · rfl
  · rw [if_neg hk]
    split
    · exact List.getElem?_eq_none (by rw [List.length_set]; omega)
    · exact List.getElem?_eq_none (by omega)

/-- Up to its order the vector is the one with the element erased. -/
theorem swapRemove_perm {l : List α} {i : Nat} (hi : i < l.length) :
    (swapRemove l i).Perm (l.eraseIdx i) := by
  obtain ⟨init, last, rfl, hle⟩ := exists_concat hi
  rw [swapRemove_concat]
  split
  next h =>
    rw [List.eraseIdx_append_of_lt_length h]
    exact (List.set_perm_cons_eraseIdx h last).trans
      (List.perm_append_singleton last (init.eraseIdx i)).symm
  next h =>
    have heq : i = init.length := by omega
    rw [heq, List.eraseIdx_append_of_length_le (Nat.le_refl _), Nat.sub_self]
    simp

section Erase

variable [DecidableEq α]

/-- The first occurrence of an element is removed by swapping. -/
def swapErase (l : List α) (a : α) : List α := if a ∈ l then swapRemove l (l.idxOf a) else l

theorem swapErase_perm (l : List α) (a : α) : (swapErase l a).Perm (l.erase a) := by
  unfold swapErase
  split
  next h =>
    rw [List.erase_eq_eraseIdx_of_idxOf rfl]
    exact swapRemove_perm (List.idxOf_lt_length_of_mem h)
  next h => rw [List.erase_of_not_mem h]

theorem count_swapErase (l : List α) (a b : α) :
    (swapErase l a).count b = l.count b - if a = b then 1 else 0 := by
  rw [(swapErase_perm l a).count_eq, List.count_erase]
  simp only [beq_iff_eq]

end Erase

end Fex.Lib
