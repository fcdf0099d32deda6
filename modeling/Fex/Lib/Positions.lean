import Fex.Lib.CInt
import Mathlib.Data.List.Basic
import Mathlib.Data.List.Nodup

/-!
# Positions in a vector

Elements erased and inserted by position.  The positions that are still to be erased move down past
each erased one.
-/

namespace Fex.Lib

variable {α : Type*}

/-- `v.erase(v.begin() + i)` -/
def eraseAt (l : List α) (i : Nat) : Exec (List α) :=
  if i < l.length then .ok (l.eraseIdx i) else .error .outOfBounds

/-- `v.insert(v.begin() + i, a)` -/
def insertAt (l : List α) (i : Nat) (a : α) : Exec (List α) :=
  if i ≤ l.length then .ok (l.insertIdx i a) else .error .outOfBounds

/-- A position once the element at another one is gone. -/
def shifted (erased : Nat) (selected : Nat) : Nat :=
  if selected > erased then selected - 1 else selected

/-- The elements from a position on that are not selected, in order. -/
def unselected (selected : List Nat) (k : Nat) : List α → List α
  | [] => []
  | a :: l =>
      if k ∈ selected then unselected selected (k + 1) l
      else a :: unselected selected (k + 1) l

theorem mem_map_shifted_of_lt {s k : Nat} {selected : List Nat} (hk : k < s) :
    k ∈ selected.map (shifted s) ↔ k ∈ s :: selected := by
  constructor
  · intro hmem
    obtain ⟨t, ht, rfl⟩ := List.mem_map.mp hmem
    unfold shifted at hk ⊢
    by_cases hlt : t > s
    · rw [if_pos hlt] at hk
      omega
    · rw [if_neg hlt]
      exact List.mem_cons_of_mem s ht
  · intro hmem
    have hold : k ∈ selected := (List.mem_cons.mp hmem).resolve_left (by omega)
    exact List.mem_map.mpr ⟨k, hold, if_neg (by omega)⟩

theorem mem_map_shifted_of_le {s k : Nat} {selected : List Nat} (hs : s ∉ selected) (hk : s ≤ k) :
    k ∈ selected.map (shifted s) ↔ k + 1 ∈ s :: selected := by
  constructor
  · intro hmem
    obtain ⟨t, ht, rfl⟩ := List.mem_map.mp hmem
    have hne : t ≠ s := fun h => hs (h ▸ ht)
    unfold shifted at hk ⊢
    by_cases hlt : t > s
    · rw [if_pos hlt, Nat.sub_add_cancel (by omega)]
      exact List.mem_cons_of_mem s ht
    · rw [if_neg hlt] at hk
      omega
  · intro hmem
    have hold : k + 1 ∈ selected := (List.mem_cons.mp hmem).resolve_left (by omega)
    exact List.mem_map.mpr ⟨k + 1, hold, if_pos (by omega)⟩

theorem nodup_map_shifted {s : Nat} {selected : List Nat} (hs : s ∉ selected)
    (h : selected.Nodup) : (selected.map (shifted s)).Nodup := by
  refine h.map_on fun t ht u hu heq => ?_
  have ht' : t ≠ s := fun h => hs (h ▸ ht)
  have hu' : u ≠ s := fun h => hs (h ▸ hu)
  unfold shifted at heq
  split at heq <;> split at heq <;> omega

theorem getElem?_eraseIdx_shifted (l : List α) {s t : Nat} (h : t ≠ s) :
    (l.eraseIdx s)[shifted s t]? = l[t]? := by
  rw [List.getElem?_eraseIdx]
  unfold shifted
  by_cases hlt : t > s
  · rw [if_pos hlt, if_neg (by omega), Nat.sub_add_cancel (by omega)]
  · rw [if_neg hlt, if_pos (by omega)]

theorem unselected_congr (l : List α) {selected selected' : List Nat} {k k' : Nat}
    (h : ∀ i, k + i ∈ selected ↔ k' + i ∈ selected') :
    unselected selected k l = unselected selected' k' l := by
  induction l generalizing k k' with
  | nil => rfl
  | cons a l ih =>
      have htail : unselected selected (k + 1) l = unselected selected' (k' + 1) l := by
        refine ih fun i => ?_
        rw [Nat.add_right_comm, Nat.add_right_comm k']
        exact h (i + 1)
      simp only [unselected, htail, show k ∈ selected ↔ k' ∈ selected' from h 0]

theorem mem_unselected {l : List α} {selected : List Nat} {k : Nat} {a : α}
    (h : a ∈ unselected selected k l) : ∃ i, l[i]? = some a ∧ k + i ∉ selected := by
  induction l generalizing k with
  | nil => cases h
  | cons b l ih =>
      have hlater : a ∈ unselected selected (k + 1) l →
          ∃ i, (b :: l)[i]? = some a ∧ k + i ∉ selected := by
        intro hin
        obtain ⟨i, hget, hi⟩ := ih hin
        refine ⟨i + 1, List.getElem?_cons_succ.trans hget, ?_⟩
        rwa [Nat.add_right_comm] at hi
      rw [unselected] at h
      split at h
      · exact hlater h
      next hk =>
        rcases List.mem_cons.mp h with rfl | hin
        · exact ⟨0, List.getElem?_cons_zero, hk⟩
        · exact hlater hin

/-- Erasing one of the selected elements, then the others at their new positions. -/
theorem unselected_eraseIdx (l : List α) {selected : List Nat} {k i : Nat}
    (h : k + i ∉ selected) :
    unselected (selected.map (shifted (k + i))) k (l.eraseIdx i) =
      unselected ((k + i) :: selected) k l := by
  induction l generalizing k i with
  | nil => rfl
  | cons a l ih =>
      cases i with
      | zero =>
          rw [Nat.add_zero] at h ⊢
          rw [List.eraseIdx_cons_zero, unselected, if_pos (List.mem_cons_self ..)]
          refine unselected_congr l fun j => ?_
          rw [mem_map_shifted_of_le h (by omega), Nat.add_right_comm]
      | succ i =>
          have hnext : k + 1 + i = k + (i + 1) := by omega
          have htail := ih (k := k + 1) (i := i) (hnext ▸ h)
          rw [hnext] at htail
          simp only [List.eraseIdx_cons_succ, unselected, htail,
            mem_map_shifted_of_lt (show k < k + (i + 1) by omega)]

theorem insertIdx_append (before l : List α) (a : α) :
    (before ++ l).insertIdx before.length a = before ++ a :: l := by
  induction before with
  | nil => rfl
  | cons b before ih =>
      rw [List.cons_append, List.length_cons, List.insertIdx_succ_cons, ih, List.cons_append]

/-- An inserted element pushes the later ones by one. -/
theorem absent_insertIdx_succ {l : List α} {i k : Nat} {a x : α} (hne : a ≠ x) (hi : i ≤ k)
    (h : ∀ j < k, l[j]? ≠ some x) : ∀ j < k + 1, (l.insertIdx i a)[j]? ≠ some x := by
  intro j hj
  rw [List.getElem?_insertIdx]
  split
  · exact h j (by omega)
  split
  · split
    · exact fun heq => hne (Option.some.inj heq)
    · exact nofun
  · exact h (j - 1) (by omega)

theorem absent_insertIdx {l : List α} {i k : Nat} {a x : α} (hne : a ≠ x)
    (h : ∀ j < k, l[j]? ≠ some x) : ∀ j < k, (l.insertIdx i a)[j]? ≠ some x := by
  intro j hj
  rw [List.getElem?_insertIdx]
  split
  · exact h j hj
  split
  · split
    · exact fun heq => hne (Option.some.inj heq)
    · exact nofun
  · exact h (j - 1) (by omega)

end Fex.Lib
