import Mathlib.Data.List.Basic
import Mathlib.Data.List.Nodup

/-!
# Intrusive linked lists

The nodes of a list are linked through a field that holds the code of the next
node, or of the end.  A doubly linked list is linked one way in its order and
the other way in the reversed order, so every rule here serves both fields.
-/

namespace Fex.Lib

variable {ι π : Type*}

/-- The field `next` goes along the list and from its last node to `e`. -/
def Links (enc : Option ι → π) (next : ι → π) : List ι → Option ι → Prop
  | [], _ => True
  | x :: xs, e => next x = enc (xs.head?.or e) ∧ Links enc next xs e

variable {enc : Option ι → π} {next next' : ι → π} {xs ys : List ι} {x : ι} {e e' : Option ι}

@[simp] theorem links_nil : Links enc next [] e := trivial

theorem links_cons :
    Links enc next (x :: xs) e ↔ next x = enc (xs.head?.or e) ∧ Links enc next xs e := Iff.rfl

theorem links_append :
    Links enc next (xs ++ ys) e ↔ Links enc next xs (ys.head?.or e) ∧ Links enc next ys e := by
  induction xs with
  | nil => simp
  | cons x xs ih =>
      have hhead : (xs ++ ys).head?.or e = xs.head?.or (ys.head?.or e) := by
        cases xs <;> simp
      rw [List.cons_append, links_cons, links_cons, ih, hhead, and_assoc]

/-- Only the fields of the nodes matter. -/
theorem Links.congr (h : Links enc next xs e) (heq : ∀ y ∈ xs, next' y = next y) :
    Links enc next' xs e := by
  induction xs with
  | nil => trivial
  | cons x xs ih =>
      obtain ⟨hx, hxs⟩ := h
      exact ⟨(heq x (by simp)).trans hx, ih hxs fun y hy => heq y (by simp [hy])⟩

/-- One list only ends in null. -/
theorem Links.unique {next : ι → Option ι} (hx : Links id next xs none) (hy : Links id next ys none)
    (hhead : xs.head? = ys.head?) : xs = ys := by
  induction xs generalizing ys with
  | nil => exact (List.head?_eq_none_iff.mp hhead.symm).symm
  | cons x xs ih =>
      cases ys with
      | nil => exact absurd hhead (by simp)
      | cons y ys =>
          have hxy : x = y := Option.some.inj hhead
          subst hxy
          obtain ⟨hxnext, hx⟩ := hx
          obtain ⟨hynext, hy⟩ := hy
          rw [Option.or_none] at hxnext hynext
          rw [ih hx hy (hxnext.symm.trans hynext)]

/-- The last node gets a new target. -/
theorem Links.retarget (h : Links enc next xs e)
    (heq : ∀ y ∈ xs, xs.getLast? ≠ some y → next' y = next y)
    (hlast : ∀ y, xs.getLast? = some y → next' y = enc e') (hnodup : xs.Nodup) :
    Links enc next' xs e' := by
  rcases List.eq_nil_or_concat' xs with rfl | ⟨ys, l, rfl⟩
  · trivial
  · rw [links_append] at h ⊢
    have hl : (ys ++ [l]).getLast? = some l := List.getLast?_concat
    refine ⟨h.1.congr fun y hy => ?_, hlast l hl, trivial⟩
    apply heq y (by simp [hy])
    rw [hl]
    intro hly
    have hdisj := List.disjoint_of_nodup_append hnodup
    exact hdisj hy (by simp [Option.some.inj hly])

/-- A node is put between two parts. -/
theorem Links.insert (h : Links enc next (xs ++ ys) e)
    (heq : ∀ y ∈ xs ++ ys, xs.getLast? ≠ some y → next' y = next y)
    (hlast : ∀ y, xs.getLast? = some y → next' y = enc (some x))
    (hx : next' x = enc (ys.head?.or e)) (hnodup : (xs ++ ys).Nodup) :
    Links enc next' (xs ++ x :: ys) e := by
  rw [links_append] at h ⊢
  have hdisj := List.disjoint_of_nodup_append hnodup
  refine ⟨?_, hx, ?_⟩
  · apply h.1.retarget (fun y hy => heq y (by simp [hy])) hlast hnodup.of_append_left
  · apply h.2.congr
    intro y hy
    apply heq y (by simp [hy])
    intro hlast'
    exact hdisj (List.mem_of_getLast? hlast') hy

/-- A node between two parts is taken out. -/
theorem Links.remove (h : Links enc next (xs ++ x :: ys) e)
    (heq : ∀ y ∈ xs ++ ys, xs.getLast? ≠ some y → next' y = next y)
    (hlast : ∀ y, xs.getLast? = some y → next' y = next x)
    (hnodup : (xs ++ ys).Nodup) : Links enc next' (xs ++ ys) e := by
  rw [links_append] at h ⊢
  obtain ⟨hxs, hx, hys⟩ := h
  have hdisj := List.disjoint_of_nodup_append hnodup
  refine ⟨?_, ?_⟩
  · apply hxs.retarget (fun y hy => heq y (by simp [hy])) _ hnodup.of_append_left
    intro y hy
    exact (hlast y hy).trans hx
  · apply hys.congr
    intro y hy
    apply heq y (by simp [hy])
    intro hlast'
    exact hdisj (List.mem_of_getLast? hlast') hy

end Fex.Lib
