import Mathlib.Data.List.Basic
import Mathlib.Logic.Function.Basic

/-!
# Segments of linked nodes

Nodes in memory with the address of the next one.  `Seg` says that a list of addresses and data is
linked from a start to an end, and a write to one node changes the segments that hold it only.
-/

namespace Fex.Lib

structure Node (ι α : Type*) where
  data : α
  next : Option ι

variable {ι α : Type*}

/-- The nodes of the list follow each other from `s` to `e`. -/
def Seg (mem : ι → Option (Node ι α)) : Option ι → List (ι × α) → Option ι → Prop
  | s, [], e => s = e
  | s, x :: l, e => s = some x.1 ∧ ∃ n, mem x.1 = some { data := x.2, next := n } ∧ Seg mem n l e

variable {mem mem' : ι → Option (Node ι α)} {s e m : Option ι} {l l' : List (ι × α)} {x : ι × α}

theorem seg_append : Seg mem s (l ++ l') e ↔ ∃ m, Seg mem s l m ∧ Seg mem m l' e := by
  induction l generalizing s with
  | nil =>
      constructor
      · exact fun h => ⟨s, rfl, h⟩
      · rintro ⟨m, rfl, h⟩
        exact h
  | cons x l ih =>
      constructor
      · rintro ⟨hs, n, hn, hl⟩
        obtain ⟨m, hm, hm'⟩ := ih.mp hl
        exact ⟨m, ⟨hs, n, hn, hm⟩, hm'⟩
      · rintro ⟨m, ⟨hs, n, hn, hm⟩, hm'⟩
        exact ⟨hs, n, hn, ih.mpr ⟨m, hm, hm'⟩⟩

/-- Only the nodes of the list matter. -/
theorem Seg.congr (h : Seg mem s l e) (heq : ∀ y ∈ l, mem' y.1 = mem y.1) : Seg mem' s l e := by
  induction l generalizing s with
  | nil => exact h
  | cons x l ih =>
      obtain ⟨hs, n, hn, hl⟩ := h
      exact ⟨hs, n, (heq x List.mem_cons_self).trans hn,
        ih hl fun y hy => heq y (List.mem_cons_of_mem _ hy)⟩

theorem Seg.head (h : Seg mem s (x :: l) e) : s = some x.1 := h.1

variable [DecidableEq ι]

/-- A write to another node. -/
theorem Seg.update (h : Seg mem s l e) {p : ι} (hp : p ∉ l.map Prod.fst)
    (v : Option (Node ι α)) : Seg (Function.update mem p v) s l e := by
  apply h.congr
  intro y hy
  have hne : y.1 ≠ p := by
    intro heq
    rw [← heq] at hp
    exact hp (List.mem_map_of_mem hy)
  exact Function.update_of_ne hne v mem

/-- The first node gets new data. -/
theorem Seg.setData (h : Seg mem s (x :: l) e) (hx : x.1 ∉ l.map Prod.fst) (d : α) :
    ∃ n, mem x.1 = some { data := x.2, next := n } ∧
      Seg (Function.update mem x.1 (some { data := d, next := n })) s ((x.1, d) :: l) e := by
  obtain ⟨hs, n, hn, hl⟩ := h
  exact ⟨n, hn, hs, n, Function.update_self .., hl.update hx _⟩

/-- A node is put before a segment. -/
theorem Seg.cons (h : Seg mem s l e) (hx : x.1 ∉ l.map Prod.fst) :
    Seg (Function.update mem x.1 (some { data := x.2, next := s })) (some x.1) (x :: l) e :=
  ⟨rfl, s, Function.update_self .., h.update hx _⟩

/-- The first node is linked to another segment. -/
theorem Seg.link (hs : s = some x.1) (h : Seg mem m l e) (hx : x.1 ∉ l.map Prod.fst) :
    Seg (Function.update mem x.1 (some { data := x.2, next := m })) s (x :: l) e :=
  ⟨hs, m, Function.update_self .., h.update hx _⟩

/-- A node of the list gets new data. -/
theorem Seg.replace {as bs : List (ι × α)} (h : Seg mem s (as ++ x :: bs) e)
    (hnodup : ((as ++ x :: bs).map Prod.fst).Nodup) (d : α) :
    ∃ n, mem x.1 = some { data := x.2, next := n } ∧
      Seg (Function.update mem x.1 (some { data := d, next := n })) s (as ++ (x.1, d) :: bs) e := by
  obtain ⟨m, has, hx⟩ := seg_append.mp h
  rw [List.map_append, List.map_cons, List.nodup_append, List.nodup_cons] at hnodup
  obtain ⟨-, ⟨hbs, -⟩, hdisjoint⟩ := hnodup
  obtain ⟨n, hn, hlist⟩ := hx.setData hbs d
  refine ⟨n, hn, seg_append.mpr ⟨m, has.update (fun hmem => ?_) _, hlist⟩⟩
  exact hdisjoint _ hmem _ List.mem_cons_self rfl

end Fex.Lib
