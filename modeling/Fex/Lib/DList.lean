import Fex.Lib.Links
import Mathlib.Logic.Function.Basic

/-!
# Doubly linked lists

The link fields of all nodes and the head of one list.  Each operation writes a
few fields, and its rule says which list the fields hold afterwards and that
the fields of all other nodes are untouched.
-/

namespace Fex.Lib

/-- Link fields of the nodes and a head. -/
structure DList (ι : Type*) where
  next : ι → Option ι
  prev : ι → Option ι
  head : Option ι

namespace DList

variable {ι : Type*} [DecidableEq ι]

/-- `m[p] = v` unless `p` is null. -/
def put (m : ι → Option ι) (p v : Option ι) : ι → Option ι :=
  match p with
  | some p => Function.update m p v
  | none => m

/-- Take `x` out. -/
def unlink (d : DList ι) (x : ι) : DList ι :=
  { next := put d.next (d.prev x) (d.next x)
    prev := put d.prev (d.next x) (d.prev x)
    head := if (d.prev x).isNone then d.next x else d.head }

/-- Put `x` at the front. -/
def pushFront (d : DList ι) (x : ι) : DList ι :=
  { next := Function.update d.next x d.head
    prev := Function.update (put d.prev d.head (some x)) x none
    head := some x }

/-- Put `x` before `p`. -/
def insertBefore (d : DList ι) (p x : ι) : DList ι :=
  { next := put (Function.update d.next x (some p)) (d.prev p) (some x)
    prev := Function.update (Function.update d.prev x (d.prev p)) p (some x)
    head := if (d.prev p).isNone then some x else d.head }

/-- Put `x` behind the last node `p`. -/
def insertLast (d : DList ι) (p x : ι) : DList ι :=
  { next := Function.update (Function.update d.next p (some x)) x none
    prev := Function.update d.prev x (some p)
    head := d.head }

/-- The fields hold the list `xs`. -/
structure Holds (d : DList ι) (xs : List ι) : Prop where
  head : d.head = xs.head?
  next : Links id d.next xs none
  prev : Links id d.prev xs.reverse none
  nodup : xs.Nodup

/-- The fields of the nodes in `xs` may have changed. -/
def SameOutside (d d' : DList ι) (xs : List ι) : Prop :=
  ∀ y, y ∉ xs → d'.next y = d.next y ∧ d'.prev y = d.prev y

theorem put_of_ne {m : ι → Option ι} {p v : Option ι} {y : ι} (h : p ≠ some y) :
    put m p v y = m y := by
  cases p with
  | none => rfl
  | some p => exact Function.update_of_ne (fun heq => h (congrArg some heq.symm)) _ _

theorem put_some_self {m : ι → Option ι} {v : Option ι} {y : ι} : put m (some y) v y = v :=
  Function.update_self _ _ _

variable {d d' : DList ι} {as bs xs ys : List ι} {p x : ι}

omit [DecidableEq ι] in
theorem Holds.congr (h : d.Holds xs) (hhead : d'.head = d.head)
    (heq : ∀ y ∈ xs, d'.next y = d.next y ∧ d'.prev y = d.prev y) : d'.Holds xs where
  head := hhead.trans h.head
  next := h.next.congr fun y hy => (heq y hy).1
  prev := h.prev.congr fun y hy => (heq y (List.mem_reverse.mp hy)).2
  nodup := h.nodup

omit [DecidableEq ι] in
/-- The fields hold one list only. -/
theorem Holds.unique (hx : d.Holds xs) (hy : d.Holds ys) : xs = ys :=
  hx.next.unique hy.next (hx.head.symm.trans hy.head)

omit [DecidableEq ι] in
/-- The neighbours of a node. -/
theorem Holds.neighbours (h : d.Holds (as ++ x :: bs)) :
    d.next x = bs.head? ∧ d.prev x = as.getLast? := by
  have hnext := (links_append.mp h.next).2.1
  have hprev := h.prev
  rw [List.reverse_append, List.reverse_cons, List.append_assoc] at hprev
  have hlast := (links_append.mp hprev).2.1
  rw [Option.or_none] at hnext hlast
  have hlast' : d.prev x = as.reverse.head? := hlast
  rw [List.head?_reverse] at hlast'
  exact ⟨hnext, hlast'⟩

theorem Holds.unlink (h : d.Holds (as ++ x :: bs)) : (d.unlink x).Holds (as ++ bs) := by
  obtain ⟨hnext, hprev⟩ := h.neighbours
  have hnodup : (as ++ bs).Nodup := by
    have hperm : (as ++ x :: bs).Perm (x :: (as ++ bs)) := List.perm_middle
    exact (List.nodup_cons.mp (hperm.nodup_iff.mp h.nodup)).2
  constructor
  · show (if (d.prev x).isNone then d.next x else d.head) = _
    rw [hprev, hnext, h.head]
    cases as with
    | nil => rfl
    | cons a as => simp [List.getLast?_cons]
  · apply h.next.remove _ _ hnodup
    · intro y _ hy
      apply put_of_ne
      rw [hprev]
      exact hy
    · intro y hy
      show put d.next (d.prev x) (d.next x) y = _
      rw [hprev, hy, put_some_self]
  · have hrev := h.prev
    rw [List.reverse_append, List.reverse_cons, List.append_assoc, List.singleton_append] at hrev
    rw [List.reverse_append]
    apply hrev.remove
    · intro y _ hy
      apply put_of_ne
      rw [hnext, ← List.getLast?_reverse]
      exact hy
    · intro y hy
      rw [List.getLast?_reverse] at hy
      show put d.prev (d.next x) (d.prev x) y = _
      rw [hnext, hy, put_some_self]
    · rw [← List.reverse_append]
      exact List.nodup_reverse.mpr hnodup
  · exact hnodup

theorem Holds.unlink_same (h : d.Holds (as ++ x :: bs)) :
    SameOutside d (d.unlink x) (as ++ bs) := by
  obtain ⟨hnext, hprev⟩ := h.neighbours
  intro y hy
  rw [List.mem_append, not_or] at hy
  constructor
  · apply put_of_ne
    rw [hprev]
    exact fun hlast => hy.1 (List.mem_of_getLast? hlast)
  · apply put_of_ne
    rw [hnext]
    exact fun hfirst => hy.2 (List.mem_of_mem_head? hfirst)

theorem Holds.pushFront (h : d.Holds xs) (hx : x ∉ xs) : (d.pushFront x).Holds (x :: xs) := by
  have hne : ∀ y ∈ xs, y ≠ x := fun y hy heq => hx (heq ▸ hy)
  constructor
  · rfl
  · refine ⟨?_, h.next.congr fun y hy => ?_⟩
    · show Function.update d.next x d.head x = _
      rw [Function.update_self, h.head, Option.or_none]
      rfl
    · exact Function.update_of_ne (hne y hy) _ _
  · have hrev : (x :: xs).reverse = xs.reverse ++ x :: [] := List.reverse_cons
    rw [hrev]
    have hlist : Links id d.prev (xs.reverse ++ []) none := by
      rw [List.append_nil]
      exact h.prev
    apply hlist.insert
    · intro y hy hlast
      rw [List.append_nil, List.mem_reverse] at hy
      show Function.update (_ : ι → Option ι) x none y = _
      rw [Function.update_of_ne (hne y hy)]
      apply put_of_ne
      rw [h.head, ← List.getLast?_reverse]
      exact hlast
    · intro y hy
      have hmem := List.mem_of_getLast? hy
      rw [List.mem_reverse] at hmem
      rw [List.getLast?_reverse] at hy
      show Function.update (_ : ι → Option ι) x none y = _
      rw [Function.update_of_ne (hne y hmem), h.head, hy, put_some_self]
      rfl
    · show Function.update (_ : ι → Option ι) x none x = _
      rw [Function.update_self]
      rfl
    · rw [List.append_nil]
      exact List.nodup_reverse.mpr h.nodup
  · exact List.nodup_cons.mpr ⟨hx, h.nodup⟩

theorem Holds.pushFront_same (h : d.Holds xs) : SameOutside d (d.pushFront x) (x :: xs) := by
  intro y hy
  rw [List.mem_cons, not_or] at hy
  constructor
  · exact Function.update_of_ne hy.1 _ _
  · show Function.update (_ : ι → Option ι) x none y = _
    rw [Function.update_of_ne hy.1]
    apply put_of_ne
    rw [h.head]
    exact fun hfirst => hy.2 (List.mem_of_mem_head? hfirst)

theorem Holds.insertBefore (h : d.Holds (as ++ p :: bs)) (hx : x ∉ as ++ p :: bs) :
    (d.insertBefore p x).Holds (as ++ x :: p :: bs) := by
  obtain ⟨-, hprev⟩ := h.neighbours
  have hne : ∀ y ∈ as ++ p :: bs, y ≠ x := fun y hy heq => hx (heq ▸ hy)
  have hpx : p ≠ x := hne p (by simp)
  have hdisj := List.disjoint_of_nodup_append h.nodup
  have hxlast : as.getLast? ≠ some x := fun hlast =>
    hx (List.mem_append_left _ (List.mem_of_getLast? hlast))
  constructor
  · show (if (d.prev p).isNone then some x else d.head) = _
    rw [hprev, h.head]
    cases as with
    | nil => rfl
    | cons a as => simp [List.getLast?_cons]
  · apply h.next.insert _ _ _ h.nodup
    · intro y hy hlast
      show put _ (d.prev p) (some x) y = _
      rw [put_of_ne (by rw [hprev]; exact hlast), Function.update_of_ne (hne y hy)]
    · intro y hy
      show put _ (d.prev p) (some x) y = _
      rw [hprev, hy, put_some_self]
      rfl
    · show put _ (d.prev p) (some x) x = _
      rw [put_of_ne (by rw [hprev]; exact hxlast), Function.update_self]
      rfl
  · have hrev := h.prev
    have hsplit : (as ++ p :: bs).reverse = (bs.reverse ++ [p]) ++ as.reverse := by
      rw [List.reverse_append, List.reverse_cons]
    have hsplit' : (as ++ x :: p :: bs).reverse = (bs.reverse ++ [p]) ++ x :: as.reverse := by
      simp
    rw [hsplit] at hrev
    rw [hsplit']
    have hlastp : (bs.reverse ++ [p]).getLast? = some p := List.getLast?_concat
    apply hrev.insert
    · intro y hy hlast
      rw [hlastp] at hlast
      have hy' : y ∈ as ++ p :: bs := by
        rw [← List.mem_reverse, hsplit]
        exact hy
      show Function.update (_ : ι → Option ι) p (some x) y = _
      rw [Function.update_of_ne (fun heq => hlast (by rw [heq])), Function.update_of_ne (hne y hy')]
    · intro y hy
      rw [hlastp] at hy
      show Function.update (_ : ι → Option ι) p (some x) y = _
      rw [← Option.some.inj hy, Function.update_self]
      rfl
    · show Function.update (_ : ι → Option ι) p (some x) x = _
      rw [Function.update_of_ne hpx.symm, Function.update_self, hprev, List.head?_reverse,
        Option.or_none]
      rfl
    · rw [← hsplit]
      exact List.nodup_reverse.mpr h.nodup
  · have hperm : (as ++ x :: p :: bs).Perm (x :: (as ++ p :: bs)) := List.perm_middle
    exact hperm.nodup_iff.mpr (List.nodup_cons.mpr ⟨hx, h.nodup⟩)

theorem Holds.insertBefore_same (h : d.Holds (as ++ p :: bs)) :
    SameOutside d (d.insertBefore p x) (as ++ x :: p :: bs) := by
  obtain ⟨-, hprev⟩ := h.neighbours
  intro y hy
  simp only [List.mem_append, List.mem_cons, not_or] at hy
  obtain ⟨hya, hyx, hyp, -⟩ := hy
  constructor
  · show put _ (d.prev p) (some x) y = _
    rw [put_of_ne, Function.update_of_ne hyx]
    rw [hprev]
    exact fun hlast => hya (List.mem_of_getLast? hlast)
  · show Function.update (_ : ι → Option ι) p (some x) y = _
    rw [Function.update_of_ne hyp, Function.update_of_ne hyx]

theorem Holds.insertLast (h : d.Holds (as ++ [p])) (hx : x ∉ as ++ [p]) :
    (d.insertLast p x).Holds (as ++ [p] ++ [x]) := by
  have hne : ∀ y ∈ as ++ [p], y ≠ x := fun y hy heq => hx (heq ▸ hy)
  have hlastp : (as ++ [p]).getLast? = some p := List.getLast?_concat
  constructor
  · show d.head = _
    rw [h.head]
    cases as <;> rfl
  · have hlist : Links id d.next (as ++ [p] ++ []) none := by
      rw [List.append_nil]
      exact h.next
    apply hlist.insert
    · intro y hy hlast
      rw [List.append_nil] at hy
      rw [hlastp] at hlast
      show Function.update (_ : ι → Option ι) x none y = _
      rw [Function.update_of_ne (hne y hy), Function.update_of_ne (fun heq => hlast (by rw [heq]))]
    · intro y hy
      rw [hlastp] at hy
      show Function.update (_ : ι → Option ι) x none y = _
      rw [← Option.some.inj hy, Function.update_of_ne (hne p (by simp)), Function.update_self]
      rfl
    · show Function.update (_ : ι → Option ι) x none x = _
      rw [Function.update_self]
      rfl
    · rw [List.append_nil]
      exact h.nodup
  · have hrev : (as ++ [p] ++ [x]).reverse = x :: (as ++ [p]).reverse := by simp
    rw [hrev]
    refine ⟨?_, h.prev.congr fun y hy => ?_⟩
    · show Function.update (_ : ι → Option ι) x (some p) x = _
      rw [Function.update_self, List.head?_reverse, hlastp]
      rfl
    · exact Function.update_of_ne (hne y (List.mem_reverse.mp hy)) _ _
  · rw [List.nodup_append]
    refine ⟨h.nodup, List.nodup_singleton x, fun a ha b hb => ?_⟩
    rw [List.mem_singleton.mp hb]
    exact hne a ha

theorem insertLast_same : SameOutside d (d.insertLast p x) (as ++ [p] ++ [x]) := by
  intro y hy
  simp only [List.mem_append, List.mem_singleton, not_or] at hy
  obtain ⟨⟨-, hyp⟩, hyx⟩ := hy
  constructor
  · show Function.update (_ : ι → Option ι) x none y = _
    rw [Function.update_of_ne hyx, Function.update_of_ne hyp]
  · exact Function.update_of_ne hyx _ _

end DList

end Fex.Lib
