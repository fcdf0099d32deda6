import Mathlib.Data.List.Basic
import Mathlib.Logic.Function.Basic
import Mathlib.Tactic.Common

/-!
# Contiguous blocks on a doubly linked list

An allocator that keeps its headers inside the memory it manages lays blocks
out one after the other and links each header to its two neighbours.  `Seg`
says that a memory holds such a chain.  The rules below are the local updates
an allocator performs: relabelling a block, cutting one in two and joining two
neighbours.  Headers are arbitrary; `mk` builds one from the two links and the
label of the block, and `size` reads the extent of a block off its label.
-/

namespace Fex.Lib.BlockList

variable {ι β : Type*} (mk : Option Nat → Option Nat → β → ι) (size : β → Nat)

/-- Extent of a run of blocks. -/
def total : List β → Nat
  | [] => 0
  | b :: bs => size b + total bs

/-- Start addresses of blocks laid out from `a`. -/
def addrs : Nat → List β → List Nat
  | _, [] => []
  | a, b :: bs => a :: addrs (a + size b) bs

/-- Link to whatever follows: the block at `a`, or `n` past the last block. -/
def link (a : Nat) : List β → Option Nat → Option Nat
  | [], n => n
  | _ :: _, _ => some a

/-- Address of the last block, or `p` when there is none. -/
def lastAddr : Option Nat → Nat → List β → Option Nat
  | p, _, [] => p
  | _, a, b :: bs => lastAddr (some a) (a + size b) bs

/-- `mem` holds the blocks `bs` from `a` on, linked back to `p` and forward to `n`. -/
def Seg (mem : Nat → ι) : Option Nat → Nat → List β → Option Nat → Prop
  | _, _, [], _ => True
  | p, a, b :: bs, n =>
      mem a = mk p (link (a + size b) bs n) b ∧ Seg mem (some a) (a + size b) bs n

@[simp] theorem total_append (xs ys : List β) :
    total size (xs ++ ys) = total size xs + total size ys := by
  induction xs with
  | nil => simp [total]
  | cons x xs ih => simp [total, ih, Nat.add_assoc]

@[simp] theorem addrs_append (a : Nat) (xs ys : List β) :
    addrs size a (xs ++ ys) = addrs size a xs ++ addrs size (a + total size xs) ys := by
  induction xs generalizing a with
  | nil => simp [addrs, total]
  | cons x xs ih => simp [addrs, total, ih, Nat.add_assoc]

@[simp] theorem length_addrs (a : Nat) (xs : List β) :
    (addrs size a xs).length = xs.length := by
  induction xs generalizing a with
  | nil => rfl
  | cons x xs ih => simp [addrs, ih]

@[simp] theorem lastAddr_append (p : Option Nat) (a : Nat) (xs ys : List β) :
    lastAddr size p a (xs ++ ys) =
      lastAddr size (lastAddr size p a xs) (a + total size xs) ys := by
  induction xs generalizing p a with
  | nil => simp [lastAddr, total]
  | cons x xs ih => simp [lastAddr, total, ih, Nat.add_assoc]

@[simp] theorem link_append (a : Nat) (xs ys : List β) (n : Option Nat) :
    link a (xs ++ ys) n = link a xs (link a ys n) := by
  cases xs <;> rfl

theorem addrs_bounds {a x : Nat} {bs : List β} (hpos : ∀ b ∈ bs, 0 < size b)
    (hx : x ∈ addrs size a bs) : a ≤ x ∧ x < a + total size bs := by
  induction bs generalizing a with
  | nil => simp [addrs] at hx
  | cons b bs ih =>
      have hb : 0 < size b := hpos b (by simp)
      rcases List.mem_cons.mp hx with rfl | hx
      · simp only [total]
        omega
      · have := ih (fun c hc => hpos c (by simp [hc])) hx
        simp only [total]
        omega

theorem seg_append (mem : Nat → ι) (p : Option Nat) (a : Nat) (xs ys : List β)
    (n : Option Nat) :
    Seg mk size mem p a (xs ++ ys) n ↔
      Seg mk size mem p a xs (link (a + total size xs) ys n) ∧
        Seg mk size mem (lastAddr size p a xs) (a + total size xs) ys n := by
  induction xs generalizing p a with
  | nil => simp [Seg, lastAddr, total]
  | cons x xs ih =>
      have hlink : link (a + size x) xs (link (a + (size x + total size xs)) ys n) =
          link (a + size x) (xs ++ ys) n := by
        cases xs <;> simp [link, total]
      simp only [List.cons_append, Seg, total, lastAddr, ih, hlink, Nat.add_assoc, and_assoc]

/-- A segment only depends on the headers at its own addresses. -/
theorem seg_congr {mem mem' : Nat → ι} {p : Option Nat} {a : Nat} {bs : List β}
    {n : Option Nat} (h : ∀ x ∈ addrs size a bs, mem' x = mem x)
    (hseg : Seg mk size mem p a bs n) : Seg mk size mem' p a bs n := by
  induction bs generalizing p a with
  | nil => trivial
  | cons b bs ih =>
      refine ⟨?_, ih (fun x hx => h x (by simp [addrs, hx])) hseg.2⟩
      rw [h a (by simp [addrs]), hseg.1]

/-- The header found at the address of a block in the middle of a segment. -/
theorem seg_header {mem : Nat → ι} {p : Option Nat} {a : Nat} {xs ys : List β} {b : β}
    {n : Option Nat} (hseg : Seg mk size mem p a (xs ++ b :: ys) n) :
    mem (a + total size xs) =
      mk (lastAddr size p a xs) (link (a + total size xs + size b) ys n) b :=
  ((seg_append mk size mem p a xs (b :: ys) n).mp hseg).2.1

/-- Back link of the first block of a segment: the only header that mentions `p`. -/
theorem seg_relink {mem mem' : Nat → ι} {p q : Option Nat} {a : Nat} {b : β} {bs : List β}
    {n : Option Nat} (hpos : ∀ c ∈ b :: bs, 0 < size c)
    (hhead : mem' a = mk q (link (a + size b) bs n) b)
    (hrest : ∀ x, a + size b ≤ x → mem' x = mem x)
    (hseg : Seg mk size mem p a (b :: bs) n) : Seg mk size mem' q a (b :: bs) n := by
  refine ⟨hhead, seg_congr mk size (fun x hx => hrest x ?_) hseg.2⟩
  exact (addrs_bounds size (fun c hc => hpos c (by simp [hc])) hx).1

/-- Replace the stretch `ms` of a chain by another stretch `ms'` of the same extent:
the headers before it are untouched, those of the stretch are the new ones, and the
header right after it is linked back to the new last block. -/
theorem seg_replace {mem mem' : Nat → ι} {p : Option Nat} {a : Nat}
    {xs ms ms' ys : List β} {n : Option Nat}
    (hpos : ∀ c ∈ xs ++ ms ++ ys, 0 < size c) (hms : ms ≠ []) (hms' : ms' ≠ [])
    (htotal : total size ms' = total size ms)
    (hbefore : ∀ x, x < a + total size xs → mem' x = mem x)
    (hmid : Seg mk size mem' (lastAddr size p a xs) (a + total size xs) ms'
      (link (a + total size xs + total size ms) ys n))
    (hfirst : ∀ y ys', ys = y :: ys' →
      mem' (a + total size xs + total size ms) =
        mk (lastAddr size (lastAddr size p a xs) (a + total size xs) ms')
          (link (a + total size xs + total size ms + size y) ys' n) y ∧
      ∀ x, a + total size xs + total size ms + size y ≤ x → mem' x = mem x)
    (hseg : Seg mk size mem p a (xs ++ ms ++ ys) n) :
    Seg mk size mem' p a (xs ++ ms' ++ ys) n := by
  rw [List.append_assoc, seg_append, seg_append] at hseg ⊢
  obtain ⟨hx, hm, hy⟩ := hseg
  have hlink : ∀ l : List β, l ≠ [] →
      link (a + total size xs) (l ++ ys) n = some (a + total size xs) := by
    intro l hl
    cases l with
    | nil => exact absurd rfl hl
    | cons c l => rfl
  refine ⟨?_, ?_, ?_⟩
  · rw [hlink ms hms] at hx
    rw [hlink ms' hms']
    refine seg_congr mk size (fun x hx' => hbefore x ?_) hx
    exact (addrs_bounds size (fun c hc => hpos c (by simp [hc])) hx').2
  · rw [htotal]
    exact hmid
  · rw [htotal]
    cases ys with
    | nil => trivial
    | cons y ys =>
        obtain ⟨hhead, hrest⟩ := hfirst y ys rfl
        exact seg_relink mk size (fun c hc => hpos c (by simp [List.mem_cons.mp hc]))
          hhead hrest hy

end Fex.Lib.BlockList
