import Mathlib.Data.List.Basic
import Mathlib.Tactic.Common

/-!
# Binary code trees

The leaves of a binary tree are the symbols of a prefix code: the word of a
symbol is the path to it.  `descend` follows bits until they run out or a leaf
is reached.
-/

namespace Fex.Lib

/-- A code tree: bit `false` selects the left child. -/
inductive PrefixTree (α : Type*)
  | leaf (s : α)
  | node (l r : PrefixTree α)

namespace PrefixTree

variable {α : Type*}

/-- Symbols from left to right. -/
def symbols : PrefixTree α → List α
  | leaf s => [s]
  | node l r => symbols l ++ symbols r

/-- Length of the longest word. -/
def depth : PrefixTree α → Nat
  | leaf _ => 0
  | node l r => max (depth l) (depth r) + 1

/-- The word of `s`, put together from the leaves up. -/
def wordOf [DecidableEq α] (s : α) : PrefixTree α → Option (List Bool)
  | leaf a => if a = s then some [] else none
  | node l r => ((wordOf s l).map (false :: ·)).or ((wordOf s r).map (true :: ·))

/-- `p` is the word of `s`. -/
inductive Word : PrefixTree α → List Bool → α → Prop
  | leaf (s : α) : Word (leaf s) [] s
  | left {l r : PrefixTree α} {p : List Bool} {s : α} :
      Word l p s → Word (node l r) (false :: p) s
  | right {l r : PrefixTree α} {p : List Bool} {s : α} :
      Word r p s → Word (node l r) (true :: p) s

/-- Follow bits down to a leaf, or as far as they go. -/
def descend : PrefixTree α → List Bool → PrefixTree α
  | leaf s, _ => leaf s
  | node l r, [] => node l r
  | node _ r, true :: p => descend r p
  | node l _, false :: p => descend l p

/-- Every symbol of the tree has a word. -/
theorem exists_word {t : PrefixTree α} {s : α} (h : s ∈ t.symbols) : ∃ p, Word t p s := by
  induction t with
  | leaf s' =>
      obtain rfl : s = s' := by simpa [symbols] using h
      exact ⟨[], .leaf s⟩
  | node l r ihl ihr =>
      rcases List.mem_append.mp h with h | h
      · obtain ⟨p, hp⟩ := ihl h
        exact ⟨false :: p, .left hp⟩
      · obtain ⟨p, hp⟩ := ihr h
        exact ⟨true :: p, .right hp⟩

theorem word_of_wordOf [DecidableEq α] {t : PrefixTree α} {p : List Bool} {s : α}
    (h : t.wordOf s = some p) : Word t p s := by
  induction t generalizing p with
  | leaf a =>
      simp only [wordOf, Option.ite_none_right_eq_some, Option.some.injEq] at h
      rw [h.1, ← h.2]
      exact .leaf s
  | node l r ihl ihr =>
      simp only [wordOf, Option.or_eq_some_iff, Option.map_eq_some_iff] at h
      rcases h with ⟨q, hq, rfl⟩ | ⟨-, q, hq, rfl⟩
      · exact .left (ihl hq)
      · exact .right (ihr hq)

theorem Word.mem_symbols {t : PrefixTree α} {p : List Bool} {s : α} (h : Word t p s) :
    s ∈ t.symbols := by
  induction h with
  | leaf s => simp [symbols]
  | left _ ih => simp [symbols, ih]
  | right _ ih => simp [symbols, ih]

theorem Word.length_le_depth {t : PrefixTree α} {p : List Bool} {s : α} (h : Word t p s) :
    p.length ≤ t.depth := by
  induction h with
  | leaf s => simp
  | left _ ih =>
      simp only [List.length_cons, depth]
      omega
  | right _ ih =>
      simp only [List.length_cons, depth]
      omega

/-- A word leads to its leaf, whatever follows: no word is a prefix of another. -/
theorem Word.descend {t : PrefixTree α} {p : List Bool} {s : α} (h : Word t p s)
    (rest : List Bool) : t.descend (p ++ rest) = .leaf s := by
  induction h with
  | leaf s => rfl
  | left _ ih => exact ih
  | right _ ih => exact ih

/-- A proper prefix of a word leads to an inner node, from which the rest of the word
remains. -/
theorem Word.descend_take {t : PrefixTree α} {p q : List Bool} {s : α} (h : Word t (p ++ q) s)
    (hq : q ≠ []) : (∃ l r, t.descend p = .node l r) ∧ Word (t.descend p) q s := by
  induction p generalizing t with
  | nil =>
      cases h with
      | leaf s => exact absurd rfl hq
      | left h => exact ⟨⟨_, _, rfl⟩, .left h⟩
      | right h => exact ⟨⟨_, _, rfl⟩, .right h⟩
  | cons b p ih =>
      cases h with
      | left h => exact ih h
      | right h => exact ih h

theorem depth_descend_le (t : PrefixTree α) (bs : List Bool) : (t.descend bs).depth ≤ t.depth := by
  induction bs generalizing t with
  | nil => cases t <;> exact Nat.le_refl _
  | cons b bs ih =>
      cases t with
      | leaf s => exact Nat.le_refl _
      | node l r =>
          rw [depth]
          cases b with
          | false => exact Nat.le_succ_of_le (Nat.le_trans (ih l) (Nat.le_max_left _ _))
          | true => exact Nat.le_succ_of_le (Nat.le_trans (ih r) (Nat.le_max_right _ _))

/-- Bits that reach a leaf start with its word; those that reach an inner node start every word
below it. -/
theorem descend_cases (t : PrefixTree α) (bs : List Bool) :
    (∃ s p rest, bs = p ++ rest ∧ Word t p s ∧ t.descend bs = .leaf s) ∨
      (∃ l r, t.descend bs = .node l r) ∧
        ∀ q s, Word (t.descend bs) q s → Word t (bs ++ q) s := by
  induction bs generalizing t with
  | nil =>
      cases t with
      | leaf s => exact .inl ⟨s, [], [], rfl, .leaf s, rfl⟩
      | node l r => exact .inr ⟨⟨l, r, rfl⟩, fun _ _ h => h⟩
  | cons b bs ih =>
      cases t with
      | leaf s => exact .inl ⟨s, [], b :: bs, rfl, .leaf s, rfl⟩
      | node l r =>
          cases b with
          | false =>
              rcases ih l with ⟨s, p, rest, rfl, hp, hleaf⟩ | ⟨hnode, hwords⟩
              · exact .inl ⟨s, false :: p, rest, rfl, .left hp, hleaf⟩
              · exact .inr ⟨hnode, fun q s h => .left (hwords q s h)⟩
          | true =>
              rcases ih r with ⟨s, p, rest, rfl, hp, hleaf⟩ | ⟨hnode, hwords⟩
              · exact .inl ⟨s, true :: p, rest, rfl, .right hp, hleaf⟩
              · exact .inr ⟨hnode, fun q s h => .right (hwords q s h)⟩

end PrefixTree

end Fex.Lib
