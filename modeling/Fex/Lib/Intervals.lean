import Mathlib.Data.Int.Basic
import Mathlib.Tactic.Common

/-!
# Consecutive intervals

A list of starts and lengths, each interval right behind the one before.  Between the
two ends every point lies in exactly one of them.
-/

namespace Fex.Lib

/-- Nonempty intervals that go from `a` to `b`. -/
def Consecutive : Int → List (Int × Int) → Int → Prop
  | a, [], b => a = b
  | a, p :: l, b => p.1 = a ∧ 0 < p.2 ∧ Consecutive (a + p.2) l b

/-- The point lies in the interval with the number `k`. -/
def Covers (l : List (Int × Int)) (x : Int) (k : Nat) : Prop :=
  ∃ p, l[k]? = some p ∧ p.1 ≤ x ∧ x < p.1 + p.2

namespace Consecutive

variable {a b x : Int} {l : List (Int × Int)}

theorem le (h : Consecutive a l b) : a ≤ b := by
  induction l generalizing a with
  | nil => exact Int.le_of_eq h
  | cons p l ih =>
      obtain ⟨-, hpos, hrest⟩ := h
      have hle := ih hrest
      omega

theorem bounds (h : Consecutive a l b) {p : Int × Int} (hp : p ∈ l) :
    a ≤ p.1 ∧ 0 < p.2 ∧ p.1 + p.2 ≤ b := by
  induction l generalizing a with
  | nil => cases hp
  | cons q l ih =>
      obtain ⟨hstart, hpos, hrest⟩ := h
      rcases List.mem_cons.mp hp with rfl | hp
      · have hle := hrest.le
        omega
      · have hin := ih hrest hp
        omega

theorem exists_covers (h : Consecutive a l b) (hlo : a ≤ x) (hhi : x < b) :
    ∃ k, Covers l x k := by
  induction l generalizing a with
  | nil =>
      have heq : a = b := h
      omega
  | cons p l ih =>
      obtain ⟨hstart, hpos, hrest⟩ := h
      by_cases hin : x < a + p.2
      · refine ⟨0, p, rfl, ?_, ?_⟩ <;> omega
      · obtain ⟨k, q, hq, hcover⟩ := ih hrest (by omega)
        exact ⟨k + 1, q, hq, hcover⟩

/-- An interval that covers the point is the only one: the others end before or start behind. -/
theorem covers_unique (h : Consecutive a l b) {j k : Nat} (hj : Covers l x j) (hk : Covers l x k) :
    j = k := by
  induction l generalizing a j k with
  | nil =>
      obtain ⟨p, hp, -⟩ := hj
      cases hp
  | cons p l ih =>
      obtain ⟨hstart, hpos, hrest⟩ := h
      obtain ⟨q, hq, hqlo, hqhi⟩ := hj
      obtain ⟨r, hr, hrlo, hrhi⟩ := hk
      cases j with
      | zero =>
          cases k with
          | zero => rfl
          | succ k =>
              have hin := hrest.bounds (List.mem_of_getElem? hr)
              cases hq
              omega
      | succ j =>
          cases k with
          | zero =>
              have hin := hrest.bounds (List.mem_of_getElem? hq)
              cases hr
              omega
          | succ k => rw [ih hrest ⟨q, hq, hqlo, hqhi⟩ ⟨r, hr, hrlo, hrhi⟩]

theorem existsUnique_covers (h : Consecutive a l b) (hlo : a ≤ x) (hhi : x < b) :
    ∃! k, Covers l x k := by
  obtain ⟨k, hk⟩ := h.exists_covers hlo hhi
  exact ⟨k, hk, fun j hj => h.covers_unique hj hk⟩

end Consecutive

/-! ## Starts in a row -/

/-- The intervals between starts, the last one up to the end. -/
def between (starts : List Int) (stop : Int) : List (Int × Int) :=
  List.zipWith (fun s t => (s, t - s)) starts (starts.tail ++ [stop])

theorem between_cons (s t : Int) (starts : List Int) (stop : Int) :
    between (s :: t :: starts) stop = (s, t - s) :: between (t :: starts) stop := rfl

theorem between_singleton (s stop : Int) : between [s] stop = [(s, stop - s)] := rfl

theorem length_between (starts : List Int) (stop : Int) :
    (between starts stop).length = starts.length := by
  cases starts with
  | nil => rfl
  | cons s starts =>
      unfold between
      rw [List.length_zipWith, List.tail_cons, List.length_append, List.length_cons,
        List.length_singleton, Nat.min_self]

theorem consecutive_between {s stop : Int} {starts : List Int}
    (hsorted : (s :: starts).Pairwise (· < ·)) (hstop : ∀ t ∈ s :: starts, t < stop) :
    Consecutive s (between (s :: starts) stop) stop := by
  induction starts generalizing s with
  | nil =>
      have hlt := hstop s List.mem_cons_self
      rw [between_singleton]
      refine ⟨rfl, by omega, ?_⟩
      show s + (stop - s) = stop
      omega
  | cons t starts ih =>
      obtain ⟨hlt, hsorted⟩ := List.pairwise_cons.mp hsorted
      have hst := hlt t List.mem_cons_self
      have hrest := ih hsorted fun u hu => hstop u (List.mem_cons_of_mem s hu)
      rw [between_cons]
      refine ⟨rfl, by omega, ?_⟩
      show Consecutive (s + (t - s)) _ _
      rw [show s + (t - s) = t by omega]
      exact hrest

/-- A start of the list. -/
def startAt (starts : List Int) (i : Int) : Int := starts.getD i.toNat 0

/-- Its length, up to the next start or to the end. -/
def sizeAt (starts : List Int) (stop i : Int) : Int :=
  if i = starts.length - 1 then stop - startAt starts i
  else startAt starts (i + 1) - startAt starts i

theorem getElem?_between {starts : List Int} (stop : Int) {i : Int} (h₀ : 0 ≤ i)
    (h₁ : i < starts.length) :
    (between starts stop)[i.toNat]? = some (startAt starts i, sizeAt starts stop i) := by
  obtain ⟨k, rfl⟩ := Int.eq_ofNat_of_zero_le h₀
  have hk : k < starts.length := by omega
  have hsucc : ((k : Int) + 1).toNat = k + 1 := by omega
  have hlength : starts.tail.length = starts.length - 1 := List.length_tail
  unfold between sizeAt startAt
  rw [List.getElem?_zipWith, Int.toNat_natCast, hsucc, List.getD_eq_getElem?_getD,
    List.getD_eq_getElem?_getD, List.getElem?_eq_getElem hk]
  by_cases hlast : (k : Int) = starts.length - 1
  · rw [if_pos hlast, List.getElem?_append_right (by omega), show k - starts.tail.length = 0 by omega]
    rfl
  · have hk' : k + 1 < starts.length := by omega
    rw [if_neg hlast, List.getElem?_append_left (by omega), List.getElem?_tail,
      List.getElem?_eq_getElem hk']
    rfl

theorem covers_between_iff {starts : List Int} {stop i x : Int} (h₀ : 0 ≤ i) :
    Covers (between starts stop) x i.toNat ↔ i < starts.length ∧ startAt starts i ≤ x ∧
      x < startAt starts i + sizeAt starts stop i := by
  constructor
  · rintro ⟨p, hp, hlo, hhi⟩
    have hlt := (List.getElem?_eq_some_iff.mp hp).1
    rw [length_between] at hlt
    rw [getElem?_between stop h₀ (by omega)] at hp
    cases hp
    exact ⟨by omega, hlo, hhi⟩
  · rintro ⟨h₁, hlo, hhi⟩
    exact ⟨_, getElem?_between stop h₀ h₁, hlo, hhi⟩

end Fex.Lib
