import Fex.Lib.CInt
import Fex.Lib.Masks

/-!
# Random numbers below a bound

Model of `secure_rand_below`: a random word is masked and returned if it is below the bound.
The mask is spread from `below - 1` by shifts; a word is drawn for every round.
-/

namespace Fex.Base

open Fex.Lib

def find_next_power_of_two_minus_one (n : BitVec 32) : BitVec 32 :=
  let n := n - 1
  let n := n ||| n >>> 1
  let n := n ||| n >>> 2
  let n := n ||| n >>> 4
  let n := n ||| n >>> 4
  let n := n ||| n >>> 16
  n

/-- The rounds of the loop, one for each word; `none` where the words are used up. -/
def randLoop (mask : BitVec 32) (below : Int) : List (BitVec 32) → Option Int
  | [] => none
  | n :: words =>
      let n := n &&& mask
      if n.toInt < below then some n.toInt else randLoop mask below words

def secure_rand_below (below : Int) (words : List (BitVec 32)) : Exec (Option Int) :=
  let mask := find_next_power_of_two_minus_one (BitVec.ofInt 32 below)
  if below > 0 then .ok (randLoop mask below words) else .error .assertion

/-- The distances that the shifts add up to. -/
def maskDistances : List Nat :=
  [1, 2, 4, 4, 16].foldl (fun distances k => distances ++ distances.map (· + k)) [0]

/-- Every bit up to the highest one of `below - 1` has a bit of `below - 1` at one of the
distances 0 to 11 and 16 to 27 above it. -/
def NoGap (below : Int) : Prop :=
  ∀ j, j < 32 → (2 ^ j : Int) ≤ below - 1 →
    ∃ d, (d ≤ 11 ∨ 16 ≤ d ∧ d ≤ 27) ∧ (below - 1).toNat.testBit (j + d) = true

/-- The words for which a value is returned at once. -/
def wordsFor (below v : Int) : Finset (BitVec 32) :=
  Finset.univ.filter fun n => secure_rand_below below [n] = .ok (some v)

/-- The words that are accepted. -/
def accepted (below : Int) : Finset (BitVec 32) :=
  Finset.univ.filter fun n => secure_rand_below below [n] ≠ .ok none

/-- All values are within the mask and returned for equally many words, the mask is smaller than
twice the bound, and more than half of the words are accepted. -/
structure RangeComplete (below : Int) : Prop where
  masked : ∀ v, 0 ≤ v → v < below →
    BitVec.ofInt 32 v &&& find_next_power_of_two_minus_one (BitVec.ofInt 32 below) = BitVec.ofInt 32 v
  returned : ∀ v, 0 ≤ v → v < below → ∃ n, secure_rand_below below [n] = .ok (some v)
  likely : ∀ v v', 0 ≤ v → v < below → 0 ≤ v' → v' < below →
    (wordsFor below v).card = (wordsFor below v').card
  mask_lt :
    ((find_next_power_of_two_minus_one (BitVec.ofInt 32 below)).toNat : Int) < 2 * below
  half : 2 ^ 32 < 2 * (accepted below).card

/-! ## The mask -/

theorem mem_maskDistances (d : Nat) : d ∈ maskDistances ↔ d ≤ 11 ∨ 16 ≤ d ∧ d ≤ 27 := by
  have hall : ∀ d ∈ maskDistances, d ≤ 11 ∨ 16 ≤ d ∧ d ≤ 27 := by decide
  constructor
  · exact hall d
  · intro h
    have hlt : d < 28 := by omega
    have hmem : ∀ d : Fin 28, (d.val ≤ 11 ∨ 16 ≤ d.val ∧ d.val ≤ 27) → d.val ∈ maskDistances := by
      decide
    exact hmem ⟨d, hlt⟩ h

theorem spread_mask (n : BitVec 32) :
    Spread maskDistances (n - 1) (find_next_power_of_two_minus_one n) :=
  (((((spread_self (n - 1)).shift 1).shift 2).shift 4).shift 4).shift 16

section

variable {below : Int}

theorem toNat_below_sub_one (h₀ : 0 < below) (h₁ : IsInt32 below) :
    (BitVec.ofInt 32 below - 1).toNat = (below - 1).toNat := by
  unfold IsInt32 at h₁
  have hbelow : BitVec.ofInt 32 below = BitVec.ofNat 32 below.toNat := by
    rw [← BitVec.ofInt_natCast, Int.toNat_of_nonneg (by omega)]
  rw [hbelow, BitVec.toNat_sub, BitVec.toNat_ofNat]
  show (2 ^ 32 - 1 + below.toNat % 2 ^ 32) % 2 ^ 32 = _
  omega

theorem toNat_value {v : Int} (h₀ : 0 ≤ v) (h₁ : v < 2147483648) :
    (BitVec.ofInt 32 v).toNat = v.toNat := by
  have hv : BitVec.ofInt 32 v = BitVec.ofNat 32 v.toNat := by
    rw [← BitVec.ofInt_natCast, Int.toNat_of_nonneg h₀]
  rw [hv, BitVec.toNat_ofNat]
  omega

/-- The mask has no bit above the highest one of `below - 1`. -/
theorem mask_bounds (h₀ : 0 < below) (h₁ : IsInt32 below) {k : Nat}
    (hk : (below - 1).toNat < 2 ^ k) :
    (find_next_power_of_two_minus_one (BitVec.ofInt 32 below)).toNat < 2 ^ k := by
  apply (spread_mask (BitVec.ofInt 32 below)).toNat_lt
  rw [toNat_below_sub_one h₀ h₁]
  exact hk

/-- The highest bit of `below - 1`, which the mask has. -/
theorem mask_top (h₀ : 1 < below) (h₁ : IsInt32 below) :
    ∃ k, k < 31 ∧ 2 ^ k ≤ (below - 1).toNat ∧ (below - 1).toNat < 2 ^ (k + 1) ∧
      (find_next_power_of_two_minus_one (BitVec.ofInt 32 below)).getLsbD k = true := by
  have hne : (below - 1).toNat ≠ 0 := by omega
  have hle := Nat.log2_self_le hne
  have hlt : (below - 1).toNat < 2 ^ ((below - 1).toNat.log2 + 1) := Nat.lt_log2_self
  have hsmall : (below - 1).toNat.log2 < 31 := by
    apply (Nat.log2_lt hne).mpr
    unfold IsInt32 at h₁
    omega
  refine ⟨(below - 1).toNat.log2, hsmall, hle, hlt, ?_⟩
  rw [spread_mask]
  refine ⟨0, (mem_maskDistances 0).mpr (.inl (by decide)), ?_⟩
  rw [Nat.add_zero, BitVec.getLsbD, toNat_below_sub_one (by omega) h₁]
  exact Nat.testBit_log2 hne

theorem mask_lt (h₀ : 0 < below) (h₁ : IsInt32 below) :
    ((find_next_power_of_two_minus_one (BitVec.ofInt 32 below)).toNat : Int) < 2 * below := by
  by_cases hone : below = 1
  · subst hone
    decide
  · obtain ⟨k, -, hle, hlt, -⟩ := mask_top (by omega) h₁
    have hbound := mask_bounds h₀ h₁ hlt
    rw [Nat.pow_succ] at hbound
    omega

/-! ## Words -/

/-- A masked word is not negative. -/
theorem toInt_masked (h₀ : 0 < below) (h₁ : IsInt32 below) (n : BitVec 32) :
    (n &&& find_next_power_of_two_minus_one (BitVec.ofInt 32 below)).toInt =
      (n &&& find_next_power_of_two_minus_one (BitVec.ofInt 32 below)).toNat := by
  have hmask := mask_bounds h₀ h₁ (show (below - 1).toNat < 2 ^ 31 by unfold IsInt32 at h₁; omega)
  apply BitVec.toInt_eq_toNat_of_lt
  rw [BitVec.toNat_and]
  have hle := Nat.and_le_right (n := n.toNat)
    (m := (find_next_power_of_two_minus_one (BitVec.ofInt 32 below)).toNat)
  omega

theorem secure_rand_below_word (h₀ : 0 < below) (h₁ : IsInt32 below) (n : BitVec 32) :
    secure_rand_below below [n] = .ok
      (if ((n &&& find_next_power_of_two_minus_one (BitVec.ofInt 32 below)).toNat : Int) < below then
        some ((n &&& find_next_power_of_two_minus_one (BitVec.ofInt 32 below)).toNat : Int)
      else none) := by
  unfold secure_rand_below randLoop
  rw [if_pos h₀]
  simp only [toInt_masked h₀ h₁]
  rfl

/-- Clearing the highest bit. -/
theorem clear_top_lt {m k : Nat} (hle : 2 ^ k ≤ m) (hlt : m < 2 ^ (k + 1)) : m ^^^ 2 ^ k < 2 ^ k := by
  apply Nat.lt_pow_two_of_testBit
  intro i hi
  rw [Nat.testBit_xor]
  by_cases hik : i = k
  · subst hik
    rw [Nat.testBit_of_two_pow_le_and_two_pow_add_one_gt hle hlt, Nat.testBit_two_pow_self]
    rfl
  · have hm : m.testBit i = false :=
      Nat.testBit_lt_two_pow (Nat.lt_of_lt_of_le hlt (Nat.pow_le_pow_right (by decide) (by omega)))
    rw [hm, Nat.testBit_two_pow_of_ne (Ne.symm hik)]
    rfl

/-- More than half of the words are accepted, also where the mask has gaps: flipping the highest
bit makes a word small enough. -/
theorem half_accepted (h₀ : 0 < below) (h₁ : IsInt32 below) :
    2 ^ 32 < 2 * (accepted below).card := by
  have hgood : ∀ n : BitVec 32, secure_rand_below below [n] ≠ .ok none ↔
      ((n &&& find_next_power_of_two_minus_one (BitVec.ofInt 32 below)).toNat : Int) < below := by
    intro n
    rw [secure_rand_below_word h₀ h₁]
    split
    next hlt => exact iff_of_true (fun hc => by cases hc) hlt
    next hlt => exact iff_of_false (fun hc => hc rfl) hlt
  unfold accepted
  by_cases hone : below = 1
  · subst hone
    have hmask : find_next_power_of_two_minus_one (BitVec.ofInt 32 1) = 0#32 := by decide
    have hall : ∀ n : BitVec 32, secure_rand_below 1 [n] ≠ .ok none := by
      intro n
      rw [hgood, hmask, BitVec.and_zero]
      decide
    exact card_good 0#32 0#32 (fun n hn => absurd (hall n) hn) (hall 0) (hall _)
  · obtain ⟨k, hk, hle, hlt, htop⟩ := mask_top (by omega) h₁
    have hbound := mask_bounds h₀ h₁ hlt
    have hflip : BitVec.twoPow 32 k &&&
        find_next_power_of_two_minus_one (BitVec.ofInt 32 below) = BitVec.twoPow 32 k := by
      rw [BitVec.and_comm, BitVec.and_twoPow, if_pos htop]
    have hpow : (BitVec.twoPow 32 k).toNat = 2 ^ k := by
      rw [BitVec.toNat_twoPow]
      exact Nat.mod_eq_of_lt (Nat.pow_lt_pow_right (by decide) (by omega))
    apply card_good (BitVec.twoPow 32 k) 0#32
    · intro n hn
      rw [hgood] at hn ⊢
      rw [xor_and_distrib_right, hflip, BitVec.toNat_xor, hpow]
      rw [BitVec.toNat_and] at hn ⊢
      have hmasked := Nat.lt_of_le_of_lt (Nat.and_le_right (n := n.toNat)
        (m := (find_next_power_of_two_minus_one (BitVec.ofInt 32 below)).toNat)) hbound
      have hsmall := clear_top_lt (by omega) hmasked
      omega
    · rw [hgood, BitVec.zero_and]
      exact h₀
    · rw [hgood, BitVec.zero_xor, hflip, hpow]
      omega

/-! ## The range -/

/-- The bits of the mask are those that have a bit of `below - 1` above them. -/
theorem mask_complete_iff (h₀ : 0 < below) (h₁ : IsInt32 below) :
    (∀ v, 0 ≤ v → v < below →
      BitVec.ofInt 32 v &&& find_next_power_of_two_minus_one (BitVec.ofInt 32 below) =
        BitVec.ofInt 32 v) ↔ NoGap below := by
  have hmax : below ≤ 2147483647 := h₁.2
  have hbit : ∀ j, (find_next_power_of_two_minus_one (BitVec.ofInt 32 below)).getLsbD j = true ↔
      ∃ d, (d ≤ 11 ∨ 16 ≤ d ∧ d ≤ 27) ∧ (below - 1).toNat.testBit (j + d) = true := by
    intro j
    rw [spread_mask]
    simp only [mem_maskDistances, BitVec.getLsbD, toNat_below_sub_one h₀ h₁]
  constructor
  · intro hall j hj hle
    rw [← hbit]
    have hvalue := hall (2 ^ j) (Int.pow_nonneg (by decide)) (by omega)
    have hpow : (BitVec.ofInt 32 (2 ^ j)).getLsbD j = true := by
      rw [BitVec.getLsbD, toNat_value (Int.pow_nonneg (by decide)) (by omega)]
      have hnat : ((2 : Int) ^ j).toNat = 2 ^ j := by
        rw [← Int.toNat_natCast (2 ^ j)]
        congr 1
      rw [hnat, Nat.testBit_two_pow_self]
    have hboth := congrArg (fun x => BitVec.getLsbD x j) hvalue
    simp only [BitVec.getLsbD_and, hpow, Bool.true_and] at hboth
    exact hboth
  · intro hgap v hv hlt
    apply BitVec.eq_of_getLsbD_eq
    intro j hj
    rw [BitVec.getLsbD_and]
    cases hset : (BitVec.ofInt 32 v).getLsbD j with
    | false => rfl
    | true =>
        rw [Bool.true_and, hbit]
        have hle : 2 ^ j ≤ v.toNat := by
          rw [BitVec.getLsbD, toNat_value hv (by omega)] at hset
          exact Nat.ge_two_pow_of_testBit hset
        apply hgap j hj
        have hcast : ((2 ^ j : Nat) : Int) = (2 : Int) ^ j := by push_cast; rfl
        rw [← hcast]
        omega

/-- Random numbers cover their range exactly where the mask has no gap. -/
theorem secure_rand_below_complete (h₀ : 0 < below) (h₁ : IsInt32 below) :
    RangeComplete below ↔ NoGap below := by
  have hmax : below ≤ 2147483647 := h₁.2
  rw [← mask_complete_iff h₀ h₁]
  refine ⟨fun h => h.masked, fun hmasked => ?_⟩
  -- a value is returned for the words that the mask takes to it
  have hword : ∀ v, 0 ≤ v → v < below → ∀ n : BitVec 32,
      secure_rand_below below [n] = .ok (some v) ↔
        n &&& find_next_power_of_two_minus_one (BitVec.ofInt 32 below) = BitVec.ofInt 32 v := by
    intro v hv hlt n
    have hnat := toNat_value hv (by omega)
    rw [secure_rand_below_word h₀ h₁]
    constructor
    · intro heq
      split at heq
      · apply BitVec.eq_of_toNat_eq
        have hvalue := Option.some.inj (Except.ok.inj heq)
        omega
      · cases heq
    · intro heq
      have hvalue : ((BitVec.ofInt 32 v).toNat : Int) = v := by omega
      rw [heq, hvalue, if_pos hlt]
  refine ⟨hmasked, fun v hv hlt => ?_, fun v v' hv hlt hv' hlt' => ?_, mask_lt h₀ h₁,
    half_accepted h₀ h₁⟩
  · exact ⟨BitVec.ofInt 32 v, (hword v hv hlt _).mpr (hmasked v hv hlt)⟩
  · have hcard := card_masked_eq (hmasked v hv hlt) (hmasked v' hv' hlt')
    unfold wordsFor
    simp only [hword v hv hlt, hword v' hv' hlt']
    exact hcard

end

/-- The mask of a bound up to 4096 has no gap. -/
theorem secure_rand_below_complete_six : RangeComplete 6 ↔ NoGap 6 :=
  secure_rand_below_complete (by decide) (by decide)

/-- The mask of 4097 is 8190: odd numbers are never returned. -/
theorem secure_rand_below_gap : ¬ RangeComplete 4097 := by
  intro h
  have hone := h.masked 1 (by decide) (by decide)
  revert hone
  decide

end Fex.Base
