import Mathlib.Data.BitVec
import Mathlib.Data.FinEnum
import Mathlib.Data.Fintype.Card

/-!
# Masked words

Spreading the bits of a word down by shifts, and counting the words that a mask takes to
a value.
-/

namespace Fex.Lib

variable {w : Nat}

/-! ## Spreading bits -/

/-- A bit of `n` is set where a bit of `m` is set at one of the distances above it. -/
def Spread (distances : List Nat) (m n : BitVec w) : Prop :=
  ∀ j, n.getLsbD j = true ↔ ∃ d ∈ distances, m.getLsbD (j + d) = true

theorem spread_self (m : BitVec w) : Spread [0] m m := by
  intro j
  simp

/-- Another shift adds its distance to all that there are. -/
theorem Spread.shift {distances : List Nat} {m n : BitVec w} (h : Spread distances m n) (k : Nat) :
    Spread (distances ++ distances.map (· + k)) m (n ||| n >>> k) := by
  intro j
  rw [BitVec.getLsbD_or, BitVec.getLsbD_ushiftRight, Bool.or_eq_true, h j, h (k + j)]
  constructor
  · rintro (⟨d, hd, hbit⟩ | ⟨d, hd, hbit⟩)
    · exact ⟨d, List.mem_append_left _ hd, hbit⟩
    · refine ⟨d + k, List.mem_append_right _ (List.mem_map_of_mem hd), ?_⟩
      rw [← hbit]
      congr 1
      omega
  · rintro ⟨d, hd, hbit⟩
    rcases List.mem_append.mp hd with hd | hd
    · exact .inl ⟨d, hd, hbit⟩
    · obtain ⟨e, he, rfl⟩ := List.mem_map.mp hd
      refine .inr ⟨e, he, ?_⟩
      rw [← hbit]
      congr 1
      omega

/-- Every bit that is set is at most the highest one. -/
theorem Spread.toNat_lt {distances : List Nat} {m n : BitVec w} (h : Spread distances m n) {k : Nat}
    (hm : m.toNat < 2 ^ k) : n.toNat < 2 ^ k := by
  apply Nat.lt_pow_two_of_testBit
  intro j hj
  by_contra hbit
  obtain ⟨d, -, hd⟩ := (h j).mp (Bool.not_eq_false _ ▸ hbit)
  have hlarge : 2 ^ (j + d) ≤ m.toNat := Nat.ge_two_pow_of_testBit hd
  have hpow : 2 ^ k ≤ 2 ^ (j + d) := Nat.pow_le_pow_right (by decide) (by omega)
  omega

/-! ## Counting -/

theorem xor_and_distrib_right (x y mask : BitVec w) :
    (x ^^^ y) &&& mask = (x &&& mask) ^^^ (y &&& mask) := by
  apply BitVec.eq_of_getLsbD_eq
  intro i _
  simp only [BitVec.getLsbD_and, BitVec.getLsbD_xor]
  cases x.getLsbD i <;> cases y.getLsbD i <;> cases mask.getLsbD i <;> rfl

theorem xor_xor_self (x y : BitVec w) : x ^^^ y ^^^ y = x := by
  rw [BitVec.xor_assoc, BitVec.xor_self, BitVec.xor_zero]

/-- The values within a mask come from equally many words. -/
theorem card_masked_eq {mask v v' : BitVec w} (hv : v &&& mask = v) (hv' : v' &&& mask = v') :
    (Finset.univ.filter fun x : BitVec w => x &&& mask = v).card =
      (Finset.univ.filter fun x : BitVec w => x &&& mask = v').card := by
  have hflip : ∀ {a b x : BitVec w}, a &&& mask = a → b &&& mask = b → x &&& mask = a →
      (x ^^^ (a ^^^ b)) &&& mask = b := by
    intro a b x ha hb hx
    rw [xor_and_distrib_right, xor_and_distrib_right, ha, hb, hx, ← BitVec.xor_assoc,
      BitVec.xor_self, BitVec.zero_xor]
  refine Finset.card_bij' (fun x _ => x ^^^ (v ^^^ v')) (fun x _ => x ^^^ (v ^^^ v')) ?_ ?_ ?_ ?_
  · intro x hx
    rw [Finset.mem_filter] at hx ⊢
    exact ⟨Finset.mem_univ _, hflip hv hv' hx.2⟩
  · intro x hx
    rw [Finset.mem_filter] at hx ⊢
    rw [BitVec.xor_comm v v']
    exact ⟨Finset.mem_univ _, hflip hv' hv hx.2⟩
  · exact fun x _ => xor_xor_self x _
  · exact fun x _ => xor_xor_self x _

/-- Where flipping a bit makes a word good, and some word is good both ways, most words are
good. -/
theorem card_good {good : BitVec w → Prop} [DecidablePred good] (flip x₀ : BitVec w)
    (hflip : ∀ x, ¬ good x → good (x ^^^ flip)) (h₀ : good x₀) (h₁ : good (x₀ ^^^ flip)) :
    2 ^ w < 2 * (Finset.univ.filter good).card := by
  have hsplit := Finset.card_filter_add_card_filter_not (s := (Finset.univ : Finset (BitVec w))) good
  have hcard : (Finset.univ : Finset (BitVec w)).card = 2 ^ w := by
    rw [Finset.card_univ, Fintype.card_congr BitVec.equivFin.toEquiv, Fintype.card_fin]
  have himage : (Finset.univ.filter fun x => ¬ good x).image (· ^^^ flip) ⊂
      Finset.univ.filter good := by
    rw [Finset.ssubset_iff_of_subset]
    · refine ⟨x₀, Finset.mem_filter.mpr ⟨Finset.mem_univ _, h₀⟩, fun hmem => ?_⟩
      obtain ⟨x, hx, rfl⟩ := Finset.mem_image.mp hmem
      rw [xor_xor_self] at h₁
      exact (Finset.mem_filter.mp hx).2 h₁
    · intro y hy
      obtain ⟨x, hx, rfl⟩ := Finset.mem_image.mp hy
      exact Finset.mem_filter.mpr ⟨Finset.mem_univ _, hflip x (Finset.mem_filter.mp hx).2⟩
  have hlt := Finset.card_lt_card himage
  have hinjective : Function.Injective fun x : BitVec w => x ^^^ flip :=
    fun x y hxy => by
      have hback := congrArg (· ^^^ flip) hxy
      simpa only [xor_xor_self] using hback
  rw [Finset.card_image_of_injective _ hinjective] at hlt
  omega

end Fex.Lib
