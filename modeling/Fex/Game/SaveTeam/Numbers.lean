import Fex.Game.SaveTeam.Lines

/-!
# Numbers of a saved team

The numbers of a line are read back from its text, and not from a part of it.
-/

namespace Fex.Game.SaveTeam

open Fex.Lib Fex.Base

/-! ## Numbers that are read -/

theorem length_scanInts (n : Nat) (s : List UInt8) : (scanInts n s).length ≤ n := by
  induction n generalizing s with
  | zero => exact Nat.le_refl 0
  | succ n ih =>
      rw [scanInts]
      simp only
      split
      next => exact Nat.zero_le _
      next => exact Nat.succ_le_succ (ih _)

/-- The digits of a number. -/
abbrev decimal (n : Nat) : List UInt8 := (Nat.toDigits 10 n).map fun c => UInt8.ofNat c.toNat

theorem isdigit_decimal (n : Nat) : ∀ b ∈ decimal n, isdigit b = true := (digitsValue_toDigits n).2

theorem le_foldl_digits (n : Nat) (l : List UInt8) :
    n ≤ l.foldl (fun n c => 10 * n + (c.toNat - 48)) n := by
  induction l generalizing n with
  | nil => exact Nat.le_refl n
  | cons c l ih =>
      have hle := ih (10 * n + (c.toNat - 48))
      rw [List.foldl_cons]
      omega

/-- More digits make a number larger. -/
theorem digitsValue_append (q : List UInt8) {r : List UInt8} (hr : r ≠ []) :
    10 * digitsValue q ≤ digitsValue (q ++ r) := by
  obtain ⟨c, r, rfl⟩ := List.exists_cons_of_ne_nil hr
  have hle := le_foldl_digits (10 * digitsValue q + (c.toNat - 48)) r
  unfold digitsValue at hle ⊢
  rw [List.foldl_append, List.foldl_cons]
  omega

/-- The first digits of a number with the value of all are all. -/
theorem decimal_of_part {n : Nat} {q : List UInt8} (hq : q <+: decimal n) (hne : q ≠ [])
    (hvalue : digitsValue q = n) : q = decimal n := by
  obtain ⟨r, hr⟩ := hq
  by_cases hnil : r = []
  · rw [← hr, hnil, List.append_nil]
  · have hle := digitsValue_append q hnil
    have hall : digitsValue (decimal n) = n := (digitsValue_toDigits n).1
    rw [hr, hall, hvalue] at hle
    have hzero : n = 0 := by omega
    have hlength := congrArg List.length hr
    rw [hzero, List.length_append] at hlength
    have hone : (decimal 0).length = 1 := rfl
    have hqpos := List.length_pos_iff.mpr hne
    have hrpos := List.length_pos_iff.mpr hnil
    omega

theorem digitsValue_part {n : Nat} {q : List UInt8} (hq : q <+: decimal n) :
    digitsValue q ≤ n := by
  obtain ⟨r, hr⟩ := hq
  have hall : digitsValue (decimal n) = n := (digitsValue_toDigits n).1
  by_cases hnil : r = []
  · rw [hnil, List.append_nil] at hr
    rw [hr, hall]
  · have hle := digitsValue_append q hnil
    rw [hr, hall] at hle
    omega

/-- A number in front of what is no digit. -/
theorem scanInts_digits (n : Nat) {s rest : List UInt8} {negative : Bool} {digits : List UInt8}
    (hsign : numberSign (s.dropWhile isspace) = (negative, digits ++ rest))
    (hdigits : ∀ b ∈ digits, isdigit b = true) (hrest : ∀ b ∈ rest.head?, isdigit b = false)
    (hvalue : digitsValue digits ≤ 2147483648) (hne : digits ≠ [])
    (hx : IsInt32 (if negative then -(digitsValue digits : Int) else digitsValue digits)) :
    scanInts (n + 1) s =
      (if negative then -(digitsValue digits : Int) else digitsValue digits) :: scanInts n rest := by
  have hnone : rest.takeWhile isdigit = [] ∧ rest.dropWhile isdigit = rest := by
    cases rest with
    | nil => exact ⟨rfl, rfl⟩
    | cons c rest =>
        have hc : ¬ isdigit c = true := by
          rw [hrest c rfl]
          exact Bool.false_ne_true
        exact ⟨List.takeWhile_cons_of_neg hc, List.dropWhile_cons_of_neg hc⟩
  have htake : (digits ++ rest).takeWhile isdigit = digits := by
    rw [List.takeWhile_append_of_pos hdigits, hnone.1, List.append_nil]
  have hdrop : (digits ++ rest).dropWhile isdigit = rest := by
    rw [List.dropWhile_append_of_pos hdigits, hnone.2]
  have hclamp : clampLong (if negative then -(digitsValue digits : Int) else digitsValue digits) =
      if negative then -(digitsValue digits : Int) else digitsValue digits := by
    unfold clampLong
    cases negative <;> simp <;> omega
  rw [scanInts, hsign]
  simp only [htake, hdrop, if_neg hne]
  rw [hclamp, wrap32_of_isInt32 hx]

/-- The sign of a number and its digits, or the first of them. -/
theorem numberSign_of_part {x : Int} {p : List UInt8} (hp : p <+: formatInt x) (hne : p ≠ [])
    (rest : List UInt8) :
    ∃ q, q <+: decimal x.natAbs ∧
      numberSign ((p ++ rest).dropWhile isspace) = (decide (x < 0), q ++ rest) ∧
      (q = decimal x.natAbs → p = formatInt x) ∧ (p = formatInt x → q = decimal x.natAbs) := by
  obtain ⟨b, p, rfl⟩ := List.exists_cons_of_ne_nil hne
  unfold formatInt at hp ⊢
  by_cases hneg : x < 0
  · rw [if_pos hneg] at hp ⊢
    obtain ⟨rfl, hq⟩ := List.cons_prefix_cons.mp hp
    refine ⟨p, hq, ?_, fun h => by rw [h], fun h => (List.cons.inj h).2⟩
    rw [decide_eq_true hneg]
    rfl
  · rw [if_neg hneg] at hp ⊢
    refine ⟨b :: p, hp, ?_, id, id⟩
    have hdigit := isdigit_decimal x.natAbs b (hp.subset List.mem_cons_self)
    have hb : 48 ≤ b.toNat ∧ b.toNat ≤ 57 := of_decide_eq_true hdigit
    have hspace : ¬ isspace b = true := by
      intro h
      have hb' : b = 32 ∨ 9 ≤ b.toNat ∧ b.toNat ≤ 13 := of_decide_eq_true h
      rcases hb' with rfl | hb'
      · exact absurd hb.1 (by decide)
      · omega
    have h45 : b ≠ 45 := by
      rintro rfl
      exact absurd hb.1 (by decide)
    have h43 : b ≠ 43 := by
      rintro rfl
      exact absurd hb.1 (by decide)
    rw [List.cons_append, List.dropWhile_cons_of_neg hspace, decide_eq_false hneg]
    unfold numberSign
    split
    next heq => exact absurd (List.cons.inj heq).1 h45
    next heq => exact absurd (List.cons.inj heq).1 h43
    next => rfl

theorem scanInts_nil (n : Nat) : scanInts n [] = [] := by
  cases n <;> rfl

theorem decimal_ne_nil (n : Nat) : decimal n ≠ [] := by
  intro hnil
  rw [List.map_eq_nil_iff] at hnil
  exact absurd hnil (toDigits_ne_nil 10 n)

theorem formatInt_ne_nil (x : Int) : formatInt x ≠ [] := by
  unfold formatInt
  split
  next => exact List.cons_ne_nil _ _
  next => exact decimal_ne_nil _

theorem signed_natAbs (x : Int) :
    (if decide (x < 0) = true then -(x.natAbs : Int) else (x.natAbs : Int)) = x := by
  by_cases hneg : x < 0
  · rw [if_pos (decide_eq_true hneg)]
    omega
  · rw [if_neg (by rw [decide_eq_false hneg]; exact Bool.false_ne_true)]
    omega

/-- A number that was written is read. -/
theorem scanInts_formatInt (n : Nat) {x : Int} (hx : IsInt32 x) {rest : List UInt8}
    (hrest : ∀ b ∈ rest.head?, isdigit b = false) :
    scanInts (n + 1) (formatInt x ++ rest) = x :: scanInts n rest := by
  obtain ⟨q, -, hsign, -, hq⟩ := numberSign_of_part List.prefix_rfl (formatInt_ne_nil x) rest
  rw [hq rfl] at hsign
  have hvalue : digitsValue (decimal x.natAbs) = x.natAbs := (digitsValue_toDigits x.natAbs).1
  have hsigned := signed_natAbs x
  rw [← hvalue] at hsigned
  have hscan := scanInts_digits n hsign (isdigit_decimal _) hrest (by
    unfold IsInt32 at hx
    rw [hvalue]
    omega) (decimal_ne_nil _) (by rw [hsigned]; exact hx)
  rw [hscan, hsigned]

/-- Of a part of a number at most one is read, and it is another one. -/
theorem scanInts_part (n : Nat) {x : Int} (hx : IsInt32 x) {p : List UInt8}
    (hp : p <+: formatInt x) :
    scanInts n p = [] ∨ ∃ v, scanInts n p = [v] ∧ (v = x → p = formatInt x) := by
  cases n with
  | zero => exact .inl rfl
  | succ n =>
      by_cases hnil : p = []
      · rw [hnil]
        exact .inl rfl
      · obtain ⟨q, hq, hsign, hall, -⟩ := numberSign_of_part hp hnil []
        rw [List.append_nil] at hsign
        by_cases hqnil : q = []
        · left
          rw [hqnil] at hsign
          rw [scanInts, hsign]
          rfl
        · right
          have hle := digitsValue_part hq
          unfold IsInt32 at hx
          have hint : IsInt32 (if decide (x < 0) = true then -(digitsValue q : Int)
              else digitsValue q) := by
            unfold IsInt32
            by_cases hneg : x < 0
            · rw [if_pos (decide_eq_true hneg)]
              omega
            · rw [if_neg (by rw [decide_eq_false hneg]; exact Bool.false_ne_true)]
              omega
          have hscan := scanInts_digits n hsign
            (fun b hb => isdigit_decimal _ b (hq.subset hb)) (fun b hb => by cases hb) (by omega)
            hqnil hint
          rw [scanInts_nil] at hscan
          refine ⟨_, hscan, fun hv => hall (decimal_of_part hq hqnil ?_)⟩
          by_cases hneg : x < 0
          · rw [if_pos (decide_eq_true hneg)] at hv
            omega
          · rw [if_neg (by rw [decide_eq_false hneg]; exact Bool.false_ne_true)] at hv
            omega

theorem scanInts_tab (n : Nat) (s : List UInt8) : scanInts n (9 :: s) = scanInts n s := by
  cases n with
  | zero => rfl
  | succ n => rfl

theorem scanInts_formatInts {ints : List Int} (h : ∀ x ∈ ints, IsInt32 x) :
    scanInts ints.length (formatInts ints) = ints := by
  induction ints with
  | nil => rfl
  | cons x ints ih =>
      have hx := h x List.mem_cons_self
      have hrest := ih fun y hy => h y (List.mem_cons_of_mem _ hy)
      cases ints with
      | nil =>
          have hscan := @scanInts_formatInt 0 x hx [] fun b hb => by cases hb
          rw [List.append_nil] at hscan
          exact hscan
      | cons y ints =>
          have hscan := @scanInts_formatInt (y :: ints).length x hx (9 :: formatInts (y :: ints))
            fun b hb => by rw [← Option.some.inj hb]; rfl
          rw [scanInts_tab, hrest] at hscan
          exact hscan

/-- Numbers are not read from a part of their text. -/
theorem formatInts_of_part {ints : List Int} (hne : ints ≠ []) (h : ∀ x ∈ ints, IsInt32 x)
    {p : List UInt8} (hp : p <+: formatInts ints) (hscan : scanInts ints.length p = ints) :
    p = formatInts ints := by
  induction ints generalizing p with
  | nil => exact absurd rfl hne
  | cons x ints ih =>
      have hx := h x List.mem_cons_self
      cases ints with
      | nil =>
          rcases scanInts_part 1 hx hp with hnil | ⟨v, hv, heq⟩
          · rw [show scanInts 1 p = [x] from hscan] at hnil
            cases hnil
          · rw [show scanInts 1 p = [x] from hscan] at hv
            exact heq (List.cons.inj hv).1.symm
      | cons y ints =>
          have hp' : p <+: formatInt x ++ 9 :: formatInts (y :: ints) := hp
          -- the text of the first number is not cut, because two numbers are read
          have hlong : ¬ p <+: formatInt x := by
            intro hshort
            rcases scanInts_part (x :: y :: ints).length hx hshort with hnil | ⟨v, hv, -⟩
            · rw [hnil] at hscan
              cases hscan
            · rw [hv] at hscan
              cases (List.cons.inj hscan).2
          obtain ⟨q, rfl⟩ := (List.prefix_or_prefix_of_prefix hp' (List.prefix_append _ _)).resolve_left
            hlong
          rw [List.prefix_append_right_inj] at hp'
          cases q with
          | nil =>
              rw [List.append_nil] at hlong
              exact absurd List.prefix_rfl hlong
          | cons b q =>
              obtain ⟨rfl, hq⟩ := List.cons_prefix_cons.mp hp'
              have hfirst := @scanInts_formatInt (y :: ints).length x hx (9 :: q)
                fun b hb => by rw [← Option.some.inj hb]; rfl
              rw [scanInts_tab] at hfirst
              rw [List.length_cons, hfirst] at hscan
              have hrest := ih (List.cons_ne_nil _ _) (fun z hz => h z (List.mem_cons_of_mem _ hz)) hq
                (List.cons.inj hscan).2
              rw [hrest]
              rfl

end Fex.Game.SaveTeam
