import Fex.Base.Characters
import Fex.Game.SaveTeam
import Mathlib.Data.List.Forall2
import Mathlib.Data.Nat.Digits.Defs

/-!
# Lines of a saved team

What `GetString` writes of a line, and the lines that `FromString` reads: behind the last one it
reads the last one again.
-/

namespace Fex.Game.SaveTeam

open Fex.Lib Fex.Base

/-! ## Written lines -/

theorem appendLine_eq (s line : List UInt8) (n : Nat) :
    appendLine s line n =
      str_utf8_fix_truncation ((s ++ str_format (10 :: line) n).take 65535) := by
  unfold appendLine str_append
  rw [appendLoop_eq, List.take_append, List.take_append, List.take_take]
  congr 3
  omega

/-- What is written of a tee's line. -/
def Written (line w : List UInt8) : Prop :=
  w <+: line.take 1022 ∧ (line.length ≤ 1022 → str_utf8_fix_truncation line = line → w = line)

theorem fix_newline {line : List UInt8} (h : str_utf8_fix_truncation line = line)
    (p : List UInt8) : str_utf8_fix_truncation (p ++ 10 :: line) = p ++ 10 :: line := by
  cases line with
  | nil => exact fix_truncation_ascii p (by decide)
  | cons b line =>
      have happend := fix_truncation_append h (List.cons_ne_nil b line) (p ++ [10])
      rw [List.append_assoc] at happend
      exact happend

theorem appendLine_tee {s line : List UInt8} (hs : 1023 + s.length ≤ 65535) :
    ∃ w, appendLine s line 1024 = s ++ 10 :: w ∧ Written line w := by
  have hformat : str_format (10 :: line) 1024 = str_utf8_fix_truncation (10 :: line.take 1022) := rfl
  obtain ⟨w₁, hw₁⟩ := fix_truncation_keeps [] (b := 10) (by decide) (line.take 1022)
  rw [List.nil_append, List.nil_append] at hw₁
  have hprefix₁ : w₁ <+: line.take 1022 := by
    have hprefix := prefix_fix_truncation (10 :: line.take 1022)
    rw [hw₁] at hprefix
    exact (List.cons_prefix_cons.mp hprefix).2
  have hlength : w₁.length ≤ 1022 :=
    Nat.le_trans hprefix₁.length_le (List.length_take_le _ _)
  have htake : (s ++ 10 :: w₁).take 65535 = s ++ 10 :: w₁ := by
    apply List.take_of_length_le
    rw [List.length_append, List.length_cons]
    omega
  obtain ⟨w, hw⟩ := fix_truncation_keeps s (b := 10) (by decide) w₁
  refine ⟨w, ?_, ?_, fun hline hfix => ?_⟩
  · rw [appendLine_eq, hformat, hw₁, htake, hw]
  · have hprefix := prefix_fix_truncation (s ++ 10 :: w₁)
    rw [hw, List.prefix_append_right_inj] at hprefix
    exact (List.cons_prefix_cons.mp hprefix).2.trans hprefix₁
  · rw [List.take_of_length_le hline, show (10 :: line : List UInt8) = [] ++ 10 :: line from rfl,
      fix_newline hfix] at hw₁
    have hw₁ : w₁ = line := (List.cons.inj hw₁).2.symm
    rw [hw₁, fix_newline hfix] at hw
    exact (List.cons.inj (List.append_cancel_left hw)).2.symm

/-- The lines of the tees are written behind the string. -/
theorem foldl_tees {tees : List (List UInt8)} {s : List UInt8}
    (hs : 1023 * tees.length + s.length ≤ 65535) :
    ∃ ws, tees.foldl (fun s tee => appendLine s tee 1024) s = s ++ behind 10 ws ∧
      List.Forall₂ Written tees ws := by
  induction tees generalizing s with
  | nil => exact ⟨[], (List.append_nil s).symm, .nil⟩
  | cons tee tees ih =>
      rw [List.length_cons] at hs
      have hroom : 1023 + s.length ≤ 65535 := by omega
      obtain ⟨w, hw, hwritten⟩ := @appendLine_tee s tee hroom
      have hle : w.length ≤ 1022 :=
        Nat.le_trans hwritten.1.length_le (List.length_take_le _ _)
      have hrest : 1023 * tees.length + (s ++ 10 :: w).length ≤ 65535 := by
        rw [List.length_append, List.length_cons]
        omega
      obtain ⟨ws, hws, hall⟩ := ih hrest
      refine ⟨w :: ws, ?_, .cons hwritten hall⟩
      rw [List.foldl_cons, hw, hws, behind_cons, List.append_assoc]

/-! ## Lines of numbers -/

/-- The characters of numbers with tabs between them. -/
def Plain (s : List UInt8) : Prop := ∀ b ∈ s, b ≠ 0 ∧ b ≠ 10 ∧ b.toNat ≤ 0x7F

theorem Plain.fix {s : List UInt8} (h : Plain s) : str_utf8_fix_truncation s = s :=
  (text_ascii fun b hb => ⟨(h b hb).1, (h b hb).2.2⟩).fix_truncation

theorem Plain.of_part {s s' : List UInt8} (h : Plain s) (hp : s' <+: s) : Plain s' :=
  fun b hb => h b (hp.subset hb)

theorem plain_formatInt (x : Int) : Plain (formatInt x) := by
  have hdigit : ∀ b : UInt8, isdigit b = true → b ≠ 0 ∧ b ≠ 10 ∧ b.toNat ≤ 0x7F := by
    intro b hb
    have hrange : 48 ≤ b.toNat ∧ b.toNat ≤ 57 := of_decide_eq_true hb
    refine ⟨?_, ?_, by omega⟩
    · rintro rfl
      exact absurd hrange.1 (by decide)
    · rintro rfl
      exact absurd hrange.1 (by decide)
  have hdigits := (digitsValue_toDigits x.natAbs).2
  unfold formatInt
  intro b hb
  by_cases hneg : x < 0
  · rw [if_pos hneg] at hb
    rcases List.mem_cons.mp hb with rfl | hb
    · decide
    · exact hdigit b (hdigits b hb)
  · rw [if_neg hneg] at hb
    exact hdigit b (hdigits b hb)

theorem plain_formatInts (ints : List Int) : Plain (formatInts ints) := by
  intro b hb
  rcases mem_join hb with rfl | ⟨l, hl, hb⟩
  · decide
  · obtain ⟨x, -, rfl⟩ := List.mem_map.mp hl
    exact plain_formatInt x b hb

theorem length_formatInt {x : Int} (hx : IsInt32 x) : (formatInt x).length ≤ 11 := by
  unfold IsInt32 at hx
  have hlength := Nat.toDigits_length 10 x.natAbs 10 (by decide) (by omega)
  unfold formatInt
  by_cases hneg : x < 0
  · rw [if_pos hneg, List.length_cons, List.length_map]
    omega
  · rw [if_neg hneg, List.length_map]
    omega

theorem length_formatInts {ints : List Int} (h : ∀ x ∈ ints, IsInt32 x) :
    (formatInts ints).length ≤ 12 * ints.length := by
  induction ints with
  | nil => exact Nat.le_refl 0
  | cons x ints ih =>
      have hx := length_formatInt (h x List.mem_cons_self)
      have hrest := ih fun y hy => h y (List.mem_cons_of_mem _ hy)
      rw [List.length_cons]
      cases ints with
      | nil =>
          show (formatInt x).length ≤ _
          omega
      | cons y ints =>
          show (formatInt x ++ 9 :: formatInts (y :: ints)).length ≤ _
          rw [List.length_append, List.length_cons]
          omega

/-! ## Written switchers -/

/-- The numbers of a switcher are `int`s. -/
def SSimpleSwitchers.Typed (s : SSimpleSwitchers) : Prop :=
  IsInt32 s.m_Status ∧ IsInt32 s.m_EndTime ∧ IsInt32 s.m_Type

theorem length_line {s : SSimpleSwitchers} (h : s.Typed) : s.line.length ≤ 36 := by
  apply length_formatInts
  intro x hx
  obtain ⟨hstatus, hend, htype⟩ := h
  simp only [List.mem_cons, List.not_mem_nil, or_false] at hx
  rcases hx with rfl | rfl | rfl
  · exact hstatus
  · exact hend
  · exact htype

theorem plain_line (s : SSimpleSwitchers) : Plain s.line := plain_formatInts _

theorem take_append_take (n : Nat) (a b : List UInt8) : (a.take n ++ b).take n = (a ++ b).take n := by
  rw [List.take_append, List.take_append, List.take_take, Nat.min_self, List.length_take]
  congr 2
  omega

/-- A cut behind a plain character is none. -/
theorem fix_take {base s : List UInt8} {n : Nat} (hs : ∀ b ∈ s, b.toNat ≤ 0x7F) (hne : s ≠ [])
    (hn : base.length < n) :
    str_utf8_fix_truncation ((base ++ s).take n) = (base ++ s).take n := by
  rw [List.take_append, List.take_of_length_le (Nat.le_of_lt hn)]
  have htake : s.take (n - base.length) ≠ [] := by
    rw [Ne, List.take_eq_nil_iff, not_or]
    exact ⟨by omega, hne⟩
  have hlast := List.dropLast_append_getLast htake
  have hmem := List.mem_of_mem_take (List.getLast_mem htake)
  rw [← hlast, ← List.append_assoc]
  exact fix_truncation_ascii _ (hs _ hmem)

/-- The switchers are written behind the string until it is full. -/
theorem foldl_switchers {base : List UInt8} (hbase : base.length < 65535)
    {switchers : List SSimpleSwitchers} (htyped : ∀ s ∈ switchers, s.Typed)
    (mid : List UInt8) (hmid : ∀ b ∈ mid, b.toNat ≤ 0x7F) :
    switchers.foldl (fun s switcher => appendLine s switcher.line 64) ((base ++ mid).take 65535) =
      (base ++ (mid ++ behind 10 (switchers.map SSimpleSwitchers.line))).take 65535 := by
  induction switchers generalizing mid with
  | nil => exact congrArg (fun s => (base ++ s).take 65535) (List.append_nil mid).symm
  | cons x switchers ih =>
      have hline := length_line (htyped x List.mem_cons_self)
      have hplain : ∀ b ∈ 10 :: x.line, b.toNat ≤ 0x7F := by
        intro b hb
        rcases List.mem_cons.mp hb with rfl | hb
        · decide
        · exact (plain_line x b hb).2.2
      have hall : ∀ b ∈ mid ++ 10 :: x.line, b.toNat ≤ 0x7F := by
        intro b hb
        rcases List.mem_append.mp hb with hb | hb
        · exact hmid b hb
        · exact hplain b hb
      have hformat : str_format (10 :: x.line) 64 = 10 :: x.line := by
        unfold str_format Base.str_copy
        rw [List.take_of_length_le (by rw [List.length_cons]; omega)]
        exact fix_newline (plain_line x).fix []
      have happend : appendLine ((base ++ mid).take 65535) x.line 64 =
          (base ++ (mid ++ 10 :: x.line)).take 65535 := by
        rw [appendLine_eq, hformat, take_append_take, List.append_assoc]
        exact fix_take hall (List.append_ne_nil_of_right_ne_nil _ (List.cons_ne_nil _ _)) hbase
      rw [List.foldl_cons, happend, ih (fun s hs => htyped s (List.mem_cons_of_mem _ hs)) _ hall,
        List.map_cons, behind_cons, List.append_assoc]

/-! ## Lines that are read -/

/-- The cursor is in the first of the lines that are left, if there are any. -/
def At (s : List UInt8) (c : Cursor) : List (List UInt8) → Prop
  | [] => True
  | l :: ls => s.drop c.LastPos = l ++ behind 10 ls ∧ c.LastPos ≤ c.Pos ∧
      c.Pos ≤ c.LastPos + l.length

/-- The lines behind the first one; the last line stays. -/
def following (l : List UInt8) (ls : List (List UInt8)) : List (List UInt8) :=
  if ls = [] then [l] else ls

theorem nextLine_spec {s : List UInt8} {c : Cursor} {l : List UInt8} {ls : List (List UInt8)}
    (h : At s c (l :: ls)) (hl : 10 ∉ l) :
    ∃ c', nextLine s c = ({ pCopyPos := l ++ behind 10 ls, StrSize := l.length + 1 }, c') ∧
      At s c' (following l ls) := by
  obtain ⟨hdrop, hle, hpos⟩ := h
  obtain ⟨k, hk⟩ := Nat.exists_eq_add_of_le hle
  have hkl : k ≤ l.length := by omega
  have hrest : s.drop c.Pos = l.drop k ++ behind 10 ls := by
    rw [hk, ← List.drop_drop, hdrop, List.drop_append_of_le_length hkl]
  have htake : (s.drop c.Pos).takeWhile (fun b => b ≠ 10) = l.drop k := by
    have hall : ∀ b ∈ l.drop k, decide (b ≠ 10) = true := by
      intro b hb
      apply decide_eq_true
      rintro rfl
      exact hl (List.mem_of_mem_drop hb)
    rw [hrest, List.takeWhile_append_of_pos hall]
    cases ls with
    | nil => exact List.append_nil _
    | cons l' ls =>
        rw [behind_cons]
        exact List.append_nil _
  have hPos : c.Pos + ((s.drop c.Pos).takeWhile fun b => b ≠ 10).length = c.LastPos + l.length := by
    rw [htake, List.length_drop]
    omega
  have hget : s[c.LastPos + l.length]? = (behind 10 ls).head? := by
    rw [← List.getElem?_drop, hdrop, List.getElem?_append_right (Nat.le_refl _), Nat.sub_self,
      List.head?_eq_getElem?]
  have hsize : c.LastPos + l.length - c.LastPos + 1 = l.length + 1 := by
    rw [Nat.add_sub_cancel_left]
  unfold nextLine following
  simp only [hPos, hget, hdrop, hsize]
  cases ls with
  | nil =>
      exact ⟨_, rfl, hdrop, Nat.le_add_right _ _, Nat.le_refl _⟩
  | cons l' ls =>
      refine ⟨_, rfl, ?_, Nat.le_refl _, Nat.le_add_right _ _⟩
      show s.drop (c.LastPos + l.length + 1) = l' ++ behind 10 ls
      rw [Nat.add_assoc, ← List.drop_drop, hdrop, behind_cons, ← List.drop_drop, List.drop_left]
      rfl

/-- The copy of a line. -/
theorem str_copy_line (l : List UInt8) (rest : List UInt8) :
    Base.str_copy (l ++ rest) (l.length + 1) = str_utf8_fix_truncation l := by
  unfold Base.str_copy
  rw [Nat.add_sub_cancel, List.take_left]

theorem At.following {s : List UInt8} {c : Cursor} {l : List UInt8} {ls : List (List UInt8)}
    (h : At s c (SaveTeam.following l ls)) : At s c ls := by
  cases ls with
  | nil => exact trivial
  | cons l' ls => exact h

/-- The lines of the tees are read, or one is refused. -/
theorem readTees_spec (readTee : List UInt8 → Int) {s : List UInt8} {ws ls : List (List UInt8)}
    {c : Cursor} (h : At s c (ws ++ ls)) (hws : ∀ w ∈ ws, 10 ∉ w) :
    (∃ code, readTees readTee s ws.length c = .error code ∧
      ∃ w ∈ ws, 1022 < w.length ∨ readTee (str_utf8_fix_truncation w) ≠ 0) ∨
    ∃ c', readTees readTee s ws.length c = .ok (ws.map str_utf8_fix_truncation, c') ∧ At s c' ls := by
  induction ws generalizing c with
  | nil => exact .inr ⟨c, rfl, h⟩
  | cons w ws ih =>
      obtain ⟨c₁, hline, hnext⟩ := @nextLine_spec s c w (ws ++ ls) h (hws w List.mem_cons_self)
      have hcopy := str_copy_line w (behind 10 (ws ++ ls))
      have hrun : readTees readTee s (w :: ws).length c =
          if w.length + 1 < 1024 then
            if readTee (str_utf8_fix_truncation w) ≠ 0 then .error 1
            else (readTees readTee s ws.length c₁).bind fun v =>
              .ok (str_utf8_fix_truncation w :: v.1, v.2)
          else .error 1 := by
        rw [List.length_cons, readTees, hline]
        simp only [hcopy]
        rfl
      rw [hrun]
      by_cases hlength : w.length + 1 < 1024
      · rw [if_pos hlength]
        by_cases hread : readTee (str_utf8_fix_truncation w) ≠ 0
        · rw [if_pos hread]
          exact .inl ⟨1, rfl, w, List.mem_cons_self, .inr hread⟩
        · rw [if_neg hread]
          rcases ih hnext.following fun v hv => hws v (List.mem_cons_of_mem _ hv) with
            ⟨code, herror, v, hv, hbad⟩ | ⟨c', hok, hat⟩
          · rw [herror]
            exact .inl ⟨code, rfl, v, List.mem_cons_of_mem _ hv, hbad⟩
          · rw [hok]
            exact .inr ⟨c', rfl, hat⟩
      · rw [if_neg hlength]
        exact .inl ⟨1, rfl, w, List.mem_cons_self, .inl (by omega)⟩

/-- The first `n` lines that are read. -/
def readLines : Nat → List UInt8 → List (List UInt8) → List (List UInt8)
  | 0, _, _ => []
  | n + 1, l, [] => l :: readLines n l []
  | n + 1, l, l' :: ls => l :: readLines n l' ls

/-- The switchers that are read from lines, from the index `i` on. -/
def storeLines (fresh : Nat → SSimpleSwitchers) : Nat → List (List UInt8) → List SSimpleSwitchers
  | _, [] => []
  | i, l :: ls => (fresh i).store (scanInts 3 l) :: storeLines fresh (i + 1) ls

theorem readSwitchers_spec (fresh : Nat → SSimpleSwitchers) {s : List UInt8} (n i : Nat) {c : Cursor}
    {l : List UInt8} {ls : List (List UInt8)} (h : At s c (l :: ls))
    (hls : ∀ k ∈ l :: ls, Plain k ∧ k.length ≤ 36) :
    readSwitchers fresh s n i c = .ok (storeLines fresh i (readLines n l ls)) := by
  induction n generalizing i c l ls with
  | zero => rfl
  | succ n ih =>
      obtain ⟨hplain, hlength⟩ := hls l List.mem_cons_self
      obtain ⟨c₁, hline, hnext⟩ := nextLine_spec h fun hmem => (hplain 10 hmem).2.1 rfl
      have hcopy := str_copy_line l (behind 10 ls)
      rw [hplain.fix] at hcopy
      have hrun : readSwitchers fresh s (n + 1) i c =
          if l.length + 1 < 64 then
            (readSwitchers fresh s n (i + 1) c₁).bind fun v =>
              .ok ((fresh i).store (scanInts 3 l) :: v)
          else .error 1 := by
        rw [readSwitchers, hline]
        simp only [hcopy]
        rfl
      rw [hrun, if_pos (by omega)]
      cases ls with
      | nil =>
          rw [ih (i + 1) hnext hls]
          rfl
      | cons l' ls =>
          rw [ih (i + 1) hnext fun k hk => hls k (List.mem_cons_of_mem _ hk)]
          rfl

end Fex.Game.SaveTeam
