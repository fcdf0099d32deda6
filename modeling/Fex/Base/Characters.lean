import Fex.Base.Strings
import Mathlib.Data.List.GetD

/-!
# Whole characters

A string of valid UTF-8 is a list of characters, and `str_copy` keeps as many of
them as fit.
-/

namespace Fex.Base

theorem isstart_eq (c : UInt8) :
    str_utf8_isstart c = decide (c.toNat ≤ 0x7F ∨ 0xC0 ≤ c.toNat) := by
  have hall : ∀ n : Fin 256, str_utf8_isstart (UInt8.ofNat n.val) =
      decide (n.val ≤ 0x7F ∨ 0xC0 ≤ n.val) := by decide +kernel
  have hc := hall ⟨c.toNat, c.toNat_lt⟩
  rw [UInt8.ofNat_toNat] at hc
  exact hc

theorem isstart_of_tail {c : UInt8} (h : 0x80 ≤ c.toNat ∧ c.toNat ≤ 0xBF) :
    str_utf8_isstart c = false := by
  rw [isstart_eq]
  exact decide_eq_false (by omega)

theorem isstart_of_lead {c : UInt8} (h : c.toNat ≤ 0x7F ∨ 0xC0 ≤ c.toNat) :
    str_utf8_isstart c = true := by
  rw [isstart_eq]
  exact decide_eq_true h

/-! ## Characters -/

/-- The bytes of one character: no part of them is one. -/
structure IsChar (b : UInt8) (t : List UInt8) : Prop where
  start : str_utf8_isstart b = true
  tail : ∀ x ∈ t, str_utf8_isstart x = false
  decode : ∃ code, code ≠ -1 ∧ ∀ s, str_utf8_decode (b :: t ++ s) = (code, s)
  part : ∀ t' t'', t = t' ++ t'' → t'' ≠ [] → (str_utf8_decode (b :: t')).1 = -1

theorem decodeNeeded_char {lower upper code seen needed : Nat} {s : List UInt8}
    (hl : 0x80 ≤ lower) (hu : upper ≤ 0xBF)
    (hne : (decodeNeeded lower upper code seen needed s).1 ≠ -1) :
    ∃ t, s = t ++ (decodeNeeded lower upper code seen needed s).2 ∧
      (∀ x ∈ t, str_utf8_isstart x = false) ∧
      (∀ s', decodeNeeded lower upper code seen needed (t ++ s') =
        ((decodeNeeded lower upper code seen needed s).1, s')) ∧
      ∀ t' t'', t = t' ++ t'' → t'' ≠ [] →
        (decodeNeeded lower upper code seen needed t').1 = -1 := by
  induction s generalizing lower upper code seen with
  | nil => exact absurd rfl hne
  | cons b s ih =>
      by_cases hrange : lower ≤ b.toNat ∧ b.toNat ≤ upper
      · have hb := isstart_of_tail (c := b) ⟨by omega, by omega⟩
        have hstep : ∀ s', decodeNeeded lower upper code seen needed (b :: s') =
            if seen + 1 ≠ needed then
              decodeNeeded 0x80 0xBF (code + ((b.toNat - 0x80) <<< (6 * (needed - (seen + 1)))))
                (seen + 1) needed s'
            else ((code + ((b.toNat - 0x80) <<< (6 * (needed - (seen + 1)))) : Nat), s') :=
          fun s' => if_neg (not_not.mpr hrange)
        rw [hstep] at hne ⊢
        by_cases hmore : seen + 1 ≠ needed
        · rw [if_pos hmore] at hne ⊢
          obtain ⟨t, hs, htail, hdecode, hpart⟩ := ih (Nat.le_refl _) (Nat.le_refl _) hne
          refine ⟨b :: t, by rw [List.cons_append, ← hs], fun x hx => ?_, fun s' => ?_, ?_⟩
          · rcases List.mem_cons.mp hx with rfl | hx
            · exact hb
            · exact htail x hx
          · rw [List.cons_append, hstep, if_pos hmore]
            exact hdecode s'
          · intro t' t'' ht ht''
            cases t' with
            | nil => rfl
            | cons x t' =>
                injection ht with hx ht
                rw [← hx, hstep, if_pos hmore]
                exact hpart t' t'' ht ht''
        · rw [if_neg hmore]
          refine ⟨[b], rfl, fun x hx => ?_, fun s' => ?_, ?_⟩
          · rw [List.mem_singleton.mp hx]
            exact hb
          · rw [List.singleton_append, hstep, if_neg hmore]
          · intro t' t'' ht ht''
            cases t' with
            | nil => rfl
            | cons x t' =>
                injection ht with hx ht
                exact absurd (List.append_eq_nil_iff.mp ht.symm).2 ht''
      · refine absurd ?_ hne
        unfold decodeNeeded
        rw [if_pos hrange]

/-- What is decoded without an error is a character. -/
theorem str_utf8_decode_char {b : UInt8} {s : List UInt8}
    (hne : (str_utf8_decode (b :: s)).1 ≠ -1) :
    ∃ t, IsChar b t ∧ s = t ++ (str_utf8_decode (b :: s)).2 := by
  have hneeded : ∀ {lower upper code needed : Nat}, 0x80 ≤ lower → upper ≤ 0xBF →
      0xC0 ≤ b.toNat →
      (∀ s, str_utf8_decode (b :: s) = decodeNeeded lower upper code 0 needed s) →
      ∃ t, IsChar b t ∧ s = t ++ (str_utf8_decode (b :: s)).2 := by
    intro lower upper code needed hl hu hb hrun
    rw [hrun] at hne
    obtain ⟨t, hs, htail, hdecode, hpart⟩ := decodeNeeded_char hl hu hne
    refine ⟨t, ⟨isstart_of_lead (.inr hb), htail, ⟨_, hne, fun s' => ?_⟩, fun t' t'' ht ht'' => ?_⟩,
      by rw [hrun]; exact hs⟩
    · rw [List.cons_append, hrun]
      exact hdecode s'
    · rw [hrun]
      exact hpart t' t'' ht ht''
  by_cases h₁ : b.toNat ≤ 0x7F
  · have hrun : ∀ s, str_utf8_decode (b :: s) = ((b.toNat : Int), s) := fun s => if_pos h₁
    refine ⟨[], ⟨isstart_of_lead (.inl h₁), fun x hx => (by cases hx), ⟨b.toNat, by omega, hrun⟩, ?_⟩,
      by rw [hrun]; rfl⟩
    intro t' t'' ht ht''
    exact absurd (List.append_eq_nil_iff.mp ht.symm).2 ht''
  by_cases h₂ : 0xC2 ≤ b.toNat ∧ b.toNat ≤ 0xDF
  · exact hneeded (Nat.le_refl _) (Nat.le_refl _) (by omega)
      fun s => (if_neg h₁).trans (if_pos h₂)
  by_cases h₃ : 0xE0 ≤ b.toNat ∧ b.toNat ≤ 0xEF
  · exact hneeded (by split <;> omega) (by split <;> omega) (by omega)
      fun s => (if_neg h₁).trans ((if_neg h₂).trans (if_pos h₃))
  by_cases h₄ : 0xF0 ≤ b.toNat ∧ b.toNat ≤ 0xF4
  · exact hneeded (by split <;> omega) (by split <;> omega) (by omega)
      fun s => (if_neg h₁).trans ((if_neg h₂).trans ((if_neg h₃).trans (if_pos h₄)))
  · refine absurd ?_ hne
    have hrun : str_utf8_decode (b :: s) = (-1, s) :=
      (if_neg h₁).trans ((if_neg h₂).trans ((if_neg h₃).trans (if_neg h₄)))
    rw [hrun]

theorem isChar_ascii {b : UInt8} (h : b.toNat ≤ 0x7F) : IsChar b [] where
  start := isstart_of_lead (.inl h)
  tail := fun x hx => by cases hx
  decode := ⟨b.toNat, by omega, fun s => if_pos h⟩
  part := fun t' t'' ht ht'' => absurd (List.append_eq_nil_iff.mp ht.symm).2 ht''

/-! ## Strings of characters -/

/-- A string that consists of characters other than NUL. -/
inductive Text : List UInt8 → Prop
  | nil : Text []
  | cons {b : UInt8} {t s : List UInt8} : IsChar b t → 0 ∉ b :: t → Text s → Text (b :: t ++ s)

theorem text_of_check {s : List UInt8} (hs : str_utf8_check s = true) (h₀ : 0 ∉ s) : Text s := by
  induction hn : s.length using Nat.strongRecOn generalizing s with
  | ind n ih =>
      cases s with
      | nil => exact .nil
      | cons b s =>
          rw [str_utf8_check] at hs
          have hcode : (str_utf8_decode (b :: s)).1 ≠ 0 := by
            intro hzero
            rcases str_utf8_decode_spec b s with herr | ⟨chr, hchr, heq⟩
            · rw [hzero] at herr
              cases herr
            · have hchr' : chr = 0 := by omega
              rw [hchr'] at heq
              have hlead : str_utf8_encode 0 = [0] := rfl
              rw [hlead] at heq
              apply h₀
              rw [heq]
              exact List.mem_cons_self
          rw [if_neg hcode] at hs
          have hne : (str_utf8_decode (b :: s)).1 ≠ -1 := by
            intro herr
            rw [if_pos herr] at hs
            cases hs
          rw [if_neg hne] at hs
          obtain ⟨t, hchar, htail⟩ := str_utf8_decode_char hne
          have hlength := length_str_utf8_decode b s
          have hrest : 0 ∉ (str_utf8_decode (b :: s)).2 := by
            intro hmem
            apply h₀
            rw [htail]
            exact List.mem_cons_of_mem b (List.mem_append_right t hmem)
          have htext := ih _ (by rw [← hn, List.length_cons]; omega) hs hrest rfl
          rw [htail]
          refine .cons hchar (fun hmem => h₀ ?_) htext
          rw [htail]
          exact List.mem_append_left _ hmem

theorem Text.check {s : List UInt8} (h : Text s) : str_utf8_check s = true := by
  induction h with
  | nil => rw [str_utf8_check]
  | @cons b t s hchar h₀ _ ih =>
      obtain ⟨code, hne, hdecode⟩ := hchar.decode
      rw [List.cons_append, str_utf8_check]
      rw [← List.cons_append, hdecode]
      simp only
      split
      next => rfl
      next => exact ih

theorem Text.zero_notMem {s : List UInt8} (h : Text s) : 0 ∉ s := by
  induction h with
  | nil => exact List.not_mem_nil
  | cons _ h₀ _ ih =>
      intro hmem
      rcases List.mem_append.mp hmem with hmem | hmem
      · exact h₀ hmem
      · exact ih hmem

theorem Text.append {s s' : List UInt8} (h : Text s) (h' : Text s') : Text (s ++ s') := by
  induction h with
  | nil => exact h'
  | cons hchar h₀ _ ih =>
      rw [List.append_assoc]
      exact .cons hchar h₀ ih

theorem text_ascii {s : List UInt8} (h : ∀ b ∈ s, b ≠ 0 ∧ b.toNat ≤ 0x7F) : Text s := by
  induction s with
  | nil => exact .nil
  | cons b s ih =>
      obtain ⟨h₀, hle⟩ := h b List.mem_cons_self
      refine .cons (isChar_ascii hle) (fun hmem => ?_) (ih fun x hx => h x (List.mem_cons_of_mem b hx))
      exact h₀ (List.mem_singleton.mp hmem).symm

/-! ## Cutting -/

theorem str_utf8_rewind_spec {pre t : List UInt8} {b : UInt8} (hb : str_utf8_isstart b = true)
    (ht : ∀ x ∈ t, str_utf8_isstart x = false) :
    str_utf8_rewind (pre ++ b :: t) (pre ++ b :: t).length = pre.length := by
  have hsteps : ∀ j ≤ t.length,
      str_utf8_rewind (pre ++ b :: t) (pre.length + j + 1) = pre.length := by
    intro j hj
    induction j with
    | zero =>
        rw [str_utf8_rewind, if_pos]
        rw [List.getD_append_right _ _ _ _ (Nat.le_refl _), Nat.sub_self]
        exact hb
    | succ j ih =>
        rw [str_utf8_rewind, if_neg]
        · exact ih (by omega)
        · rw [List.getD_append_right _ _ _ _ (Nat.le_add_right _ _), Nat.add_sub_cancel_left,
            List.getD_cons_succ, List.getD_eq_getElem _ _ hj, ht _ (List.getElem_mem hj)]
          decide
  have hlength : (pre ++ b :: t).length = pre.length + t.length + 1 := by
    rw [List.length_append, List.length_cons, Nat.add_assoc]
  rw [hlength]
  exact hsteps t.length (Nat.le_refl _)

theorem fix_truncation_char {b : UInt8} {t : List UInt8} (h : IsChar b t) (pre : List UInt8) :
    str_utf8_fix_truncation (pre ++ b :: t) = pre ++ b :: t := by
  obtain ⟨code, hne, hdecode⟩ := h.decode
  have hrun := hdecode []
  rw [List.append_nil] at hrun
  unfold str_utf8_fix_truncation
  split
  next =>
    simp only
    rw [str_utf8_rewind_spec h.start h.tail, List.drop_left, hrun, if_neg hne]
  next => rfl

/-- A part of a character is cut off. -/
theorem fix_truncation_part {b : UInt8} {t t' t'' : List UInt8} (h : IsChar b t)
    (ht : t = t' ++ t'') (ht'' : t'' ≠ []) (pre : List UInt8) :
    str_utf8_fix_truncation (pre ++ b :: t') = pre := by
  have htail : ∀ x ∈ t', str_utf8_isstart x = false := by
    intro x hx
    apply h.tail
    rw [ht]
    exact List.mem_append_left t'' hx
  unfold str_utf8_fix_truncation
  rw [if_pos (by rw [List.length_append, List.length_cons]; omega)]
  simp only
  rw [str_utf8_rewind_spec h.start htail, List.drop_left, if_pos (h.part t' t'' ht ht''),
    List.take_left]

/-- The prefix that ends with a whole character. -/
theorem Text.take {s : List UInt8} (h : Text s) (k : Nat) :
    ∃ p r, s = p ++ r ∧ Text p ∧ Text r ∧ p.length ≤ k ∧
      ∀ pre, str_utf8_fix_truncation pre = pre →
        (∀ j, p.length ≤ j → j ≤ k →
          str_utf8_fix_truncation (pre ++ s.take j) = pre ++ p) := by
  induction h generalizing k with
  | nil =>
      refine ⟨[], [], rfl, .nil, .nil, Nat.zero_le k, fun pre hpre j _ _ => ?_⟩
      rw [List.take_nil, List.append_nil]
      exact hpre
  | @cons b t s hchar h₀ hs ih =>
      by_cases hfits : (b :: t).length ≤ k
      · obtain ⟨p, r, hsplit, hp, hr, hle, hfix⟩ := ih (k - (b :: t).length)
        refine ⟨b :: t ++ p, r, by rw [List.append_assoc, hsplit], .cons hchar h₀ hp, hr, ?_, ?_⟩
        · rw [List.length_append]
          omega
        · intro pre hpre j hj hjk
          rw [List.length_append] at hj
          rw [List.take_append, List.take_of_length_le (by omega), ← List.append_assoc,
            ← List.append_assoc]
          exact hfix (pre ++ b :: t) (fix_truncation_char hchar pre) _ (by omega) (by omega)
      · refine ⟨[], b :: t ++ s, rfl, .nil, .cons hchar h₀ hs, Nat.zero_le k, ?_⟩
        intro pre hpre j _ hjk
        rw [List.append_nil]
        cases j with
        | zero =>
            rw [List.take_zero, List.append_nil]
            exact hpre
        | succ j =>
            rw [List.length_cons] at hfits
            have htake : (b :: t ++ s).take (j + 1) = b :: t.take j := by
              rw [List.cons_append, List.take_succ_cons, List.take_append_of_le_length (by omega)]
            rw [htake]
            refine fix_truncation_part hchar (List.take_append_drop j t).symm ?_ pre
            intro hnil
            have hlength := congrArg List.length hnil
            rw [List.length_drop, List.length_nil] at hlength
            omega

theorem fix_truncation_nil : str_utf8_fix_truncation [] = [] := rfl

/-- A copy is a text as well, and what is left out starts with a whole character. -/
theorem Text.str_copy {s : List UInt8} (h : Text s) (dst_size : Nat) :
    ∃ r, s = str_copy s dst_size ++ r ∧ Text (str_copy s dst_size) ∧
      (str_copy s dst_size).length ≤ dst_size - 1 ∧
      ∀ j, (str_copy s dst_size).length ≤ j → str_copy (s.take j) dst_size = str_copy s dst_size := by
  obtain ⟨p, r, hsplit, hp, -, hle, hfix⟩ := h.take (dst_size - 1)
  have hcopy : ∀ j, p.length ≤ j → Base.str_copy (s.take j) dst_size = p := by
    intro j hj
    unfold Base.str_copy
    rw [List.take_take]
    exact hfix [] fix_truncation_nil _ (by omega) (by omega)
  have hself : Base.str_copy s dst_size = p := by
    have hlong := hcopy (max p.length s.length) (by omega)
    rw [List.take_of_length_le (by omega)] at hlong
    exact hlong
  rw [hself]
  exact ⟨r, hsplit, hp, hle, hcopy⟩

theorem Text.fix_truncation {s : List UInt8} (h : Text s) : str_utf8_fix_truncation s = s := by
  have hall : ∀ {s pre : List UInt8}, Text s → str_utf8_fix_truncation pre = pre →
      str_utf8_fix_truncation (pre ++ s) = pre ++ s := by
    intro s pre hs
    induction hs generalizing pre with
    | nil => intro hpre; rw [List.append_nil]; exact hpre
    | @cons b t s hchar _ _ ih =>
        intro _
        rw [← List.append_assoc]
        exact ih (fix_truncation_char hchar pre)
  exact @hall s [] h fix_truncation_nil

/-- A text that fits is copied as it is. -/
theorem Text.str_copy_self {s : List UInt8} (h : Text s) {dst_size : Nat}
    (hlength : s.length ≤ dst_size - 1) : Base.str_copy s dst_size = s := by
  unfold Base.str_copy
  rw [List.take_of_length_le hlength]
  exact h.fix_truncation

theorem length_fix_truncation (s : List UInt8) : (str_utf8_fix_truncation s).length ≤ s.length := by
  unfold str_utf8_fix_truncation
  split
  next =>
    simp only
    split
    next => exact List.length_take_le' _ _
    next => exact Nat.le_refl _
  next => exact Nat.le_refl _

theorem prefix_fix_truncation (s : List UInt8) : str_utf8_fix_truncation s <+: s := by
  unfold str_utf8_fix_truncation
  split
  next =>
    simp only
    split
    next => exact List.take_prefix _ _
    next => exact List.prefix_rfl
  next => exact List.prefix_rfl

theorem prefix_str_copy (s : List UInt8) (dst_size : Nat) : Base.str_copy s dst_size <+: s :=
  (prefix_fix_truncation _).trans (List.take_prefix _ _)

theorem le_str_utf8_rewind {str : List UInt8} {i k : Nat} (hi : i < k)
    (hstart : str_utf8_isstart (str.getD i 0) = true) : i ≤ str_utf8_rewind str k := by
  induction k with
  | zero => omega
  | succ k ih =>
      rw [str_utf8_rewind]
      split
      next => omega
      next hno =>
        apply ih
        have hne : i ≠ k := by
          rintro rfl
          exact hno hstart
        omega

/-- What comes before an ASCII character is kept. -/
theorem fix_truncation_keeps (p : List UInt8) {b : UInt8} (h : b.toNat ≤ 0x7F) (s : List UInt8) :
    ∃ s', str_utf8_fix_truncation (p ++ b :: s) = p ++ b :: s' := by
  have hle : p.length ≤ str_utf8_rewind (p ++ b :: s) (p ++ b :: s).length := by
    apply le_str_utf8_rewind
    · rw [List.length_append, List.length_cons]
      omega
    · rw [List.getD_append_right _ _ _ _ (Nat.le_refl _), Nat.sub_self]
      exact isstart_of_lead (.inl h)
  unfold str_utf8_fix_truncation
  rw [if_pos (by rw [List.length_append, List.length_cons]; omega)]
  simp only
  rcases Nat.eq_or_lt_of_le hle with heq | hlt
  · rw [← heq, List.drop_left, str_utf8_decode, if_pos h, if_neg (by simp only; omega)]
    exact ⟨s, rfl⟩
  · split
    next =>
      obtain ⟨k, hk⟩ := Nat.exists_eq_add_of_lt hlt
      rw [Nat.add_assoc] at hk
      rw [hk, List.take_length_add_append, List.take_succ_cons]
      exact ⟨s.take k, rfl⟩
    next => exact ⟨s, rfl⟩

/-- A string that ends with an ASCII character is not cut. -/
theorem fix_truncation_ascii (s : List UInt8) {b : UInt8} (h : b.toNat ≤ 0x7F) :
    str_utf8_fix_truncation (s ++ [b]) = s ++ [b] :=
  fix_truncation_char (isChar_ascii h) s

theorem str_utf8_rewind_lt (str : List UInt8) {k : Nat} (hk : 0 < k) : str_utf8_rewind str k < k := by
  induction k with
  | zero => exact absurd hk (Nat.lt_irrefl 0)
  | succ k ih =>
      rw [str_utf8_rewind]
      split
      next => exact Nat.lt_succ_self k
      next =>
        rcases Nat.eq_zero_or_pos k with rfl | hpos
        · exact Nat.zero_lt_one
        · exact Nat.lt_succ_of_lt (ih hpos)

/-- A string that is not cut is not cut behind another one. -/
theorem fix_truncation_append {s : List UInt8} (h : str_utf8_fix_truncation s = s) (hne : s ≠ [])
    (p : List UInt8) : str_utf8_fix_truncation (p ++ s) = p ++ s := by
  have hpos := List.length_pos_iff.mpr hne
  have hlt := str_utf8_rewind_lt s hpos
  obtain ⟨b, t, hdrop⟩ := List.exists_cons_of_length_pos
    (show 0 < (s.drop (str_utf8_rewind s s.length)).length by rw [List.length_drop]; omega)
  have hdecode : (str_utf8_decode (b :: t)).1 ≠ -1 := by
    intro herror
    unfold str_utf8_fix_truncation at h
    simp only [if_pos hpos, hdrop, if_pos herror] at h
    have hlength := congrArg List.length h
    rw [List.length_take] at hlength
    omega
  obtain ⟨t', hchar, -⟩ := str_utf8_decode_char hdecode
  have hsplit : s.take (str_utf8_rewind s s.length) ++ b :: t = s := by
    rw [← hdrop, List.take_append_drop]
  have htail : ∀ x ∈ t, str_utf8_isstart x = false := by
    intro x hx
    by_contra hstart
    obtain ⟨j, hj, rfl⟩ := List.getElem_of_mem hx
    have hat : s.getD (str_utf8_rewind s s.length + (j + 1)) 0 = t[j] := by
      rw [List.getD_eq_getElem?_getD, ← List.getElem?_drop, hdrop, List.getElem?_cons_succ,
        List.getElem?_eq_getElem hj]
      rfl
    have hlength := congrArg List.length hdrop
    rw [List.length_drop, List.length_cons] at hlength
    rw [Bool.not_eq_false, ← hat] at hstart
    have hle := @le_str_utf8_rewind s _ s.length (by omega) hstart
    omega
  have hrewind := @str_utf8_rewind_spec (p ++ s.take (str_utf8_rewind s s.length)) t b hchar.start htail
  rw [List.append_assoc, hsplit] at hrewind
  have hdrop' : (p ++ s).drop (p ++ s.take (str_utf8_rewind s s.length)).length = b :: t := by
    rw [List.length_append, List.drop_append, List.length_take, Nat.min_eq_left (Nat.le_of_lt hlt)]
    rw [List.drop_of_length_le (Nat.le_add_right _ _), Nat.add_sub_cancel_left, hdrop]
    rfl
  unfold str_utf8_fix_truncation
  rw [if_pos (by rw [List.length_append]; omega)]
  simp only
  rw [hrewind, hdrop', if_neg hdecode]

end Fex.Base
