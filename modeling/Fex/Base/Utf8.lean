import Fex.Lib.CInt

/-!
# UTF-8

Model of `str_utf8_encode`, `str_utf8_decode` and `str_utf8_check`.  A C string
is the list of the bytes before its NUL, so the end of the list is read as NUL.
-/

namespace Fex.Base

def str_utf8_encode (chr : Nat) : List UInt8 :=
  if chr ≤ 0x7F then [.ofNat chr]
  else if chr ≤ 0x7FF then
    [.ofNat (0xC0 ||| ((chr >>> 6) &&& 0x1F)), .ofNat (0x80 ||| (chr &&& 0x3F))]
  else if chr ≤ 0xFFFF then
    [.ofNat (0xE0 ||| ((chr >>> 12) &&& 0x0F)), .ofNat (0x80 ||| ((chr >>> 6) &&& 0x3F)),
      .ofNat (0x80 ||| (chr &&& 0x3F))]
  else if chr ≤ 0x10FFFF then
    [.ofNat (0xF0 ||| ((chr >>> 18) &&& 0x07)), .ofNat (0x80 ||| ((chr >>> 12) &&& 0x3F)),
      .ofNat (0x80 ||| ((chr >>> 6) &&& 0x3F)), .ofNat (0x80 ||| (chr &&& 0x3F))]
  else []

/-- The loop of `str_utf8_decode` once some bytes are needed. -/
def decodeNeeded (lower_boundary upper_boundary code_point bytes_seen bytes_needed : Nat) :
    List UInt8 → Int × List UInt8
  | [] => (-1, [])
  | byte_value :: ptr =>
      if ¬ (lower_boundary ≤ byte_value.toNat ∧ byte_value.toNat ≤ upper_boundary) then
        (-1, byte_value :: ptr)
      else
        let code_point := code_point +
          ((byte_value.toNat - 0x80) <<< (6 * (bytes_needed - (bytes_seen + 1))))
        if bytes_seen + 1 ≠ bytes_needed then
          decodeNeeded 0x80 0xBF code_point (bytes_seen + 1) bytes_needed ptr
        else (code_point, ptr)

/-- The code point and the rest of the string, `-1` is an error. -/
def str_utf8_decode : List UInt8 → Int × List UInt8
  | [] => (0, [])
  | byte :: ptr =>
      let byte_value := byte.toNat
      if byte_value ≤ 0x7F then (byte_value, ptr)
      else if 0xC2 ≤ byte_value ∧ byte_value ≤ 0xDF then
        decodeNeeded 0x80 0xBF ((byte_value - 0xC0) <<< (6 * 1)) 0 1 ptr
      else if 0xE0 ≤ byte_value ∧ byte_value ≤ 0xEF then
        decodeNeeded (if byte_value = 0xE0 then 0xA0 else 0x80)
          (if byte_value = 0xED then 0x9F else 0xBF) ((byte_value - 0xE0) <<< (6 * 2)) 0 2 ptr
      else if 0xF0 ≤ byte_value ∧ byte_value ≤ 0xF4 then
        decodeNeeded (if byte_value = 0xF0 then 0x90 else 0x80)
          (if byte_value = 0xF4 then 0x8F else 0xBF) ((byte_value - 0xF0) <<< (6 * 3)) 0 3 ptr
      else (-1, ptr)

/-! ## Lengths -/

theorem suffix_decodeNeeded (lower upper code seen needed : Nat) (s : List UInt8) :
    (decodeNeeded lower upper code seen needed s).2 <:+ s := by
  induction s generalizing lower upper code seen with
  | nil => exact List.suffix_rfl
  | cons b s ih =>
      unfold decodeNeeded
      split
      · exact List.suffix_rfl
      · simp only
        split
        · exact (ih _ _ _ _).trans (List.suffix_cons b s)
        · exact List.suffix_cons b s

/-- Decoding takes at least one byte. -/
theorem suffix_str_utf8_decode (b : UInt8) (s : List UInt8) : (str_utf8_decode (b :: s)).2 <:+ s := by
  unfold str_utf8_decode
  simp only
  split
  · exact List.suffix_rfl
  split
  · exact suffix_decodeNeeded _ _ _ _ _ s
  split
  · exact suffix_decodeNeeded _ _ _ _ _ s
  split
  · exact suffix_decodeNeeded _ _ _ _ _ s
  · exact List.suffix_rfl

theorem length_str_utf8_decode (b : UInt8) (s : List UInt8) :
    (str_utf8_decode (b :: s)).2.length ≤ s.length :=
  (suffix_str_utf8_decode b s).length_le

theorem length_str_utf8_encode (chr : Nat) : (str_utf8_encode chr).length ≤ 4 := by
  unfold str_utf8_encode
  split
  · exact (by decide : 1 ≤ 4)
  split
  · exact (by decide : 2 ≤ 4)
  split
  · exact (by decide : 3 ≤ 4)
  split
  · exact Nat.le_refl 4
  · exact Nat.zero_le 4

def str_utf8_check (str : List UInt8) : Bool :=
  match str with
  | [] => true
  | byte :: ptr =>
      let r := str_utf8_decode (byte :: ptr)
      if r.1 = 0 then true
      else if r.1 = -1 then false
      else str_utf8_check r.2
termination_by str.length
decreasing_by exact Nat.lt_succ_of_le (length_str_utf8_decode byte ptr)

/-! ## The bits -/

theorem or_lead_two (x : Nat) : 0xC0 ||| (x &&& 0x1F) = 0xC0 + x % 32 := by
  rw [show (0x1F : Nat) = 2 ^ 5 - 1 from rfl, Nat.and_two_pow_sub_one_eq_mod]
  have h : ∀ y < 32, 0xC0 ||| y = 0xC0 + y := by decide
  exact h _ (Nat.mod_lt _ (by decide))

theorem or_lead_three (x : Nat) : 0xE0 ||| (x &&& 0x0F) = 0xE0 + x % 16 := by
  rw [show (0x0F : Nat) = 2 ^ 4 - 1 from rfl, Nat.and_two_pow_sub_one_eq_mod]
  have h : ∀ y < 16, 0xE0 ||| y = 0xE0 + y := by decide
  exact h _ (Nat.mod_lt _ (by decide))

theorem or_lead_four (x : Nat) : 0xF0 ||| (x &&& 0x07) = 0xF0 + x % 8 := by
  rw [show (0x07 : Nat) = 2 ^ 3 - 1 from rfl, Nat.and_two_pow_sub_one_eq_mod]
  have h : ∀ y < 8, 0xF0 ||| y = 0xF0 + y := by decide
  exact h _ (Nat.mod_lt _ (by decide))

theorem or_tail (x : Nat) : 0x80 ||| (x &&& 0x3F) = 0x80 + x % 64 := by
  rw [show (0x3F : Nat) = 2 ^ 6 - 1 from rfl, Nat.and_two_pow_sub_one_eq_mod]
  have h : ∀ y < 64, 0x80 ||| y = 0x80 + y := by decide
  exact h _ (Nat.mod_lt _ (by decide))

/-- The byte with this value. -/
theorem ofNat_eq_of_toNat {b : UInt8} {n : Nat} (h : n = b.toNat) : UInt8.ofNat n = b := by
  rw [h, UInt8.ofNat_toNat]

/-! ## What is decoded is encoded the same way -/

/-- One byte of the loop. -/
theorem decodeNeeded_cases (lower upper code seen needed : Nat) (s : List UInt8) :
    (decodeNeeded lower upper code seen needed s).1 = -1 ∨
    ∃ b t, s = b :: t ∧ lower ≤ b.toNat ∧ b.toNat ≤ upper ∧
      decodeNeeded lower upper code seen needed s =
        if seen + 1 ≠ needed then
          decodeNeeded 0x80 0xBF (code + ((b.toNat - 0x80) <<< (6 * (needed - (seen + 1)))))
            (seen + 1) needed t
        else ((code + ((b.toNat - 0x80) <<< (6 * (needed - (seen + 1)))) : Nat), t) := by
  cases s with
  | nil => exact .inl rfl
  | cons b t =>
      by_cases hrange : lower ≤ b.toNat ∧ b.toNat ≤ upper
      · refine .inr ⟨b, t, rfl, hrange.1, hrange.2, ?_⟩
        exact if_neg (not_not.mpr hrange)
      · refine .inl ?_
        unfold decodeNeeded
        rw [if_pos hrange]

theorem encode_two {b c : UInt8} (hb : 0xC2 ≤ b.toNat ∧ b.toNat ≤ 0xDF)
    (hc : 0x80 ≤ c.toNat ∧ c.toNat ≤ 0xBF) :
    str_utf8_encode ((b.toNat - 0xC0) * 64 + (c.toNat - 0x80)) = [b, c] := by
  unfold str_utf8_encode
  rw [if_neg (by omega), if_pos (by omega), or_lead_two, or_tail, Nat.shiftRight_eq_div_pow]
  rw [ofNat_eq_of_toNat (b := b) (by omega), ofNat_eq_of_toNat (b := c) (by omega)]

theorem encode_three {b c d : UInt8} (hb : 0xE0 ≤ b.toNat ∧ b.toNat ≤ 0xEF)
    (hc : (if b.toNat = 0xE0 then 0xA0 else 0x80) ≤ c.toNat ∧ c.toNat ≤ 0xBF)
    (hd : 0x80 ≤ d.toNat ∧ d.toNat ≤ 0xBF) :
    str_utf8_encode ((b.toNat - 0xE0) * 4096 + (c.toNat - 0x80) * 64 + (d.toNat - 0x80)) =
      [b, c, d] := by
  have hlow : 0x80 ≤ c.toNat ∧ (b.toNat = 0xE0 → 0xA0 ≤ c.toNat) := by
    split at hc <;> omega
  unfold str_utf8_encode
  rw [if_neg (by omega), if_neg (by omega), if_pos (by omega), or_lead_three, or_tail, or_tail,
    Nat.shiftRight_eq_div_pow, Nat.shiftRight_eq_div_pow]
  rw [ofNat_eq_of_toNat (b := b) (by omega), ofNat_eq_of_toNat (b := c) (by omega),
    ofNat_eq_of_toNat (b := d) (by omega)]

theorem encode_four {b c d e : UInt8} (hb : 0xF0 ≤ b.toNat ∧ b.toNat ≤ 0xF4)
    (hc : (if b.toNat = 0xF0 then 0x90 else 0x80) ≤ c.toNat ∧
      c.toNat ≤ (if b.toNat = 0xF4 then 0x8F else 0xBF))
    (hd : 0x80 ≤ d.toNat ∧ d.toNat ≤ 0xBF) (he : 0x80 ≤ e.toNat ∧ e.toNat ≤ 0xBF) :
    str_utf8_encode ((b.toNat - 0xF0) * 262144 + (c.toNat - 0x80) * 4096 + (d.toNat - 0x80) * 64 +
      (e.toNat - 0x80)) = [b, c, d, e] := by
  have hlow : 0x80 ≤ c.toNat ∧ (b.toNat = 0xF0 → 0x90 ≤ c.toNat) := by
    split at hc <;> omega
  have hhigh : c.toNat ≤ 0xBF ∧ (b.toNat = 0xF4 → c.toNat ≤ 0x8F) := by
    have h := hc.2
    split at h <;> omega
  unfold str_utf8_encode
  rw [if_neg (by omega), if_neg (by omega), if_neg (by omega), if_pos (by omega), or_lead_four,
    or_tail, or_tail, or_tail, Nat.shiftRight_eq_div_pow, Nat.shiftRight_eq_div_pow,
    Nat.shiftRight_eq_div_pow]
  rw [ofNat_eq_of_toNat (b := b) (by omega), ofNat_eq_of_toNat (b := c) (by omega),
    ofNat_eq_of_toNat (b := d) (by omega), ofNat_eq_of_toNat (b := e) (by omega)]

theorem str_utf8_decode_spec (b : UInt8) (s : List UInt8) :
    (str_utf8_decode (b :: s)).1 = -1 ∨
    ∃ chr : Nat, (str_utf8_decode (b :: s)).1 = chr ∧
      b :: s = str_utf8_encode chr ++ (str_utf8_decode (b :: s)).2 := by
  by_cases h₁ : b.toNat ≤ 0x7F
  · have hrun : str_utf8_decode (b :: s) = ((b.toNat : Int), s) := if_pos h₁
    refine .inr ⟨b.toNat, by rw [hrun], ?_⟩
    have hencode : str_utf8_encode b.toNat = [b] := by
      unfold str_utf8_encode
      rw [if_pos h₁, UInt8.ofNat_toNat]
    rw [hrun, hencode]
    rfl
  by_cases h₂ : 0xC2 ≤ b.toNat ∧ b.toNat ≤ 0xDF
  · have hrun : str_utf8_decode (b :: s) =
        decodeNeeded 0x80 0xBF ((b.toNat - 0xC0) <<< (6 * 1)) 0 1 s :=
      (if_neg h₁).trans (if_pos h₂)
    rw [hrun]
    rcases decodeNeeded_cases 0x80 0xBF ((b.toNat - 0xC0) <<< (6 * 1)) 0 1 s with
      herr | ⟨c, t, rfl, hc₀, hc₁, hnext⟩
    · exact .inl herr
    rw [if_neg (by decide)] at hnext
    have hcode : (b.toNat - 0xC0) <<< (6 * 1) + (c.toNat - 0x80) <<< (6 * (1 - (0 + 1))) =
        (b.toNat - 0xC0) * 64 + (c.toNat - 0x80) := by
      rw [Nat.shiftLeft_eq, Nat.shiftLeft_eq]
      omega
    rw [hnext, hcode]
    refine .inr ⟨_, rfl, ?_⟩
    rw [encode_two h₂ ⟨hc₀, hc₁⟩]
    rfl
  by_cases h₃ : 0xE0 ≤ b.toNat ∧ b.toNat ≤ 0xEF
  · have hrun : str_utf8_decode (b :: s) = decodeNeeded (if b.toNat = 0xE0 then 0xA0 else 0x80)
        (if b.toNat = 0xED then 0x9F else 0xBF) ((b.toNat - 0xE0) <<< (6 * 2)) 0 2 s :=
      (if_neg h₁).trans ((if_neg h₂).trans (if_pos h₃))
    rw [hrun]
    rcases decodeNeeded_cases (if b.toNat = 0xE0 then 0xA0 else 0x80)
        (if b.toNat = 0xED then 0x9F else 0xBF) ((b.toNat - 0xE0) <<< (6 * 2)) 0 2 s with
      herr | ⟨c, t, rfl, hc₀, hc₁, hnext⟩
    · exact .inl herr
    rw [if_pos (by decide : 0 + 1 ≠ 2)] at hnext
    rw [hnext]
    rcases decodeNeeded_cases 0x80 0xBF
        ((b.toNat - 0xE0) <<< (6 * 2) + (c.toNat - 0x80) <<< (6 * (2 - (0 + 1)))) (0 + 1) 2 t with
      herr | ⟨d, t, rfl, hd₀, hd₁, hnext⟩
    · exact .inl herr
    rw [if_neg (by decide : ¬ 0 + 1 + 1 ≠ 2)] at hnext
    have hcode : (b.toNat - 0xE0) <<< (6 * 2) + (c.toNat - 0x80) <<< (6 * (2 - (0 + 1))) +
        (d.toNat - 0x80) <<< (6 * (2 - (0 + 1 + 1))) =
        (b.toNat - 0xE0) * 4096 + (c.toNat - 0x80) * 64 + (d.toNat - 0x80) := by
      rw [Nat.shiftLeft_eq, Nat.shiftLeft_eq, Nat.shiftLeft_eq]
      omega
    rw [hnext, hcode]
    refine .inr ⟨_, rfl, ?_⟩
    have hc : c.toNat ≤ 0xBF := by
      split at hc₁ <;> omega
    rw [encode_three h₃ ⟨hc₀, hc⟩ ⟨hd₀, hd₁⟩]
    rfl
  by_cases h₄ : 0xF0 ≤ b.toNat ∧ b.toNat ≤ 0xF4
  · have hrun : str_utf8_decode (b :: s) = decodeNeeded (if b.toNat = 0xF0 then 0x90 else 0x80)
        (if b.toNat = 0xF4 then 0x8F else 0xBF) ((b.toNat - 0xF0) <<< (6 * 3)) 0 3 s :=
      (if_neg h₁).trans ((if_neg h₂).trans ((if_neg h₃).trans (if_pos h₄)))
    rw [hrun]
    rcases decodeNeeded_cases (if b.toNat = 0xF0 then 0x90 else 0x80)
        (if b.toNat = 0xF4 then 0x8F else 0xBF) ((b.toNat - 0xF0) <<< (6 * 3)) 0 3 s with
      herr | ⟨c, t, rfl, hc₀, hc₁, hnext⟩
    · exact .inl herr
    rw [if_pos (by decide : 0 + 1 ≠ 3)] at hnext
    rw [hnext]
    rcases decodeNeeded_cases 0x80 0xBF
        ((b.toNat - 0xF0) <<< (6 * 3) + (c.toNat - 0x80) <<< (6 * (3 - (0 + 1)))) (0 + 1) 3 t with
      herr | ⟨d, t, rfl, hd₀, hd₁, hnext⟩
    · exact .inl herr
    rw [if_pos (by decide : 0 + 1 + 1 ≠ 3)] at hnext
    rw [hnext]
    rcases decodeNeeded_cases 0x80 0xBF
        ((b.toNat - 0xF0) <<< (6 * 3) + (c.toNat - 0x80) <<< (6 * (3 - (0 + 1))) +
          (d.toNat - 0x80) <<< (6 * (3 - (0 + 1 + 1)))) (0 + 1 + 1) 3 t with
      herr | ⟨e, t, rfl, he₀, he₁, hnext⟩
    · exact .inl herr
    rw [if_neg (by decide : ¬ 0 + 1 + 1 + 1 ≠ 3)] at hnext
    have hcode : (b.toNat - 0xF0) <<< (6 * 3) + (c.toNat - 0x80) <<< (6 * (3 - (0 + 1))) +
        (d.toNat - 0x80) <<< (6 * (3 - (0 + 1 + 1))) +
        (e.toNat - 0x80) <<< (6 * (3 - (0 + 1 + 1 + 1))) =
        (b.toNat - 0xF0) * 262144 + (c.toNat - 0x80) * 4096 + (d.toNat - 0x80) * 64 +
          (e.toNat - 0x80) := by
      rw [Nat.shiftLeft_eq, Nat.shiftLeft_eq, Nat.shiftLeft_eq, Nat.shiftLeft_eq]
      omega
    rw [hnext, hcode]
    refine .inr ⟨_, rfl, ?_⟩
    rw [encode_four h₄ ⟨hc₀, hc₁⟩ ⟨hd₀, hd₁⟩ ⟨he₀, he₁⟩]
    rfl
  · refine .inl ?_
    have hrun : str_utf8_decode (b :: s) = (-1, s) :=
      (if_neg h₁).trans ((if_neg h₂).trans ((if_neg h₃).trans (if_neg h₄)))
    rw [hrun]

/-- The replacement character is read from its bytes. -/
theorem str_utf8_decode_replacement (s : List UInt8) :
    str_utf8_decode (str_utf8_encode 0xfffd ++ s) = (0xfffd, s) := rfl

theorem ofNat_ne_zero {n : Nat} (h₀ : 0 < n) (h₁ : n < 256) : UInt8.ofNat n ≠ 0 := by
  intro h
  have hnat := congrArg UInt8.toNat h
  rw [UInt8.toNat_ofNat_of_lt' h₁] at hnat
  exact absurd hnat (Nat.ne_of_gt h₀)

theorem zero_notMem_str_utf8_encode {chr : Nat} (h : chr ≠ 0) : 0 ∉ str_utf8_encode chr := by
  have htail : ∀ x : Nat, UInt8.ofNat (0x80 ||| (x &&& 0x3F)) ≠ 0 := by
    intro x
    rw [or_tail]
    exact ofNat_ne_zero (by omega) (by omega)
  unfold str_utf8_encode
  split
  · have hone : UInt8.ofNat chr ≠ 0 := ofNat_ne_zero (by omega) (by omega)
    simp [hone.symm]
  split
  · have hlead : UInt8.ofNat (0xC0 ||| ((chr >>> 6) &&& 0x1F)) ≠ 0 := by
      rw [or_lead_two]
      exact ofNat_ne_zero (by omega) (by omega)
    rw [List.mem_cons, List.mem_singleton]
    rintro (h | h)
    · exact hlead h.symm
    · exact htail _ h.symm
  split
  · have hlead : UInt8.ofNat (0xE0 ||| ((chr >>> 12) &&& 0x0F)) ≠ 0 := by
      rw [or_lead_three]
      exact ofNat_ne_zero (by omega) (by omega)
    rw [List.mem_cons, List.mem_cons, List.mem_singleton]
    rintro (h | h | h)
    · exact hlead h.symm
    · exact htail _ h.symm
    · exact htail _ h.symm
  split
  · have hlead : UInt8.ofNat (0xF0 ||| ((chr >>> 18) &&& 0x07)) ≠ 0 := by
      rw [or_lead_four]
      exact ofNat_ne_zero (by omega) (by omega)
    rw [List.mem_cons, List.mem_cons, List.mem_cons, List.mem_singleton]
    rintro (h | h | h | h)
    · exact hlead h.symm
    · exact htail _ h.symm
    · exact htail _ h.symm
    · exact htail _ h.symm
  · exact List.not_mem_nil

end Fex.Base
