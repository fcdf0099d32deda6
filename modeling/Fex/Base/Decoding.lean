import Fex.Base.Characters

/-!
# Decoding a string

The strings that `str_utf8_check` accepts are the encodings of Unicode scalar
values.  `str_utf8_decode_at` is `str_utf8_decode` on the memory of a string with
its NUL, where a pointer is a position.
-/

namespace Fex.Base

open Fex.Lib

/-- A Unicode scalar value other than NUL. -/
def Scalar (chr : Nat) : Prop := 1 ≤ chr ∧ chr ≤ 0x10FFFF ∧ ¬ (0xD800 ≤ chr ∧ chr ≤ 0xDFFF)

instance (chr : Nat) : Decidable (Scalar chr) := inferInstanceAs (Decidable (_ ∧ _ ∧ _))

/-! ## Encodings are decoded -/

theorem toNat_ofNat {n : Nat} (h : n < 256) : (UInt8.ofNat n).toNat = n :=
  UInt8.toNat_ofNat_of_lt' h

/-- A byte in the boundaries is taken. -/
theorem decodeNeeded_next {lower upper code seen needed n : Nat} {s : List UInt8}
    (hn : n < 256) (hrange : lower ≤ n ∧ n ≤ upper) :
    decodeNeeded lower upper code seen needed (.ofNat n :: s) =
      if seen + 1 ≠ needed then
        decodeNeeded 0x80 0xBF (code + ((n - 0x80) <<< (6 * (needed - (seen + 1)))))
          (seen + 1) needed s
      else ((code + ((n - 0x80) <<< (6 * (needed - (seen + 1)))) : Nat), s) := by
  rw [decodeNeeded, toNat_ofNat hn, if_neg (not_not.mpr hrange)]

theorem decode_two {chr : Nat} (h₀ : 0x7F < chr) (h₁ : chr ≤ 0x7FF) (s : List UInt8) :
    str_utf8_decode (str_utf8_encode chr ++ s) = ((chr : Int), s) := by
  have hencode : str_utf8_encode chr =
      [.ofNat (0xC0 + chr / 64), .ofNat (0x80 + chr % 64)] := by
    unfold str_utf8_encode
    rw [if_neg (by omega), if_pos h₁, or_lead_two, or_tail, Nat.shiftRight_eq_div_pow,
      Nat.mod_eq_of_lt (by omega)]
  have hlead : (UInt8.ofNat (0xC0 + chr / 64)).toNat = 0xC0 + chr / 64 := toNat_ofNat (by omega)
  rw [hencode, List.cons_append, str_utf8_decode]
  simp only [hlead]
  rw [if_neg (by omega), if_pos (by omega), List.cons_append,
    decodeNeeded_next (by omega) (by omega), if_neg (by decide), Nat.shiftLeft_eq,
    Nat.shiftLeft_eq]
  exact congrArg (fun n : Nat => ((n : Int), s)) (by omega)

theorem decode_three {chr : Nat} (h₀ : 0x7FF < chr) (h₁ : chr ≤ 0xFFFF)
    (hsurrogate : ¬ (0xD800 ≤ chr ∧ chr ≤ 0xDFFF)) (s : List UInt8) :
    str_utf8_decode (str_utf8_encode chr ++ s) = ((chr : Int), s) := by
  have hencode : str_utf8_encode chr = [.ofNat (0xE0 + chr / 4096),
      .ofNat (0x80 + chr / 64 % 64), .ofNat (0x80 + chr % 64)] := by
    unfold str_utf8_encode
    rw [if_neg (by omega), if_neg (by omega), if_pos h₁, or_lead_three, or_tail, or_tail,
      Nat.shiftRight_eq_div_pow, Nat.shiftRight_eq_div_pow, Nat.mod_eq_of_lt (a := chr / 2 ^ 12)
        (by omega)]
  have hlead : (UInt8.ofNat (0xE0 + chr / 4096)).toNat = 0xE0 + chr / 4096 :=
    toNat_ofNat (by omega)
  rw [hencode, List.cons_append, str_utf8_decode]
  simp only [hlead]
  rw [if_neg (by omega), if_neg (by omega), if_pos (by omega), List.cons_append,
    decodeNeeded_next (by omega) (by constructor <;> split <;> omega), if_pos (by decide),
    List.cons_append, decodeNeeded_next (by omega) (by omega), if_neg (by decide),
    Nat.shiftLeft_eq, Nat.shiftLeft_eq, Nat.shiftLeft_eq]
  exact congrArg (fun n : Nat => ((n : Int), s)) (by omega)

theorem decode_four {chr : Nat} (h₀ : 0xFFFF < chr) (h₁ : chr ≤ 0x10FFFF) (s : List UInt8) :
    str_utf8_decode (str_utf8_encode chr ++ s) = ((chr : Int), s) := by
  have hencode : str_utf8_encode chr = [.ofNat (0xF0 + chr / 262144),
      .ofNat (0x80 + chr / 4096 % 64), .ofNat (0x80 + chr / 64 % 64),
      .ofNat (0x80 + chr % 64)] := by
    unfold str_utf8_encode
    rw [if_neg (by omega), if_neg (by omega), if_neg (by omega), if_pos h₁, or_lead_four, or_tail,
      or_tail, or_tail, Nat.shiftRight_eq_div_pow, Nat.shiftRight_eq_div_pow,
      Nat.shiftRight_eq_div_pow, Nat.mod_eq_of_lt (a := chr / 2 ^ 18) (by omega)]
  have hlead : (UInt8.ofNat (0xF0 + chr / 262144)).toNat = 0xF0 + chr / 262144 :=
    toNat_ofNat (by omega)
  rw [hencode, List.cons_append, str_utf8_decode]
  simp only [hlead]
  rw [if_neg (by omega), if_neg (by omega), if_neg (by omega), if_pos (by omega),
    List.cons_append, decodeNeeded_next (by omega) (by constructor <;> split <;> omega),
    if_pos (by decide), List.cons_append, decodeNeeded_next (by omega) (by omega),
    if_pos (by decide), List.cons_append, decodeNeeded_next (by omega) (by omega),
    if_neg (by decide), Nat.shiftLeft_eq, Nat.shiftLeft_eq, Nat.shiftLeft_eq, Nat.shiftLeft_eq]
  exact congrArg (fun n : Nat => ((n : Int), s)) (by omega)

/-- A scalar value is read from its encoding. -/
theorem str_utf8_decode_encode {chr : Nat} (h : Scalar chr) (s : List UInt8) :
    str_utf8_decode (str_utf8_encode chr ++ s) = ((chr : Int), s) := by
  obtain ⟨hpos, hmax, hsurrogate⟩ := h
  by_cases h₁ : chr ≤ 0x7F
  · have hencode : str_utf8_encode chr = [.ofNat chr] := if_pos h₁
    have hlead : (UInt8.ofNat chr).toNat = chr := toNat_ofNat (by omega)
    rw [hencode, List.cons_append, str_utf8_decode]
    simp only [hlead]
    rw [if_pos h₁]
    rfl
  by_cases h₂ : chr ≤ 0x7FF
  · exact decode_two (by omega) h₂ s
  by_cases h₃ : chr ≤ 0xFFFF
  · exact decode_three (by omega) h₃ hsurrogate s
  · exact decode_four (by omega) hmax s

/-- The encoding of a surrogate is an error. -/
theorem decode_surrogate {chr : Nat} (h : 0xD800 ≤ chr ∧ chr ≤ 0xDFFF) (s : List UInt8) :
    (str_utf8_decode (str_utf8_encode chr ++ s)).1 = -1 := by
  have hencode : str_utf8_encode chr = [.ofNat (0xE0 + chr / 4096),
      .ofNat (0x80 + chr / 64 % 64), .ofNat (0x80 + chr % 64)] := by
    unfold str_utf8_encode
    rw [if_neg (by omega), if_neg (by omega), if_pos (by omega), or_lead_three, or_tail, or_tail,
      Nat.shiftRight_eq_div_pow, Nat.shiftRight_eq_div_pow, Nat.mod_eq_of_lt (a := chr / 2 ^ 12)
        (by omega)]
  have hlead : (UInt8.ofNat (0xE0 + chr / 4096)).toNat = 0xE0 + chr / 4096 :=
    toNat_ofNat (by omega)
  rw [hencode, List.cons_append, str_utf8_decode]
  simp only [hlead]
  rw [if_neg (by omega), if_neg (by omega), if_pos (by omega), List.cons_append, decodeNeeded,
    toNat_ofNat (by omega), if_pos]
  intro hrange
  have hupper := hrange.2
  rw [if_pos (by omega)] at hupper
  omega

/-- What is decoded without an error is the scalar value that is encoded there. -/
theorem str_utf8_decode_scalar {b : UInt8} {s : List UInt8} (hb : b ≠ 0) :
    (str_utf8_decode (b :: s)).1 = -1 ∨
    ∃ chr, Scalar chr ∧ (str_utf8_decode (b :: s)).1 = (chr : Int) ∧
      b :: s = str_utf8_encode chr ++ (str_utf8_decode (b :: s)).2 := by
  rcases str_utf8_decode_spec b s with herr | ⟨chr, hchr, hsplit⟩
  · exact .inl herr
  refine .inr ⟨chr, ⟨?_, ?_, ?_⟩, hchr, hsplit⟩
  · apply Nat.pos_of_ne_zero
    rintro rfl
    exact hb (List.cons.inj hsplit).1
  · apply Nat.le_of_not_lt
    intro hlarge
    have hnil : str_utf8_encode chr = [] := by
      unfold str_utf8_encode
      rw [if_neg (by omega), if_neg (by omega), if_neg (by omega), if_neg (by omega)]
    have hlength := congrArg List.length hsplit
    have hle := length_str_utf8_decode b s
    rw [hnil, List.nil_append, List.length_cons] at hlength
    omega
  · intro hsurrogate
    have herr := decode_surrogate hsurrogate (str_utf8_decode (b :: s)).2
    rw [← hsplit, hchr] at herr
    omega

/-- The bytes of some code points. -/
def encoded (codes : List Nat) : List UInt8 := codes.flatMap str_utf8_encode

@[simp] theorem encoded_nil : encoded [] = [] := rfl

@[simp] theorem encoded_cons (chr : Nat) (codes : List Nat) :
    encoded (chr :: codes) = str_utf8_encode chr ++ encoded codes := List.flatMap_cons

theorem encode_ne_nil {chr : Nat} (h : Scalar chr) : str_utf8_encode chr ≠ [] := by
  intro hnil
  have hread := str_utf8_decode_encode h []
  rw [hnil] at hread
  have hzero := congrArg Prod.fst hread
  have hpos := h.1
  simp only [List.append_nil, str_utf8_decode] at hzero
  omega

/-- The strings that are accepted are the encodings of scalar values. -/
theorem str_utf8_check_iff {s : List UInt8} (h₀ : 0 ∉ s) :
    str_utf8_check s = true ↔ ∃ codes, (∀ chr ∈ codes, Scalar chr) ∧ s = encoded codes := by
  constructor
  · induction hn : s.length using Nat.strongRecOn generalizing s with
    | ind n ih =>
        intro hcheck
        cases s with
        | nil => exact ⟨[], fun _ h => absurd h List.not_mem_nil, rfl⟩
        | cons b s =>
            rw [str_utf8_check] at hcheck
            have hb : b ≠ 0 := fun hb => h₀ (hb ▸ List.mem_cons_self)
            rcases str_utf8_decode_scalar (s := s) hb with herr | ⟨chr, hscalar, hchr, hsplit⟩
            · simp only [herr] at hcheck
              cases hcheck
            · have hpos := hscalar.1
              simp only [hchr] at hcheck
              rw [if_neg (by omega), if_neg (by omega)] at hcheck
              have hrest : 0 ∉ (str_utf8_decode (b :: s)).2 := by
                intro hmem
                apply h₀
                rw [hsplit]
                exact List.mem_append_right _ hmem
              have hlength := length_str_utf8_decode b s
              rw [List.length_cons] at hn
              obtain ⟨codes, hcodes, heq⟩ := ih _ (by omega) hrest rfl hcheck
              refine ⟨chr :: codes, ?_, ?_⟩
              · exact List.forall_mem_cons.mpr ⟨hscalar, hcodes⟩
              · rw [encoded_cons, ← heq]
                exact hsplit
  · rintro ⟨codes, hcodes, rfl⟩
    clear h₀
    induction codes with
    | nil => rw [encoded_nil, str_utf8_check]
    | cons chr codes ih =>
        have hscalar := hcodes chr List.mem_cons_self
        have hpos := hscalar.1
        obtain ⟨b, t, ht⟩ := List.exists_cons_of_ne_nil (encode_ne_nil hscalar)
        have hread := str_utf8_decode_encode hscalar (encoded codes)
        rw [encoded_cons]
        rw [ht, List.cons_append] at hread ⊢
        rw [str_utf8_check, hread]
        simp only
        rw [if_neg (by omega), if_neg (by omega)]
        exact ih fun c hc => hcodes c (List.mem_cons_of_mem chr hc)

/-! ## Pointers -/

def str_byte_next (mem : List UInt8) (ptr : Nat) : Exec (UInt8 × Nat) :=
  match mem[ptr]? with
  | none => .error .outOfBounds
  | some byte_value => .ok (byte_value, ptr + 1)

/-- The loop of `str_utf8_decode` once some bytes are needed, `left` of them. -/
def decodeNeeded_at (mem : List UInt8) (lower_boundary upper_boundary code_point : Nat) :
    Nat → Nat → Exec (Int × Nat)
  | 0, ptr => .ok (code_point, ptr)
  | left + 1, ptr => do
      let (byte_value, ptr) ← str_byte_next mem ptr
      if ¬ (lower_boundary ≤ byte_value.toNat ∧ byte_value.toNat ≤ upper_boundary) then
        -- str_byte_rewind
        return (-1, ptr - 1)
      else
        decodeNeeded_at mem 0x80 0xBF (code_point + ((byte_value.toNat - 0x80) <<< (6 * left)))
          left ptr

/-- The code point and the new pointer. -/
def str_utf8_decode_at (mem : List UInt8) (ptr : Nat) : Exec (Int × Nat) := do
  let (byte, ptr) ← str_byte_next mem ptr
  let byte_value := byte.toNat
  if byte_value ≤ 0x7F then return (byte_value, ptr)
  else if 0xC2 ≤ byte_value ∧ byte_value ≤ 0xDF then
    decodeNeeded_at mem 0x80 0xBF ((byte_value - 0xC0) <<< (6 * 1)) 1 ptr
  else if 0xE0 ≤ byte_value ∧ byte_value ≤ 0xEF then
    decodeNeeded_at mem (if byte_value = 0xE0 then 0xA0 else 0x80)
      (if byte_value = 0xED then 0x9F else 0xBF) ((byte_value - 0xE0) <<< (6 * 2)) 2 ptr
  else if 0xF0 ≤ byte_value ∧ byte_value ≤ 0xF4 then
    decodeNeeded_at mem (if byte_value = 0xF0 then 0x90 else 0x80)
      (if byte_value = 0xF4 then 0x8F else 0xBF) ((byte_value - 0xF0) <<< (6 * 3)) 3 ptr
  else return (-1, ptr)

/-- Repeated calls until the end of the string, at most so many. -/
def visits (mem : List UInt8) : Nat → Nat → Exec (List (Int × Nat))
  | 0, _ => .error .diverges
  | n + 1, ptr => do
      let (codepoint, ptr) ← str_utf8_decode_at mem ptr
      if codepoint = 0 then return [(codepoint, ptr)]
      else return (codepoint, ptr) :: (← visits mem n ptr)

theorem str_byte_next_string {s : List UInt8} {ptr : Nat} {b : UInt8} {t : List UInt8}
    (h : s.drop ptr = b :: t) : str_byte_next (s ++ [0]) ptr = .ok (b, ptr + 1) := by
  have hlt : ptr < s.length := by
    apply Nat.lt_of_not_le
    intro hle
    rw [List.drop_eq_nil_of_le hle] at h
    cases h
  have hget : s[ptr]? = some b := by
    rw [← List.head?_drop, h]
    rfl
  unfold str_byte_next
  rw [List.getElem?_append_left hlt, hget]

theorem str_byte_next_end (s : List UInt8) :
    str_byte_next (s ++ [0]) s.length = .ok (0, s.length + 1) := by
  unfold str_byte_next
  rw [List.getElem?_append_right (Nat.le_refl _), Nat.sub_self]
  rfl

theorem drop_succ_of_drop {s t : List UInt8} {ptr : Nat} {b : UInt8} (h : s.drop ptr = b :: t) :
    s.drop (ptr + 1) = t := by
  rw [← List.drop_drop, h]
  rfl

theorem length_of_drop {s t : List UInt8} {ptr : Nat} {b : UInt8} (h : s.drop ptr = b :: t) :
    s.length = ptr + 1 + t.length := by
  have hlength := congrArg List.length h
  rw [List.length_drop, List.length_cons] at hlength
  omega

/-- The loop on the memory reads what the one on the rest of the string reads. -/
theorem decodeNeeded_at_eq (s : List UInt8) {lower upper code seen left ptr : Nat}
    (hlower : 0x80 ≤ lower) (hptr : ptr ≤ s.length) :
    decodeNeeded_at (s ++ [0]) lower upper code (left + 1) ptr =
      .ok ((decodeNeeded lower upper code seen (seen + left + 1) (s.drop ptr)).1,
        s.length - (decodeNeeded lower upper code seen (seen + left + 1) (s.drop ptr)).2.length) := by
  induction left generalizing lower upper code seen ptr with
  | zero =>
      unfold decodeNeeded_at
      cases hdrop : s.drop ptr with
      | nil =>
          have hend : ptr = s.length := Nat.le_antisymm hptr (List.drop_eq_nil_iff.mp hdrop)
          rw [hend, str_byte_next_end]
          show (if ¬ (lower ≤ 0 ∧ 0 ≤ upper) then _ else _) = _
          rw [if_pos (by omega)]
          rfl
      | cons b t =>
          have hlength := length_of_drop hdrop
          rw [str_byte_next_string hdrop]
          show (if ¬ (lower ≤ b.toNat ∧ b.toNat ≤ upper) then _ else _) = _
          unfold decodeNeeded
          by_cases hrange : lower ≤ b.toNat ∧ b.toNat ≤ upper
          · rw [if_neg (not_not_intro hrange), if_neg (not_not_intro hrange)]
            simp only [ne_eq, Nat.add_zero, not_true_eq_false, if_false, Nat.sub_self, Nat.mul_zero]
            rw [hlength, Nat.add_sub_cancel]
            rfl
          · rw [if_pos hrange, if_pos hrange, List.length_cons, hlength]
            exact congrArg (fun n => Except.ok ((-1 : Int), n)) (by omega)
  | succ left ih =>
      unfold decodeNeeded_at
      cases hdrop : s.drop ptr with
      | nil =>
          have hend : ptr = s.length := Nat.le_antisymm hptr (List.drop_eq_nil_iff.mp hdrop)
          rw [hend, str_byte_next_end]
          show (if ¬ (lower ≤ 0 ∧ 0 ≤ upper) then _ else _) = _
          rw [if_pos (by omega)]
          rfl
      | cons b t =>
          have hlength := length_of_drop hdrop
          rw [str_byte_next_string hdrop]
          show (if ¬ (lower ≤ b.toNat ∧ b.toNat ≤ upper) then _ else _) = _
          unfold decodeNeeded
          by_cases hrange : lower ≤ b.toNat ∧ b.toNat ≤ upper
          · have hmore : seen + 1 ≠ seen + (left + 1) + 1 := by omega
            have hbytes : seen + (left + 1) + 1 - (seen + 1) = left + 1 := by omega
            have hneeded : seen + (left + 1) + 1 = seen + 1 + left + 1 := by omega
            rw [if_neg (not_not_intro hrange), if_neg (not_not_intro hrange)]
            simp only
            rw [if_pos hmore, hbytes, hneeded, ← drop_succ_of_drop hdrop]
            exact ih (Nat.le_refl _) (by omega)
          · rw [if_pos hrange, if_pos hrange, List.length_cons, hlength]
            exact congrArg (fun n => Except.ok ((-1 : Int), n)) (by omega)

/-- Before the NUL the pointer is moved to what is left of the string. -/
theorem str_utf8_decode_at_eq {s t : List UInt8} {ptr : Nat} {b : UInt8}
    (hdrop : s.drop ptr = b :: t) :
    str_utf8_decode_at (s ++ [0]) ptr =
      .ok ((str_utf8_decode (b :: t)).1, s.length - (str_utf8_decode (b :: t)).2.length) := by
  have hlength := length_of_drop hdrop
  have hnext := drop_succ_of_drop hdrop
  have hneeded : ∀ (lower upper code left : Nat), 0x80 ≤ lower →
      decodeNeeded_at (s ++ [0]) lower upper code (left + 1) (ptr + 1) =
        .ok ((decodeNeeded lower upper code 0 (left + 1) t).1,
          s.length - (decodeNeeded lower upper code 0 (left + 1) t).2.length) := by
    intro lower upper code left hlower
    have heq := @decodeNeeded_at_eq s lower upper code 0 left (ptr + 1) hlower (by omega)
    rw [Nat.zero_add, hnext] at heq
    exact heq
  have hend : s.length - t.length = ptr + 1 := by omega
  unfold str_utf8_decode_at str_utf8_decode
  rw [str_byte_next_string hdrop]
  show (if b.toNat ≤ 0x7F then _ else _) = _
  simp only
  split
  · rw [hend]
    rfl
  split
  · exact hneeded _ _ _ 0 (Nat.le_refl _)
  split
  · exact hneeded _ _ _ 1 (by split <;> omega)
  split
  · exact hneeded _ _ _ 2 (by split <;> omega)
  · rw [hend]
    rfl

/-- At the NUL the end of the string is reported, the pointer is moved behind it. -/
theorem str_utf8_decode_at_end (s : List UInt8) :
    str_utf8_decode_at (s ++ [0]) s.length = .ok (0, s.length + 1) := by
  unfold str_utf8_decode_at
  rw [str_byte_next_end]
  rfl

/-- Positions behind a pointer, each before the next one, up to the NUL. -/
theorem visits_spec {s : List UInt8} (h₀ : 0 ∉ s) {n ptr : Nat} (hn : s.length < ptr + n)
    (hptr : ptr ≤ s.length) :
    ∃ vs, visits (s ++ [0]) n ptr = .ok (vs ++ [(0, s.length + 1)]) ∧
      (ptr :: vs.map Prod.snd).Pairwise (· < ·) ∧
      (∀ v ∈ vs, v.1 ≠ 0 ∧ v.2 ≤ s.length) ∧
      ∀ codes, (∀ chr ∈ codes, Scalar chr) → s.drop ptr = encoded codes →
        vs.map Prod.fst = codes.map Int.ofNat := by
  induction n generalizing ptr with
  | zero => omega
  | succ n ih =>
      unfold visits
      cases hdrop : s.drop ptr with
      | nil =>
          have hend : ptr = s.length := Nat.le_antisymm hptr (List.drop_eq_nil_iff.mp hdrop)
          refine ⟨[], ?_, List.pairwise_singleton _ _, fun v hv => absurd hv List.not_mem_nil, ?_⟩
          · rw [hend, str_utf8_decode_at_end]
            rfl
          · intro codes hcodes heq
            cases codes with
            | nil => rfl
            | cons chr codes =>
                rw [encoded_cons] at heq
                have hnil := (List.append_eq_nil_iff.mp heq.symm).1
                exact absurd hnil (encode_ne_nil (hcodes chr List.mem_cons_self))
      | cons b t =>
          have hlength := length_of_drop hdrop
          have hle := length_str_utf8_decode b t
          have hsuffix := suffix_str_utf8_decode b t
          have hb : b ≠ 0 := by
            rintro rfl
            apply h₀
            apply List.mem_of_mem_drop (i := ptr)
            rw [hdrop]
            exact List.mem_cons_self
          have hcode : (str_utf8_decode (b :: t)).1 ≠ 0 := by
            rcases str_utf8_decode_scalar (s := t) hb with herr | ⟨chr, hscalar, hchr, -⟩
            · rw [herr]
              decide
            · have hpos := hscalar.1
              rw [hchr]
              omega
          have hrest : s.drop (s.length - (str_utf8_decode (b :: t)).2.length) =
              (str_utf8_decode (b :: t)).2 := by
            have hall : (str_utf8_decode (b :: t)).2 <:+ s :=
              (hsuffix.trans (List.suffix_cons b t)).trans (hdrop ▸ List.drop_suffix ptr s)
            exact (List.suffix_iff_eq_drop.mp hall).symm
          have hleft : s.length < s.length - (str_utf8_decode (b :: t)).2.length + n := by omega
          obtain ⟨vs, hrun, hsorted, hbefore, hcodes⟩ := ih hleft (by omega)
          refine ⟨((str_utf8_decode (b :: t)).1,
            s.length - (str_utf8_decode (b :: t)).2.length) :: vs, ?_, ?_, ?_, ?_⟩
          · rw [str_utf8_decode_at_eq hdrop]
            show (if (str_utf8_decode (b :: t)).1 = 0 then _ else _) = _
            rw [if_neg hcode, hrun]
            rfl
          · rw [List.map_cons]
            refine List.pairwise_cons.mpr ⟨fun q hq => ?_, hsorted⟩
            rcases List.mem_cons.mp hq with rfl | hq
            · omega
            · have hlt := (List.pairwise_cons.mp hsorted).1 q hq
              omega
          · intro v hv
            rcases List.mem_cons.mp hv with rfl | hv
            · exact ⟨hcode, Nat.sub_le _ _⟩
            · exact hbefore v hv
          · intro codes hscalars heq
            cases codes with
            | nil => cases heq
            | cons chr codes =>
                have hread := str_utf8_decode_encode (hscalars chr List.mem_cons_self)
                  (encoded codes)
                rw [encoded_cons] at heq
                rw [← heq] at hread
                rw [hread] at hcodes ⊢
                rw [List.map_cons, List.map_cons,
                  hcodes codes (fun c hc => hscalars c (List.mem_cons_of_mem chr hc)) ?_]
                · rfl
                · rw [hread] at hrest
                  exact hrest

/-- The check accepts the encodings of scalar values and nothing else; repeated calls visit
increasing positions up to the NUL, the call there reports the end of the string and moves behind
it, and what is visited in an accepted string are its scalar values. -/
theorem utf8_acceptance {s : List UInt8} (h₀ : 0 ∉ s) :
    (str_utf8_check s = true ↔
      ∃ codes, (∀ chr ∈ codes, Scalar chr) ∧ s = encoded codes) ∧
    ∃ vs, visits (s ++ [0]) (s.length + 1) 0 = .ok (vs ++ [(0, s.length + 1)]) ∧
      (0 :: vs.map Prod.snd).Pairwise (· < ·) ∧
      (∀ v ∈ vs, v.1 ≠ 0 ∧ v.2 ≤ s.length) ∧
      ∀ codes, (∀ chr ∈ codes, Scalar chr) → s = encoded codes →
        vs.map Prod.fst = codes.map Int.ofNat :=
  ⟨str_utf8_check_iff h₀, visits_spec h₀ (by omega) (Nat.zero_le _)⟩

/-- The Euro sign between a stray byte and a letter. -/
theorem utf8_acceptance_euro :
    str_utf8_check [0xFF, 0xE2, 0x82, 0xAC, 0x61] = false ∧
    visits [0xFF, 0xE2, 0x82, 0xAC, 0x61, 0] 6 0 =
      .ok [(-1, 1), (0x20AC, 4), (0x61, 5), (0, 6)] ∧
    ∃ vs, visits ([0xFF, 0xE2, 0x82, 0xAC, 0x61] ++ [0]) 6 0 = .ok (vs ++ [(0, 6)]) ∧
      (0 :: vs.map Prod.snd).Pairwise (· < ·) := by
  obtain ⟨-, vs, hrun, hsorted, -⟩ :=
    utf8_acceptance (s := [0xFF, 0xE2, 0x82, 0xAC, 0x61]) (by decide)
  exact ⟨by decide +kernel, by decide, vs, hrun, hsorted⟩

/-- The pointer is behind the NUL of the empty string after the first call. -/
theorem decode_passes_nul :
    str_utf8_decode_at ([] ++ [0]) 0 = .ok (0, 1) ∧ ([] : List UInt8).length < 1 :=
  ⟨rfl, Nat.zero_lt_one⟩

end Fex.Base
