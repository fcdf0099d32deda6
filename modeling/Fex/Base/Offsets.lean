import Fex.Base.Truncation
import Fex.Lib.Cells

/-!
# Positions of characters

`str_utf8_stats` measures a string, `str_utf8_forward` and `str_utf8_rewind` move
over one character of it.  Here they work on memory, where a position that is
passed as an `int` is wrapped.  In a valid string the positions between
characters are its `offset`s.
-/

namespace Fex.Base

open Fex.Lib

/-! ## Functions -/

/-- The loop of `str_utf8_stats`, while `max_count - *count` is the first number. -/
def statsLoop (mem : List UInt8) (str max_size : Nat) : Nat → Nat → Nat → Nat → Exec (Nat × Nat)
  | 0, _, size, count => .ok (size, count)
  | left + 1, cursor, size, count =>
      if size < max_size then do
        let (code, cursor) ← str_utf8_decode_at mem cursor
        if code = 0 then return (size, count)
        else if cursor - str ≥ max_size then return (size, count)
        else statsLoop mem str max_size left cursor (cursor - str) (count + 1)
      else .ok (size, count)

/-- `*size` and `*count`. -/
def str_utf8_stats (mem : List UInt8) (str max_size max_count : Nat) : Exec (Nat × Nat) :=
  statsLoop mem str max_size max_count str 0 0

def rewindLoop (mem : List UInt8) : Nat → Exec Nat
  | 0 => .ok 0
  | cursor + 1 => do
      let c ← load mem cursor
      if str_utf8_isstart c then return cursor else rewindLoop mem cursor

/-- `str_utf8_rewind`, from a negative position on it reads before the string. -/
def str_utf8_rewind_at (mem : List UInt8) (cursor : Int) : Exec Int :=
  if cursor < 0 then .error .outOfBounds
  else do
    let cursor ← rewindLoop mem cursor.toNat
    return (cursor : Int)

/-- `str_utf8_forward` -/
def str_utf8_forward_at (mem : List UInt8) (cursor : Int) : Exec Int :=
  if cursor < 0 then .error .outOfBounds
  else do
    let (code, ptr) ← str_utf8_decode_at mem cursor.toNat
    if code = 0 then return cursor else return wrap32 ptr

/-! ## Offsets -/

theorem encoded_append (codes codes' : List Nat) :
    encoded (codes ++ codes') = encoded codes ++ encoded codes' := List.flatMap_append

/-- The position of a character. -/
def offset (codes : List Nat) (k : Nat) : Nat := (encoded (codes.take k)).length

variable {codes : List Nat} {j k : Nat}

@[simp] theorem offset_zero (codes : List Nat) : offset codes 0 = 0 := rfl

theorem offset_of_le (h : codes.length ≤ k) : offset codes k = (encoded codes).length := by
  rw [offset, List.take_of_length_le h]

theorem offset_append (pre post : List Nat) :
    offset (pre ++ post) pre.length = (encoded pre).length := by
  rw [offset, List.take_left]

theorem offset_succ (hk : k < codes.length) :
    offset codes (k + 1) = offset codes k + (str_utf8_encode codes[k]).length := by
  have htake : codes.take (k + 1) = codes.take k ++ [codes[k]] :=
    List.take_succ_eq_append_getElem hk
  calc offset codes (k + 1) = (encoded (codes.take k ++ [codes[k]])).length := by
        rw [offset, htake]
    _ = offset codes k + (str_utf8_encode codes[k]).length := by
        rw [encoded_append, List.length_append, encoded_cons, encoded_nil, List.append_nil, offset]

theorem offset_mono (h : j ≤ k) : offset codes j ≤ offset codes k := by
  induction k with
  | zero => rw [Nat.le_zero.mp h]
  | succ k ih =>
      rcases Nat.eq_or_lt_of_le h with rfl | hlt
      · exact Nat.le_refl _
      · apply Nat.le_trans (ih (Nat.le_of_lt_succ hlt))
        rcases Nat.lt_or_ge k codes.length with hk | hk
        · rw [offset_succ hk]
          exact Nat.le_add_right _ _
        · rw [offset_of_le hk, offset_of_le (Nat.le_succ_of_le hk)]

theorem offset_lt (hcodes : ∀ chr ∈ codes, Scalar chr) (h : j < k) (hk : k ≤ codes.length) :
    offset codes j < offset codes k := by
  have hj : j < codes.length := Nat.lt_of_lt_of_le h hk
  have hne := encode_ne_nil (hcodes codes[j] (List.getElem_mem hj))
  calc offset codes j < offset codes (j + 1) := by
        rw [offset_succ hj]
        exact Nat.lt_add_of_pos_right (List.length_pos_iff.mpr hne)
    _ ≤ offset codes k := offset_mono h

/-- Each character has a byte. -/
theorem length_le_encoded (hcodes : ∀ chr ∈ codes, Scalar chr) :
    codes.length ≤ (encoded codes).length := by
  induction codes with
  | nil => exact Nat.le_refl 0
  | cons chr codes ih =>
      have hpos := List.length_pos_iff.mpr (encode_ne_nil (hcodes chr List.mem_cons_self))
      have hrest := ih fun c hc => hcodes c (List.mem_cons_of_mem chr hc)
      rw [encoded_cons, List.length_append, List.length_cons]
      omega

theorem lt_of_offset_lt (h : offset codes j < offset codes k) : j < k := by
  apply Nat.lt_of_not_le
  intro hle
  exact absurd (@offset_mono codes k j hle) (Nat.not_le.mpr h)

/-- A text is cut at an offset. -/
theorem encoded_offset (codes : List Nat) (k : Nat) :
    encoded codes = encoded (codes.take k) ++ encoded (codes.drop k) := by
  rw [← encoded_append, List.take_append_drop]

theorem drop_offset (codes : List Nat) (k : Nat) :
    (encoded codes).drop (offset codes k) = encoded (codes.drop k) := by
  rw [encoded_offset codes k, offset, List.drop_left]

/-! ## Reading at an offset -/

theorem str_byte_next_append {mem : List UInt8} {ptr : Nat} {r : UInt8 × Nat}
    (h : str_byte_next mem ptr = .ok r) (post : List UInt8) :
    str_byte_next (mem ++ post) ptr = .ok r := by
  unfold str_byte_next at h ⊢
  cases hget : mem[ptr]? with
  | none =>
      rw [hget] at h
      cases h
  | some b =>
      rw [hget] at h
      rw [List.getElem?_append_left (List.getElem?_eq_some_iff.mp hget).1, hget]
      exact h

theorem decodeNeeded_at_append {mem : List UInt8} {lower upper code left ptr : Nat} {r : Int × Nat}
    (h : decodeNeeded_at mem lower upper code left ptr = .ok r) (post : List UInt8) :
    decodeNeeded_at (mem ++ post) lower upper code left ptr = .ok r := by
  induction left generalizing lower upper code ptr with
  | zero => exact h
  | succ left ih =>
      unfold decodeNeeded_at at h ⊢
      obtain ⟨⟨b, ptr'⟩, hnext, h⟩ := bind_eq_ok.mp h
      rw [str_byte_next_append hnext post]
      show (if ¬ (lower ≤ b.toNat ∧ b.toNat ≤ upper) then _ else _) = _
      replace h : (if ¬ (lower ≤ b.toNat ∧ b.toNat ≤ upper) then _ else _) = _ := h
      split
      next hrange =>
        rw [if_pos hrange] at h
        exact h
      next hrange =>
        rw [if_neg hrange] at h
        exact ih h

/-- What is read does not depend on what follows. -/
theorem str_utf8_decode_at_append {mem : List UInt8} {ptr : Nat} {r : Int × Nat}
    (h : str_utf8_decode_at mem ptr = .ok r) (post : List UInt8) :
    str_utf8_decode_at (mem ++ post) ptr = .ok r := by
  unfold str_utf8_decode_at at h ⊢
  obtain ⟨⟨b, ptr'⟩, hnext, h⟩ := bind_eq_ok.mp h
  rw [str_byte_next_append hnext post]
  show (if b.toNat ≤ 0x7F then _ else _) = _
  replace h : (if b.toNat ≤ 0x7F then _ else _) = _ := h
  split
  next h₁ =>
    rw [if_pos h₁] at h
    exact h
  next h₁ =>
    rw [if_neg h₁] at h
    split
    next h₂ =>
      rw [if_pos h₂] at h
      exact decodeNeeded_at_append h post
    next h₂ =>
      rw [if_neg h₂] at h
      split
      next h₃ =>
        rw [if_pos h₃] at h
        exact decodeNeeded_at_append h post
      next h₃ =>
        rw [if_neg h₃] at h
        split
        next h₄ =>
          rw [if_pos h₄] at h
          exact decodeNeeded_at_append h post
        next h₄ =>
          rw [if_neg h₄] at h
          exact h

theorem decode_at_offset (hcodes : ∀ chr ∈ codes, Scalar chr) (hk : k < codes.length)
    (rest : List UInt8) :
    str_utf8_decode_at (encoded codes ++ 0 :: rest) (offset codes k) =
      .ok ((codes[k] : Int), offset codes (k + 1)) := by
  have hscalar := hcodes codes[k] (List.getElem_mem hk)
  have hdrop : (encoded codes).drop (offset codes k) =
      str_utf8_encode codes[k] ++ encoded (codes.drop (k + 1)) := by
    rw [drop_offset, List.drop_eq_getElem_cons hk, encoded_cons]
  have hread := str_utf8_decode_encode hscalar (encoded (codes.drop (k + 1)))
  obtain ⟨b, t, ht⟩ := List.exists_cons_of_ne_nil (encode_ne_nil hscalar)
  rw [ht, List.cons_append] at hdrop hread
  have hat := str_utf8_decode_at_eq hdrop
  have hlength : (encoded codes).length =
      offset codes (k + 1) + (encoded (codes.drop (k + 1))).length := by
    rw [encoded_offset codes (k + 1), List.length_append, offset]
  rw [hread, hlength, Nat.add_sub_cancel] at hat
  have hmem := str_utf8_decode_at_append hat rest
  rw [List.append_assoc] at hmem
  exact hmem

theorem decode_at_nul (codes : List Nat) (rest : List UInt8) :
    str_utf8_decode_at (encoded codes ++ 0 :: rest) (encoded codes).length =
      .ok (0, (encoded codes).length + 1) := by
  have hmem := str_utf8_decode_at_append (str_utf8_decode_at_end (encoded codes)) rest
  rw [List.append_assoc] at hmem
  exact hmem

/-! ## Measuring -/

theorem fitting_self {num n : Nat} (hnum : codes.length ≤ num) (hn : (encoded codes).length ≤ n) :
    fitting num n codes = codes := by
  have happend := fitting_append codes [] hnum hn
  rw [fitting_nil, List.append_nil] at happend
  exact happend

theorem statsLoop_spec {pre codes : List Nat} (hcodes : ∀ chr ∈ pre ++ codes, Scalar chr)
    {str max_size left size count : Nat} (hsize : str + size = (encoded pre).length)
    (hmax : size = 0 ∨ size < max_size) (rest : List UInt8) :
    statsLoop (encoded (pre ++ codes) ++ 0 :: rest) str max_size left (encoded pre).length
        size count =
      .ok (size + (encoded (fitting left (max_size - 1 - size) codes)).length,
        count + (fitting left (max_size - 1 - size) codes).length) := by
  induction left generalizing pre codes size count with
  | zero => rfl
  | succ left ih =>
      unfold statsLoop
      cases codes with
      | nil =>
          rw [fitting_nil, List.append_nil, decode_at_nul]
          split <;> rfl
      | cons chr codes =>
          have hscalar := hcodes chr (List.mem_append_right _ List.mem_cons_self)
          have hpos := List.length_pos_iff.mpr (encode_ne_nil hscalar)
          have hne := hscalar.1
          have hk : pre.length < (pre ++ chr :: codes).length := by
            rw [List.length_append, List.length_cons]
            omega
          have hcons : pre ++ chr :: codes = pre ++ [chr] ++ codes := by
            rw [List.append_assoc, List.singleton_append]
          have hnext : (encoded (pre ++ [chr])).length =
              (encoded pre).length + (str_utf8_encode chr).length := by
            rw [encoded_append, List.length_append, encoded_cons, encoded_nil, List.append_nil]
          have hread := decode_at_offset hcodes hk rest
          rw [offset_append, List.getElem_append_right (Nat.le_refl _), offset_succ hk,
            offset_append, List.getElem_append_right (Nat.le_refl _)] at hread
          simp only [Nat.sub_self, List.getElem_cons_zero] at hread
          rw [hread, ← hnext]
          show (if size < max_size then
            (if (chr : Int) = 0 then _
              else if (encoded (pre ++ [chr])).length - str ≥ max_size then _ else _) else _) = _
          by_cases hlt : size < max_size
          · rw [if_pos hlt, if_neg (by omega)]
            by_cases hfits : (str_utf8_encode chr).length ≤ max_size - 1 - size
            · have hat : statsLoop (encoded (pre ++ [chr] ++ codes) ++ 0 :: rest) str max_size left
                  (encoded (pre ++ [chr])).length ((encoded (pre ++ [chr])).length - str)
                  (count + 1) = _ :=
                ih (hcons ▸ hcodes) (by omega) (.inr (by omega))
              rw [if_neg (by omega), hcons, hat, fitting, if_pos hfits, encoded_cons,
                List.length_append, List.length_cons]
              congr 2
              · rw [show max_size - 1 - ((encoded (pre ++ [chr])).length - str) =
                  max_size - 1 - size - (str_utf8_encode chr).length by omega]
                omega
              · rw [show max_size - 1 - ((encoded (pre ++ [chr])).length - str) =
                  max_size - 1 - size - (str_utf8_encode chr).length by omega]
                omega
            · rw [if_pos (by omega), fitting, if_neg hfits]
              rfl
          · rw [if_neg hlt, fitting, if_neg (by omega)]
            rfl

/-- The bytes and the number of the characters that fit. -/
theorem str_utf8_stats_spec {pre codes : List Nat} (hcodes : ∀ chr ∈ pre ++ codes, Scalar chr)
    (max_size max_count : Nat) (rest : List UInt8) :
    str_utf8_stats (encoded (pre ++ codes) ++ 0 :: rest) (encoded pre).length max_size max_count =
      .ok ((encoded (fitting max_count (max_size - 1) codes)).length,
        (fitting max_count (max_size - 1) codes).length) := by
  have hloop := @statsLoop_spec pre codes hcodes (encoded pre).length max_size max_count 0 0 rfl
    (.inl rfl) rest
  rw [Nat.sub_zero, Nat.zero_add, Nat.zero_add] at hloop
  exact hloop

/-! ## One character on -/

theorem forward_offset (hcodes : ∀ chr ∈ codes, Scalar chr) (hk : k < codes.length)
    (hnext : offset codes (k + 1) < 2147483648) (rest : List UInt8) :
    str_utf8_forward_at (encoded codes ++ 0 :: rest) (wrap32 (offset codes k)) =
      .ok (offset codes (k + 1) : Int) := by
  have hlt := offset_lt hcodes (Nat.lt_add_one k) hk
  have hpos := (hcodes codes[k] (List.getElem_mem hk)).1
  have hwrap : wrap32 (offset codes k) = offset codes k := by
    unfold wrap32
    omega
  unfold str_utf8_forward_at
  rw [hwrap, if_neg (by omega), Int.toNat_natCast, decode_at_offset hcodes hk]
  show (if (codes[k] : Int) = 0 then _ else _) = _
  rw [if_neg (by omega)]
  show Except.ok (wrap32 (offset codes (k + 1))) = _
  apply congrArg
  unfold wrap32
  omega

theorem rewindLoop_spec {mem : List UInt8} {p n : Nat} {b : UInt8} {t : List UInt8}
    (hmem : ∀ i, i ≤ t.length → mem[p + i]? = (b :: t)[i]?) (hb : str_utf8_isstart b = true)
    (ht : ∀ x ∈ t, str_utf8_isstart x = false) (hn : n ≤ t.length) :
    rewindLoop mem (p + n + 1) = .ok p := by
  induction n with
  | zero =>
      unfold rewindLoop
      have hget : mem[p]? = some b := hmem 0 (Nat.zero_le _)
      rw [load_eq hget]
      exact if_pos hb
  | succ n ih =>
      unfold rewindLoop
      have hget := hmem (n + 1) hn
      rw [List.getElem?_cons_succ, List.getElem?_eq_getElem hn] at hget
      rw [load_eq hget]
      show (if str_utf8_isstart t[n] = true then _ else _) = _
      rw [if_neg (by rw [ht _ (List.getElem_mem hn)]; decide)]
      exact ih (Nat.le_of_succ_le hn)

theorem rewind_offset (hcodes : ∀ chr ∈ codes, Scalar chr) (hk : k < codes.length)
    (hint : offset codes (k + 1) < 2147483648) (rest : List UInt8) :
    str_utf8_rewind_at (encoded codes ++ 0 :: rest) (wrap32 (offset codes (k + 1))) =
      .ok (offset codes k : Int) := by
  obtain ⟨b, t, ht, hchar⟩ := isChar_encode (hcodes codes[k] (List.getElem_mem hk))
  have hwrap : wrap32 (offset codes (k + 1)) = offset codes (k + 1) := by
    unfold wrap32
    omega
  have hsplit : encoded codes ++ 0 :: rest =
      encoded (codes.take k) ++ (b :: t ++ (encoded (codes.drop (k + 1)) ++ 0 :: rest)) := by
    rw [encoded_offset codes k, List.drop_eq_getElem_cons hk, encoded_cons, ht, List.append_assoc,
      List.append_assoc]
  have hloop : rewindLoop (encoded codes ++ 0 :: rest) (offset codes k + t.length + 1) =
      .ok (offset codes k) := by
    apply rewindLoop_spec (b := b) (t := t) _ hchar.start hchar.tail (Nat.le_refl _)
    intro i hi
    rw [hsplit, offset, List.getElem?_append_right (Nat.le_add_right _ _),
      Nat.add_sub_cancel_left, List.getElem?_append_left (by rw [List.length_cons]; omega)]
  have hsucc : offset codes (k + 1) = offset codes k + t.length + 1 := by
    rw [offset_succ hk, ht, List.length_cons]
    rfl
  unfold str_utf8_rewind_at
  rw [hwrap, if_neg (by omega), Int.toNat_natCast, hsucc, hloop]
  rfl

end Fex.Base
