import Fex.Base.Decoding

/-!
# Truncation

`str_copy` and `str_append` cut at a byte and repair the last character,
`str_utf8_truncate` and `str_utf8_copy_num` count characters from the front.
Each keeps the characters that fit.
-/

namespace Fex.Base

/-! ## Functions -/

/-- The bytes that the loop of `str_append` copies from position `s` on. -/
def appendLoop (dst_size : Nat) : List UInt8 → Nat → List UInt8
  | [], _ => []
  | c :: src, s => if s < dst_size then c :: appendLoop dst_size src (s + 1) else []

def str_append (dst src : List UInt8) (dst_size : Nat) : List UInt8 :=
  str_utf8_fix_truncation ((dst ++ appendLoop dst_size src dst.length).take (dst_size - 1))

/-- The loop of `str_utf8_truncate`, while `left` positions may be visited.  The cursor is what is
left of the string. -/
def truncateLoop (src_length dst_size : Nat) : Nat → Int → List UInt8 → Int
  | 0, size, _ => size
  | left + 1, size, cursor =>
      let position : Int := src_length - cursor.length
      if position < dst_size ∧ size ≠ position then
        if (str_utf8_decode cursor).1 = 0 then position
        else truncateLoop src_length dst_size left position (str_utf8_decode cursor).2
      else size

def str_utf8_truncate (dst_size : Nat) (src : List UInt8) (truncation_len : Nat) : List UInt8 :=
  str_copy src (truncateLoop src.length dst_size (truncation_len + 1) (-1) src + 1).toNat

/-- The cursor is what is left of the string. -/
def str_utf8_forward (cursor : List UInt8) : List UInt8 :=
  if (str_utf8_decode cursor).1 = 0 then cursor else (str_utf8_decode cursor).2

def copyNumLoop (src_length dst_size : Nat) : Nat → List UInt8 → List UInt8
  | 0, cursor => cursor
  | num + 1, cursor =>
      if cursor = [] then cursor
      else
        let new_cursor := str_utf8_forward cursor
        if src_length - new_cursor.length ≥ dst_size then cursor
        else copyNumLoop src_length dst_size num new_cursor

def str_utf8_copy_num (src : List UInt8) (dst_size num : Nat) : List UInt8 :=
  let cursor := src.length - (copyNumLoop src.length dst_size num src).length
  str_copy src (if cursor < dst_size then cursor + 1 else dst_size)

/-! ## What fits -/

/-- The first characters, at most `num`, that fit into `n` bytes. -/
def fitting : Nat → Nat → List Nat → List Nat
  | num + 1, n, chr :: codes =>
      if (str_utf8_encode chr).length ≤ n then
        chr :: fitting num (n - (str_utf8_encode chr).length) codes
      else []
  | _, _, _ => []

theorem fitting_nil (num n : Nat) : fitting num n [] = [] := by
  cases num <;> rfl

theorem fitting_le (num n : Nat) (codes : List Nat) :
    (fitting num n codes).length ≤ num ∧ (encoded (fitting num n codes)).length ≤ n := by
  induction codes generalizing num n with
  | nil =>
      rw [fitting_nil]
      exact ⟨Nat.zero_le _, Nat.zero_le _⟩
  | cons chr codes ih =>
      cases num with
      | zero => exact ⟨Nat.le_refl _, Nat.zero_le _⟩
      | succ num =>
          unfold fitting
          split
          next hfits =>
            obtain ⟨hnum, hn⟩ := ih num (n - (str_utf8_encode chr).length)
            rw [List.length_cons, encoded_cons, List.length_append]
            exact ⟨by omega, by omega⟩
          next => exact ⟨Nat.zero_le _, Nat.zero_le _⟩

theorem fitting_eq_take (num n : Nat) (codes : List Nat) :
    fitting num n codes = codes.take (fitting num n codes).length := by
  induction codes generalizing num n with
  | nil => rw [fitting_nil, List.take_nil]
  | cons chr codes ih =>
      cases num with
      | zero => rfl
      | succ num =>
          unfold fitting
          split
          · rw [List.length_cons, List.take_succ_cons, ← ih]
          · rfl

theorem fitting_append (codes rest : List Nat) {num n : Nat} (hnum : codes.length ≤ num)
    (hn : (encoded codes).length ≤ n) :
    fitting num n (codes ++ rest) =
      codes ++ fitting (num - codes.length) (n - (encoded codes).length) rest := by
  induction codes generalizing num n with
  | nil => rfl
  | cons chr codes ih =>
      rw [encoded_cons, List.length_append] at hn
      rw [List.length_cons] at hnum
      obtain ⟨num, rfl⟩ := Nat.exists_eq_succ_of_ne_zero (show num ≠ 0 by omega)
      rw [List.cons_append, fitting, if_pos (by omega), ih (by omega) (by omega), encoded_cons,
        List.length_append, List.length_cons, List.cons_append, Nat.sub_sub,
        Nat.succ_eq_add_one, Nat.add_sub_add_right]

/-- A string is the longest of the prefixes of whole characters that fit. -/
structure LongestPrefix (codes : List Nat) (fits : List Nat → Prop) (dst : List UInt8) : Prop where
  valid : str_utf8_check dst = true
  longest : ∃ k, dst = encoded (codes.take k) ∧ fits (codes.take k) ∧
    ∀ j, fits (codes.take j) → (codes.take j).length ≤ (codes.take k).length

theorem text_encoded {codes : List Nat} (hcodes : ∀ chr ∈ codes, Scalar chr) :
    Text (encoded codes) := by
  have h₀ : 0 ∉ encoded codes := by
    intro hmem
    obtain ⟨chr, hchr, hzero⟩ := List.mem_flatMap.mp hmem
    exact zero_notMem_str_utf8_encode (Nat.ne_of_gt (hcodes chr hchr).1) hzero
  exact text_of_check ((str_utf8_check_iff h₀).mpr ⟨codes, hcodes, rfl⟩) h₀

theorem longestPrefix_fitting {codes : List Nat} (hcodes : ∀ chr ∈ codes, Scalar chr)
    (num n : Nat) :
    LongestPrefix codes (fun p => p.length ≤ num ∧ (encoded p).length ≤ n)
      (encoded (fitting num n codes)) := by
  have htake := fitting_eq_take num n codes
  refine ⟨(text_encoded fun chr hchr => hcodes chr ?_).check,
    (fitting num n codes).length, by rw [← htake], ?_, fun j hfits => ?_⟩
  · rw [htake] at hchr
    exact List.mem_of_mem_take hchr
  · rw [← htake]
    exact fitting_le num n codes
  · have happend := fitting_append (codes.take j) (codes.drop j) hfits.1 hfits.2
    rw [List.take_append_drop] at happend
    rw [← htake, happend, List.length_append]
    exact Nat.le_add_right _ _

/-! ## Cutting at a byte -/

theorem isChar_encode {chr : Nat} (h : Scalar chr) :
    ∃ b t, str_utf8_encode chr = b :: t ∧ IsChar b t := by
  obtain ⟨b, t, ht⟩ := List.exists_cons_of_ne_nil (encode_ne_nil h)
  have hread := str_utf8_decode_encode h []
  rw [List.append_nil, ht] at hread
  obtain ⟨t', hchar, hsplit⟩ := str_utf8_decode_char (b := b) (s := t) (by
    rw [hread]
    simp only
    omega)
  rw [hread, List.append_nil] at hsplit
  rw [hsplit] at ht
  exact ⟨b, t', ht, hchar⟩

/-- The repair keeps the whole characters. -/
theorem fix_truncation_take {codes : List Nat} (hcodes : ∀ chr ∈ codes, Scalar chr)
    {pre : List UInt8} (hpre : str_utf8_fix_truncation pre = pre) (n : Nat) :
    str_utf8_fix_truncation (pre ++ (encoded codes).take n) =
      pre ++ encoded (fitting codes.length n codes) := by
  induction codes generalizing pre n with
  | nil =>
      rw [fitting_nil, encoded_nil, List.take_nil, List.append_nil]
      exact hpre
  | cons chr codes ih =>
      obtain ⟨b, t, ht, hchar⟩ := isChar_encode (hcodes chr List.mem_cons_self)
      rw [encoded_cons, List.length_cons]
      by_cases hfits : (str_utf8_encode chr).length ≤ n
      · rw [fitting, if_pos hfits, List.take_append, List.take_of_length_le hfits,
          ← List.append_assoc, encoded_cons, ← List.append_assoc]
        apply ih (fun c hc => hcodes c (List.mem_cons_of_mem chr hc))
        rw [ht]
        exact fix_truncation_char hchar pre
      · rw [fitting, if_neg hfits, encoded_nil, List.append_nil,
          List.take_append_of_le_length (by omega)]
        cases n with
        | zero =>
            rw [List.take_zero, List.append_nil]
            exact hpre
        | succ n =>
            rw [ht, List.length_cons] at hfits
            rw [ht, List.take_succ_cons]
            apply fix_truncation_part hchar (List.take_append_drop n t).symm
            intro hnil
            have hlength := congrArg List.length hnil
            rw [List.length_drop, List.length_nil] at hlength
            omega

theorem str_copy_encoded {codes : List Nat} (hcodes : ∀ chr ∈ codes, Scalar chr)
    (dst_size : Nat) :
    str_copy (encoded codes) dst_size =
      encoded (fitting codes.length (dst_size - 1) codes) := by
  have htake := fix_truncation_take hcodes fix_truncation_nil (dst_size - 1)
  exact htake

theorem appendLoop_eq (dst_size : Nat) (src : List UInt8) (s : Nat) :
    appendLoop dst_size src s = src.take (dst_size - s) := by
  induction src generalizing s with
  | nil => rw [List.take_nil, appendLoop]
  | cons c src ih =>
      unfold appendLoop
      split
      next hlt =>
        obtain ⟨n, hn⟩ := Nat.exists_eq_succ_of_ne_zero (show dst_size - s ≠ 0 by omega)
        rw [ih, hn, List.take_succ_cons, show dst_size - (s + 1) = n by omega]
      next hle => rw [show dst_size - s = 0 by omega, List.take_zero]

/-- Appending copies the joined text. -/
theorem str_append_eq (dst src : List UInt8) (dst_size : Nat) :
    str_append dst src dst_size = str_copy (dst ++ src) dst_size := by
  unfold str_append str_copy
  rw [appendLoop_eq, List.take_append, List.take_append, List.take_take, Nat.min_eq_left (by omega)]

theorem str_append_fits {dst src : List UInt8} {dst_size : Nat}
    (h : dst.length + src.length < dst_size) :
    str_append dst src dst_size = str_utf8_fix_truncation (dst ++ src) := by
  rw [str_append_eq, str_copy, List.take_of_length_le (by rw [List.length_append]; omega)]

theorem str_append_encoded {dst src : List Nat} (hcodes : ∀ chr ∈ dst ++ src, Scalar chr)
    {dst_size : Nat} :
    str_append (encoded dst) (encoded src) dst_size =
      encoded (fitting (dst ++ src).length (dst_size - 1) (dst ++ src)) := by
  have hbytes : (encoded dst ++ (encoded src).take (dst_size - (encoded dst).length)).take
      (dst_size - 1) = (encoded (dst ++ src)).take (dst_size - 1) := by
    rw [encoded, encoded, encoded, List.flatMap_append, List.take_append, List.take_append,
      List.take_take, Nat.min_eq_left (by omega)]
  unfold str_append
  rw [appendLoop_eq, hbytes]
  have htake := fix_truncation_take hcodes fix_truncation_nil (dst_size - 1)
  exact htake

/-! ## Counting characters -/

/-- A prefix of whole characters is copied as it is. -/
theorem str_copy_whole {codes rest : List Nat} (hcodes : ∀ chr ∈ codes, Scalar chr) :
    str_copy (encoded (codes ++ rest)) ((encoded codes).length + 1) = encoded codes := by
  unfold str_copy
  rw [Nat.add_sub_cancel, encoded, encoded, List.flatMap_append, List.take_left]
  exact (text_encoded hcodes).fix_truncation

theorem truncateLoop_spec {codes : List Nat} (hcodes : ∀ chr ∈ codes, Scalar chr)
    {position dst_size left : Nat} {size : Int} (hposition : position < dst_size)
    (hsize : size ≠ position) :
    truncateLoop (position + (encoded codes).length) dst_size (left + 1) size (encoded codes) =
      position + (encoded (fitting left (dst_size - 1 - position) codes)).length := by
  induction left generalizing codes position size with
  | zero =>
      have hhere : ((position + (encoded codes).length : Nat) : Int) - (encoded codes).length =
          position := by omega
      unfold truncateLoop
      simp only [hhere]
      rw [if_pos ⟨by omega, hsize⟩]
      split
      · simp [fitting]
      · simp [truncateLoop, fitting]
  | succ left ih =>
      have hhere : ((position + (encoded codes).length : Nat) : Int) - (encoded codes).length =
          position := by omega
      unfold truncateLoop
      simp only [hhere]
      rw [if_pos ⟨by omega, hsize⟩]
      cases codes with
      | nil => simp [fitting, str_utf8_decode]
      | cons chr codes =>
          have hscalar := hcodes chr List.mem_cons_self
          have hpos := hscalar.1
          have hnonempty := List.length_pos_iff.mpr (encode_ne_nil hscalar)
          rw [encoded_cons, str_utf8_decode_encode hscalar]
          simp only
          rw [if_neg (by omega)]
          by_cases hfits : (str_utf8_encode chr).length ≤ dst_size - 1 - position
          · have hposition' : position + (str_utf8_encode chr).length < dst_size := by omega
            have hsize' : (position : Int) ≠ (position + (str_utf8_encode chr).length : Nat) := by
              omega
            have hnext := ih (fun c hc => hcodes c (List.mem_cons_of_mem chr hc)) hposition' hsize'
            rw [List.length_append, ← Nat.add_assoc, hnext, fitting, if_pos hfits, encoded_cons,
              List.length_append, Nat.sub_sub (dst_size - 1)]
            omega
          · rw [fitting, if_neg hfits]
            unfold truncateLoop
            rw [List.length_append]
            simp only
            rw [if_neg (by omega)]
            rfl

theorem copyNumLoop_spec {codes : List Nat} (hcodes : ∀ chr ∈ codes, Scalar chr)
    {position dst_size num : Nat} (hposition : position < dst_size) :
    copyNumLoop (position + (encoded codes).length) dst_size num (encoded codes) =
      encoded (codes.drop (fitting num (dst_size - 1 - position) codes).length) := by
  induction num generalizing codes position with
  | zero => rfl
  | succ num ih =>
      unfold copyNumLoop
      cases codes with
      | nil => rfl
      | cons chr codes =>
          have hscalar := hcodes chr List.mem_cons_self
          have hpos := hscalar.1
          have hnonempty := List.length_pos_iff.mpr (encode_ne_nil hscalar)
          have hne : encoded (chr :: codes) ≠ [] := by
            rw [encoded_cons]
            exact List.append_ne_nil_of_left_ne_nil (encode_ne_nil hscalar) _
          have hforward : str_utf8_forward (encoded (chr :: codes)) = encoded codes := by
            unfold str_utf8_forward
            rw [encoded_cons, str_utf8_decode_encode hscalar]
            exact if_neg (by omega)
          rw [if_neg hne]
          simp only [hforward]
          rw [encoded_cons, List.length_append]
          by_cases hfits : (str_utf8_encode chr).length ≤ dst_size - 1 - position
          · have hposition' : position + (str_utf8_encode chr).length < dst_size := by omega
            have hnext := ih (fun c hc => hcodes c (List.mem_cons_of_mem chr hc)) hposition'
            rw [if_neg (by omega), ← Nat.add_assoc, hnext, fitting, if_pos hfits,
              List.length_cons, List.drop_succ_cons, Nat.sub_sub (dst_size - 1)]
          · rw [if_pos (by omega), fitting, if_neg hfits]
            rfl

/-- The prefix that fits is copied when its length is the size. -/
theorem str_copy_fitting {codes : List Nat} (hcodes : ∀ chr ∈ codes, Scalar chr) (num n : Nat) :
    str_copy (encoded codes) ((encoded (fitting num n codes)).length + 1) =
      encoded (fitting num n codes) := by
  have hsplit : fitting num n codes ++ codes.drop (fitting num n codes).length = codes := by
    have htake := fitting_eq_take num n codes
    have hall := List.take_append_drop (fitting num n codes).length codes
    rw [← htake] at hall
    exact hall
  have hwhole := @str_copy_whole (fitting num n codes)
    (codes.drop (fitting num n codes).length) (by
      intro chr hchr
      apply hcodes
      rw [← hsplit]
      exact List.mem_append_left _ hchr)
  rw [hsplit] at hwhole
  exact hwhole

theorem str_utf8_truncate_encoded {codes : List Nat} (hcodes : ∀ chr ∈ codes, Scalar chr)
    {dst_size : Nat} (hsize : 1 ≤ dst_size) (truncation_len : Nat) :
    str_utf8_truncate dst_size (encoded codes) truncation_len =
      encoded (fitting truncation_len (dst_size - 1) codes) := by
  have hloop := @truncateLoop_spec codes hcodes 0 dst_size truncation_len (-1) hsize (by decide)
  rw [Nat.zero_add, Nat.sub_zero] at hloop
  unfold str_utf8_truncate
  rw [hloop, Int.natCast_zero, Int.zero_add]
  exact str_copy_fitting hcodes truncation_len (dst_size - 1)

theorem str_utf8_copy_num_encoded {codes : List Nat} (hcodes : ∀ chr ∈ codes, Scalar chr)
    {dst_size : Nat} (hsize : 1 ≤ dst_size) (num : Nat) :
    str_utf8_copy_num (encoded codes) dst_size num =
      encoded (fitting num (dst_size - 1) codes) := by
  have hloop := @copyNumLoop_spec codes hcodes 0 dst_size num hsize
  rw [Nat.zero_add, Nat.sub_zero] at hloop
  have hbytes : (encoded codes).length =
      (encoded (fitting num (dst_size - 1) codes)).length +
        (encoded (codes.drop (fitting num (dst_size - 1) codes).length)).length := by
    have htake := fitting_eq_take num (dst_size - 1) codes
    rw [← List.length_append]
    apply congrArg List.length
    conv_rhs => rw [encoded, htake, encoded, ← List.flatMap_append, List.length_take,
      Nat.min_eq_left (by
        have hlength := congrArg List.length htake
        rw [List.length_take] at hlength
        omega), List.take_append_drop]
    rfl
  have hle := (fitting_le num (dst_size - 1) codes).2
  unfold str_utf8_copy_num
  simp only
  rw [hloop, hbytes, Nat.add_sub_cancel, if_pos (by omega)]
  exact str_copy_fitting hcodes num (dst_size - 1)

/-- Each of the functions keeps the longest prefix of whole characters that fits, for
`str_append` one of both strings. -/
theorem truncation_keeps_characters {src : List Nat} (hsrc : ∀ chr ∈ src, Scalar chr)
    {dst_size : Nat} (hsize : 1 ≤ dst_size) :
    LongestPrefix src (fun p => (encoded p).length ≤ dst_size - 1)
      (str_copy (encoded src) dst_size) ∧
    (∀ dst : List Nat, (∀ chr ∈ dst, Scalar chr) →
      LongestPrefix (dst ++ src) (fun p => (encoded p).length ≤ dst_size - 1)
        (str_append (encoded dst) (encoded src) dst_size) ∧
      ((encoded dst).length ≤ dst_size - 1 →
        encoded dst <+: str_append (encoded dst) (encoded src) dst_size)) ∧
    (∀ truncation_len : Nat,
      LongestPrefix src (fun p => p.length ≤ truncation_len ∧ (encoded p).length ≤ dst_size - 1)
        (str_utf8_truncate dst_size (encoded src) truncation_len)) ∧
    ∀ num : Nat,
      LongestPrefix src (fun p => p.length ≤ num ∧ (encoded p).length ≤ dst_size - 1)
        (str_utf8_copy_num (encoded src) dst_size num) := by
  -- the number of characters of the source is no limit
  have hall : ∀ codes : List Nat, (∀ chr ∈ codes, Scalar chr) →
      LongestPrefix codes (fun p => (encoded p).length ≤ dst_size - 1)
        (encoded (fitting codes.length (dst_size - 1) codes)) := by
    intro codes hcodes
    obtain ⟨hvalid, k, heq, hfits, hlongest⟩ :=
      longestPrefix_fitting hcodes codes.length (dst_size - 1)
    exact ⟨hvalid, k, heq, hfits.2, fun j hj => hlongest j ⟨List.length_take_le' _ _, hj⟩⟩
  refine ⟨?_, fun dst hdst => ?_, fun truncation_len => ?_, fun num => ?_⟩
  · rw [str_copy_encoded hsrc]
    exact hall src hsrc
  · have hboth : ∀ chr ∈ dst ++ src, Scalar chr := List.forall_mem_append.mpr ⟨hdst, hsrc⟩
    rw [str_append_encoded hboth]
    refine ⟨hall _ hboth, fun hfits => ?_⟩
    rw [fitting_append dst src (by rw [List.length_append]; omega) hfits, encoded, encoded,
      List.flatMap_append]
    exact List.prefix_append _ _
  · rw [str_utf8_truncate_encoded hsrc hsize]
    exact longestPrefix_fitting hsrc truncation_len (dst_size - 1)
  · rw [str_utf8_copy_num_encoded hsrc hsize]
    exact longestPrefix_fitting hsrc num (dst_size - 1)

/-- Two Euro signs in a buffer of six bytes. -/
theorem truncation_keeps_characters_euro :
    str_copy (encoded [0x20AC, 0x20AC]) 6 = encoded [0x20AC] ∧
    LongestPrefix [0x20AC, 0x20AC] (fun p => (encoded p).length ≤ 6 - 1)
      (str_copy (encoded [0x20AC, 0x20AC]) 6) := by
  have hsrc : ∀ chr ∈ [0x20AC, 0x20AC], Scalar chr := by decide
  exact ⟨by decide, (@truncation_keeps_characters _ hsrc 6 (by decide)).1⟩

end Fex.Base
