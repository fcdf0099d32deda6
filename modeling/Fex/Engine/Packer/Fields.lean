import Fex.Base.Characters
import Fex.Engine.Unpacker
import Mathlib.Tactic.Ring

/-!
# Single fields

What `CPacker` writes for one field is what `CUnpacker` reads: an integer in
groups of bits, a string as the characters that fit its limit.
-/

namespace Fex.Engine.Packer

open Fex.Lib Fex.Base

/-! ## Integers -/

/-- Masks and shifts of `n` whole groups from a shift on, and of the last one. -/
def groups (shift : Nat) : Nat → List (Nat × Nat)
  | 0 => [(0x0F, shift)]
  | n + 1 => (0x7F, shift) :: groups (shift + 7) n

theorem extended (byte : Nat) (h : byte < 0x80) :
    UInt8.ofNat byte &&& 0x80 = 0 ∧ UInt8.ofNat (byte ||| 0x80) &&& 0x80 ≠ 0 ∧
      (UInt8.ofNat byte).toNat &&& 0x7F = byte ∧
      (UInt8.ofNat (byte ||| 0x80)).toNat &&& 0x7F = byte := by
  have hall : ∀ n : Fin 0x80, UInt8.ofNat n.val &&& 0x80 = 0 ∧
      UInt8.ofNat (n.val ||| 0x80) &&& 0x80 ≠ 0 ∧
      (UInt8.ofNat n.val).toNat &&& 0x7F = n.val ∧
      (UInt8.ofNat (n.val ||| 0x80)).toNat &&& 0x7F = n.val := by
    decide
  exact hall ⟨byte, h⟩

/-- The byte written first holds its seven bits, whether or not others follow. -/
theorem packLoop_head {byte i D : Nat} {bs : List UInt8}
    (hrun : CVariableInt.packLoop byte i D = some bs) :
    ∃ bs', bs = UInt8.ofNat (if i = 0 then byte else byte ||| 0x80) :: bs' := by
  cases D with
  | zero =>
      unfold CVariableInt.packLoop at hrun
      split at hrun
      next h =>
        rw [if_pos h]
        exact ⟨[], (Option.some.inj hrun).symm⟩
      next => cases hrun
  | succ D =>
      unfold CVariableInt.packLoop at hrun
      split at hrun
      next h =>
        rw [if_pos h]
        exact ⟨[], (Option.some.inj hrun).symm⟩
      next h =>
        rw [if_neg h]
        obtain ⟨rest, -, hrest⟩ := Option.map_eq_some_iff.mp hrun
        exact ⟨rest, hrest.symm⟩

/-- The last byte has no extend bit. -/
theorem packLoop_last {byte i D : Nat} {b : UInt8} {bs : List UInt8}
    (hrun : CVariableInt.packLoop byte i D = some (b :: bs)) (hi : i = 0) :
    b = UInt8.ofNat byte ∧ bs = [] := by
  unfold CVariableInt.packLoop at hrun
  simp only [hi, if_true] at hrun
  have hlist : [UInt8.ofNat byte] = b :: bs := by
    cases D with
    | zero => exact Option.some.inj hrun
    | succ D => exact Option.some.inj hrun
  injection hlist with hb hbs
  exact ⟨hb.symm, hbs.symm⟩

/-- A byte with the extend bit is followed by the next group. -/
theorem packLoop_next {byte i D : Nat} {b : UInt8} {bs : List UInt8}
    (hrun : CVariableInt.packLoop byte i D = some (b :: bs)) (hi : i ≠ 0) :
    b = UInt8.ofNat (byte ||| 0x80) ∧
      ∃ D' b' bs', bs = b' :: bs' ∧
        CVariableInt.packLoop (i &&& 0x7F) (i >>> 7) D' = some (b' :: bs') ∧
        b'.toNat &&& 0x7F = i &&& 0x7F := by
  cases D with
  | zero =>
      unfold CVariableInt.packLoop at hrun
      rw [if_neg hi] at hrun
      cases hrun
  | succ D =>
      unfold CVariableInt.packLoop at hrun
      rw [if_neg hi] at hrun
      obtain ⟨rest, hnext, hrest⟩ := Option.map_eq_some_iff.mp hrun
      injection hrest with hb hbs
      obtain ⟨bs', hrest'⟩ := packLoop_head hnext
      have hbyte := extended (i &&& 0x7F) (Nat.lt_succ_of_le Nat.and_le_right)
      rw [hrest'] at hnext hbs
      refine ⟨hb.symm, D, _, bs', hbs.symm, hnext, ?_⟩
      split
      · exact hbyte.2.2.1
      · exact hbyte.2.2.2

theorem or_shiftLeft {acc shift : Nat} (hacc : acc < 2 ^ shift) (x : Nat) :
    acc ||| x <<< shift = acc + x * 2 ^ shift := by
  rw [Nat.shiftLeft_eq, Nat.or_comm, Nat.mul_comm, ← Nat.two_pow_add_eq_or_of_lt hacc, Nat.add_comm]

theorem and_low (x : Nat) : x &&& 0x7F = x % 2 ^ 7 := Nat.and_two_pow_sub_one_eq_mod x 7

/-- The groups of bits are read back. -/
theorem unpackLoop_packLoop {n shift acc byte i D : Nat} {b : UInt8} {bs : List UInt8}
    (rest : List UInt8) (hbyte : byte < 0x80) (hi : i < 2 ^ (7 * n + 4)) (hacc : acc < 2 ^ shift)
    (hrun : CVariableInt.packLoop byte i D = some (b :: bs)) :
    CVariableInt.unpackLoop (groups shift n) b acc (bs ++ rest) =
      some (acc + i * 2 ^ shift, rest) := by
  induction n generalizing shift acc byte i D b bs with
  | zero =>
      by_cases h : i = 0
      · obtain ⟨hb, hbs⟩ := packLoop_last hrun h
        rw [hb, hbs, h]
        simp [groups, CVariableInt.unpackLoop, (extended byte hbyte).1]
      · obtain ⟨hb, D', b', bs', hbs, hnext, hlow⟩ := packLoop_next hrun h
        have hlast := packLoop_last hnext (by rw [Nat.shiftRight_eq_div_pow]; omega)
        have hsmall : i &&& 0x7F = i := by rw [and_low, Nat.mod_eq_of_lt (by omega)]
        have hmask : b'.toNat &&& 0x0F = i := by
          rw [hlast.1, hsmall, UInt8.toNat_ofNat', Nat.mod_eq_of_lt (by omega),
            Nat.and_two_pow_sub_one_eq_mod i 4, Nat.mod_eq_of_lt (by omega)]
        rw [hbs, hlast.2]
        simp only [groups, CVariableInt.unpackLoop, List.cons_append, hb,
          if_neg (extended byte hbyte).2.1, hmask, or_shiftLeft hacc, List.nil_append]
  | succ n ih =>
      by_cases h : i = 0
      · obtain ⟨hb, hbs⟩ := packLoop_last hrun h
        rw [hb, hbs, h]
        simp [groups, CVariableInt.unpackLoop, (extended byte hbyte).1]
      · obtain ⟨hb, D', b', bs', hbs, hnext, hlow⟩ := packLoop_next hrun h
        have hpow : 2 ^ (7 * (n + 1) + 4) = 2 ^ (7 * n + 4) * 2 ^ 7 := by
          rw [← Nat.pow_add]
          congr 1
        have hacc' : acc + (i &&& 0x7F) * 2 ^ shift < 2 ^ (shift + 7) := by
          rw [and_low, Nat.pow_add]
          have hmod : i % 2 ^ 7 + 1 ≤ 2 ^ 7 := Nat.mod_lt _ (by decide)
          calc acc + i % 2 ^ 7 * 2 ^ shift
              < 2 ^ shift + i % 2 ^ 7 * 2 ^ shift := Nat.add_lt_add_right hacc _
            _ = (i % 2 ^ 7 + 1) * 2 ^ shift := by ring
            _ ≤ 2 ^ 7 * 2 ^ shift := Nat.mul_le_mul_right _ hmod
            _ = 2 ^ shift * 2 ^ 7 := Nat.mul_comm _ _
        have hread := ih (Nat.lt_succ_of_le Nat.and_le_right) (by
          rw [Nat.shiftRight_eq_div_pow]
          exact Nat.div_lt_of_lt_mul (by rw [Nat.mul_comm, ← hpow]; exact hi)) hacc' hnext
        rw [hbs]
        simp only [groups, CVariableInt.unpackLoop, List.cons_append, hb,
          if_neg (extended byte hbyte).2.1, hlow, or_shiftLeft hacc]
        rw [hread, and_low, Nat.shiftRight_eq_div_pow, Nat.pow_add]
        have hsplit := Nat.mod_add_div i (2 ^ 7)
        congr 2
        calc acc + i % 2 ^ 7 * 2 ^ shift + i / 2 ^ 7 * (2 ^ shift * 2 ^ 7)
            = acc + (i % 2 ^ 7 + 2 ^ 7 * (i / 2 ^ 7)) * 2 ^ shift := by ring
          _ = acc + i * 2 ^ shift := by rw [hsplit]

/-- The byte written first holds the sign and six bits. -/
theorem first_byte (neg : Bool) (low : Nat) (h : low < 0x40) :
    ((if neg then 0x40 else 0) ||| low) < 0x80 ∧
      ∀ b, b = UInt8.ofNat ((if neg then 0x40 else 0) ||| low) ∨
        b = UInt8.ofNat (((if neg then 0x40 else 0) ||| low) ||| 0x80) →
      b.toNat &&& 0x3F = low ∧ ((b.toNat >>> 6) &&& 1 = 1 ↔ neg = true) := by
  have hlast : ∀ (neg : Bool) (n : Fin 0x40), ((if neg then 0x40 else 0) ||| n.val) < 0x80 ∧
      (UInt8.ofNat ((if neg then 0x40 else 0) ||| n.val)).toNat &&& 0x3F = n.val ∧
      (((UInt8.ofNat ((if neg then 0x40 else 0) ||| n.val)).toNat >>> 6) &&& 1 = 1 ↔ neg = true) := by
    decide
  have hmore : ∀ (neg : Bool) (n : Fin 0x40),
      (UInt8.ofNat (((if neg then 0x40 else 0) ||| n.val) ||| 0x80)).toNat &&& 0x3F = n.val ∧
      (((UInt8.ofNat (((if neg then 0x40 else 0) ||| n.val) ||| 0x80)).toNat >>> 6) &&& 1 = 1 ↔
        neg = true) := by
    decide
  refine ⟨(hlast neg ⟨low, h⟩).1, fun b hb => ?_⟩
  rcases hb with rfl | rfl
  · exact (hlast neg ⟨low, h⟩).2
  · exact hmore neg ⟨low, h⟩

/-- Every int32 that fits its buffer is read back. -/
theorem unpack_pack {i : Int} (hi : IsInt32 i) {DstSize : Nat} {pDst : List UInt8}
    (hrun : CVariableInt.Pack i DstSize = some pDst) (rest : List UInt8) :
    CVariableInt.Unpack (pDst ++ rest) = some (i, rest) := by
  cases DstSize with
  | zero => cases hrun
  | succ DstSize =>
      unfold IsInt32 at hi
      unfold CVariableInt.Pack at hrun
      simp only at hrun
      obtain ⟨neg, hneg⟩ : ∃ neg : Bool, neg = decide (i < 0) := ⟨_, rfl⟩
      obtain ⟨n, hn⟩ : ∃ n : Nat, n = if i < 0 then (-i - 1).toNat else i.toNat := ⟨_, rfl⟩
      have hsign : (if i < 0 then 0x40 else 0) = if neg then 0x40 else 0 := by
        rw [hneg]
        simp
      have hsmall : n < 2 ^ 31 := by
        rw [hn]
        split <;> omega
      rw [← hn, hsign] at hrun
      obtain ⟨hbyte, hbits⟩ := first_byte neg (n &&& 0x3F) (Nat.lt_succ_of_le Nat.and_le_right)
      obtain ⟨bs, hbs⟩ := packLoop_head hrun
      rw [hbs] at hrun ⊢
      have hlow : n &&& 0x3F = n % 2 ^ 6 := Nat.and_two_pow_sub_one_eq_mod n 6
      obtain ⟨b, hb⟩ : ∃ b, b = UInt8.ofNat (if n >>> 6 = 0 then
          (if neg then 0x40 else 0) ||| n &&& 0x3F
        else ((if neg then 0x40 else 0) ||| n &&& 0x3F) ||| 0x80) := ⟨_, rfl⟩
      rw [← hb] at hrun ⊢
      obtain ⟨hmask, hneg'⟩ := hbits b (by
        rw [hb]
        split
        · exact .inl rfl
        · exact .inr rfl)
      have hread : CVariableInt.unpackLoop (groups 6 3) b (n &&& 0x3F) (bs ++ rest) =
          some ((n &&& 0x3F) + (n >>> 6) * 2 ^ 6, rest) :=
        unpackLoop_packLoop rest hbyte (by
          rw [Nat.shiftRight_eq_div_pow]
          omega) (Nat.lt_succ_of_le Nat.and_le_right) hrun
      have hwhole : (n &&& 0x3F) + (n >>> 6) * 2 ^ 6 = n := by
        rw [hlow, Nat.shiftRight_eq_div_pow]
        omega
      unfold CVariableInt.Unpack
      simp only [List.cons_append]
      rw [hmask, show CVariableInt.masks = groups 6 3 from rfl, hread, hwhole, Option.map_some]
      simp only [hneg']
      rw [hneg, hn]
      congr 2
      by_cases h : i < 0
      · simp only [h, decide_true, if_true]
        omega
      · simp only [h, decide_false, if_false, Bool.false_eq_true]
        omega

/-! ## Strings -/

/-- The code points of a string as they are packed, each malformed sequence as U+FFFD. -/
def codepoints (pStr : List UInt8) : List (List UInt8) :=
  match pStr with
  | [] => []
  | byte :: ptr =>
      let r := str_utf8_decode (byte :: ptr)
      str_utf8_encode (if r.1 = -1 then 0xfffd else r.1).toNat :: codepoints r.2
termination_by pStr.length
decreasing_by exact Nat.lt_succ_of_le (length_str_utf8_decode byte ptr)

/-- As many whole code points as fit a limit. -/
def cut (Limit : Int) : List (List UInt8) → List UInt8
  | [] => []
  | c :: cs => if Limit < c.length then [] else c ++ cut (Limit - c.length) cs

/-- What is kept are code points from the first on, within the limit, and no longer
prefix of code points is within it. -/
theorem cut_spec {Limit : Int} (h : 0 ≤ Limit) (cs : List (List UInt8)) :
    (∃ n, cut Limit cs = (cs.take n).flatten) ∧ (cut Limit cs).length ≤ Limit ∧
      ∀ n, ((cs.take n).flatten.length : Int) ≤ Limit →
        (cs.take n).flatten.length ≤ (cut Limit cs).length := by
  induction cs generalizing Limit with
  | nil =>
      refine ⟨⟨0, rfl⟩, h, fun n _ => ?_⟩
      rw [List.take_nil]
      exact Nat.le_refl _
  | cons c cs ih =>
      unfold cut
      by_cases hfits : Limit < c.length
      · rw [if_pos hfits]
        refine ⟨⟨0, rfl⟩, h, fun n hn => ?_⟩
        cases n with
        | zero => exact Nat.le_refl _
        | succ n =>
            rw [List.take_succ_cons, List.flatten_cons, List.length_append] at hn
            omega
      · rw [if_neg hfits]
        obtain ⟨⟨k, hk⟩, hshort, hlongest⟩ := @ih (Limit - c.length) (by omega)
        refine ⟨⟨k + 1, ?_⟩, ?_, fun n hn => ?_⟩
        · rw [List.take_succ_cons, List.flatten_cons, hk]
        · rw [List.length_append]
          omega
        · rw [List.length_append]
          cases n with
          | zero => exact Nat.zero_le _
          | succ n =>
              rw [List.take_succ_cons, List.flatten_cons, List.length_append] at hn ⊢
              have hrest := hlongest n (by omega)
              omega

/-- A code point other than NUL is a character. -/
theorem text_codepoint {b : UInt8} {s : List UInt8} (hb : b ≠ 0) :
    Text (str_utf8_encode (if (str_utf8_decode (b :: s)).1 = -1 then 0xfffd
      else (str_utf8_decode (b :: s)).1).toNat) := by
  by_cases herr : (str_utf8_decode (b :: s)).1 = -1
  · rw [if_pos herr]
    exact text_of_check (by decide +kernel) (by decide)
  · rw [if_neg herr]
    rcases str_utf8_decode_spec b s with h | ⟨chr, hchr, hsplit⟩
    · exact absurd h herr
    obtain ⟨t, hchar, ht⟩ := str_utf8_decode_char herr
    have hwhole : str_utf8_encode chr = b :: t := by
      apply @List.append_cancel_right _ _ (str_utf8_decode (b :: s)).2
      rw [← hsplit, List.cons_append, ← ht]
    have hnul : chr ≠ 0 := by
      intro hzero
      rw [hzero] at hwhole
      injection hwhole with hhead
      exact hb hhead.symm
    rw [hchr, Int.toNat_natCast]
    have hcons := Text.cons (s := []) hchar (by
      rw [← hwhole]
      exact zero_notMem_str_utf8_encode hnul) .nil
    rw [List.append_nil] at hcons
    rw [hwhole]
    exact hcons

theorem text_codepoints {s : List UInt8} (hs : 0 ∉ s) : ∀ c ∈ codepoints s, Text c := by
  induction hn : s.length using Nat.strongRecOn generalizing s with
  | ind n ih =>
      cases s with
      | nil =>
          rw [codepoints]
          exact fun c hc => absurd hc List.not_mem_nil
      | cons b s =>
          have hlength := length_str_utf8_decode b s
          rw [List.length_cons] at hn
          have hrest : 0 ∉ (str_utf8_decode (b :: s)).2 := fun hmem =>
            hs (List.mem_cons_of_mem _ ((suffix_str_utf8_decode b s).subset hmem))
          rw [codepoints]
          intro c hc
          rcases List.mem_cons.mp hc with rfl | hc
          · exact text_codepoint fun hzero => hs (hzero ▸ List.mem_cons_self)
          · exact ih _ (by omega) hrest rfl c hc

theorem text_cut {cs : List (List UInt8)} (h : ∀ c ∈ cs, Text c) (Limit : Int) :
    Text (cut Limit cs) := by
  induction cs generalizing Limit with
  | nil => exact .nil
  | cons c cs ih =>
      unfold cut
      split
      · exact .nil
      · exact (h c List.mem_cons_self).append (ih (fun d hd => h d (List.mem_cons_of_mem _ hd)) _)

/-- What `AddString` copies without an error is the cut text: it leaves room for the NUL, or
nothing was copied at all. -/
theorem addCodepoints_cut {BufferSize : Nat} {AllowTruncation : Bool} {s : List UInt8}
    {Limit : Int} {pCurrent out : List UInt8}
    (hrun : CAbstractPacker.addCodepoints BufferSize AllowTruncation s Limit pCurrent = some out) :
    out = pCurrent ++ cut Limit (codepoints s) ∧
      (out.length < BufferSize ∨
        cut Limit (codepoints s) = [] ∧ (s = [] ∨ AllowTruncation = true)) := by
  induction hn : s.length using Nat.strongRecOn generalizing s Limit pCurrent with
  | ind n ih =>
      cases s with
      | nil =>
          rw [CAbstractPacker.addCodepoints] at hrun
          rw [codepoints, cut, List.append_nil]
          exact ⟨(Option.some.inj hrun).symm, .inr ⟨rfl, .inl rfl⟩⟩
      | cons b s =>
          have hlength := length_str_utf8_decode b s
          rw [List.length_cons] at hn
          rw [CAbstractPacker.addCodepoints] at hrun
          rw [codepoints]
          simp only [cut]
          obtain ⟨encoded, hencoded⟩ : ∃ encoded, encoded =
              str_utf8_encode (if (str_utf8_decode (b :: s)).1 = -1 then 0xfffd
                else (str_utf8_decode (b :: s)).1).toNat := ⟨_, rfl⟩
          rw [← hencoded] at hrun ⊢
          by_cases hlimit : Limit < encoded.length
          · rw [if_pos hlimit] at hrun ⊢
            split at hrun
            next htrunc =>
              rw [List.append_nil]
              exact ⟨(Option.some.inj hrun).symm, .inr ⟨rfl, .inr htrunc⟩⟩
            next => cases hrun
          · rw [if_neg hlimit] at hrun ⊢
            split at hrun
            · cases hrun
            next hroom =>
              obtain ⟨hout, hspace⟩ := ih _ (by omega) hrun rfl
              refine ⟨by rw [hout, List.append_assoc], .inl ?_⟩
              rcases hspace with hspace | ⟨hnone, -⟩
              · exact hspace
              · rw [hout, hnone, List.append_nil, List.length_append]
                omega

/-- A text is read up to its NUL. -/
theorem getString_text {text : List UInt8} (h : Text text) (rest : List UInt8) :
    CUnpacker.GetString { m_pCurrent := text ++ 0 :: rest, m_Error := false } =
      (text, { m_pCurrent := rest, m_Error := false }) := by
  have hall : ∀ c ∈ text, (decide (c ≠ 0)) = true := fun c hc =>
    decide_eq_true fun hzero => h.zero_notMem (hzero ▸ hc)
  unfold CUnpacker.GetString
  simp only [Bool.false_eq_true, if_false]
  rw [if_neg (by simp), List.takeWhile_append_of_pos hall, List.dropWhile_append_of_pos hall]
  simp [h.check]

end Fex.Engine.Packer
