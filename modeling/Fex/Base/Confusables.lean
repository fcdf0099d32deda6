import Fex.Base.Decoding
import Fex.Base.Strings
import Fex.Base.Distance

/-!
# Names that look alike

Model of `str_utf8_to_skeleton`, of the search without regard to case and of the functions that
take white space away.  The tables of the confusable and of the lower case characters are
parameters.
-/

namespace Fex.Base

/-! ## Skeletons -/

/-- `decomp_chars`, each with the characters it is decomposed into. -/
abbrev Decomps := List (Int × List Int)

/-- The pointer to the data, `none` for a null pointer, and the length. -/
def str_utf8_skeleton (ch : Int) : Decomps → Option (List Int) × Nat
  | [] => (none, 1)
  | (decomp_char, data) :: decomps =>
      if ch = decomp_char then (some data, data.length)
      else if ch < decomp_char then (none, 1)
      else str_utf8_skeleton ch decomps

structure SKELETON where
  skeleton : Option (List Int)
  skeleton_len : Nat
  str : List UInt8

def str_utf8_skeleton_begin (str : List UInt8) : SKELETON where
  skeleton := none
  skeleton_len := 0
  str := str

/-- The loop of `str_utf8_skeleton_next` from a length of zero on, `none` at the end of the
string. -/
def nextDecomposed (decomps : Decomps) : List UInt8 → Option (Int × SKELETON)
  | [] => none
  | byte :: str =>
      let (ch, rest) := str_utf8_decode (byte :: str)
      if ch = 0 then none
      else
        let (skeleton, skeleton_len) := str_utf8_skeleton ch decomps
        if skeleton_len = 0 then nextDecomposed decomps (str_utf8_decode (byte :: str)).2
        else some (ch, { skeleton, skeleton_len, str := rest })
termination_by str => str.length
decreasing_by exact Nat.lt_succ_of_le (length_str_utf8_decode byte str)

/-- What `str_utf8_skeleton_next` does behind its loop, `none` is a zero. -/
def SKELETON.advance (ch : Int) (skel : SKELETON) : Option (Int × SKELETON) :=
  let skeleton_len := skel.skeleton_len - 1
  match skel.skeleton with
  | none => if ch = 0 then none else some (ch, { skel with skeleton_len })
  | some data =>
      let ch := data.headD 0
      if ch = 0 then none else some (ch, { skel with skeleton := some data.tail, skeleton_len })

def str_utf8_skeleton_next (decomps : Decomps) (skel : SKELETON) : Option (Int × SKELETON) :=
  if skel.skeleton_len = 0 then
    (nextDecomposed decomps skel.str).bind fun (ch, skel) => skel.advance ch
  else skel.advance 0

def skeletonLoop (decomps : Decomps) (skel : SKELETON) : Nat → List Int
  | 0 => []
  | buf_len + 1 =>
      match str_utf8_skeleton_next decomps skel with
      | none => []
      | some (ch, skel) => ch :: skeletonLoop decomps skel buf_len

/-- What is written to the buffer. -/
def str_utf8_to_skeleton (decomps : Decomps) (str : List UInt8) (buf_len : Nat) : List Int :=
  skeletonLoop decomps (str_utf8_skeleton_begin str) buf_len

/-! ## Search -/

/-- The inner loop of `str_utf8_find_nocase`: the needle is at the front. -/
def startsNocase (tolower : Int → Int) : List UInt8 → List UInt8 → Bool
  | _, [] => true
  | [], _ :: _ => false
  | x :: a, y :: b =>
      if tolower (str_utf8_decode (x :: a)).1 = tolower (str_utf8_decode (y :: b)).1 then
        startsNocase tolower (str_utf8_decode (x :: a)).2 (str_utf8_decode (y :: b)).2
      else false
termination_by a => a.length
decreasing_by exact Nat.lt_succ_of_le (length_str_utf8_decode x a)

/-- Where the needle is found. -/
def str_utf8_find_nocase (tolower : Int → Int) (haystack needle : List UInt8) :
    Option (List UInt8) :=
  match haystack with
  | [] => none
  | byte :: str =>
      if startsNocase tolower (byte :: str) needle then some (byte :: str)
      else str_utf8_find_nocase tolower (str_utf8_decode (byte :: str)).2 needle
termination_by haystack.length
decreasing_by exact Nat.lt_succ_of_le (length_str_utf8_decode byte str)

/-! ## White space -/

def str_utf8_isspace (code : Int) : Bool :=
  code ≤ 0x0020 || code == 0x0085 || code == 0x00A0 || code == 0x034F ||
    code == 0x115F || code == 0x1160 || code == 0x1680 || code == 0x180E ||
    (code ≥ 0x2000 && code ≤ 0x200F) || (code ≥ 0x2028 && code ≤ 0x202F) ||
    (code ≥ 0x205F && code ≤ 0x2064) || (code ≥ 0x206A && code ≤ 0x206F) ||
    code == 0x2800 || code == 0x3000 || code == 0x3164 ||
    (code ≥ 0xFE00 && code ≤ 0xFE0F) || code == 0xFEFF || code == 0xFFA0 ||
    (code ≥ 0xFFF9 && code ≤ 0xFFFC)

def str_utf8_skip_whitespaces (str : List UInt8) : List UInt8 :=
  match str with
  | [] => []
  | byte :: str =>
      if str_utf8_isspace (str_utf8_decode (byte :: str)).1 then
        str_utf8_skip_whitespaces (str_utf8_decode (byte :: str)).2
      else byte :: str
termination_by str.length
decreasing_by exact Nat.lt_succ_of_le (length_str_utf8_decode byte str)

/-- The loop of `str_utf8_trim_right`: where the white space at the end begins, counted from the
end of the string. -/
def trimEnd (stop : Option Nat) : List UInt8 → Option Nat
  | [] => stop
  | byte :: str =>
      trimEnd
        (if str_utf8_isspace (str_utf8_decode (byte :: str)).1 then
          some (stop.getD (byte :: str).length)
        else none)
        (str_utf8_decode (byte :: str)).2
termination_by str => str.length
decreasing_by exact Nat.lt_succ_of_le (length_str_utf8_decode byte str)

def str_utf8_trim_right (param : List UInt8) : List UInt8 :=
  match trimEnd none param with
  | none => param
  | some behind => param.take (param.length - behind)

/-! ## The characters of a name -/

theorem decode_ne_zero {byte : UInt8} (h : byte ≠ 0) (str : List UInt8) :
    (str_utf8_decode (byte :: str)).1 ≠ 0 := by
  rcases str_utf8_decode_scalar h with herr | ⟨chr, hscalar, hchr, -⟩
  · rw [herr]
    decide
  · have hpos := hscalar.1
    rw [hchr]
    omega

theorem codePoints_cons {byte : UInt8} (h : byte ≠ 0) (str : List UInt8) :
    codePoints (byte :: str) =
      (str_utf8_decode (byte :: str)).1 :: codePoints (str_utf8_decode (byte :: str)).2 := by
  rw [codePoints, if_neg (decode_ne_zero h str)]

theorem zero_notMem_decode {byte : UInt8} {str : List UInt8} (h : 0 ∉ byte :: str) :
    0 ∉ (str_utf8_decode (byte :: str)).2 := fun hmem =>
  h (List.mem_cons_of_mem byte ((suffix_str_utf8_decode byte str).subset hmem))

theorem head_ne_zero {byte : UInt8} {str : List UInt8} (h : 0 ∉ byte :: str) : byte ≠ 0 := by
  rintro rfl
  exact h List.mem_cons_self

/-! ## What a skeleton is -/

/-- The characters that stand for one. -/
def decomposed (decomps : Decomps) (ch : Int) : List Int :=
  (str_utf8_skeleton ch decomps).1.getD [ch]

/-- The characters up to the first zero. -/
def skeletonOf (decomps : Decomps) (codes : List Int) : List Int :=
  (codes.flatMap (decomposed decomps)).takeWhile (· ≠ 0)

theorem str_utf8_skeleton_cases (ch : Int) (decomps : Decomps) :
    str_utf8_skeleton ch decomps = (none, 1) ∨
      ∃ data, str_utf8_skeleton ch decomps = (some data, data.length) := by
  induction decomps with
  | nil => exact .inl rfl
  | cons entry decomps ih =>
      rw [str_utf8_skeleton]
      split
      · exact .inr ⟨entry.2, rfl⟩
      split
      · exact .inl rfl
      · exact ih

/-- The characters that are left: of the data and of the string. -/
def SKELETON.left (decomps : Decomps) (skel : SKELETON) (data : List Int) : List Int :=
  data ++ (codePoints skel.str).flatMap (decomposed decomps)

/-- The data that is left to be read. -/
def SKELETON.Pending (skel : SKELETON) (data : List Int) : Prop :=
  skel.skeleton_len = data.length ∧ (skel.skeleton = some data ∨ skel.skeleton = none ∧ data = [])

/-- The next character, or the end: a zero is one. -/
def Next (decomps : Decomps) (left : List Int) : Option (Int × SKELETON) → Prop
  | none => left.takeWhile (· ≠ 0) = []
  | some (ch, skel) => ch ≠ 0 ∧ ∃ data, skel.Pending data ∧ left = ch :: skel.left decomps data

theorem next_data (decomps : Decomps) {skel : SKELETON} {c : Int} {data : List Int}
    (hskel : skel.skeleton = some (c :: data)) (hlen : skel.skeleton_len = data.length + 1)
    (ch : Int) : Next decomps (skel.left decomps (c :: data)) (skel.advance ch) := by
  unfold SKELETON.advance
  simp only [hskel, hlen, List.headD_cons, List.tail_cons]
  split
  case isTrue hzero => exact List.takeWhile_cons_of_neg (by simp [hzero])
  case isFalse hne => exact ⟨hne, data, ⟨rfl, .inl rfl⟩, rfl⟩

theorem next_null (decomps : Decomps) {skel : SKELETON} (hskel : skel.skeleton = none)
    (hlen : skel.skeleton_len = 1) {ch : Int} (hch : ch ≠ 0) :
    Next decomps (ch :: skel.left decomps []) (skel.advance ch) := by
  unfold SKELETON.advance
  simp only [hskel, hlen, if_neg hch]
  exact ⟨hch, [], ⟨rfl, .inr ⟨rfl, rfl⟩⟩, rfl⟩

/-- The loop passes the characters that stand for nothing. -/
theorem next_decomposed (decomps : Decomps) (str : List UInt8) :
    Next decomps ((codePoints str).flatMap (decomposed decomps))
      ((nextDecomposed decomps str).bind fun (ch, skel) => skel.advance ch) := by
  fun_induction codePoints str with
  | case1 =>
      rw [nextDecomposed]
      exact List.takeWhile_nil
  | case2 byte str hzero =>
      rw [nextDecomposed]
      simp only [if_pos hzero]
      exact List.takeWhile_nil
  | case3 byte str hne ih =>
      rw [nextDecomposed, List.flatMap_cons]
      simp only [if_neg hne]
      rcases str_utf8_skeleton_cases (str_utf8_decode (byte :: str)).1 decomps with
        hnone | ⟨data, hdata⟩
      · rw [decomposed, hnone]
        exact @next_null decomps ⟨none, 1, _⟩ rfl rfl _ hne
      · rw [decomposed, hdata]
        cases data with
        | nil => exact ih
        | cons c data =>
            exact @next_data decomps ⟨some (c :: data), _, _⟩ c data rfl rfl
              (str_utf8_decode (byte :: str)).1

theorem next_spec (decomps : Decomps) {skel : SKELETON} {data : List Int} (h : skel.Pending data) :
    Next decomps (skel.left decomps data) (str_utf8_skeleton_next decomps skel) := by
  obtain ⟨hlen, hskel⟩ := h
  unfold str_utf8_skeleton_next
  cases data with
  | nil =>
      rw [if_pos (show skel.skeleton_len = 0 from hlen)]
      exact next_decomposed decomps skel.str
  | cons c data =>
      rw [if_neg (by rw [hlen]; exact Nat.succ_ne_zero _)]
      exact next_data decomps (hskel.resolve_right fun h => absurd h.2 (List.cons_ne_nil c data))
        hlen 0

theorem skeletonLoop_eq (decomps : Decomps) (buf_len : Nat) {skel : SKELETON} {data : List Int}
    (h : skel.Pending data) :
    skeletonLoop decomps skel buf_len =
      ((skel.left decomps data).takeWhile (· ≠ 0)).take buf_len := by
  induction buf_len generalizing skel data with
  | zero => rfl
  | succ buf_len ih =>
      have hnext := next_spec decomps h
      unfold skeletonLoop
      cases hrun : str_utf8_skeleton_next decomps skel with
      | none =>
          rw [hrun] at hnext
          rw [show (skel.left decomps data).takeWhile (· ≠ 0) = [] from hnext]
          rfl
      | some r =>
          rw [hrun] at hnext
          obtain ⟨hne, data', hpending, hleft⟩ := hnext
          simp only
          rw [hleft, List.takeWhile_cons_of_pos (by simpa using hne), List.take_succ_cons,
            ih hpending]

theorem str_utf8_to_skeleton_eq (decomps : Decomps) (str : List UInt8) (buf_len : Nat) :
    str_utf8_to_skeleton decomps str buf_len =
      (skeletonOf decomps (codePoints str)).take buf_len :=
  @skeletonLoop_eq decomps buf_len _ [] ⟨rfl, .inr ⟨rfl, rfl⟩⟩

/-! ## What is found -/

theorem startsNocase_iff (tolower : Int → Int) {a b : List UInt8} (ha : 0 ∉ a) (hb : 0 ∉ b) :
    startsNocase tolower a b = true ↔
      (codePoints b).map tolower <+: (codePoints a).map tolower := by
  fun_induction startsNocase tolower a b with
  | case1 a =>
      rw [codePoints]
      exact iff_of_true rfl (List.nil_prefix)
  | case2 y b =>
      rw [codePoints_cons (head_ne_zero hb), codePoints]
      exact iff_of_false Bool.false_ne_true fun h => absurd h.length_le (by simp)
  | case3 x a y b heq ih =>
      rw [codePoints_cons (head_ne_zero hb), codePoints_cons (head_ne_zero ha), List.map_cons,
        List.map_cons, List.cons_prefix_cons]
      exact (ih (zero_notMem_decode ha) (zero_notMem_decode hb)).trans (and_iff_right heq.symm).symm
  | case4 x a y b hne =>
      rw [codePoints_cons (head_ne_zero hb), codePoints_cons (head_ne_zero ha), List.map_cons,
        List.map_cons, List.cons_prefix_cons]
      exact iff_of_false Bool.false_ne_true fun h => hne h.1.symm

/-- A list begins at some element of the other one. -/
def OccursIn (needle haystack : List Int) : Prop :=
  ∃ k < haystack.length, needle <+: haystack.drop k

instance (needle haystack : List Int) : Decidable (OccursIn needle haystack) :=
  inferInstanceAs (Decidable (∃ k, k < haystack.length ∧ needle <+: haystack.drop k))

theorem occursIn_cons (needle : List Int) (c : Int) (haystack : List Int) :
    OccursIn needle (c :: haystack) ↔ needle <+: c :: haystack ∨ OccursIn needle haystack := by
  constructor
  · rintro ⟨k, hk, hfirst⟩
    cases k with
    | zero => exact .inl hfirst
    | succ k => exact .inr ⟨k, Nat.lt_of_succ_lt_succ hk, hfirst⟩
  · rintro (hfirst | ⟨k, hk, hfirst⟩)
    · exact ⟨0, Nat.zero_lt_succ _, hfirst⟩
    · exact ⟨k + 1, Nat.succ_lt_succ hk, hfirst⟩

theorem str_utf8_find_nocase_iff (tolower : Int → Int) {haystack needle : List UInt8}
    (hh : 0 ∉ haystack) (hn : 0 ∉ needle) :
    (str_utf8_find_nocase tolower haystack needle).isSome = true ↔
      OccursIn ((codePoints needle).map tolower) ((codePoints haystack).map tolower) := by
  fun_induction str_utf8_find_nocase tolower haystack needle with
  | case1 =>
      rw [codePoints]
      apply iff_of_false Bool.false_ne_true
      rintro ⟨k, hk, -⟩
      exact absurd hk (Nat.not_lt_zero k)
  | case2 byte str hstart =>
      have hfirst := (startsNocase_iff tolower hh hn).mp hstart
      rw [codePoints_cons (head_ne_zero hh), List.map_cons] at hfirst ⊢
      exact iff_of_true rfl ((occursIn_cons _ _ _).mpr (.inl hfirst))
  | case3 byte str hstart ih =>
      have hfirst := fun h => hstart ((startsNocase_iff tolower hh hn).mpr h)
      rw [codePoints_cons (head_ne_zero hh), List.map_cons] at hfirst ⊢
      rw [occursIn_cons, or_iff_right hfirst]
      exact ih (zero_notMem_decode hh)

end Fex.Base
