import Fex.Client.LineInput

/-!
# Editing a line input

`Valid` is what an edit keeps.  `SetRange` replaces the characters of the range
by those of the text that fit.
-/

namespace Fex.Client.CLineInput

open Fex.Lib Fex.Base

/-! ## Invariant -/

/-- The buffer holds a text with its NUL. -/
structure Holds (L : CLineInput) (codes : List Nat) : Prop where
  scalars : ∀ chr ∈ codes, Scalar chr
  size : L.m_pStr.length = L.m_MaxSize
  buffer : ∃ rest, L.m_pStr = encoded codes ++ 0 :: rest

/-- A position between characters. -/
def Boundary (codes : List Nat) (p : Nat) : Prop := ∃ k ≤ codes.length, p = offset codes k

structure Valid (L : CLineInput) (codes : List Nat) : Prop extends Holds L codes where
  len : L.m_Len = (encoded codes).length
  chars : L.m_NumChars = codes.length
  fits : codes.length ≤ L.m_MaxChars
  start : Boundary codes L.m_SelectionStart
  stop : Boundary codes L.m_SelectionEnd
  ordered : L.m_SelectionStart ≤ L.m_SelectionEnd
  cursor : L.m_CursorPos = L.m_SelectionStart ∨ L.m_CursorPos = L.m_SelectionEnd

variable {L : CLineInput} {codes : List Nat}

theorem Holds.length_lt (h : Holds L codes) : (encoded codes).length < L.m_MaxSize := by
  obtain ⟨rest, hrest⟩ := h.buffer
  have hsize := h.size
  rw [hrest, List.length_append, List.length_cons] at hsize
  omega

theorem Boundary.le {p : Nat} (h : Boundary codes p) : p ≤ (encoded codes).length := by
  obtain ⟨k, hk, rfl⟩ := h
  rw [← offset_of_le (Nat.le_refl codes.length)]
  exact offset_mono hk

theorem boundary_zero (codes : List Nat) : Boundary codes 0 := ⟨0, Nat.zero_le _, rfl⟩

theorem boundary_length (codes : List Nat) : Boundary codes (encoded codes).length :=
  ⟨codes.length, Nat.le_refl _, (offset_of_le (Nat.le_refl _)).symm⟩

theorem Valid.cursor_boundary (h : Valid L codes) : Boundary codes L.m_CursorPos := by
  rcases h.cursor with heq | heq
  · rw [heq]
    exact h.start
  · rw [heq]
    exact h.stop

/-- The cursor without a selection. -/
theorem Valid.selectNothing (h : Valid L codes) : Valid L.selectNothing codes where
  toHolds := ⟨h.scalars, h.size, h.buffer⟩
  len := h.len
  chars := h.chars
  fits := h.fits
  start := h.cursor_boundary
  stop := h.cursor_boundary
  ordered := Nat.le_refl _
  cursor := .inl rfl

/-! ## The bytes of the range -/

theorem copyBytes_spec {pString added : List UInt8} (hadded : added <+: pString)
    (pre : List UInt8) {post : List UInt8} (h : added.length ≤ post.length) :
    copyBytes (pre ++ post) pre.length pString added.length =
      .ok (pre ++ (added ++ post.drop added.length)) := by
  obtain ⟨more, rfl⟩ := hadded
  unfold copyBytes
  rw [List.append_assoc, loadBlock_append]
  exact mem_copy_append pre h

/-- The tail ends up behind the text that was copied, whichever of them is longer. -/
theorem replaceBytes_spec {pString added : List UInt8} (hadded : added <+: pString)
    (pre mid post rest : List UInt8)
    (hroom : added.length ≤ mid.length + rest.length)
    (hshrink : added.length < mid.length → mid.length - added.length ≤ rest.length) :
    ∃ tail, tail.length + added.length = mid.length + rest.length ∧
      replaceBytes (pre ++ (mid ++ (post ++ rest))) pString
        (pre.length + mid.length + post.length) pre.length (pre.length + mid.length) mid.length
        added.length = .ok (pre ++ (added ++ (post ++ tail))) := by
  unfold replaceBytes moveTail
  rcases Nat.lt_trichotomy added.length mid.length with hlt | heq | hgt
  · -- the text gets shorter: what is left of the old one is closed over
    have hdrop : (mid ++ (post ++ rest)).drop added.length =
        mid.drop added.length ++ (post ++ rest) :=
      List.drop_append_of_le_length (Nat.le_of_lt hlt)
    have hcopied : copySome (pre ++ (mid ++ (post ++ rest))) pre.length pString added.length =
        .ok (pre ++ added ++ (mid.drop added.length ++ (post ++ rest))) := by
      unfold copySome
      rw [copyBytes_spec hadded pre (by simp only [List.length_append]; omega), hdrop,
        List.append_assoc]
      split
      next => rfl
      next hzero =>
        have hnil := List.length_eq_zero_iff.mp (not_not.mp hzero)
        rw [hnil]
        rfl
    have hmove := @mem_move_left UInt8 (pre ++ added) (mid.drop added.length) (post ++ rest)
      (mid.length - added.length + post.length) (by rw [List.length_append]; omega)
    have hsource : (pre ++ added).length + (mid.drop added.length).length =
        pre.length + mid.length := by
      rw [List.length_append, List.length_drop]
      omega
    have hcount : pre.length + mid.length + post.length - pre.length - added.length =
        mid.length - added.length + post.length := by omega
    rw [hsource, List.length_append, List.append_assoc pre added (_ ++ _)] at hmove
    rw [if_pos hlt, hcopied, hcount]
    refine ⟨rest.take (mid.length - added.length) ++ (mid.drop added.length ++ (post ++ rest)).drop
      (mid.length - added.length + post.length), ?_, ?_⟩
    · simp only [List.length_append, List.length_take, List.length_drop]
      omega
    · show (mem_move _ _ _ _ >>= fun m_pStr => _) = _
      rw [List.append_assoc, hmove]
      show (if added.length ≥ mid.length then _ else _) = _
      rw [if_neg (by omega), List.append_assoc,
        Nat.add_comm (mid.length - added.length) post.length, List.take_length_add_append,
        List.append_assoc post]
      rfl
  · rw [if_neg (by omega), if_neg (by omega)]
    refine ⟨rest, by omega, ?_⟩
    show (if added.length ≥ mid.length then _ else _) = _
    rw [if_pos (by omega),
      copyBytes_spec hadded pre (by simp only [List.length_append]; omega), heq, List.drop_left]
  · -- the text gets longer: the tail makes room for it
    obtain ⟨between, tail, hbetween, htail, hmove⟩ := @mem_move_right UInt8 pre mid post rest
      added.length hroom
    have htarget : pre.length + mid.length + added.length - mid.length =
        pre.length + added.length := by omega
    rw [if_neg (by omega), if_pos hgt, htarget, Nat.add_sub_cancel_left, hmove]
    refine ⟨tail, by omega, ?_⟩
    show (if added.length ≥ mid.length then _ else _) = _
    rw [if_pos (by omega),
      copyBytes_spec hadded pre (by simp only [List.length_append]; omega), ← hbetween,
      List.drop_left]

/-! ## Replacing a range -/

theorem fitting_zero {codes : List Nat} (hcodes : ∀ chr ∈ codes, Scalar chr) (num : Nat) :
    fitting num 0 codes = [] := by
  cases codes with
  | nil => exact fitting_nil num 0
  | cons chr codes =>
      cases num with
      | zero => rfl
      | succ num =>
          have hpos := List.length_pos_iff.mpr (encode_ne_nil (hcodes chr List.mem_cons_self))
          exact if_neg (by omega)

/-- The characters of a text that `SetRange` takes in for `mid`. -/
def taken (L : CLineInput) (codes mid text : List Nat) : List Nat :=
  fitting (L.m_MaxChars - codes.length + mid.length)
    (L.m_MaxSize - (encoded codes).length + (encoded mid).length - 1) text

/-- A text may get shorter by no more bytes than are free. -/
def Shrinks (L : CLineInput) (codes mid text : List Nat) : Prop :=
  (encoded (taken L codes mid text)).length < (encoded mid).length →
    (encoded codes).length + (encoded mid).length - (encoded (taken L codes mid text)).length ≤
      L.m_MaxSize

theorem prefix_fitting (num n : Nat) (codes : List Nat) :
    encoded (fitting num n codes) <+: encoded codes := by
  rw [fitting_eq_take]
  refine ⟨encoded (codes.drop (fitting num n codes).length), ?_⟩
  rw [← encoded_append, List.take_append_drop]

theorem scalar_fitting {codes : List Nat} (hcodes : ∀ chr ∈ codes, Scalar chr) (num n : Nat) :
    ∀ chr ∈ fitting num n codes, Scalar chr := by
  intro chr hchr
  rw [fitting_eq_take] at hchr
  exact hcodes chr (List.mem_of_mem_take hchr)

theorem eq_nil_of_length_encoded {codes : List Nat} (hcodes : ∀ chr ∈ codes, Scalar chr)
    (h : (encoded codes).length = 0) : codes = [] := by
  cases codes with
  | nil => rfl
  | cons chr codes =>
      rw [encoded_cons, List.length_append] at h
      have hpos := List.length_pos_iff.mpr (encode_ne_nil (hcodes chr List.mem_cons_self))
      omega

/-- The buffer holds the text with `added` in place of `mid`. -/
theorem Valid.replaceBytes_spec {pre mid post added : List Nat} {pString : List UInt8}
    (h : Valid L (pre ++ (mid ++ post))) (hfront : encoded added <+: pString)
    (hroom : (encoded added).length ≤
      L.m_MaxSize - (encoded (pre ++ (mid ++ post))).length + (encoded mid).length - 1)
    (hshrink : (encoded added).length < (encoded mid).length →
      (encoded (pre ++ (mid ++ post))).length + (encoded mid).length - (encoded added).length ≤
        L.m_MaxSize) :
    ∃ m_pStr tail, replaceBytes L.m_pStr pString L.m_Len (encoded pre).length
        (encoded (pre ++ mid)).length (encoded mid).length (encoded added).length = .ok m_pStr ∧
      store m_pStr (encoded (pre ++ (added ++ post))).length 0 =
        .ok (encoded (pre ++ (added ++ post)) ++ 0 :: tail) ∧
      (encoded (pre ++ (added ++ post)) ++ 0 :: tail).length = L.m_MaxSize := by
  obtain ⟨rest, hrest⟩ := h.buffer
  have hsize := h.size
  have hlen := h.len
  simp only [encoded_append, List.length_append] at hlen hroom hshrink
  rw [hrest] at hsize
  simp only [encoded_append, List.length_append, List.length_cons] at hsize
  obtain ⟨tail, htail, hrun⟩ := CLineInput.replaceBytes_spec hfront (encoded pre) (encoded mid)
    (encoded post) (0 :: rest) (by rw [List.length_cons]; omega)
    (fun hlt => by have hfree := hshrink hlt; rw [List.length_cons]; omega)
  rw [List.length_cons] at htail
  cases tail with
  | nil =>
      rw [List.length_nil] at htail
      omega
  | cons c tail =>
      have hbuffer : L.m_pStr =
          encoded pre ++ (encoded mid ++ (encoded post ++ 0 :: rest)) := by
        rw [hrest, encoded_append, encoded_append, List.append_assoc, List.append_assoc]
      have hend : (encoded (pre ++ mid)).length = (encoded pre).length + (encoded mid).length := by
        rw [encoded_append, List.length_append]
      have hmlen : L.m_Len =
          (encoded pre).length + (encoded mid).length + (encoded post).length := by omega
      have hmem : encoded pre ++ (encoded added ++ (encoded post ++ c :: tail)) =
          encoded (pre ++ (added ++ post)) ++ c :: tail := by
        rw [encoded_append, encoded_append, List.append_assoc, List.append_assoc]
      rw [← hmlen, ← hend, ← hbuffer, hmem] at hrun
      refine ⟨_, tail, hrun, store_append _ _ _ _, ?_⟩
      rw [List.length_cons] at htail
      simp only [encoded_append, List.length_append, List.length_cons]
      omega

/-- Room for the new text is all that the replacement needs. -/
theorem replaceMeasured_spec {pre mid post added : List Nat} {pString : List UInt8}
    (h : Valid L (pre ++ (mid ++ post))) (hadded : ∀ chr ∈ added, Scalar chr)
    (hfront : encoded added <+: pString)
    (hchars : added.length ≤ L.m_MaxChars - (pre ++ (mid ++ post)).length + mid.length)
    (hroom : (encoded added).length ≤
      L.m_MaxSize - (encoded (pre ++ (mid ++ post))).length + (encoded mid).length - 1)
    (hshrink : (encoded added).length < (encoded mid).length →
      (encoded (pre ++ (mid ++ post))).length + (encoded mid).length - (encoded added).length ≤
        L.m_MaxSize) :
    ∃ L', L.replaceMeasured pString (encoded pre).length (encoded (pre ++ mid)).length
        ((encoded mid).length, mid.length) ((encoded added).length, added.length) = .ok L' ∧
      L'.m_MaxSize = L.m_MaxSize ∧ L'.m_MaxChars = L.m_MaxChars ∧
      Valid L' (pre ++ (added ++ post)) := by
  obtain ⟨hpre, hmidpost⟩ := List.forall_mem_append.mp h.scalars
  obtain ⟨hmid, hpost⟩ := List.forall_mem_append.mp hmidpost
  unfold replaceMeasured
  by_cases hsome : (encoded mid).length ≠ 0 ∨ (encoded added).length ≠ 0
  · obtain ⟨m_pStr, tail, hrun, hstore, hsize⟩ := h.replaceBytes_spec hfront hroom hshrink
    have hfits := h.fits
    have hlen := h.len
    have hnum := h.chars
    simp only [encoded_append, List.length_append] at hlen hnum hfits hchars
    have hnew : (encoded (pre ++ (added ++ post))).length =
        (encoded pre).length + (encoded added).length + (encoded post).length := by
      rw [encoded_append, encoded_append, List.length_append, List.length_append, Nat.add_assoc]
    have hposition : L.m_Len + (encoded added).length - (encoded mid).length =
        (encoded (pre ++ (added ++ post))).length := by omega
    have hcursor : (encoded (pre ++ mid)).length - (encoded mid).length +
        (encoded added).length = offset (pre ++ (added ++ post)) (pre ++ added).length := by
      rw [← List.append_assoc, offset_append, encoded_append, encoded_append,
        List.length_append, List.length_append]
      omega
    have hboundary : Boundary (pre ++ (added ++ post))
        ((encoded (pre ++ mid)).length - (encoded mid).length + (encoded added).length) :=
      ⟨(pre ++ added).length, by simp only [List.length_append]; omega, hcursor⟩
    rw [if_pos hsome, hposition, hrun]
    constructor
    constructor
    · show (store m_pStr _ 0 >>= fun m_pStr => _) = _
      rw [hstore]
      rfl
    · refine ⟨rfl, rfl, ⟨?_, hsize, tail, rfl⟩, rfl, ?_, ?_, hboundary, hboundary, Nat.le_refl _,
        .inl rfl⟩
      · exact List.forall_mem_append.mpr ⟨hpre, List.forall_mem_append.mpr ⟨hadded, hpost⟩⟩
      · simp only [List.length_append]
        omega
      · simp only [List.length_append]
        omega
  · have hmidnil := eq_nil_of_length_encoded hmid (by omega)
    have haddednil := eq_nil_of_length_encoded hadded (by omega)
    rw [if_neg hsome]
    rw [hmidnil] at h
    rw [haddednil]
    exact ⟨L, rfl, rfl, rfl, h⟩

theorem setClamped_spec {pre mid post text : List Nat} (h : Valid L (pre ++ (mid ++ post)))
    (htext : ∀ chr ∈ text, Scalar chr) (hshrink : Shrinks L (pre ++ (mid ++ post)) mid text) :
    ∃ L', L.setClamped (encoded text) (encoded pre).length (encoded (pre ++ mid)).length = .ok L' ∧
      L'.m_MaxSize = L.m_MaxSize ∧ L'.m_MaxChars = L.m_MaxChars ∧
      Valid L' (pre ++ (taken L (pre ++ (mid ++ post)) mid text ++ post)) := by
  obtain ⟨rest, hrest⟩ := h.buffer
  have hlt := h.length_lt
  have hsize := h.size
  have hfits := h.fits
  have hmidpost : ∀ chr ∈ mid ++ post, Scalar chr :=
    fun chr hchr => h.scalars chr (List.mem_append_right _ hchr)
  have hpost : ∀ chr ∈ post, Scalar chr := fun chr hchr => hmidpost chr (List.mem_append_right _ hchr)
  have hbytes : (encoded (pre ++ (mid ++ post))).length =
      (encoded pre).length + (encoded mid).length + (encoded post).length := by
    rw [encoded_append, encoded_append, List.length_append, List.length_append, Nat.add_assoc]
  have hend : (encoded (pre ++ mid)).length = (encoded pre).length + (encoded mid).length := by
    rw [encoded_append, List.length_append]
  have hcount : (pre ++ (mid ++ post)).length = pre.length + mid.length + post.length := by
    rw [List.length_append, List.length_append, Nat.add_assoc]
  -- the whole range is removed
  have hremoved : str_utf8_stats L.m_pStr (encoded pre).length
      ((encoded (pre ++ mid)).length - (encoded pre).length + 1) L.m_MaxChars =
      .ok ((encoded mid).length, mid.length) := by
    rw [hrest, str_utf8_stats_spec h.scalars, Nat.add_sub_cancel, hend, Nat.add_sub_cancel_left,
      fitting_append mid post (by omega) (Nat.le_refl _), Nat.sub_self, fitting_zero hpost,
      List.append_nil]
  have hadded : str_utf8_stats (encoded text ++ [0]) 0
      (L.m_MaxSize - L.m_Len + (encoded mid).length) (L.m_MaxChars - L.m_NumChars + mid.length) =
      .ok ((encoded (taken L (pre ++ (mid ++ post)) mid text)).length,
        (taken L (pre ++ (mid ++ post)) mid text).length) := by
    have hstats := @str_utf8_stats_spec [] text htext (L.m_MaxSize - L.m_Len + (encoded mid).length)
      (L.m_MaxChars - L.m_NumChars + mid.length) []
    rw [h.len, h.chars] at hstats ⊢
    exact hstats
  have hbounds := fitting_le (L.m_MaxChars - (pre ++ (mid ++ post)).length + mid.length)
    (L.m_MaxSize - (encoded (pre ++ (mid ++ post))).length + (encoded mid).length - 1) text
  have hnew := scalar_fitting htext (L.m_MaxChars - (pre ++ (mid ++ post)).length + mid.length)
    (L.m_MaxSize - (encoded (pre ++ (mid ++ post))).length + (encoded mid).length - 1)
  have hfront := prefix_fitting (L.m_MaxChars - (pre ++ (mid ++ post)).length + mid.length)
    (L.m_MaxSize - (encoded (pre ++ (mid ++ post))).length + (encoded mid).length - 1) text
  change (taken L (pre ++ (mid ++ post)) mid text).length ≤ _ ∧
    (encoded (taken L (pre ++ (mid ++ post)) mid text)).length ≤ _ at hbounds
  change ∀ chr ∈ taken L (pre ++ (mid ++ post)) mid text, Scalar chr at hnew
  change encoded (taken L (pre ++ (mid ++ post)) mid text) <+: _ at hfront
  unfold Shrinks at hshrink
  generalize taken L (pre ++ (mid ++ post)) mid text = added at hadded hbounds hnew hfront hshrink ⊢
  have hrun : L.setClamped (encoded text) (encoded pre).length (encoded (pre ++ mid)).length =
      L.replaceMeasured (encoded text) (encoded pre).length (encoded (pre ++ mid)).length
        ((encoded mid).length, mid.length) ((encoded added).length, added.length) := by
    unfold setClamped
    rw [hremoved]
    show (str_utf8_stats (encoded text ++ [0]) 0 _ _ >>= fun Added => _) = _
    rw [hadded]
    rfl
  rw [hrun]
  exact replaceMeasured_spec h hnew hfront hbounds.1 hbounds.2 hshrink

theorem Boundary.pair {p q : Nat} (hp : Boundary codes p) (hq : Boundary codes q) (h : p ≤ q) :
    ∃ k j, k ≤ j ∧ j ≤ codes.length ∧ p = offset codes k ∧ q = offset codes j := by
  obtain ⟨k, hk, rfl⟩ := hp
  obtain ⟨j, hj, rfl⟩ := hq
  rcases Nat.eq_or_lt_of_le h with heq | hlt
  · exact ⟨k, k, Nat.le_refl k, hk, rfl, heq.symm⟩
  · exact ⟨k, j, Nat.le_of_lt (lt_of_offset_lt hlt), hj, rfl, rfl⟩

/-- The characters from `k` to `j`. -/
def between (codes : List Nat) (k j : Nat) : List Nat := (codes.take j).drop k

theorem take_between {k j : Nat} (h : k ≤ j) (codes : List Nat) :
    codes.take k ++ between codes k j = codes.take j := by
  have hall := List.take_append_drop k (codes.take j)
  rw [List.take_take, Nat.min_eq_left h] at hall
  exact hall

theorem split_between {k j : Nat} (h : k ≤ j) (codes : List Nat) :
    codes = codes.take k ++ (between codes k j ++ codes.drop j) := by
  rw [← List.append_assoc, take_between h, List.take_append_drop]

theorem length_encoded_between {k j : Nat} (h : k ≤ j) (codes : List Nat) :
    (encoded (between codes k j)).length = offset codes j - offset codes k := by
  rw [offset, offset, ← take_between h, encoded_append, List.length_append, Nat.add_sub_cancel_left]

/-- The positions stand for the characters from `k` to `j`, in any order. -/
structure Range (L : CLineInput) (codes : List Nat) (Begin End k j : Nat) : Prop where
  le : k ≤ j
  le_length : j ≤ codes.length
  first : min (min Begin End) L.m_Len = offset codes k
  last : min (max Begin End) L.m_Len = offset codes j

theorem exists_range {Begin End : Nat} (hBegin : Boundary codes (min Begin L.m_Len))
    (hEnd : Boundary codes (min End L.m_Len)) : ∃ k j, Range L codes Begin End k j := by
  rcases Nat.le_total Begin End with hle | hle
  · obtain ⟨k, j, hkj, hj, hp, hq⟩ := hBegin.pair hEnd (by omega)
    exact ⟨k, j, hkj, hj, by omega, by omega⟩
  · obtain ⟨k, j, hkj, hj, hp, hq⟩ := hEnd.pair hBegin (by omega)
    exact ⟨k, j, hkj, hj, by omega, by omega⟩

/-- The characters of the range are replaced by those of the text that fit. -/
theorem SetRange_spec {text : List Nat} {Begin End k j : Nat} (h : Valid L codes)
    (hrange : Range L codes Begin End k j) (htext : ∀ chr ∈ text, Scalar chr)
    (hshrink : Shrinks L codes (between codes k j) text) :
    ∃ L', L.SetRange (encoded text) Begin End = .ok L' ∧
      L'.m_MaxSize = L.m_MaxSize ∧ L'.m_MaxChars = L.m_MaxChars ∧
      Valid L' (codes.take k ++ (taken L codes (between codes k j) text ++ codes.drop j)) := by
  have hsplit := split_between hrange.le codes
  have hfirst : (encoded (codes.take k)).length = min (min Begin End) L.m_Len := hrange.first.symm
  have hlast : (encoded (codes.take k ++ between codes k j)).length =
      min (max Begin End) L.m_Len := by
    rw [take_between hrange.le]
    exact hrange.last.symm
  have hrun : L.SetRange (encoded text) Begin End =
      L.setClamped (encoded text) (min (min Begin End) L.m_Len) (min (max Begin End) L.m_Len) := by
    unfold SetRange
    by_cases hgt : Begin > End
    · have hle := Nat.le_of_lt hgt
      rw [if_pos hgt, Nat.min_eq_right hle, Nat.max_eq_left hle]
    · have hle := Nat.le_of_not_lt hgt
      rw [if_neg hgt, Nat.min_eq_left hle, Nat.max_eq_right hle]
  rw [hsplit] at h hshrink
  have hspec := setClamped_spec h htext (by rw [← hsplit] at hshrink ⊢; exact hshrink)
  rw [← hsplit, hfirst, hlast, ← hrun] at hspec
  exact hspec

/-! ## Measuring the buffer -/

theorem Holds.UpdateStrData_eq (h : Holds L codes) (hfits : codes.length ≤ L.m_MaxChars) :
    L.UpdateStrData =
      clampPositions { L with m_Len := (encoded codes).length, m_NumChars := codes.length } := by
  obtain ⟨rest, hrest⟩ := h.buffer
  have hlt := h.length_lt
  have hstats : str_utf8_stats L.m_pStr 0 L.m_MaxSize L.m_MaxChars =
      .ok ((encoded codes).length, codes.length) := by
    have hspec := @str_utf8_stats_spec [] codes h.scalars L.m_MaxSize L.m_MaxChars rest
    rw [fitting_self hfits (by omega)] at hspec
    rw [hrest]
    exact hspec
  unfold UpdateStrData
  rw [hstats]
  rfl

theorem clampPositions_of_le (hcursor : L.m_CursorPos ≤ L.m_Len) (hstart : L.m_SelectionStart ≤ L.m_Len)
    (hstop : L.m_SelectionEnd ≤ L.m_Len) : clampPositions L = .ok L := by
  unfold clampPositions
  simp only
  rw [if_neg (not_not_intro hcursor), if_neg (by omega)]

theorem Valid.UpdateStrData_eq (h : Valid L codes) : L.UpdateStrData = .ok L := by
  rw [h.toHolds.UpdateStrData_eq h.fits, ← h.len, ← h.chars]
  apply clampPositions_of_le
  · rw [h.len]
    exact h.cursor_boundary.le
  · rw [h.len]
    exact h.start.le
  · rw [h.len]
    exact h.stop.le

/-- The assertion of `SetSelection` holds while the cursor is at an end of the selection. -/
theorem clampPositions_ok
    (h : L.m_CursorPos = L.m_SelectionStart ∨ L.m_CursorPos = L.m_SelectionEnd) :
    ∃ L', clampPositions L = .ok L' ∧
      (L'.m_pStr = L.m_pStr ∧ L'.m_MaxSize = L.m_MaxSize ∧ L'.m_MaxChars = L.m_MaxChars ∧
        L'.m_Len = L.m_Len ∧ L'.m_NumChars = L.m_NumChars) ∧
      L'.m_CursorPos ≤ L.m_Len ∧ L'.m_SelectionStart ≤ L.m_Len ∧ L'.m_SelectionEnd ≤ L.m_Len := by
  by_cases hcursor : L.m_CursorPos ≤ L.m_Len
  · by_cases hselection : L.m_SelectionStart ≤ L.m_Len ∧ L.m_SelectionEnd ≤ L.m_Len
    · exact ⟨L, clampPositions_of_le hcursor hselection.1 hselection.2, ⟨rfl, rfl, rfl, rfl, rfl⟩,
        hcursor, hselection.1, hselection.2⟩
    · unfold clampPositions SetSelection
      simp only
      rw [if_neg (not_not_intro hcursor), if_pos (by omega), if_neg (not_not_intro h)]
      exact ⟨_, rfl, ⟨rfl, rfl, rfl, rfl, rfl⟩, hcursor, Nat.min_le_right _ _, Nat.min_le_right _ _⟩
  · refine ⟨L.SetCursorOffset L.m_CursorPos, ?_, ⟨rfl, rfl, rfl, rfl, rfl⟩, Nat.min_le_right _ _,
      Nat.min_le_right _ _, Nat.min_le_right _ _⟩
    unfold clampPositions
    simp only
    rw [if_pos hcursor, if_neg]
    intro hneg
    have hle : min L.m_CursorPos L.m_Len ≤ L.m_Len := Nat.min_le_right _ _
    rcases hneg with hneg | hneg
    · exact hneg hle
    · exact hneg hle

/-! ## Setting the whole text -/

/-- The characters of a text that `Set` copies. -/
def copied (num : Nat) (text : List Nat) : List Nat :=
  fitting text.length num text

theorem scalar_copied {text : List Nat} (htext : ∀ chr ∈ text, Scalar chr) (num : Nat) :
    ∀ chr ∈ copied num text, Scalar chr := by
  unfold copied
  exact scalar_fitting htext text.length num

theorem fix_truncation_copied {text : List Nat} (htext : ∀ chr ∈ text, Scalar chr) (num : Nat) :
    str_utf8_fix_truncation ((encoded text).take num) =
      encoded (copied num text) := by
  have htake := fix_truncation_take htext fix_truncation_nil num
  rw [List.nil_append, List.nil_append] at htake
  unfold copied
  exact htake

theorem str_copy_to_spec {mem : List UInt8} {text : List Nat} (htext : ∀ chr ∈ text, Scalar chr)
    {num : Nat} (hroom : min num (encoded text).length < mem.length) :
    ∃ rest, str_copy_to mem (encoded text) num =
        .ok (encoded (copied num text) ++ 0 :: rest) ∧
      (encoded (copied num text) ++ 0 :: rest).length = mem.length := by
  have hfix := fix_truncation_copied htext num
  have hcopy := @mem_copy_append UInt8 [] mem ((encoded text).take num ++ [0]) (by
      rw [List.length_append, List.length_take, List.length_singleton]
      omega)
  obtain ⟨cut, hcut⟩ := hfix ▸ prefix_fix_truncation ((encoded text).take num)
  have hlength : ((encoded text).take num).length < mem.length := by
    rw [List.length_take]
    exact hroom
  unfold str_copy_to
  simp only [hfix]
  rw [show mem_copy mem 0 _ = _ from hcopy]
  show ∃ rest, (if (encoded (copied num text)).length <
    ((encoded text).take num).length then _ else _) = _ ∧ _
  rw [← hcut] at hlength ⊢
  rw [List.length_append] at hlength
  cases cut with
  | nil =>
      refine ⟨mem.drop ((encoded (copied num text)).length + 1), ?_, ?_⟩
      · rw [List.append_nil, if_neg (Nat.lt_irrefl _), List.length_append, List.nil_append,
          List.append_assoc]
        rfl
      · rw [List.length_append, List.length_cons, List.length_drop]
        omega
  | cons c cut =>
      rw [List.length_cons] at hlength
      refine ⟨cut ++ 0 :: mem.drop ((encoded (copied num text)).length + (cut.length + 1) + 1),
        ?_, ?_⟩
      · rw [if_pos (by rw [List.length_append, List.length_cons]; omega), List.nil_append,
          List.append_assoc, List.append_assoc]
        have hstore := store_append (encoded (copied num text)) c
          (cut ++ ([0] ++ mem.drop ((encoded (copied num text) ++ c :: cut) ++ [0]).length)) 0
        rw [@List.length_append UInt8 (encoded (copied num text) ++ c :: cut) [0],
          List.length_append] at hstore ⊢
        exact hstore
      · rw [List.length_append, List.length_cons, List.length_append, List.length_cons,
          List.length_drop]
        omega

theorem Valid.Set_spec (h : Valid L codes) {text : List Nat} (htext : ∀ chr ∈ text, Scalar chr)
    (hroom : min (copySize L.m_MaxSize) (encoded text).length < L.m_MaxSize)
    (hfits : (copied (copySize L.m_MaxSize) text).length ≤ L.m_MaxChars) :
    ∃ L', L.Set (encoded text) = .ok L' ∧
      L'.m_MaxSize = L.m_MaxSize ∧ L'.m_MaxChars = L.m_MaxChars ∧
      Valid L' (copied (copySize L.m_MaxSize) text) := by
  obtain ⟨rest, hrun, hlength⟩ := @str_copy_to_spec L.m_pStr text htext (copySize L.m_MaxSize) (by
    rw [h.size]
    exact hroom)
  have hscalars : ∀ chr ∈ copied (copySize L.m_MaxSize) text, Scalar chr := scalar_copied htext _
  have hholds : Holds { L with m_pStr := encoded (copied (copySize L.m_MaxSize) text) ++ 0 :: rest }
      (copied (copySize L.m_MaxSize) text) := ⟨hscalars, hlength.trans h.size, rest, rfl⟩
  obtain ⟨L', hL', ⟨hstr, hsize, hmax, hlen, hchars⟩, -⟩ := @clampPositions_ok
    { L with
      m_pStr := encoded (copied (copySize L.m_MaxSize) text) ++ 0 :: rest
      m_Len := (encoded (copied (copySize L.m_MaxSize) text)).length
      m_NumChars := (copied (copySize L.m_MaxSize) text).length } h.cursor
  refine ⟨L'.SetCursorOffset L'.m_Len, ?_, hsize, hmax, ?_⟩
  · unfold Set
    rw [hrun]
    show (UpdateStrData { L with m_pStr := _ } >>= fun L => _) = _
    rw [hholds.UpdateStrData_eq hfits, hL']
    rfl
  · have hend : Boundary (copied (copySize L.m_MaxSize) text) (min L'.m_Len L'.m_Len) := by
      rw [Nat.min_self, hlen]
      exact boundary_length _
    refine ⟨⟨hscalars, ?_, rest, hstr⟩, hlen, hchars, hmax ▸ hfits, hend, hend, Nat.le_refl _,
      .inl rfl⟩
    calc L'.m_pStr.length = L.m_MaxSize := by
          rw [hstr]
          exact hlength.trans h.size
      _ = L'.m_MaxSize := hsize.symm

theorem Valid.Clear_spec (h : Valid L codes) :
    ∃ L', L.Clear = .ok L' ∧ L'.m_MaxSize = L.m_MaxSize ∧ L'.m_MaxChars = L.m_MaxChars ∧
      Valid L' [] := by
  have hpos : 0 < L.m_MaxSize := Nat.lt_of_le_of_lt (Nat.zero_le _) h.length_lt
  obtain ⟨n, hn⟩ := Nat.exists_eq_succ_of_ne_zero (Nat.ne_of_gt hpos)
  have hbuffer : List.replicate L.m_MaxSize (0 : UInt8) = encoded [] ++ 0 :: List.replicate n 0 := by
    rw [hn, List.replicate_succ]
    rfl
  have hnone : ∀ chr ∈ ([] : List Nat), Scalar chr := fun chr hchr => absurd hchr List.not_mem_nil
  have hholds : Holds { L with m_pStr := List.replicate L.m_MaxSize 0 } [] :=
    ⟨hnone, List.length_replicate, _, hbuffer⟩
  obtain ⟨L', hL', ⟨hstr, hsize, hmax, hlen, hchars⟩, hcursor, hstart, hstop⟩ := @clampPositions_ok
    { L with m_pStr := List.replicate L.m_MaxSize 0, m_Len := 0, m_NumChars := 0 } h.cursor
  have hcursor' : L'.m_CursorPos = 0 := Nat.le_zero.mp hcursor
  have hstart' : L'.m_SelectionStart = 0 := Nat.le_zero.mp hstart
  have hstop' : L'.m_SelectionEnd = 0 := Nat.le_zero.mp hstop
  refine ⟨L', ?_, hsize, hmax, ⟨hnone, ?_, _, hstr.trans hbuffer⟩, hlen, hchars, Nat.zero_le _, ?_, ?_,
    by omega, by omega⟩
  · unfold Clear
    rw [hholds.UpdateStrData_eq (Nat.zero_le _)]
    exact hL'
  · rw [hstr, hsize]
    exact List.length_replicate
  · rw [hstart']
    exact boundary_zero []
  · rw [hstop']
    exact boundary_zero []

/-- A new line input with a text in its buffer. -/
theorem SetBuffer_spec (hcodes : ∀ chr ∈ codes, Scalar chr) (rest : List UInt8) {MaxChars : Nat}
    (hfits : codes.length ≤ MaxChars) :
    ∃ L, SetBuffer (encoded codes ++ 0 :: rest) (encoded codes ++ 0 :: rest).length MaxChars = .ok L ∧
      Valid L codes := by
  have hholds : Holds
      { m_pStr := encoded codes ++ 0 :: rest
        m_MaxSize := (encoded codes ++ 0 :: rest).length
        m_MaxChars := MaxChars } codes :=
    ⟨hcodes, rfl, rest, rfl⟩
  unfold SetBuffer
  rw [hholds.UpdateStrData_eq hfits, clampPositions_of_le (Nat.zero_le _) (Nat.zero_le _)
    (Nat.zero_le _)]
  exact ⟨_, rfl, ⟨hcodes, rfl, rest, rfl⟩, rfl, rfl, hfits, boundary_zero codes, boundary_zero codes,
    Nat.le_refl _, .inl rfl⟩

end Fex.Client.CLineInput
