import Fex.Client.LineInput.Editing

/-!
# Moving the cursor

`MoveCursor` passes one character or, for a word, those up to where the next one
starts.  A move looks at the characters ahead of it, the nearest first.
-/

namespace Fex.Client.CLineInput

open Fex.Lib Fex.Base

/-! ## Words -/

/-- The characters in the direction of a move. -/
def ahead (codes : List Nat) (k : Nat) : EMoveDirection → List Nat
  | .FORWARD => codes.drop k
  | .REWIND => (codes.take k).reverse

def moved (k n : Nat) : EMoveDirection → Nat
  | .FORWARD => k + n
  | .REWIND => k - n

/-- The characters of which one is passed before a word ends: white space on the way forward. -/
def marks : EMoveDirection → Nat → Bool
  | .FORWARD, chr => str_utf8_isspace chr
  | .REWIND, chr => ! str_utf8_isspace chr

/-- How many characters a move passes that stops behind the marked ones. -/
def wordLength (mark : Nat → Bool) : Bool → List Nat → Nat
  | _, [] => 0
  | _, [_] => 1
  | seen, _ :: chr :: codes =>
      if seen ∧ ¬ mark chr then 1 else wordLength mark (seen || mark chr) (chr :: codes) + 1

def moveLength (Direction : EMoveDirection) (MoveWord : Bool) : List Nat → Nat
  | [] => 0
  | chr :: codes =>
      if MoveWord then wordLength (marks Direction) (marks Direction chr) (chr :: codes) else 1

/-- Where a move from a character ends. -/
def target (codes : List Nat) (Direction : EMoveDirection) (MoveWord : Bool) (k : Nat) : Nat :=
  moved k (moveLength Direction MoveWord (ahead codes k Direction)) Direction

theorem wordLength_pos (mark : Nat → Bool) (seen : Bool) (chr : Nat) (codes : List Nat) :
    0 < wordLength mark seen (chr :: codes) := by
  cases codes with
  | nil => exact Nat.zero_lt_one
  | cons c codes =>
      unfold wordLength
      split
      · exact Nat.zero_lt_one
      · exact Nat.succ_pos _

theorem wordLength_le (mark : Nat → Bool) (seen : Bool) (codes : List Nat) :
    wordLength mark seen codes ≤ codes.length := by
  induction codes generalizing seen with
  | nil => exact Nat.le_refl 0
  | cons chr codes ih =>
      cases codes with
      | nil => exact Nat.le_refl 1
      | cons c codes =>
          unfold wordLength
          split
          · exact Nat.succ_le_succ (Nat.zero_le _)
          · exact Nat.succ_le_succ (ih _)

theorem moveLength_pos {Direction : EMoveDirection} {MoveWord : Bool} {codes : List Nat}
    (h : codes ≠ []) : 0 < moveLength Direction MoveWord codes := by
  cases codes with
  | nil => exact absurd rfl h
  | cons chr codes =>
      by_cases hword : MoveWord = true
      · rw [moveLength, if_pos hword]
        exact wordLength_pos _ _ _ _
      · rw [moveLength, if_neg hword]
        exact Nat.zero_lt_one

theorem moveLength_le (Direction : EMoveDirection) (MoveWord : Bool) (codes : List Nat) :
    moveLength Direction MoveWord codes ≤ codes.length := by
  cases codes with
  | nil => exact Nat.le_refl 0
  | cons chr codes =>
      by_cases hword : MoveWord = true
      · rw [moveLength, if_pos hword]
        exact wordLength_le _ _ _
      · rw [moveLength, if_neg hword]
        exact Nat.succ_le_succ (Nat.zero_le _)

variable {codes cs : List Nat} {k chr : Nat} {rest : List UInt8}

theorem lt_target {MoveWord : Bool} (hk : k < codes.length) :
    k < target codes .FORWARD MoveWord k ∧ target codes .FORWARD MoveWord k ≤ codes.length := by
  have hle := moveLength_le .FORWARD MoveWord (codes.drop k)
  have hpos : 0 < moveLength .FORWARD MoveWord (codes.drop k) := by
    apply moveLength_pos
    intro hnil
    exact absurd (List.drop_eq_nil_iff.mp hnil) (Nat.not_le.mpr hk)
  rw [List.length_drop] at hle
  show k < k + moveLength .FORWARD MoveWord (codes.drop k) ∧
    k + moveLength .FORWARD MoveWord (codes.drop k) ≤ codes.length
  omega

theorem target_lt {MoveWord : Bool} (hpos : 0 < k) (hk : k ≤ codes.length) :
    target codes .REWIND MoveWord k < k := by
  have hlength : (codes.take k).reverse.length = k := by
    rw [List.length_reverse, List.length_take, Nat.min_eq_left hk]
  have hmove : 0 < moveLength .REWIND MoveWord (codes.take k).reverse := by
    apply moveLength_pos
    intro hnil
    rw [hnil, List.length_nil] at hlength
    omega
  show k - moveLength .REWIND MoveWord (codes.take k).reverse < k
  omega

/-! ## One character -/

theorem toSize_natCast {n : Nat} (h : n < 2147483648) : toSize (n : Int) = n := by
  unfold toSize
  omega

/-- What a move by one character does. -/
structure Passed (codes : List Nat) (rest : List UInt8) (Direction : EMoveDirection) (k : Nat)
    (cs : List Nat) : Prop where
  le : moved k 1 Direction ≤ codes.length
  ahead : CLineInput.ahead codes (moved k 1 Direction) Direction = cs
  move : moveCharacter Direction (encoded codes ++ 0 :: rest) (offset codes k) =
    .ok (offset codes (moved k 1 Direction))
  stop : offset codes (moved k 1 Direction) ≤ 0 ∨
    offset codes (moved k 1 Direction) ≥ (encoded codes).length ↔ cs = []

theorem lt_length_of_drop (hahead : codes.drop k = chr :: cs) : k < codes.length := by
  apply Nat.lt_of_not_le
  intro hle
  rw [List.drop_of_length_le hle] at hahead
  cases hahead

theorem passed_forward (hcodes : ∀ chr ∈ codes, Scalar chr)
    (hahead : codes.drop k = chr :: cs) (hint : offset codes (k + 1) < 2147483648)
    (rest : List UInt8) : Passed codes rest .FORWARD k cs := by
  have hlt := lt_length_of_drop hahead
  have hcons := List.drop_eq_getElem_cons hlt
  rw [hahead] at hcons
  have hcs := (List.cons.inj hcons).2
  have hpos := offset_lt hcodes (Nat.lt_add_one k) hlt
  refine ⟨hlt, hcs.symm, ?_, ?_⟩
  · unfold moveCharacter
    simp only
    rw [forward_offset hcodes hlt hint]
    exact congrArg Except.ok (toSize_natCast hint)
  · show offset codes (k + 1) ≤ 0 ∨ offset codes (k + 1) ≥ _ ↔ _
    rw [hcs, List.drop_eq_nil_iff]
    constructor
    · rintro (hzero | hge)
      · omega
      · apply Nat.le_of_not_lt
        intro hmore
        have hend := offset_lt hcodes hmore (Nat.le_refl _)
        rw [offset_of_le (Nat.le_refl codes.length)] at hend
        omega
    · intro hle
      exact .inr (Nat.le_of_eq (offset_of_le hle).symm)

theorem passed_rewind (hcodes : ∀ chr ∈ codes, Scalar chr) (hk : k ≤ codes.length)
    (hahead : (codes.take k).reverse = chr :: cs) (hint : offset codes k < 2147483648)
    (rest : List UInt8) : Passed codes rest .REWIND k cs := by
  cases k with
  | zero => cases hahead
  | succ k =>
      rw [List.take_succ_eq_append_getElem hk, List.reverse_concat] at hahead
      have hcs := (List.cons.inj hahead).2
      have hlt := offset_lt hcodes (Nat.lt_add_one k) hk
      have hmove : moveCharacter .REWIND (encoded codes ++ 0 :: rest) (offset codes (k + 1)) =
          .ok (offset codes k) := by
        unfold moveCharacter
        simp only
        rw [rewind_offset hcodes hk hint]
        exact congrArg Except.ok (toSize_natCast (Nat.lt_trans hlt hint))
      refine ⟨Nat.le_of_lt hk, hcs, hmove, ?_⟩
      · show offset codes k ≤ 0 ∨ offset codes k ≥ _ ↔ _
        have hend : offset codes (k + 1) ≤ (encoded codes).length :=
          Boundary.le ⟨k + 1, hk, rfl⟩
        rw [← hcs, List.reverse_eq_nil_iff, List.take_eq_nil_iff]
        constructor
        · rintro (hzero | hge)
          · refine .inl (Nat.eq_zero_of_not_pos fun hpos => ?_)
            have hfirst := offset_lt hcodes hpos (Nat.le_of_lt hk)
            rw [offset_zero] at hfirst
            omega
          · omega
        · rintro (rfl | rfl)
          · exact .inl (Nat.le_refl 0)
          · cases hk

/-- A move by one character between two positions that an `int` holds. -/
theorem passed {Direction : EMoveDirection} (hcodes : ∀ chr ∈ codes, Scalar chr)
    (hk : k ≤ codes.length) (hahead : ahead codes k Direction = chr :: cs)
    (hint : offset codes k < 2147483648) (hnext : offset codes (moved k 1 Direction) < 2147483648)
    (rest : List UInt8) : Passed codes rest Direction k cs := by
  cases Direction with
  | FORWARD => exact passed_forward hcodes hahead hnext rest
  | REWIND => exact passed_rewind hcodes hk hahead hint rest

/-- The character ahead is the one that is looked at. -/
theorem peek_ahead {Direction : EMoveDirection} (hcodes : ∀ chr ∈ codes, Scalar chr)
    (hk : k ≤ codes.length) (hahead : ahead codes k Direction = chr :: cs)
    (hint : offset codes k < 2147483648) (rest : List UInt8) :
    ∃ p next, peekCursorPos Direction (encoded codes ++ 0 :: rest) (offset codes k) = .ok p ∧
      str_utf8_decode_at (encoded codes ++ 0 :: rest) p = .ok ((chr : Int), next) := by
  cases Direction with
  | FORWARD =>
      change codes.drop k = chr :: cs at hahead
      have hlt := lt_length_of_drop hahead
      have hcons := List.drop_eq_getElem_cons hlt
      rw [hahead] at hcons
      refine ⟨offset codes k, offset codes (k + 1), rfl, ?_⟩
      rw [(List.cons.inj hcons).1]
      exact decode_at_offset hcodes hlt rest
  | REWIND =>
      have hpassed := passed_rewind hcodes hk hahead hint rest
      cases k with
      | zero => cases hahead
      | succ k =>
          change (codes.take (k + 1)).reverse = chr :: cs at hahead
          rw [List.take_succ_eq_append_getElem hk, List.reverse_concat] at hahead
          refine ⟨offset codes k, offset codes (k + 1), hpassed.move, ?_⟩
          rw [← (List.cons.inj hahead).1]
          exact decode_at_offset hcodes hk rest

/-! ## The loop -/

theorem offset_moved_le {Direction : EMoveDirection} {n : Nat} (hn : 0 < n)
    (hint : offset codes k < 2147483648) (hend : offset codes (moved k n Direction) < 2147483648) :
    offset codes (moved k 1 Direction) < 2147483648 := by
  cases Direction with
  | FORWARD =>
      have hle : offset codes (k + 1) ≤ offset codes (k + n) := offset_mono (by omega)
      exact Nat.lt_of_le_of_lt hle hend
  | REWIND =>
      have hle : offset codes (k - 1) ≤ offset codes k := offset_mono (Nat.sub_le k 1)
      exact Nat.lt_of_le_of_lt hle hint

theorem moved_moved (k n : Nat) (Direction : EMoveDirection) :
    moved (moved k 1 Direction) n Direction = moved k (n + 1) Direction := by
  cases Direction with
  | FORWARD =>
      show k + 1 + n = k + (n + 1)
      omega
  | REWIND =>
      show k - 1 - n = k - (n + 1)
      omega

/-- Whether a marked character was passed. -/
def seen (AnySpace AnyWord : Bool) : EMoveDirection → Bool
  | .FORWARD => AnySpace
  | .REWIND => AnyWord

theorem seen_or (AnySpace AnyWord : Bool) (c : Nat) (Direction : EMoveDirection) :
    seen (AnySpace || str_utf8_isspace c) (AnyWord || ! str_utf8_isspace c) Direction =
      (seen AnySpace AnyWord Direction || marks Direction c) := by
  cases Direction with
  | FORWARD => rfl
  | REWIND => rfl

/-- The character ahead of the new position decides whether the loop stops. -/
theorem moveLoop_step {Direction : EMoveDirection} {rest : List UInt8} {c : Nat}
    (hcodes : ∀ chr ∈ codes, Scalar chr) (hpassed : Passed codes rest Direction k (c :: cs))
    (hnext : offset codes (moved k 1 Direction) < 2147483648) (fuel : Nat)
    (AnySpace AnyWord : Bool) :
    moveLoop Direction true (encoded codes ++ 0 :: rest) (encoded codes).length (fuel + 1) AnySpace
        AnyWord (offset codes k) =
      if seen AnySpace AnyWord Direction ∧ ¬ marks Direction c then
        .ok (offset codes (moved k 1 Direction))
      else
        moveLoop Direction true (encoded codes ++ 0 :: rest) (encoded codes).length fuel
          (AnySpace || str_utf8_isspace c) (AnyWord || ! str_utf8_isspace c)
          (offset codes (moved k 1 Direction)) := by
  have hmore : ¬ (offset codes (moved k 1 Direction) ≤ 0 ∨
      offset codes (moved k 1 Direction) ≥ (encoded codes).length) := by
    intro hstop
    cases hpassed.stop.mp hstop
  obtain ⟨p, next, hpeek, hread⟩ := peek_ahead hcodes hpassed.le hpassed.ahead hnext rest
  conv_lhs => unfold moveLoop
  rw [hpassed.move]
  show (if ¬ true = true ∨ offset codes (moved k 1 Direction) ≤ 0 ∨
    offset codes (moved k 1 Direction) ≥ (encoded codes).length then _ else _) = _
  rw [if_neg (not_or.mpr ⟨not_not_intro rfl, hmore⟩), hpeek]
  show (str_utf8_decode_at _ p >>= fun r => _) = _
  rw [hread]
  cases Direction with
  | FORWARD =>
      show (if EMoveDirection.FORWARD = .FORWARD ∧ AnySpace ∧ ¬ str_utf8_isspace c then _
        else if EMoveDirection.FORWARD = .REWIND ∧ AnyWord ∧ ¬ (! str_utf8_isspace c) then _
        else _) = _
      simp only [Bool.not_eq_true, true_and, reduceCtorEq, false_and, if_false, seen, marks]
      rfl
  | REWIND =>
      show (if EMoveDirection.REWIND = .FORWARD ∧ AnySpace ∧ ¬ str_utf8_isspace c then
          pure (offset codes (moved k 1 .REWIND))
        else if EMoveDirection.REWIND = .REWIND ∧ AnyWord ∧ ¬ (! str_utf8_isspace c) then _
        else _) = _
      simp only [reduceCtorEq, false_and, if_false, true_and, seen, marks]
      rfl

/-- The loop passes the characters one by one, by induction on those that are left. -/
theorem moveLoop_spec {Direction : EMoveDirection} {fuel : Nat} {AnySpace AnyWord : Bool}
    (hcodes : ∀ chr ∈ codes, Scalar chr) (hk : k ≤ codes.length)
    (hahead : ahead codes k Direction = chr :: cs) (hfuel : cs.length < fuel)
    (hint : offset codes k < 2147483648)
    (hend : offset codes (moved k
      (wordLength (marks Direction) (seen AnySpace AnyWord Direction) (chr :: cs)) Direction) <
        2147483648) (rest : List UInt8) :
    moveLoop Direction true (encoded codes ++ 0 :: rest) (encoded codes).length fuel AnySpace AnyWord
        (offset codes k) =
      .ok (offset codes (moved k
        (wordLength (marks Direction) (seen AnySpace AnyWord Direction) (chr :: cs)) Direction)) := by
  induction cs generalizing k chr fuel AnySpace AnyWord with
  | nil =>
      obtain ⟨fuel, rfl⟩ := Nat.exists_eq_succ_of_ne_zero (Nat.ne_of_gt hfuel)
      have hpassed := passed hcodes hk hahead hint hend rest
      unfold moveLoop
      rw [hpassed.move]
      show (if _ ∨ offset codes (moved k 1 Direction) ≤ 0 ∨
        offset codes (moved k 1 Direction) ≥ (encoded codes).length then _ else _) = _
      rw [if_pos (.inr (hpassed.stop.mpr rfl))]
      rfl
  | cons c cs ih =>
      obtain ⟨fuel, rfl⟩ := Nat.exists_eq_succ_of_ne_zero (Nat.ne_of_gt (Nat.zero_lt_of_lt hfuel))
      have hnext := offset_moved_le (wordLength_pos _ _ _ _) hint hend
      have hpassed := passed hcodes hk hahead hint hnext rest
      have hword : wordLength (marks Direction) (seen AnySpace AnyWord Direction) (chr :: c :: cs) =
          if seen AnySpace AnyWord Direction ∧ ¬ marks Direction c then 1
          else wordLength (marks Direction)
            (seen AnySpace AnyWord Direction || marks Direction c) (c :: cs) + 1 := rfl
      have hstep := moveLoop_step hcodes hpassed hnext fuel AnySpace AnyWord
      have hseen := seen_or AnySpace AnyWord c Direction
      rw [hstep]
      rw [hword] at hend ⊢
      have htarget := moved_moved k (wordLength (marks Direction)
        (seen (AnySpace || str_utf8_isspace c) (AnyWord || ! str_utf8_isspace c) Direction)
        (c :: cs)) Direction
      by_cases hstop : seen AnySpace AnyWord Direction ∧ ¬ marks Direction c
      · rw [if_pos hstop, if_pos hstop]
      · rw [if_neg hstop, ← hseen, ← htarget] at hend
        rw [if_neg hstop, if_neg hstop, ← hseen, ← htarget]
        exact ih hpassed.le hpassed.ahead (Nat.lt_of_succ_lt_succ hfuel) hnext hend

/-- A move ends at its target. -/
theorem MoveCursor_spec {Direction : EMoveDirection} {MoveWord : Bool}
    (hcodes : ∀ chr ∈ codes, Scalar chr) (hk : k ≤ codes.length)
    (hahead : ahead codes k Direction ≠ []) (hint : offset codes k < 2147483648)
    (hend : offset codes (target codes Direction MoveWord k) < 2147483648) (rest : List UInt8) :
    MoveCursor Direction MoveWord (encoded codes ++ 0 :: rest) (encoded codes).length
      (offset codes k) = .ok (offset codes (target codes Direction MoveWord k)) := by
  obtain ⟨chr, cs, hcons⟩ := List.exists_cons_of_ne_nil hahead
  obtain ⟨p, next, hpeek, hread⟩ := peek_ahead hcodes hk hcons hint rest
  unfold MoveCursor
  rw [hpeek]
  show (str_utf8_decode_at _ p >>= fun r => _) = _
  rw [hread]
  show moveLoop _ _ _ _ _ (str_utf8_isspace chr) (! str_utf8_isspace chr) _ = _
  unfold target at hend ⊢
  rw [hcons] at hend ⊢
  cases MoveWord with
  | false =>
      have hpassed := passed hcodes hk hcons hint hend rest
      unfold moveLoop
      rw [hpassed.move]
      rfl
  | true =>
      have hseen : seen (str_utf8_isspace chr) (! str_utf8_isspace chr) Direction =
          marks Direction chr := by
        cases Direction with
        | FORWARD => rfl
        | REWIND => rfl
      have hfuel : cs.length < (encoded codes).length + 1 := by
        have hle := length_le_encoded hcodes
        have hahead : (ahead codes k Direction).length ≤ codes.length := by
          cases Direction with
          | FORWARD =>
              show (codes.drop k).length ≤ codes.length
              rw [List.length_drop]
              exact Nat.sub_le _ _
          | REWIND =>
              show (codes.take k).reverse.length ≤ codes.length
              rw [List.length_reverse]
              exact List.length_take_le' k codes
        rw [hcons, List.length_cons] at hahead
        omega
      have hloop := @moveLoop_spec codes cs k chr Direction ((encoded codes).length + 1)
        (str_utf8_isspace chr) (! str_utf8_isspace chr) hcodes hk hcons hfuel hint
        (by rw [hseen]; exact hend) rest
      rw [hseen] at hloop
      exact hloop

end Fex.Client.CLineInput
