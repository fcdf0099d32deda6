import Fex.Client.LineInput.Moves

/-!
# Keys of a line input

Each key keeps the buffer valid, under a condition on the state before: a text
does not get shorter by more bytes than are free, and a word that is passed with
Shift ends before the other end of the selection.
-/

namespace Fex.Client.CLineInput

open Fex.Lib Fex.Base

variable {L : CLineInput} {codes : List Nat}

/-! ## Keys -/

/-- Cursor and selection are placed between characters. -/
theorem Valid.place (h : Valid L codes) {c s e : Nat} (hs : Boundary codes s) (he : Boundary codes e)
    (hse : s ≤ e) (hc : c = s ∨ c = e) :
    Valid { L with m_CursorPos := c, m_SelectionStart := s, m_SelectionEnd := e } codes :=
  ⟨⟨h.scalars, h.size, h.buffer⟩, h.len, h.chars, h.fits, hs, he, hse, hc⟩

/-- The cursor is behind `k` characters. -/
def CursorAt (L : CLineInput) (codes : List Nat) (k : Nat) : Prop :=
  k ≤ codes.length ∧ L.m_CursorPos = offset codes k

theorem Valid.cursorAt (h : Valid L codes) : ∃ k, CursorAt L codes k := by
  obtain ⟨k, hk, hpos⟩ := h.cursor_boundary
  exact ⟨k, hk, hpos⟩

/-- The keys that move or delete by characters meet this condition, which bounds positions by those
an `int` holds, deleted bytes by those that are free and a selected word by the selection. -/
def KeyMeets (L : CLineInput) (codes : List Nat) (m : Modifiers) : Key → Prop
  | .KEY_BACKSPACE =>
      (∀ k j, Range L codes L.m_SelectionStart L.m_SelectionEnd k j →
        Shrinks L codes (between codes k j) []) ∧
      ∀ k, CursorAt L codes k → L.m_SelectionStart = L.m_SelectionEnd → 0 < k →
        offset codes k < 2147483648 ∧
        Shrinks L codes (between codes (target codes .REWIND m.MoveWord k) k) []
  | .KEY_DELETE =>
      (∀ k j, Range L codes L.m_SelectionStart L.m_SelectionEnd k j →
        Shrinks L codes (between codes k j) []) ∧
      ∀ k, CursorAt L codes k → L.m_SelectionStart = L.m_SelectionEnd → k < codes.length →
        offset codes (target codes .FORWARD m.MoveWord k) < 2147483648 ∧
        Shrinks L codes (between codes k (target codes .FORWARD m.MoveWord k)) []
  | .KEY_LEFT =>
      ∀ k, CursorAt L codes k → 0 < k →
        (L.m_SelectionStart = L.m_SelectionEnd ∨ m.ShiftIsPressed) →
        offset codes k < 2147483648 ∧
        (m.ShiftIsPressed → L.m_CursorPos ≠ L.m_SelectionStart →
          L.m_SelectionStart ≤ offset codes (target codes .REWIND m.MoveWord k))
  | .KEY_RIGHT =>
      ∀ k, CursorAt L codes k → k < codes.length →
        (L.m_SelectionStart = L.m_SelectionEnd ∨ m.ShiftIsPressed) →
        offset codes (target codes .FORWARD m.MoveWord k) < 2147483648 ∧
        (m.ShiftIsPressed → L.m_CursorPos ≠ L.m_SelectionEnd →
          offset codes (target codes .FORWARD m.MoveWord k) ≤ L.m_SelectionEnd)
  | .KEY_HOME => True
  | .KEY_END => True

theorem GetSelectionLength_ne (L : CLineInput) :
    L.GetSelectionLength ≠ 0 ↔ L.m_SelectionStart ≠ L.m_SelectionEnd := by
  unfold GetSelectionLength
  omega

theorem range_of_boundary {k j : Nat} (h : Valid L codes) (hkj : k ≤ j) (hj : j ≤ codes.length) :
    Range L codes (offset codes k) (offset codes j) k j := by
  have hle := @offset_mono codes k j hkj
  have hlen : offset codes j ≤ L.m_Len := by
    rw [h.len]
    exact Boundary.le ⟨j, hj, rfl⟩
  exact ⟨hkj, hj, by omega, by omega⟩

/-- What a step leaves: the limits are the same and some text is held. -/
structure Edited (L L' : CLineInput) : Prop where
  size : L'.m_MaxSize = L.m_MaxSize
  chars : L'.m_MaxChars = L.m_MaxChars
  valid : ∃ codes', Valid L' codes'

theorem Edited.selectNothing {L L' : CLineInput} (h : Edited L L') : Edited L L'.selectNothing := by
  obtain ⟨hsize, hchars, codes', hvalid⟩ := h
  exact ⟨hsize, hchars, codes', hvalid.selectNothing⟩

/-- Characters are deleted. -/
theorem Valid.delete (h : Valid L codes) {Begin End k j : Nat} (hrange : Range L codes Begin End k j)
    (hshrink : Shrinks L codes (between codes k j) []) :
    ∃ L', L.SetRange [] Begin End = .ok L' ∧ Edited L L' := by
  obtain ⟨L', hL', hsize, hchars, hvalid⟩ := SetRange_spec h hrange
    (fun chr hchr => absurd hchr List.not_mem_nil) hshrink
  exact ⟨L', hL', hsize, hchars, _, hvalid⟩

theorem Valid.deleteSelection (h : Valid L codes)
    (hmeets : ∀ k j, Range L codes L.m_SelectionStart L.m_SelectionEnd k j →
      Shrinks L codes (between codes k j) []) :
    ∃ L', L.SetRange [] L.m_SelectionStart L.m_SelectionEnd = .ok L' ∧ Edited L L' := by
  have hstart := h.start.le
  have hstop := h.stop.le
  rw [← h.len] at hstart hstop
  obtain ⟨k, j, hrange⟩ := @exists_range L codes L.m_SelectionStart L.m_SelectionEnd
    (by rw [Nat.min_eq_left hstart]; exact h.start) (by rw [Nat.min_eq_left hstop]; exact h.stop)
  exact h.delete hrange (hmeets k j hrange)

/-- A move to the left from behind the first character. -/
theorem Valid.rewind (h : Valid L codes) {k : Nat} (hk : CursorAt L codes k) (hpos : 0 < k)
    (hint : offset codes k < 2147483648) (MoveWord : Bool) :
    MoveCursor .REWIND MoveWord L.m_pStr L.m_Len L.m_CursorPos =
      .ok (offset codes (target codes .REWIND MoveWord k)) := by
  obtain ⟨rest, hrest⟩ := h.buffer
  have htarget := @target_lt codes k MoveWord hpos hk.1
  have hmono := @offset_mono codes _ k (Nat.le_of_lt htarget)
  have hahead : ahead codes k .REWIND ≠ [] := by
    intro hnil
    have hlength := congrArg List.length hnil
    change (codes.take k).reverse.length = 0 at hlength
    rw [List.length_reverse, List.length_take, Nat.min_eq_left hk.1] at hlength
    omega
  rw [hk.2, hrest, h.len]
  exact MoveCursor_spec h.scalars hk.1 hahead hint (Nat.lt_of_le_of_lt hmono hint) rest

/-- A move to the right from before the last character. -/
theorem Valid.forward (h : Valid L codes) {k : Nat} {MoveWord : Bool} (hk : CursorAt L codes k)
    (hlt : k < codes.length)
    (hint : offset codes (target codes .FORWARD MoveWord k) < 2147483648) :
    MoveCursor .FORWARD MoveWord L.m_pStr L.m_Len L.m_CursorPos =
      .ok (offset codes (target codes .FORWARD MoveWord k)) := by
  obtain ⟨rest, hrest⟩ := h.buffer
  have htarget := @lt_target codes k MoveWord hlt
  have hmono := @offset_mono codes k _ (Nat.le_of_lt htarget.1)
  have hahead : ahead codes k .FORWARD ≠ [] := by
    intro hnil
    exact absurd (List.drop_eq_nil_iff.mp hnil) (Nat.not_le.mpr hlt)
  rw [hk.2, hrest, h.len]
  exact MoveCursor_spec h.scalars hk.1 hahead (Nat.lt_of_le_of_lt hmono hint) hint rest

theorem CursorAt.pos {k : Nat} (hk : CursorAt L codes k) (h : L.m_CursorPos > 0) : 0 < k := by
  apply Nat.pos_of_ne_zero
  rintro rfl
  rw [hk.2, offset_zero] at h
  exact absurd h (Nat.lt_irrefl 0)

theorem CursorAt.lt {k : Nat} (hk : CursorAt L codes k) (hvalid : Valid L codes)
    (h : L.m_CursorPos < L.m_Len) : k < codes.length := by
  apply Nat.lt_of_not_le
  intro hle
  rw [hk.2, hvalid.len, offset_of_le hle] at h
  exact absurd h (Nat.lt_irrefl _)

theorem Valid.keyBackspace_spec (h : Valid L codes) {m : Modifiers}
    (hmeets : KeyMeets L codes m .KEY_BACKSPACE) :
    ∃ L', L.keyBackspace m.MoveWord = .ok L' ∧ Edited L L' := by
  obtain ⟨hselection, hcursor⟩ := hmeets
  unfold keyBackspace
  by_cases hlength : L.GetSelectionLength ≠ 0
  · rw [if_pos hlength]
    exact h.deleteSelection hselection
  · rw [if_neg hlength]
    rw [GetSelectionLength_ne, not_not] at hlength
    obtain ⟨k, hk⟩ := h.cursorAt
    have hdelete : ∃ L', L.deleteBefore m.MoveWord = .ok L' ∧ Edited L L' := by
      unfold deleteBefore
      by_cases hpos : L.m_CursorPos > 0
      · obtain ⟨hint, hshrink⟩ := hcursor k hk hlength (hk.pos hpos)
        have htarget := @target_lt codes k m.MoveWord (hk.pos hpos) hk.1
        have hrange := range_of_boundary h (Nat.le_of_lt htarget) hk.1
        rw [if_pos hpos, h.rewind hk (hk.pos hpos) hint, hk.2]
        exact h.delete hrange hshrink
      · rw [if_neg hpos]
        exact ⟨L, rfl, rfl, rfl, codes, h⟩
    obtain ⟨L', hL', hedited⟩ := hdelete
    rw [hL']
    exact ⟨_, rfl, hedited.selectNothing⟩

theorem Valid.keyDelete_spec (h : Valid L codes) {m : Modifiers}
    (hmeets : KeyMeets L codes m .KEY_DELETE) :
    ∃ L', L.keyDelete m.MoveWord = .ok L' ∧ Edited L L' := by
  obtain ⟨hselection, hcursor⟩ := hmeets
  unfold keyDelete
  by_cases hlength : L.GetSelectionLength ≠ 0
  · rw [if_pos hlength]
    exact h.deleteSelection hselection
  · rw [if_neg hlength]
    rw [GetSelectionLength_ne, not_not] at hlength
    obtain ⟨k, hk⟩ := h.cursorAt
    have hdelete : ∃ L', L.deleteAfter m.MoveWord = .ok L' ∧ Edited L L' := by
      unfold deleteAfter
      by_cases hlt : L.m_CursorPos < L.m_Len
      · obtain ⟨hint, hshrink⟩ := hcursor k hk hlength (hk.lt h hlt)
        have htarget := @lt_target codes k m.MoveWord (hk.lt h hlt)
        have hrange := range_of_boundary h (Nat.le_of_lt htarget.1) htarget.2
        rw [if_pos hlt, h.forward hk (hk.lt h hlt) hint, hk.2]
        exact h.delete hrange hshrink
      · rw [if_neg hlt]
        exact ⟨L, rfl, rfl, rfl, codes, h⟩
    obtain ⟨L', hL', hedited⟩ := hdelete
    rw [hL']
    exact ⟨_, rfl, hedited.selectNothing⟩

theorem Valid.keyLeft_spec (h : Valid L codes) {m : Modifiers}
    (hmeets : KeyMeets L codes m .KEY_LEFT) :
    ∃ L', L.keyLeft m.ShiftIsPressed m.MoveWord = .ok L' ∧ Edited L L' := by
  obtain ⟨k, hk⟩ := h.cursorAt
  unfold keyLeft moveLeft
  by_cases hcollapse : L.GetSelectionLength ≠ 0 ∧ ¬ m.ShiftIsPressed
  · rw [if_pos hcollapse]
    refine ⟨_, rfl, ?_⟩
    rw [if_pos hcollapse.2]
    exact ⟨rfl, rfl, codes, h.place h.start h.start (Nat.le_refl _) (.inl rfl)⟩
  · rw [if_neg hcollapse]
    rw [GetSelectionLength_ne] at hcollapse
    by_cases hpos : L.m_CursorPos > 0
    · obtain ⟨hint, hends⟩ := hmeets k hk (hk.pos hpos) (by
        by_cases hshift : m.ShiftIsPressed = true
        · exact .inr hshift
        · exact .inl (not_not.mp fun hne => hcollapse ⟨hne, hshift⟩))
      have htarget := @target_lt codes k m.MoveWord (hk.pos hpos) hk.1
      have hboundary : Boundary codes (offset codes (target codes .REWIND m.MoveWord k)) :=
        ⟨_, Nat.le_trans (Nat.le_of_lt htarget) hk.1, rfl⟩
      have hle := @offset_mono codes _ k (Nat.le_of_lt htarget)
      rw [← hk.2] at hle
      rw [if_pos hpos, h.rewind hk (hk.pos hpos) hint]
      refine ⟨_, rfl, ?_⟩
      by_cases hshift : m.ShiftIsPressed = true
      · rw [if_neg (not_not_intro hshift), if_pos hshift]
        unfold expandStart
        simp only
        by_cases hstart : L.m_SelectionStart = L.m_CursorPos
        · rw [if_pos hstart]
          refine ⟨rfl, rfl, codes, h.place hboundary h.stop ?_ (.inl rfl)⟩
          have hordered := h.ordered
          omega
        · have hstop : L.m_SelectionEnd = L.m_CursorPos :=
            (h.cursor.resolve_left (Ne.symm hstart)).symm
          rw [if_neg hstart, if_pos hstop]
          exact ⟨rfl, rfl, codes, h.place h.start hboundary (hends hshift (Ne.symm hstart)) (.inr rfl)⟩
      · rw [if_pos hshift, if_neg hshift]
        exact ⟨rfl, rfl, codes, h.place hboundary hboundary (Nat.le_refl _) (.inl rfl)⟩
    · rw [if_neg hpos]
      refine ⟨_, rfl, ?_⟩
      split
      · exact ⟨rfl, rfl, codes, h.selectNothing⟩
      · exact ⟨rfl, rfl, codes, h⟩

theorem Valid.keyRight_spec (h : Valid L codes) {m : Modifiers}
    (hmeets : KeyMeets L codes m .KEY_RIGHT) :
    ∃ L', L.keyRight m.ShiftIsPressed m.MoveWord = .ok L' ∧ Edited L L' := by
  obtain ⟨k, hk⟩ := h.cursorAt
  unfold keyRight moveRight
  by_cases hcollapse : L.GetSelectionLength ≠ 0 ∧ ¬ m.ShiftIsPressed
  · rw [if_pos hcollapse]
    refine ⟨_, rfl, ?_⟩
    rw [if_pos hcollapse.2]
    exact ⟨rfl, rfl, codes, h.place h.stop h.stop (Nat.le_refl _) (.inl rfl)⟩
  · rw [if_neg hcollapse]
    rw [GetSelectionLength_ne] at hcollapse
    by_cases hlt : L.m_CursorPos < L.m_Len
    · obtain ⟨hint, hends⟩ := hmeets k hk (hk.lt h hlt) (by
        by_cases hshift : m.ShiftIsPressed = true
        · exact .inr hshift
        · exact .inl (not_not.mp fun hne => hcollapse ⟨hne, hshift⟩))
      have htarget := @lt_target codes k m.MoveWord (hk.lt h hlt)
      have hboundary : Boundary codes (offset codes (target codes .FORWARD m.MoveWord k)) :=
        ⟨_, htarget.2, rfl⟩
      have hle := @offset_mono codes k _ (Nat.le_of_lt htarget.1)
      rw [← hk.2] at hle
      rw [if_pos hlt, h.forward hk (hk.lt h hlt) hint]
      refine ⟨_, rfl, ?_⟩
      by_cases hshift : m.ShiftIsPressed = true
      · rw [if_neg (not_not_intro hshift), if_pos hshift]
        unfold expandEnd
        simp only
        by_cases hstop : L.m_SelectionEnd = L.m_CursorPos
        · rw [if_pos hstop]
          refine ⟨rfl, rfl, codes, h.place h.start hboundary ?_ (.inr rfl)⟩
          have hordered := h.ordered
          omega
        · have hstart : L.m_SelectionStart = L.m_CursorPos :=
            (h.cursor.resolve_right (Ne.symm hstop)).symm
          rw [if_neg hstop, if_pos hstart]
          exact ⟨rfl, rfl, codes, h.place hboundary h.stop (hends hshift (Ne.symm hstop)) (.inl rfl)⟩
      · rw [if_pos hshift, if_neg hshift]
        exact ⟨rfl, rfl, codes, h.place hboundary hboundary (Nat.le_refl _) (.inl rfl)⟩
    · rw [if_neg hlt]
      refine ⟨_, rfl, ?_⟩
      split
      · exact ⟨rfl, rfl, codes, h.selectNothing⟩
      · exact ⟨rfl, rfl, codes, h⟩

/-- Home selects up to where the selection started. -/
theorem Valid.keyHome_spec (h : Valid L codes) (Selecting : Bool) :
    Edited L (L.keyHome Selecting) := by
  have hzero := boundary_zero codes
  unfold keyHome
  cases Selecting with
  | true =>
      simp only [if_true]
      split
      · exact ⟨rfl, rfl, codes, h.place hzero h.start (Nat.zero_le _) (.inl rfl)⟩
      · exact ⟨rfl, rfl, codes, h.place hzero h.stop (Nat.zero_le _) (.inl rfl)⟩
  | false => exact ⟨rfl, rfl, codes, h.place hzero hzero (Nat.le_refl 0) (.inl rfl)⟩

theorem Valid.keyEnd_spec (h : Valid L codes) (Selecting : Bool) :
    Edited L (L.keyEnd Selecting) := by
  have hend : Boundary codes L.m_Len := by
    rw [h.len]
    exact boundary_length codes
  have hle : ∀ {p}, Boundary codes p → p ≤ L.m_Len := by
    intro p hp
    rw [h.len]
    exact hp.le
  unfold keyEnd
  cases Selecting with
  | true =>
      simp only [if_true]
      split
      · exact ⟨rfl, rfl, codes, h.place h.stop hend (hle h.stop) (.inr rfl)⟩
      · exact ⟨rfl, rfl, codes, h.place h.start hend (hle h.start) (.inr rfl)⟩
  | false => exact ⟨rfl, rfl, codes, h.place hend hend (Nat.le_refl _) (.inr rfl)⟩

end Fex.Client.CLineInput
