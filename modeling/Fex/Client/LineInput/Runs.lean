import Fex.Client.LineInput.Keys
import Fex.Lib.Run

/-!
# Runs of a line input

The operations and the keys in any order, on a buffer of any size.
-/

namespace Fex.Client.CLineInput

open Fex.Lib Fex.Base

variable {L : CLineInput} {codes : List Nat}

/-! ## Steps -/

/-- What happens to a line input.  Texts are given by their characters. -/
inductive Op
  | Set (text : List Nat)
  | Clear
  | SetRange (text : List Nat) (Begin End : Nat)
  | Insert (text : List Nat) (Begin : Nat)
  | Append (text : List Nat)
  | ProcessInput (m : Modifiers) (m_Key : Key)

def step (L : CLineInput) : Op → Exec CLineInput
  | .Set text => L.Set (encoded text)
  | .Clear => L.Clear
  | .SetRange text Begin End => L.SetRange (encoded text) Begin End
  | .Insert text Begin => L.Insert (encoded text) Begin
  | .Append text => L.Append (encoded text)
  | .ProcessInput m m_Key => L.ProcessInput m m_Key

/-- Texts are valid and positions are between characters. -/
def WellFormed (L : CLineInput) (codes : List Nat) : Op → Prop
  | .Set text => ∀ chr ∈ text, Scalar chr
  | .Clear => True
  | .SetRange text Begin End =>
      (∀ chr ∈ text, Scalar chr) ∧ Boundary codes (min Begin L.m_Len) ∧
        Boundary codes (min End L.m_Len)
  | .Insert text Begin => (∀ chr ∈ text, Scalar chr) ∧ Boundary codes (min Begin L.m_Len)
  | .Append text => ∀ chr ∈ text, Scalar chr
  | .ProcessInput _ _ => True

/-- What is set has at most `m_MaxChars` characters, and the keys meet their condition. -/
def Meets (L : CLineInput) (codes : List Nat) : Op → Prop
  | .Set text =>
      min (copySize L.m_MaxSize) (encoded text).length < L.m_MaxSize ∧
        (copied (copySize L.m_MaxSize) text).length ≤ L.m_MaxChars
  | .Clear => True
  | .SetRange text Begin End =>
      ∀ k j, Range L codes Begin End k j → Shrinks L codes (between codes k j) text
  | .Insert _ _ => True
  | .Append _ => True
  | .ProcessInput m m_Key => KeyMeets L codes m m_Key

/-- The condition of a step, on the text that the buffer holds. -/
def guard (L : CLineInput) (op : Op) : Prop :=
  ∀ codes, Holds L codes → WellFormed L codes op ∧ Meets L codes op

/-- A line input whose buffer holds a text with at most `m_MaxChars` characters. -/
def Started (L : CLineInput) : Prop :=
  ∃ codes rest MaxChars, (∀ chr ∈ codes, Scalar chr) ∧ codes.length ≤ MaxChars ∧
    SetBuffer (encoded codes ++ 0 :: rest) (encoded codes ++ 0 :: rest).length MaxChars = .ok L

theorem Valid.SetRange_edited (h : Valid L codes) {text : List Nat} {Begin End : Nat}
    (htext : ∀ chr ∈ text, Scalar chr) (hBegin : Boundary codes (min Begin L.m_Len))
    (hEnd : Boundary codes (min End L.m_Len))
    (hmeets : ∀ k j, Range L codes Begin End k j → Shrinks L codes (between codes k j) text) :
    ∃ L', L.SetRange (encoded text) Begin End = .ok L' ∧ Edited L L' := by
  obtain ⟨k, j, hrange⟩ := exists_range hBegin hEnd
  obtain ⟨L', hL', hsize, hchars, hvalid⟩ := SetRange_spec h hrange htext (hmeets k j hrange)
  exact ⟨L', hL', hsize, hchars, _, hvalid⟩

/-- An insertion removes nothing. -/
theorem Valid.Insert_edited (h : Valid L codes) {text : List Nat} {Begin : Nat}
    (htext : ∀ chr ∈ text, Scalar chr) (hBegin : Boundary codes (min Begin L.m_Len)) :
    ∃ L', L.Insert (encoded text) Begin = .ok L' ∧ Edited L L' := by
  apply h.SetRange_edited htext hBegin hBegin
  intro k j hrange hless
  have hfirst := hrange.first
  have hlast := hrange.last
  rw [Nat.min_self] at hfirst
  rw [Nat.max_self] at hlast
  rw [length_encoded_between hrange.le] at hless
  omega

theorem Valid.keyPressed_spec (h : Valid L codes) {m : Modifiers} {m_Key : Key}
    (hmeets : KeyMeets L codes m m_Key) : ∃ L', L.keyPressed m m_Key = .ok L' ∧ Edited L L' := by
  cases m_Key with
  | KEY_BACKSPACE => exact h.keyBackspace_spec hmeets
  | KEY_DELETE => exact h.keyDelete_spec hmeets
  | KEY_LEFT => exact h.keyLeft_spec hmeets
  | KEY_RIGHT => exact h.keyRight_spec hmeets
  | KEY_HOME => exact ⟨_, rfl, h.keyHome_spec m.ShiftIsPressed⟩
  | KEY_END => exact ⟨_, rfl, h.keyEnd_spec m.ShiftIsPressed⟩

theorem Valid.ProcessInput_spec (h : Valid L codes) {m : Modifiers} {m_Key : Key}
    (hmeets : KeyMeets L codes m m_Key) : ∃ L', L.ProcessInput m m_Key = .ok L' ∧ Edited L L' := by
  obtain ⟨L', hL', hsize, hchars, codes', hvalid⟩ := h.keyPressed_spec hmeets
  unfold ProcessInput
  rw [h.UpdateStrData_eq]
  show ∃ L'', (L.keyPressed m m_Key >>= fun L' => _) = _ ∧ _
  rw [hL']
  exact ⟨_, rfl, hsize, hchars, codes', ⟨hvalid.scalars, hvalid.size, hvalid.buffer⟩, hvalid.len,
    hvalid.chars, hvalid.fits, hvalid.start, hvalid.stop, hvalid.ordered, hvalid.cursor⟩

/-- One step keeps the buffer valid. -/
theorem Valid.step_spec (h : Valid L codes) {op : Op} (hop : guard L op) :
    ∃ L', step L op = .ok L' ∧ Edited L L' := by
  obtain ⟨hform, hmeets⟩ := hop codes h.toHolds
  cases op with
  | Set text =>
      obtain ⟨L', hL', hsize, hchars, hvalid⟩ := h.Set_spec hform hmeets.1 hmeets.2
      exact ⟨L', hL', hsize, hchars, _, hvalid⟩
  | Clear =>
      obtain ⟨L', hL', hsize, hchars, hvalid⟩ := h.Clear_spec
      exact ⟨L', hL', hsize, hchars, _, hvalid⟩
  | SetRange text Begin End => exact h.SetRange_edited hform.1 hform.2.1 hform.2.2 hmeets
  | Insert text Begin => exact h.Insert_edited hform.1 hform.2
  | Append text =>
      apply h.Insert_edited hform
      rw [Nat.min_self, h.len]
      exact boundary_length codes
  | ProcessInput m m_Key => exact h.ProcessInput_spec hmeets

/-! ## Runs -/

theorem valid_of_reachable {L₀ : CLineInput} (hstart : Started L₀) (h : Reachable step guard L₀ L) :
    ∃ codes, Valid L codes := by
  apply h.invariant
  · obtain ⟨codes, rest, MaxChars, hcodes, hfits, hrun⟩ := hstart
    obtain ⟨L₁, hL₁, hvalid⟩ := SetBuffer_spec hcodes rest hfits
    rw [hrun] at hL₁
    rw [Except.ok.inj hL₁]
    exact ⟨codes, hvalid⟩
  · intro s t op hs hguard hstep
    obtain ⟨codes, hvalid⟩ := hs
    obtain ⟨L', hL', hedited⟩ := hvalid.step_spec hguard
    rw [hstep] at hL'
    rw [Except.ok.inj hL']
    exact hedited.valid

/-- The characters that are taken in are the longest prefix with which the new text keeps to both
limits. -/
theorem Valid.longestPrefix_taken (h : Valid L codes) {text : List Nat} {k j : Nat} (hkj : k ≤ j)
    (htext : ∀ chr ∈ text, Scalar chr) :
    LongestPrefix text
      (fun p => (codes.take k ++ (p ++ codes.drop j)).length ≤ L.m_MaxChars ∧
        (encoded (codes.take k ++ (p ++ codes.drop j))).length < L.m_MaxSize)
      (encoded (taken L codes (between codes k j) text)) := by
  have hfits := h.fits
  have hlt := h.length_lt
  have hsplit := split_between hkj codes
  have hlength := congrArg List.length hsplit
  have hbytes := congrArg (fun l => (encoded l).length) hsplit
  simp only [encoded_append, List.length_append] at hlength hbytes
  have hlongest := longestPrefix_fitting htext
    (L.m_MaxChars - codes.length + (between codes k j).length)
    (L.m_MaxSize - (encoded codes).length + (encoded (between codes k j)).length - 1)
  have hsame : (fun p : List Nat => (codes.take k ++ (p ++ codes.drop j)).length ≤ L.m_MaxChars ∧
      (encoded (codes.take k ++ (p ++ codes.drop j))).length < L.m_MaxSize) =
      fun p => p.length ≤ L.m_MaxChars - codes.length + (between codes k j).length ∧
        (encoded p).length ≤
          L.m_MaxSize - (encoded codes).length + (encoded (between codes k j)).length - 1 := by
    ext p
    simp only [encoded_append, List.length_append]
    omega
  rw [hsame]
  exact hlongest

/-- In every run the buffer stays valid, a further step stays inside of it and fails no assertion,
and `SetRange` replaces the range by what fits of the text. -/
theorem edits_of_reachable {L₀ : CLineInput} (hstart : Started L₀)
    (h : Reachable step guard L₀ L) :
    ∃ codes, Valid L codes ∧ (encoded codes).length < L.m_MaxSize ∧
      (∀ op, guard L op → ∃ L', step L op = .ok L') ∧
      ∀ text Begin End, guard L (.SetRange text Begin End) →
        ∃ L' k j added, L.SetRange (encoded text) Begin End = .ok L' ∧ Range L codes Begin End k j ∧
          LongestPrefix text
            (fun p => (codes.take k ++ (p ++ codes.drop j)).length ≤ L.m_MaxChars ∧
              (encoded (codes.take k ++ (p ++ codes.drop j))).length < L.m_MaxSize)
            (encoded added) ∧
          Valid L' (codes.take k ++ (added ++ codes.drop j)) := by
  obtain ⟨codes, hvalid⟩ := valid_of_reachable hstart h
  refine ⟨codes, hvalid, hvalid.length_lt, fun op hop => ?_, fun text Begin End hop => ?_⟩
  · obtain ⟨L', hL', -⟩ := hvalid.step_spec hop
    exact ⟨L', hL'⟩
  · obtain ⟨⟨htext, hBegin, hEnd⟩, hmeets⟩ := hop codes hvalid.toHolds
    obtain ⟨k, j, hrange⟩ := exists_range hBegin hEnd
    obtain ⟨L', hL', -, -, hvalid'⟩ := SetRange_spec hvalid hrange htext (hmeets k j hrange)
    exact ⟨L', k, j, _, hL', hrange,
      hvalid.longestPrefix_taken hrange.le htext, hvalid'⟩

/-- Two letters are set in a buffer of four bytes. -/
theorem edits_of_reachable_two :
    ∃ L, (SetBuffer [0, 0, 0, 0] 4 4 >>= fun L₀ => L₀.Set [97, 98]) = .ok L ∧
      ∃ codes, Valid L codes ∧ (encoded codes).length < 4 := by
  let L₀ : CLineInput := { m_pStr := [0, 0, 0, 0], m_MaxSize := 4, m_MaxChars := 4 }
  let L : CLineInput :=
    { L₀ with
      m_pStr := [97, 98, 0, 0]
      m_Len := 2
      m_NumChars := 2
      m_CursorPos := 2
      m_SelectionStart := 2
      m_SelectionEnd := 2
      m_LastCompositionCursorPos := 2
      m_WasCursorChanged := true }
  have hstart : Started L₀ :=
    ⟨[], [0, 0, 0], 4, fun chr hchr => absurd hchr List.not_mem_nil, Nat.zero_le 4, rfl⟩
  have hguard : guard L₀ (.Set [97, 98]) := by
    intro codes _
    have htext : ∀ chr ∈ [97, 98], Scalar chr := by decide
    have hsize : copySize 4 = 3 := by decide +kernel
    refine ⟨htext, ?_⟩
    show min (copySize 4) _ < 4 ∧ (copied (copySize 4) [97, 98]).length ≤ 4
    rw [hsize]
    decide
  have hset : step L₀ (.Set [97, 98]) = .ok L := by decide +kernel
  obtain ⟨codes, hvalid, hlt, -⟩ := @edits_of_reachable L L₀ hstart (.next _ .init hguard hset)
  exact ⟨L, by decide +kernel, codes, hvalid, hlt⟩

/-- All of a text of five bytes is removed from a buffer of six, five characters are set where two
are allowed, and a word to the left of the selection is selected with its last character. -/
theorem edits_leave_buffer :
    (SetBuffer [0, 0, 0, 0, 0, 0] 6 6 >>= fun L => L.Set [97, 98, 99, 100, 101] >>= fun L =>
      L.SetRange [] 0 5) = .error .outOfBounds ∧
    (∃ L, (SetBuffer [0, 0, 0, 0, 0, 0] 6 2 >>= fun L => L.Set [97, 98, 99, 100, 101]) = .ok L ∧
      L.m_pStr = [97, 98, 99, 100, 101, 0] ∧ L.m_Len = 2) ∧
    ∃ L, (SetBuffer [97, 98, 32, 99, 100, 0] 6 6 >>= fun L =>
      L.ProcessInput ⟨false, false, false⟩ .KEY_END >>= fun L =>
      L.ProcessInput ⟨false, false, false⟩ .KEY_LEFT >>= fun L =>
      L.ProcessInput ⟨true, false, false⟩ .KEY_RIGHT >>= fun L =>
      L.ProcessInput ⟨true, true, false⟩ .KEY_LEFT) = .ok L ∧
      L.m_SelectionEnd < L.m_SelectionStart := by
  let counted : CLineInput :=
    { m_pStr := [97, 98, 99, 100, 101, 0]
      m_MaxSize := 6
      m_MaxChars := 2
      m_Len := 2
      m_NumChars := 2
      m_CursorPos := 2
      m_SelectionStart := 2
      m_SelectionEnd := 2
      m_LastCompositionCursorPos := 2
      m_WasCursorChanged := true }
  let crossed : CLineInput :=
    { m_pStr := [97, 98, 32, 99, 100, 0]
      m_MaxSize := 6
      m_MaxChars := 6
      m_Len := 5
      m_NumChars := 5
      m_CursorPos := 3
      m_SelectionStart := 4
      m_SelectionEnd := 3
      m_WasCursorChanged := true }
  exact ⟨by decide +kernel, ⟨counted, by decide +kernel, rfl, rfl⟩,
    ⟨crossed, by decide +kernel, by decide⟩⟩

end Fex.Client.CLineInput
