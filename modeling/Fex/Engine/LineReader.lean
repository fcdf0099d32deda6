import Fex.Base.Utf8
import Mathlib.Data.List.Basic

/-!
# Lines of a buffer

Model of `linereader.cpp`.  The buffer is the list of its bytes up to the terminator, which is the
last one, and a read behind it is a fault.  A pointer to a line is its position.
-/

namespace Fex.Engine

open Fex.Lib Fex.Base

structure CLineReader where
  m_pBuffer : List UInt8
  m_BufferPos : Nat
  m_ReadLastLine : Bool

namespace CLineReader

/-- `m_pBuffer[i]` -/
def byteAt (r : CLineReader) (i : Nat) : Exec UInt8 :=
  match r.m_pBuffer[i]? with
  | some b => .ok b
  | none => .error .outOfBounds

/-- The C string at `i`; without a terminator it is read beyond the buffer. -/
def cstring (r : CLineReader) (i : Nat) : Exec (List UInt8) :=
  if 0 ∈ r.m_pBuffer.drop i then .ok ((r.m_pBuffer.drop i).takeWhile (· ≠ 0))
  else .error .outOfBounds

/-- `++m_BufferPos` of an `unsigned`. -/
def advance (r : CLineReader) : CLineReader :=
  { r with m_BufferPos := (r.m_BufferPos + 1) % 2 ^ 32 }

/-- `m_pBuffer[m_BufferPos] = '\0'` -/
def terminate (r : CLineReader) : CLineReader :=
  { r with m_pBuffer := r.m_pBuffer.set r.m_BufferPos 0 }

/-- The UTF-8 byte order mark is looked for as long as it matches. -/
def hasBom (r : CLineReader) : Exec Bool := do
  if (← r.byteAt 0) ≠ 0xEF then return false
  if (← r.byteAt 1) ≠ 0xBB then return false
  return (← r.byteAt 2) = 0xBF

def OpenBuffer (pBuffer : List UInt8) : Exec CLineReader := do
  let r := { m_pBuffer := pBuffer, m_BufferPos := 0, m_ReadLastLine := false }
  if ← hasBom r then return { r with m_BufferPos := 3 }
  else return r

/-- The byte at the position ends a line. -/
def atLineEnd (r : CLineReader) : Exec Bool := do
  let c ← r.byteAt r.m_BufferPos
  if c = 0 ∨ c = 10 then return true
  if c ≠ 13 then return false
  return (← r.byteAt ((r.m_BufferPos + 1) % 2 ^ 32)) = 10

/-- Past the end of a line, which is terminated. -/
def endLine (r : CLineReader) : Exec CLineReader := do
  let c ← r.byteAt r.m_BufferPos
  if c = 0 then return { r with m_ReadLastLine := true }
  else if c = 13 then return r.terminate.advance.terminate.advance
  else return r.terminate.advance

/-- The loop of `Get`. -/
def getLoop : Nat → CLineReader → Nat → Exec (Option Nat × CLineReader)
  | 0, _, _ => .error .diverges
  | fuel + 1, r, LineStart => do
      if ← r.atLineEnd then
        let r ← r.endLine
        if ¬ str_utf8_check (← r.cstring LineStart) then
          -- lines containing invalid UTF-8 are skipped
          if r.m_ReadLastLine then return (none, r)
          else getLoop fuel r r.m_BufferPos
        else if r.m_ReadLastLine then
          -- a trailing empty line is skipped
          if (← r.byteAt LineStart) = 0 then return (none, r)
          else return (some LineStart, r)
        else return (some LineStart, r)
      else getLoop fuel r.advance LineStart

/-- The position of a line, `none` for the null pointer.  There is at most one turn of the loop for
each byte. -/
def GetPosition (r : CLineReader) : Exec (Option Nat × CLineReader) :=
  if r.m_ReadLastLine then .ok (none, r)
  else getLoop (r.m_pBuffer.length + 1) r r.m_BufferPos

/-- `Get` and the string it returns. -/
def Get (r : CLineReader) : Exec (Option (List UInt8) × CLineReader) := do
  match ← r.GetPosition with
  | (none, r) => return (none, r)
  | (some LineStart, r) => return (some (← r.cstring LineStart), r)

/-- What `n` calls of `Get` return. -/
def Gets : Nat → CLineReader → Exec (List (Option (List UInt8)) × CLineReader)
  | 0, r => .ok ([], r)
  | n + 1, r => do
      let (line, r) ← r.Get
      let (lines, r) ← Gets n r
      return (line :: lines, r)

end CLineReader

/-! ## Lines -/

def dropBom (s : List UInt8) : List UInt8 :=
  if [0xEF, 0xBB, 0xBF] <+: s then s.drop 3 else s

/-- A carriage return at the end belongs to the separator. -/
def dropCr (line : List UInt8) : List UInt8 :=
  if line.getLast? = some 13 then line.dropLast else line

/-- The lines of a text; the last one has no line feed behind it. -/
def splitLines (s : List UInt8) : List (List UInt8) :=
  (s.splitOn 10).dropLast.map dropCr ++ (s.splitOn 10).getLast?.toList

/-- The last line is dropped if it is empty. -/
def dropLastEmpty (lines : List (List UInt8)) : List (List UInt8) :=
  if lines.getLast? = some [] then lines.dropLast else lines

/-- The lines of a text that are valid UTF-8, without an empty last one. -/
def validLines (s : List UInt8) : List (List UInt8) :=
  (dropLastEmpty (splitLines s)).filter str_utf8_check

theorem splitLines_ne_nil (s : List UInt8) : splitLines s ≠ [] := by
  have hne := List.splitOn_ne_nil 10 s
  unfold splitLines
  rw [List.getLast?_eq_some_getLast hne]
  exact List.append_ne_nil_of_right_ne_nil _ (List.cons_ne_nil _ _)

theorem splitLines_append {a : List UInt8} (ha : 10 ∉ a) (rest : List UInt8) :
    splitLines (a ++ 10 :: rest) = dropCr a :: splitLines rest := by
  have hne := List.splitOn_ne_nil 10 rest
  unfold splitLines
  rw [List.splitOn_append_cons_self_of_not_mem ha, List.dropLast_cons_of_ne_nil hne,
    List.getLast?_cons_of_ne_nil hne]
  rfl

theorem splitLines_of_notMem {s : List UInt8} (hs : 10 ∉ s) : splitLines s = [s] := by
  unfold splitLines
  rw [List.splitOn_eq_singleton hs]
  rfl

theorem dropLastEmpty_cons (line : List UInt8) {lines : List (List UInt8)} (hne : lines ≠ []) :
    dropLastEmpty (line :: lines) = line :: dropLastEmpty lines := by
  unfold dropLastEmpty
  rw [List.getLast?_cons_of_ne_nil hne, List.dropLast_cons_of_ne_nil hne]
  split
  · rfl
  · rfl

/-- The first line of a text is kept if it is valid. -/
theorem validLines_append {a : List UInt8} (ha : 10 ∉ a) (rest : List UInt8) :
    validLines (a ++ 10 :: rest) =
      if str_utf8_check (dropCr a) then dropCr a :: validLines rest else validLines rest := by
  unfold validLines
  rw [splitLines_append ha, dropLastEmpty_cons _ (splitLines_ne_nil rest), List.filter_cons]

/-- The last line is kept if it is valid and not empty. -/
theorem validLines_of_notMem {s : List UInt8} (hs : 10 ∉ s) :
    validLines s = if s ≠ [] ∧ str_utf8_check s then [s] else [] := by
  unfold validLines
  rw [splitLines_of_notMem hs]
  by_cases hnil : s = []
  · rw [hnil, if_neg (fun h => h.1 rfl)]
    rfl
  · have hlast : dropLastEmpty [s] = [s] := if_neg fun h => hnil (Option.some.inj h)
    rw [hlast, List.filter_cons, List.filter_nil]
    by_cases hcheck : str_utf8_check s = true
    · rw [if_pos hcheck, if_pos ⟨hnil, hcheck⟩]
    · rw [if_neg hcheck, if_neg (fun h => hcheck h.2)]

/-! ## The position -/

namespace CLineReader

/-- The reader between two parts of the buffer. -/
def between (done rest : List UInt8) : CLineReader :=
  { m_pBuffer := done ++ rest, m_BufferPos := done.length, m_ReadLastLine := false }

theorem byteAt_between (done rest : List UInt8) (c : UInt8) :
    (between done (c :: rest)).byteAt done.length = .ok c := by
  unfold byteAt between
  rw [List.getElem?_append_right (Nat.le_refl _), Nat.sub_self]
  rfl

theorem byteAt_next (done rest : List UInt8) (c d : UInt8) :
    (between done (c :: d :: rest)).byteAt (done.length + 1) = .ok d := by
  unfold byteAt between
  rw [List.getElem?_append_right (by omega), Nat.add_sub_cancel_left]
  rfl

theorem advance_between {done rest : List UInt8} (c : UInt8)
    (hlt : (done ++ c :: rest).length ≤ 2 ^ 32) (hrest : rest ≠ []) :
    (between done (c :: rest)).advance = between (done ++ [c]) rest := by
  have hpos := List.length_pos_iff.mpr hrest
  rw [List.length_append, List.length_cons] at hlt
  have hmod : (done.length + 1) % 2 ^ 32 = (done ++ [c]).length := by
    rw [List.length_append, List.length_singleton, Nat.mod_eq_of_lt (by omega)]
  unfold advance between
  rw [hmod, List.append_assoc]
  rfl

theorem terminate_between (done rest : List UInt8) (c : UInt8) :
    (between done (c :: rest)).terminate = between done (0 :: rest) := by
  unfold terminate between
  rw [List.set_append_right _ _ (Nat.le_refl _), Nat.sub_self]
  rfl

theorem cstring_of_append {r : CLineReader} {done line rest : List UInt8}
    (hr : r.m_pBuffer = done ++ (line ++ 0 :: rest)) (hline : 0 ∉ line) :
    r.cstring done.length = .ok line := by
  have htake : (line ++ 0 :: rest).takeWhile (· ≠ 0) = line := by
    rw [List.takeWhile_append_of_pos]
    · exact List.append_nil line
    · intro c hc
      exact decide_eq_true fun h => hline (h ▸ hc)
  unfold cstring
  rw [hr, List.drop_left, if_pos (List.mem_append_right _ List.mem_cons_self), htake]

/-! ## The loop -/

theorem atLineEnd_between {done rest : List UInt8} {c : UInt8} (hc : c = 0 ∨ c = 10) :
    (between done (c :: rest)).atLineEnd = .ok true := by
  have hbyte := byteAt_between done rest c
  unfold atLineEnd
  rw [show (between done (c :: rest)).m_BufferPos = done.length from rfl, hbyte]
  show (if c = 0 ∨ c = 10 then Except.ok true else _) = _
  rw [if_pos hc]

/-- Neither a byte of a line nor a carriage return alone ends it. -/
theorem atLineEnd_inner {done rest : List UInt8} {c d : UInt8}
    (hlt : (done ++ c :: d :: rest).length ≤ 2 ^ 32) (hc : ¬ (c = 0 ∨ c = 10)) :
    (between done (c :: d :: rest)).atLineEnd = .ok (decide (c = 13 ∧ d = 10)) := by
  have hbyte := byteAt_between done (d :: rest) c
  have hnext := byteAt_next done rest c d
  rw [List.length_append, List.length_cons, List.length_cons] at hlt
  unfold atLineEnd
  rw [show (between done (c :: d :: rest)).m_BufferPos = done.length from rfl, hbyte,
    Nat.mod_eq_of_lt (show done.length + 1 < 2 ^ 32 by omega), hnext]
  show (if c = 0 ∨ c = 10 then _ else if c ≠ 13 then Except.ok false else
    Except.ok (decide (d = 10))) = _
  rw [if_neg hc]
  by_cases hcr : c = 13
  · rw [if_neg (not_not.mpr hcr)]
    simp [hcr]
  · rw [if_pos hcr]
    simp [hcr]

/-- The loop passes over the bytes of a line. -/
theorem getLoop_inner (fuel LineStart : Nat) {done line rest : List UInt8}
    (hlt : (done ++ (line ++ rest)).length ≤ 2 ^ 32) (hzero : 0 ∉ line) (hlf : 10 ∉ line)
    (hrest : rest ≠ []) (hcr : line.getLast? = some 13 → rest.head? ≠ some 10) :
    getLoop (fuel + line.length) (between done (line ++ rest)) LineStart =
      getLoop fuel (between (done ++ line) rest) LineStart := by
  induction line generalizing done with
  | nil => rw [List.append_nil]; rfl
  | cons c line ih =>
      have hc : ¬ (c = 0 ∨ c = 10) := by
        rintro (rfl | rfl)
        · exact hzero List.mem_cons_self
        · exact hlf List.mem_cons_self
      have hend : (between done (c :: (line ++ rest))).atLineEnd = .ok false := by
        cases hl : line ++ rest with
        | nil => exact absurd (List.append_eq_nil_iff.mp hl).2 hrest
        | cons d l =>
            have hnot : ¬ (c = 13 ∧ d = 10) := by
              rintro ⟨rfl, rfl⟩
              cases line with
              | nil =>
                  apply hcr rfl
                  rw [List.nil_append] at hl
                  rw [hl]
                  rfl
              | cons e line =>
                  rw [(List.cons.inj hl).1] at hlf
                  exact hlf (List.mem_cons_of_mem _ List.mem_cons_self)
            rw [List.cons_append, hl] at hlt
            rw [atLineEnd_inner hlt hc, decide_eq_false hnot]
      have hnext : (between done (c :: (line ++ rest))).advance =
          between (done ++ [c]) (line ++ rest) :=
        advance_between c hlt (List.append_ne_nil_of_right_ne_nil _ hrest)
      have hrun : getLoop (fuel + line.length + 1) (between done (c :: (line ++ rest))) LineStart =
          getLoop (fuel + line.length) (between (done ++ [c]) (line ++ rest)) LineStart := by
        rw [getLoop, hend, ← hnext]
        rfl
      have hline : line.getLast? = some 13 → rest.head? ≠ some 10 := by
        intro hlast
        apply hcr
        cases line with
        | nil => cases hlast
        | cons e line => exact hlast
      have hlength : (done ++ [c] ++ (line ++ rest)).length ≤ 2 ^ 32 := by
        rw [List.append_assoc]
        exact hlt
      have hloop := ih hlength (fun h => hzero (List.mem_cons_of_mem _ h))
        (fun h => hlf (List.mem_cons_of_mem _ h)) hline
      rw [List.append_assoc] at hloop
      rw [List.length_cons, ← Nat.add_assoc, List.cons_append, hrun, hloop]
      rfl

theorem endLine_lf {done rest : List UInt8} (hlt : (done ++ 10 :: rest).length ≤ 2 ^ 32)
    (hrest : rest ≠ []) : (between done (10 :: rest)).endLine = .ok (between (done ++ [0]) rest) := by
  have hbyte := byteAt_between done rest 10
  have hadvance := @advance_between done rest 0
    (by rw [List.length_append] at hlt ⊢; exact hlt) hrest
  unfold endLine
  rw [show (between done (10 :: rest)).m_BufferPos = done.length from rfl, hbyte,
    terminate_between, hadvance]
  rfl

theorem endLine_crlf {done rest : List UInt8} (hlt : (done ++ 13 :: 10 :: rest).length ≤ 2 ^ 32)
    (hrest : rest ≠ []) :
    (between done (13 :: 10 :: rest)).endLine = .ok (between (done ++ [0, 0]) rest) := by
  have hbyte := byteAt_between done (10 :: rest) 13
  rw [List.length_append, List.length_cons, List.length_cons] at hlt
  have hfirst := @advance_between done (10 :: rest) 0
    (by rw [List.length_append, List.length_cons, List.length_cons]; exact hlt)
    (List.cons_ne_nil _ _)
  have hsecond := @advance_between (done ++ [0]) rest 0
    (by simp only [List.length_append, List.length_cons, List.length_nil]; omega) hrest
  unfold endLine
  rw [show (between done (13 :: 10 :: rest)).m_BufferPos = done.length from rfl, hbyte,
    terminate_between, hfirst, terminate_between, hsecond, List.append_assoc]
  rfl

theorem endLine_last (done : List UInt8) :
    (between done [0]).endLine = .ok { between done [0] with m_ReadLastLine := true } := by
  have hbyte := byteAt_between done [] 0
  unfold endLine
  rw [show (between done [0]).m_BufferPos = done.length from rfl, hbyte]
  rfl

/-- A turn of the loop at the end of a line that is not the last one. -/
theorem getLoop_turn {r r' : CLineReader} {LineStart : Nat} {line : List UInt8} (fuel : Nat)
    (hend : r.atLineEnd = .ok true) (hnext : r.endLine = .ok r')
    (hline : r'.cstring LineStart = .ok line) (hlast : r'.m_ReadLastLine = false) :
    getLoop (fuel + 1) r LineStart =
      if str_utf8_check line then .ok (some LineStart, r')
      else getLoop fuel r' r'.m_BufferPos := by
  rw [getLoop, hend]
  simp only [bind, Except.bind, if_true, hnext, hline, hlast]
  by_cases hcheck : str_utf8_check line = true
  · rw [if_pos hcheck, if_neg (not_not.mpr hcheck), if_neg Bool.false_ne_true]
    rfl
  · rw [if_neg hcheck, if_pos hcheck, if_neg Bool.false_ne_true]

/-- A turn of the loop at the terminator. -/
theorem getLoop_last {r : CLineReader} {LineStart : Nat} {line : List UInt8} (fuel : Nat)
    {done : List UInt8} (hr : r = between done [0])
    (hline : ({ r with m_ReadLastLine := true } : CLineReader).cstring LineStart = .ok line)
    (hbyte : ({ r with m_ReadLastLine := true } : CLineReader).byteAt LineStart =
      .ok (line.head?.getD 0))
    (hzero : 0 ∉ line) :
    getLoop (fuel + 1) r LineStart =
      .ok (if line ≠ [] ∧ str_utf8_check line then some LineStart else none,
        { r with m_ReadLastLine := true }) := by
  subst hr
  rw [getLoop, atLineEnd_between (.inl rfl)]
  simp only [bind, Except.bind, if_true, endLine_last, hline, hbyte]
  by_cases hcheck : str_utf8_check line = true
  · rw [if_neg (not_not.mpr hcheck)]
    cases line with
    | nil => rfl
    | cons c line =>
        have hc : c ≠ 0 := fun h => hzero (h ▸ List.mem_cons_self)
        show (if c = 0 then _ else Except.ok (some LineStart, _)) = _
        rw [if_neg hc, if_pos ⟨List.cons_ne_nil _ _, hcheck⟩]
  · rw [if_pos hcheck, if_neg (fun h => hcheck h.2)]
    rfl

/-! ## The lines that are left -/

/-- The lines that the calls to come return. -/
def Remaining (r : CLineReader) (lines : List (List UInt8)) : Prop :=
  (r.m_ReadLastLine = true ∧ lines = []) ∨
  ∃ done s, r = between done (s ++ [0]) ∧ 0 ∉ s ∧ (done ++ (s ++ [0])).length ≤ 2 ^ 32 ∧
    lines = validLines s

/-- The loop returns the first line that is left. -/
def Returns (m : Exec (Option Nat × CLineReader)) (lines : List (List UInt8)) : Prop :=
  ∃ p r, m = .ok (p, r) ∧ Remaining r lines.tail ∧
    match p with
    | none => lines.head? = none
    | some LineStart => ∃ line, lines.head? = some line ∧ r.cstring LineStart = .ok line

/-- A line feed, with or without a carriage return, ends the line before it. -/
theorem getLoop_line (fuel : Nat) {done line sep rest : List UInt8}
    (hlt : (done ++ (line ++ (sep ++ rest))).length ≤ 2 ^ 32) (hzero : 0 ∉ line) (hlf : 10 ∉ line)
    (hrest : rest ≠ []) (hsep : sep = [13, 10] ∨ sep = [10] ∧ line.getLast? ≠ some 13) :
    ∃ done', done'.length = (done ++ line ++ sep).length ∧
      (between done' rest).cstring done.length = .ok line ∧
      getLoop (fuel + 1 + line.length) (between done (line ++ (sep ++ rest))) done.length =
        if str_utf8_check line then .ok (some done.length, between done' rest)
        else getLoop fuel (between done' rest) done'.length := by
  have hinner : getLoop (fuel + 1 + line.length) (between done (line ++ (sep ++ rest))) done.length =
      getLoop (fuel + 1) (between (done ++ line) (sep ++ rest)) done.length := by
    rcases hsep with rfl | ⟨rfl, hlast⟩
    · apply getLoop_inner _ _ hlt hzero hlf (List.cons_ne_nil _ _)
      exact fun _ h => absurd (Option.some.inj h) (by decide)
    · exact getLoop_inner _ _ hlt hzero hlf (List.cons_ne_nil _ _) fun h => absurd h hlast
  rw [← List.append_assoc] at hlt
  rw [hinner]
  rcases hsep with rfl | ⟨rfl, -⟩
  · have hend := @atLineEnd_inner (done ++ line) rest 13 10 hlt
      (by decide)
    have hline : (between (done ++ line ++ [0, 0]) rest).cstring done.length = .ok line := by
      apply @cstring_of_append _ done line (0 :: rest) _ hzero
      show done ++ line ++ [0, 0] ++ rest = _
      simp only [List.append_assoc, List.cons_append, List.nil_append]
    refine ⟨done ++ line ++ [0, 0], by simp only [List.length_append]; rfl, hline, ?_⟩
    exact getLoop_turn fuel hend (endLine_crlf hlt hrest) hline rfl
  · have hend := @atLineEnd_between (done ++ line) rest 10 (.inr rfl)
    have hline : (between (done ++ line ++ [0]) rest).cstring done.length = .ok line := by
      apply @cstring_of_append _ done line rest _ hzero
      show done ++ line ++ [0] ++ rest = _
      simp only [List.append_assoc, List.cons_append, List.nil_append]
    refine ⟨done ++ line ++ [0], by simp only [List.length_append]; rfl, hline, ?_⟩
    exact getLoop_turn fuel hend (endLine_lf hlt hrest) hline rfl

theorem mem_dropCr {a : List UInt8} {c : UInt8} (h : c ∈ dropCr a) : c ∈ a := by
  unfold dropCr at h
  split at h
  · exact List.dropLast_subset a h
  · exact h

/-- The line and the separator before a line feed. -/
theorem dropCr_cases (a : List UInt8) :
    ∃ sep, a ++ [10] = dropCr a ++ sep ∧
      (sep = [13, 10] ∨ sep = [10] ∧ (dropCr a).getLast? ≠ some 13) := by
  unfold dropCr
  by_cases hlast : a.getLast? = some 13
  · rw [if_pos hlast]
    refine ⟨[13, 10], ?_, .inl rfl⟩
    have hsplit := List.dropLast_append_getLast? 13 hlast
    conv_lhs => rw [← hsplit]
    rw [List.append_assoc]
    rfl
  · rw [if_neg hlast]
    exact ⟨[10], rfl, .inr ⟨rfl, hlast⟩⟩

/-- From the start of a line on the loop returns the next valid one. -/
theorem getLoop_spec (s done : List UInt8) (fuel : Nat) (hfuel : s.length < fuel) (hs : 0 ∉ s)
    (hlt : (done ++ (s ++ [0])).length ≤ 2 ^ 32) :
    Returns (getLoop fuel (between done (s ++ [0])) done.length) (validLines s) := by
  induction hn : s.length using Nat.strongRecOn generalizing s done fuel with
  | ind n ih =>
      by_cases hlf : 10 ∈ s
      · obtain ⟨a, rest, rfl, ha⟩ := List.eq_append_cons_of_mem hlf
        obtain ⟨sep, heq, hsep⟩ := dropCr_cases a
        have hzero : 0 ∉ dropCr a := fun h => hs (List.mem_append_left _ (mem_dropCr h))
        have hzero' : 0 ∉ rest := fun h => hs (List.mem_append_right _ (List.mem_cons_of_mem _ h))
        have hsplit : a ++ 10 :: rest ++ [0] = dropCr a ++ (sep ++ (rest ++ [0])) := by
          rw [← List.append_assoc (dropCr a), ← heq]
          simp only [List.append_assoc, List.cons_append, List.nil_append]
        have hlength := congrArg List.length heq
        rw [hsplit] at hlt ⊢
        rw [List.length_append, List.length_cons] at hfuel hn
        rw [List.length_append, List.length_singleton, List.length_append] at hlength
        have hpos : 0 < sep.length := by
          rcases hsep with rfl | ⟨rfl, -⟩ <;> decide
        obtain ⟨done', hdone, hline, hrun⟩ := getLoop_line (fuel - 1 - (dropCr a).length) hlt hzero
          (fun h => ha (mem_dropCr h)) (List.append_ne_nil_of_right_ne_nil rest (List.cons_ne_nil 0 []))
          hsep
        have hlt' : (done' ++ (rest ++ [0])).length ≤ 2 ^ 32 := by
          rw [List.length_append, hdone, ← List.length_append, List.append_assoc, List.append_assoc]
          exact hlt
        rw [show fuel - 1 - (dropCr a).length + 1 + (dropCr a).length = fuel by omega] at hrun
        rw [hrun, validLines_append ha]
        by_cases hcheck : str_utf8_check (dropCr a) = true
        · rw [if_pos hcheck, if_pos hcheck]
          exact ⟨_, _, rfl, .inr ⟨done', rest, rfl, hzero', hlt', rfl⟩, _, rfl, hline⟩
        · rw [if_neg hcheck, if_neg hcheck]
          exact ih rest.length (by omega) rest done' _ (by omega) hzero' hlt' rfl
      · have hinner := getLoop_inner (fuel - s.length) done.length hlt hs hlf (List.cons_ne_nil 0 [])
          fun _ h => absurd (Option.some.inj h) (by decide)
        have hline : ({ between (done ++ s) [0] with m_ReadLastLine := true } :
            CLineReader).cstring done.length = .ok s := by
          apply @cstring_of_append _ done s [] _ hs
          exact List.append_assoc done s [0]
        have hbyte : ({ between (done ++ s) [0] with m_ReadLastLine := true } :
            CLineReader).byteAt done.length = .ok (s.head?.getD 0) := by
          have hget : (done ++ s ++ [0])[done.length]? = some (s.head?.getD 0) := by
            rw [List.append_assoc, List.getElem?_append_right (Nat.le_refl _), Nat.sub_self]
            cases s with
            | nil => rfl
            | cons c s => rfl
          unfold byteAt between
          rw [hget]
        have hlast := getLoop_last (fuel - s.length - 1) rfl hline hbyte hs
        rw [show fuel - s.length - 1 + 1 = fuel - s.length by omega] at hlast
        rw [show fuel - s.length + s.length = fuel by omega, hlast] at hinner
        rw [hinner, validLines_of_notMem hlf]
        by_cases hkeep : s ≠ [] ∧ str_utf8_check s = true
        · rw [if_pos hkeep, if_pos hkeep]
          exact ⟨_, _, rfl, .inl ⟨rfl, rfl⟩, s, rfl, hline⟩
        · rw [if_neg hkeep, if_neg hkeep]
          exact ⟨_, _, rfl, .inl ⟨rfl, rfl⟩, rfl⟩

/-- A call returns the first of the lines that are left. -/
theorem Remaining.get {r : CLineReader} {lines : List (List UInt8)} (h : Remaining r lines) :
    ∃ r', r.Get = .ok (lines.head?, r') ∧ Remaining r' lines.tail := by
  have hreturns : Returns r.GetPosition lines := by
    unfold GetPosition
    rcases h with ⟨hlast, rfl⟩ | ⟨done, s, rfl, hs, hlt, rfl⟩
    · rw [if_pos hlast]
      exact ⟨none, r, rfl, .inl ⟨hlast, rfl⟩, rfl⟩
    · apply getLoop_spec s done _ _ hs hlt
      show s.length < (done ++ (s ++ [0])).length + 1
      rw [List.length_append, List.length_append]
      omega
  obtain ⟨p, r', hrun, hremaining, hp⟩ := hreturns
  refine ⟨r', ?_, hremaining⟩
  unfold Get
  rw [hrun]
  cases p with
  | none => exact congrArg (fun o => Except.ok (o, r')) hp.symm
  | some LineStart =>
      obtain ⟨line, hhead, hline⟩ := hp
      simp only [bind, Except.bind, hline, hhead]
      rfl

/-- The calls return the lines that are left one after the other, then the null pointer. -/
theorem Remaining.gets {r : CLineReader} {lines : List (List UInt8)} (h : Remaining r lines)
    (n : Nat) : ∃ r', r.Gets n = .ok ((List.range n).map (lines[·]?), r') := by
  induction n generalizing r lines with
  | zero => exact ⟨r, rfl⟩
  | succ n ih =>
      obtain ⟨r', hget, hremaining⟩ := h.get
      obtain ⟨r'', hgets⟩ := ih hremaining
      refine ⟨r'', ?_⟩
      have hrange : (List.range (n + 1)).map (lines[·]?) =
          lines.head? :: (List.range n).map (lines.tail[·]?) := by
        rw [List.range_succ_eq_map, List.map_cons, List.map_map, List.head?_eq_getElem?]
        congr 1
        apply List.map_congr_left
        intro i _
        exact List.getElem?_tail.symm
      rw [hrange, Gets, hget]
      simp only [bind, Except.bind, hgets]
      rfl

theorem hasBom_eq (s : List UInt8) (pos : Nat) (last : Bool) :
    hasBom { m_pBuffer := s ++ [0], m_BufferPos := pos, m_ReadLastLine := last } =
      .ok (decide ([0xEF, 0xBB, 0xBF] <+: s)) := by
  cases s with
  | nil => rfl
  | cons a s =>
      show (if a ≠ 0xEF then Except.ok false else _) = _
      by_cases ha : a = 0xEF
      · rw [if_neg (not_not.mpr ha), ha]
        cases s with
        | nil => rfl
        | cons b s =>
            show (if b ≠ 0xBB then Except.ok false else _) = _
            by_cases hb : b = 0xBB
            · rw [if_neg (not_not.mpr hb), hb]
              cases s with
              | nil => rfl
              | cons c s =>
                  show Except.ok (decide (c = 0xBF)) = _
                  simp only [List.cons_prefix_cons, List.nil_prefix, true_and, and_true, eq_comm]
            · have hnot : ¬ [0xEF, 0xBB, 0xBF] <+: 0xEF :: b :: s := fun h =>
                hb (List.cons_prefix_cons.mp (List.cons_prefix_cons.mp h).2).1.symm
              rw [if_pos hb, decide_eq_false hnot]
      · rw [if_pos ha, decide_eq_false fun h => ha (List.cons_prefix_cons.mp h).1.symm]

theorem OpenBuffer_eq (s : List UInt8) :
    ∃ done, OpenBuffer (s ++ [0]) = .ok (between done (dropBom s ++ [0])) ∧
      done ++ dropBom s = s := by
  have hopen : OpenBuffer (s ++ [0]) =
      if decide ([0xEF, 0xBB, 0xBF] <+: s) then .ok { between [] (s ++ [0]) with m_BufferPos := 3 }
      else .ok (between [] (s ++ [0])) := by
    unfold OpenBuffer
    simp only [hasBom_eq]
    rfl
  unfold dropBom
  rw [hopen]
  by_cases hbom : [0xEF, 0xBB, 0xBF] <+: s
  · obtain ⟨t, rfl⟩ := hbom
    refine ⟨[0xEF, 0xBB, 0xBF], ?_, ?_⟩
    · rw [if_pos (List.prefix_append _ _), decide_eq_true (List.prefix_append _ _)]
      rfl
    · rw [if_pos (List.prefix_append _ _)]
      rfl
  · refine ⟨[], ?_, ?_⟩
    · rw [if_neg hbom, decide_eq_false hbom]
      rfl
    · rw [if_neg hbom]
      rfl

/-- For every string the calls return the lines that are valid UTF-8, without an empty last one,
then the null pointer, and nothing behind the terminator is read. -/
theorem gets_OpenBuffer {s : List UInt8} (hs : 0 ∉ s) (hlt : s.length < 2 ^ 32) (n : Nat) :
    ∃ r r', OpenBuffer (s ++ [0]) = .ok r ∧
      r.Gets n = .ok ((List.range n).map ((validLines (dropBom s))[·]?), r') := by
  obtain ⟨done, hopen, hsplit⟩ := OpenBuffer_eq s
  have hzero : 0 ∉ dropBom s := by
    intro h
    rw [← hsplit] at hs
    exact hs (List.mem_append_right _ h)
  have hlength : (done ++ (dropBom s ++ [0])).length ≤ 2 ^ 32 := by
    rw [← List.append_assoc, hsplit, List.length_append, List.length_singleton]
    omega
  have hremaining : Remaining (between done (dropBom s ++ [0])) (validLines (dropBom s)) :=
    .inr ⟨done, dropBom s, rfl, hzero, hlength, rfl⟩
  obtain ⟨r', hgets⟩ := hremaining.gets n
  exact ⟨_, r', hopen, hgets⟩

theorem gets_OpenBuffer_two :
    ∃ r r', OpenBuffer ([97, 13, 10, 98] ++ [0]) = .ok r ∧
      r.Gets 3 = .ok ((List.range 3).map ((validLines (dropBom [97, 13, 10, 98]))[·]?), r') :=
  gets_OpenBuffer (by decide) (by decide) 3

end CLineReader

end Fex.Engine
