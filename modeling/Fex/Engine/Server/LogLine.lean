import Fex.Base.Characters
import Fex.Base.Truncation
import Fex.Engine.Server
import Mathlib.Data.List.Infix

/-!
# Log lines for the remote console

Model of `SendRconLogLine`, which hides the addresses of a line from the admins that do not show
them.  A write behind one of the buffers of 512 bytes is a fault.
-/

namespace Fex.Engine.Server.LogLine

open Fex.Base Fex.Lib

/-- The fields of `CClient` that are read. -/
structure CClient where
  m_State : State
  m_Authed : Authed
  m_ShowIps : Bool

/-- `<{` -/
def startMarker : CString := [60, 123]

/-- `}>` -/
def endMarker : CString := [125, 62]

/-- `XXX` -/
def hidden : CString := [88, 88, 88]

/-- The size of `aLine` and of `aLineWithoutIps`. -/
def LINE_SIZE : Nat := 512

/-- `str_append` to a buffer, the byte at `dst_size - 1` is always written. -/
def append (dst src : CString) (dst_size : Nat) : Exec CString :=
  if dst_size ≤ LINE_SIZE then .ok (str_append dst src dst_size) else .error .outOfBounds

/-- The text behind each pair of markers, with what the pair encloses in front. -/
abbrev Pieces := List (CString × CString)

def marked (front : CString) (pieces : Pieces) : CString :=
  front ++ pieces.flatMap fun piece => startMarker ++ piece.1 ++ endMarker ++ piece.2

/-- The line without the characters of the markers. -/
def unmarked (front : CString) (pieces : Pieces) : CString :=
  front ++ pieces.flatMap fun piece => piece.1 ++ piece.2

/-- The line without markers, cut to the buffer if it was spliced together there. -/
def shown (front : CString) (pieces : Pieces) : CString :=
  if pieces = [] then front else str_copy (unmarked front pieces) LINE_SIZE

/-- Behind each start of a pair there is no end. -/
def NoPair (s : CString) : Prop := ∀ a b, s = a ++ startMarker ++ b → ¬endMarker <:+: b

/-- The texts outside of the pairs have no pair. -/
def Outside : CString → List CString → Prop
  | s, [] => NoPair s
  | s, behind :: others => ¬startMarker <:+: s ∧ Outside behind others

theorem take_behind {pre : CString} (h : 511 ≤ pre.length) (s s' : CString) :
    (pre ++ s).take 511 = (pre ++ s').take 511 := by
  rw [List.take_append_of_le_length h, List.take_append_of_le_length h]

/-! ## What is hidden -/

/-- The second pair lies behind what is visible, in the line with the first enclosed text and in
the one with `XXX`. -/
structure Behind (front enclosed behind : CString) : Prop where
  shown : 511 ≤ front.length + enclosed.length + behind.length
  hidden : 506 ≤ front.length + behind.length

/-- The same text in all of the pairs behind the first one. -/
def filled (c : UInt8) (others : List CString) : Pieces := others.map fun behind => ([c], behind)

end Fex.Engine.Server.LogLine
