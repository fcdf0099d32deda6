import Fex.Base.Confusables
import Fex.Base.Offsets

/-!
# Line input

Model of `CLineInput`: the edit operations on its buffer and the keys of
`ProcessInput` that move the cursor or delete.  The buffer is memory of
`m_MaxSize` bytes; an access outside of it is a fault, and so is an assertion
that fails.
-/

namespace Fex.Client

open Fex.Lib Fex.Base

structure CLineInput where
  m_pStr : List UInt8
  m_MaxSize : Nat
  m_MaxChars : Nat
  m_Len : Nat := 0
  m_NumChars : Nat := 0
  m_CursorPos : Nat := 0
  m_SelectionStart : Nat := 0
  m_SelectionEnd : Nat := 0
  m_LastCompositionCursorPos : Nat := 0
  m_WasChanged : Bool := false
  m_WasCursorChanged : Bool := false
  deriving DecidableEq

namespace CLineInput

/-! ## Cursor and selection -/

def SetCursorOffset (L : CLineInput) (Offset : Nat) : CLineInput :=
  { L with
    m_SelectionStart := min Offset L.m_Len
    m_SelectionEnd := min Offset L.m_Len
    m_LastCompositionCursorPos := min Offset L.m_Len
    m_CursorPos := min Offset L.m_Len
    m_WasCursorChanged := true }

def SetSelection (L : CLineInput) (Start End : Nat) : Exec CLineInput :=
  if ¬ (L.m_CursorPos = Start ∨ L.m_CursorPos = End) then .error .assertion
  else
    let (Start, End) := if Start > End then (End, Start) else (Start, End)
    .ok { L with
      m_SelectionStart := min Start L.m_Len
      m_SelectionEnd := min End L.m_Len
      m_WasCursorChanged := true }

/-- The difference of two `size_t` is zero for the same ends only. -/
def GetSelectionLength (L : CLineInput) : Int := L.m_SelectionEnd - L.m_SelectionStart

/-- What follows the measuring in `UpdateStrData`. -/
def clampPositions (L : CLineInput) : Exec CLineInput :=
  let L := if ¬ L.m_CursorPos ≤ L.m_Len then L.SetCursorOffset L.m_CursorPos else L
  if ¬ L.m_SelectionStart ≤ L.m_Len ∨ ¬ L.m_SelectionEnd ≤ L.m_Len then
    L.SetSelection L.m_SelectionStart L.m_SelectionEnd
  else .ok L

def UpdateStrData (L : CLineInput) : Exec CLineInput := do
  let (m_Len, m_NumChars) ← str_utf8_stats L.m_pStr 0 L.m_MaxSize L.m_MaxChars
  clampPositions { L with m_Len, m_NumChars }

/-! ## Edit operations -/

/-- `SetBuffer` of a line input that had none. -/
def SetBuffer (pStr : List UInt8) (MaxSize MaxChars : Nat) : Exec CLineInput :=
  UpdateStrData { m_pStr := pStr, m_MaxSize := MaxSize, m_MaxChars := MaxChars }

def Clear (L : CLineInput) : Exec CLineInput :=
  UpdateStrData { L with m_pStr := List.replicate L.m_MaxSize 0 }

/-- How many bytes `strncat` of `str_copy` takes at most: `dst_size` is an `int`, the number a
`size_t`. -/
def copySize (MaxSize : Nat) : Nat := ((wrap32 MaxSize - 1) % 18446744073709551616).toNat

/-- `str_copy` into a buffer, of so many bytes at most: what the repair cuts stays behind the new
NUL. -/
def str_copy_to (mem src : List UInt8) (num : Nat) : Exec (List UInt8) := do
  let copied := src.take num
  let mem ← mem_copy mem 0 (copied ++ [0])
  if (str_utf8_fix_truncation copied).length < copied.length then
    store mem (str_utf8_fix_truncation copied).length 0
  else return mem

def Set (L : CLineInput) (pString : List UInt8) : Exec CLineInput := do
  let m_pStr ← str_copy_to L.m_pStr pString (copySize L.m_MaxSize)
  let L ← UpdateStrData { L with m_pStr }
  return L.SetCursorOffset L.m_Len

/-- `mem_copy` of the first bytes of a string. -/
def copyBytes (m_pStr : List UInt8) (p : Nat) (pString : List UInt8) (size : Nat) :
    Exec (List UInt8) := do
  let bytes ← loadBlock (pString ++ [0]) 0 size
  mem_copy m_pStr p bytes

def copySome (m_pStr : List UInt8) (p : Nat) (pString : List UInt8) (size : Nat) :
    Exec (List UInt8) :=
  if size ≠ 0 then copyBytes m_pStr p pString size else .ok m_pStr

/-- The tail is moved, behind what is left of a text that gets shorter. -/
def moveTail (m_pStr pString : List UInt8) (m_Len Begin End RemovedCharSize AddedCharSize : Nat) :
    Exec (List UInt8) :=
  if AddedCharSize < RemovedCharSize then do
    let m_pStr ← copySome m_pStr Begin pString AddedCharSize
    mem_move m_pStr (Begin + AddedCharSize) (Begin + RemovedCharSize) (m_Len - Begin - AddedCharSize)
  else if AddedCharSize > RemovedCharSize then
    mem_move m_pStr (End + AddedCharSize - RemovedCharSize) End (m_Len - End)
  else .ok m_pStr

/-- How `SetRange` changes the buffer. -/
def replaceBytes (m_pStr pString : List UInt8) (m_Len Begin End RemovedCharSize AddedCharSize : Nat) :
    Exec (List UInt8) := do
  let m_pStr ← moveTail m_pStr pString m_Len Begin End RemovedCharSize AddedCharSize
  if AddedCharSize ≥ RemovedCharSize then copyBytes m_pStr Begin pString AddedCharSize
  else return m_pStr

/-- `SetRange` once the bytes and characters are measured that are removed and added. -/
def replaceMeasured (L : CLineInput) (pString : List UInt8) (Begin End : Nat)
    (Removed Added : Nat × Nat) : Exec CLineInput :=
  if Removed.1 ≠ 0 ∨ Added.1 ≠ 0 then do
    let m_pStr ← replaceBytes L.m_pStr pString L.m_Len Begin End Removed.1 Added.1
    let m_pStr ← store m_pStr (L.m_Len + Added.1 - Removed.1) 0
    return { L with
      m_pStr
      m_CursorPos := End - Removed.1 + Added.1
      m_Len := L.m_Len + Added.1 - Removed.1
      m_NumChars := L.m_NumChars + Added.2 - Removed.2
      m_WasChanged := true
      m_WasCursorChanged := true
      m_SelectionStart := End - Removed.1 + Added.1
      m_SelectionEnd := End - Removed.1 + Added.1 }
  else .ok L

/-- `SetRange` with the range in order. -/
def setClamped (L : CLineInput) (pString : List UInt8) (Begin End : Nat) : Exec CLineInput := do
  let Removed ← str_utf8_stats L.m_pStr Begin (End - Begin + 1) L.m_MaxChars
  let Added ←
    str_utf8_stats (pString ++ [0]) 0 (L.m_MaxSize - L.m_Len + Removed.1)
      (L.m_MaxChars - L.m_NumChars + Removed.2)
  L.replaceMeasured pString Begin End Removed Added

def SetRange (L : CLineInput) (pString : List UInt8) (Begin End : Nat) : Exec CLineInput :=
  let (Begin, End) := if Begin > End then (End, Begin) else (Begin, End)
  L.setClamped pString (min Begin L.m_Len) (min End L.m_Len)

def Insert (L : CLineInput) (pString : List UInt8) (Begin : Nat) : Exec CLineInput :=
  L.SetRange pString Begin Begin

def Append (L : CLineInput) (pString : List UInt8) : Exec CLineInput := L.Insert pString L.m_Len

/-! ## Keys -/

inductive EMoveDirection
  | FORWARD
  | REWIND
  deriving DecidableEq

/-- The conversion of an `int` to `size_t`. -/
def toSize (x : Int) : Nat := (x % 18446744073709551616).toNat

/-- The position behind the character to the right or before the one to the left. -/
def moveCharacter (Direction : EMoveDirection) (pStr : List UInt8) (CursorPos : Nat) : Exec Nat := do
  let cursor ←
    match Direction with
    | .FORWARD => str_utf8_forward_at pStr (wrap32 CursorPos)
    | .REWIND => str_utf8_rewind_at pStr (wrap32 CursorPos)
  return toSize cursor

def peekCursorPos (Direction : EMoveDirection) (pStr : List UInt8) (CursorPos : Nat) : Exec Nat :=
  match Direction with
  | .FORWARD => .ok CursorPos
  | .REWIND => moveCharacter .REWIND pStr CursorPos

/-- The loop of `MoveCursor`. -/
def moveLoop (Direction : EMoveDirection) (MoveWord : Bool) (pStr : List UInt8) (MaxSize : Nat) :
    Nat → Bool → Bool → Nat → Exec Nat
  | 0, _, _, _ => .error .diverges
  | fuel + 1, AnySpace, AnyWord, CursorPos => do
      let CursorPos ← moveCharacter Direction pStr CursorPos
      if ¬ MoveWord ∨ CursorPos ≤ 0 ∨ CursorPos ≥ MaxSize then return CursorPos
      else
        let PeekCursorPos ← peekCursorPos Direction pStr CursorPos
        let (code, _) ← str_utf8_decode_at pStr PeekCursorPos
        let CurrentSpace := str_utf8_isspace code
        let CurrentWord := ! CurrentSpace
        if Direction = .FORWARD ∧ AnySpace ∧ ¬ CurrentSpace then return CursorPos
        else if Direction = .REWIND ∧ AnyWord ∧ ¬ CurrentWord then return CursorPos
        else
          moveLoop Direction MoveWord pStr MaxSize fuel (AnySpace || CurrentSpace)
            (AnyWord || CurrentWord) CursorPos

/-- The new `*pCursorPos`. -/
def MoveCursor (Direction : EMoveDirection) (MoveWord : Bool) (pStr : List UInt8) (MaxSize : Nat)
    (CursorPos : Nat) : Exec Nat := do
  let PeekCursorPos ← peekCursorPos Direction pStr CursorPos
  let (code, _) ← str_utf8_decode_at pStr PeekCursorPos
  let AnySpace := str_utf8_isspace code
  moveLoop Direction MoveWord pStr MaxSize (MaxSize + 1) AnySpace (! AnySpace) CursorPos

/-- The keys that move the cursor or delete. -/
inductive Key
  | KEY_BACKSPACE
  | KEY_DELETE
  | KEY_LEFT
  | KEY_RIGHT
  | KEY_HOME
  | KEY_END
  deriving DecidableEq

/-- The state of the keyboard that `Input()` reports. -/
structure Modifiers where
  ShiftIsPressed : Bool
  ModifierIsPressed : Bool
  AltIsPressed : Bool

def Modifiers.MoveWord (m : Modifiers) : Bool := m.ModifierIsPressed && ! m.AltIsPressed

/-- `m_SelectionStart = m_SelectionEnd = m_CursorPos` -/
def selectNothing (L : CLineInput) : CLineInput :=
  { L with m_SelectionStart := L.m_CursorPos, m_SelectionEnd := L.m_CursorPos }

/-- What `KEY_BACKSPACE` does without a selection, where the source's second test of its length does
nothing. -/
def deleteBefore (L : CLineInput) (MoveWord : Bool) : Exec CLineInput :=
  if L.m_CursorPos > 0 then do
    let NewCursorPos ← MoveCursor .REWIND MoveWord L.m_pStr L.m_Len L.m_CursorPos
    L.SetRange [] NewCursorPos L.m_CursorPos
  else .ok L

def keyBackspace (L : CLineInput) (MoveWord : Bool) : Exec CLineInput :=
  if L.GetSelectionLength ≠ 0 then L.SetRange [] L.m_SelectionStart L.m_SelectionEnd
  else do
    let L ← L.deleteBefore MoveWord
    return L.selectNothing

/-- What `KEY_DELETE` does without a selection. -/
def deleteAfter (L : CLineInput) (MoveWord : Bool) : Exec CLineInput :=
  if L.m_CursorPos < L.m_Len then do
    let EndCursorPos ← MoveCursor .FORWARD MoveWord L.m_pStr L.m_Len L.m_CursorPos
    L.SetRange [] L.m_CursorPos EndCursorPos
  else .ok L

def keyDelete (L : CLineInput) (MoveWord : Bool) : Exec CLineInput :=
  if L.GetSelectionLength ≠ 0 then L.SetRange [] L.m_SelectionStart L.m_SelectionEnd
  else do
    let L ← L.deleteAfter MoveWord
    return L.selectNothing

/-- The end of the selection where the cursor was follows it, `m_SelectionStart` first. -/
def expandStart (L : CLineInput) (OldCursorPos : Nat) : CLineInput :=
  if L.m_SelectionStart = OldCursorPos then { L with m_SelectionStart := L.m_CursorPos }
  else if L.m_SelectionEnd = OldCursorPos then { L with m_SelectionEnd := L.m_CursorPos }
  else L

/-- The end of the selection where the cursor was follows it, `m_SelectionEnd` first. -/
def expandEnd (L : CLineInput) (OldCursorPos : Nat) : CLineInput :=
  if L.m_SelectionEnd = OldCursorPos then { L with m_SelectionEnd := L.m_CursorPos }
  else if L.m_SelectionStart = OldCursorPos then { L with m_SelectionStart := L.m_CursorPos }
  else L

def moveLeft (L : CLineInput) (Selecting MoveWord : Bool) : Exec CLineInput :=
  if L.GetSelectionLength ≠ 0 ∧ ¬ Selecting then .ok { L with m_CursorPos := L.m_SelectionStart }
  else if L.m_CursorPos > 0 then do
    let m_CursorPos ← MoveCursor .REWIND MoveWord L.m_pStr L.m_Len L.m_CursorPos
    return if Selecting then expandStart { L with m_CursorPos } L.m_CursorPos
      else { L with m_CursorPos }
  else .ok L

def keyLeft (L : CLineInput) (Selecting MoveWord : Bool) : Exec CLineInput := do
  let L ← L.moveLeft Selecting MoveWord
  return if ¬ Selecting then L.selectNothing else L

def moveRight (L : CLineInput) (Selecting MoveWord : Bool) : Exec CLineInput :=
  if L.GetSelectionLength ≠ 0 ∧ ¬ Selecting then .ok { L with m_CursorPos := L.m_SelectionEnd }
  else if L.m_CursorPos < L.m_Len then do
    let m_CursorPos ← MoveCursor .FORWARD MoveWord L.m_pStr L.m_Len L.m_CursorPos
    return if Selecting then expandEnd { L with m_CursorPos } L.m_CursorPos
      else { L with m_CursorPos }
  else .ok L

def keyRight (L : CLineInput) (Selecting MoveWord : Bool) : Exec CLineInput := do
  let L ← L.moveRight Selecting MoveWord
  return if ¬ Selecting then L.selectNothing else L

def keyHome (L : CLineInput) (Selecting : Bool) : CLineInput :=
  let L :=
    if Selecting then
      if L.GetSelectionLength ≠ 0 ∧ L.m_CursorPos = L.m_SelectionEnd then
        { L with m_SelectionEnd := L.m_SelectionStart }
      else L
    else { L with m_SelectionEnd := 0 }
  { L with m_CursorPos := 0, m_SelectionStart := 0 }

def keyEnd (L : CLineInput) (Selecting : Bool) : CLineInput :=
  let L :=
    if Selecting then
      if L.GetSelectionLength ≠ 0 ∧ L.m_CursorPos = L.m_SelectionStart then
        { L with m_SelectionStart := L.m_SelectionEnd }
      else L
    else { L with m_SelectionStart := L.m_Len }
  { L with m_CursorPos := L.m_Len, m_SelectionEnd := L.m_Len }

def keyPressed (L : CLineInput) (m : Modifiers) : Key → Exec CLineInput
  | .KEY_BACKSPACE => L.keyBackspace m.MoveWord
  | .KEY_DELETE => L.keyDelete m.MoveWord
  | .KEY_LEFT => L.keyLeft m.ShiftIsPressed m.MoveWord
  | .KEY_RIGHT => L.keyRight m.ShiftIsPressed m.MoveWord
  | .KEY_HOME => .ok (L.keyHome m.ShiftIsPressed)
  | .KEY_END => .ok (L.keyEnd m.ShiftIsPressed)

/-- `ProcessInput` for an event with `FLAG_PRESS` and one of the keys, which is always handled. -/
def ProcessInput (L : CLineInput) (m : Modifiers) (m_Key : Key) : Exec CLineInput := do
  let Old ← L.UpdateStrData
  let L ← Old.keyPressed m m_Key
  return { L with
    m_WasCursorChanged := L.m_WasCursorChanged || decide (Old.m_CursorPos ≠ L.m_CursorPos) ||
      decide (Old.GetSelectionLength ≠ L.GetSelectionLength) }

end CLineInput

end Fex.Client
