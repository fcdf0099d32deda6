import Fex.Base.Truncation
import Fex.Lib.Text

/-!
# Saved teams

Model of `CSaveTeam::GetString` and `FromString`.  A tee is the line of its own string, and the
result of its parser is a parameter.  The arrays have as many entries as the counts say; the first
entry of the switchers is not used and left out.
-/

namespace Fex.Game.SaveTeam

open Fex.Lib Fex.Base

structure SSimpleSwitchers where
  m_Status : Int
  m_EndTime : Int
  m_Type : Int
  deriving DecidableEq

structure CSaveTeam where
  m_pSavedTees : List (List UInt8)
  m_pSwitchers : List SSimpleSwitchers
  m_TeamState : Int
  m_TeamLocked : Int
  m_Practice : Int

def CSaveTeam.m_MembersCount (t : CSaveTeam) : Int := t.m_pSavedTees.length

def CSaveTeam.m_HighestSwitchNumber (t : CSaveTeam) : Int := t.m_pSwitchers.length

/-! ## Writing -/

/-- Numbers with tabs between them. -/
def formatInts (ints : List Int) : List UInt8 := join 9 (ints.map formatInt)

/-- `str_format`, with the text of the format. -/
def str_format (text : List UInt8) (buffer_size : Nat) : List UInt8 := Base.str_copy text buffer_size

def CSaveTeam.stats (t : CSaveTeam) : List UInt8 :=
  formatInts [t.m_TeamState, t.m_MembersCount, t.m_HighestSwitchNumber, t.m_TeamLocked, t.m_Practice]

def SSimpleSwitchers.line (s : SSimpleSwitchers) : List UInt8 :=
  formatInts [s.m_Status, s.m_EndTime, s.m_Type]

/-- A line behind the string. -/
def appendLine (m_aString line : List UInt8) (buffer_size : Nat) : List UInt8 :=
  str_append m_aString (str_format (10 :: line) buffer_size) 65536

def CSaveTeam.GetString (t : CSaveTeam) : List UInt8 :=
  let m_aString := str_format t.stats 65536
  let m_aString := t.m_pSavedTees.foldl (fun s tee => appendLine s tee 1024) m_aString
  t.m_pSwitchers.foldl (fun s switcher => appendLine s switcher.line 64) m_aString

/-! ## Reading -/

/-- The numbers that `sscanf` stores for `%d` with tabs between them. -/
def scanInts : Nat → List UInt8 → List Int
  | 0, _ => []
  | n + 1, s =>
      let (negative, s) := numberSign (s.dropWhile isspace)
      let digits := s.takeWhile isdigit
      if digits = [] then []
      else
        wrap32 (clampLong (if negative then -digitsValue digits else digitsValue digits)) ::
          scanInts n (s.dropWhile isdigit)

/-- What `sscanf` returns. -/
def scanResult (s : List UInt8) (ints : List Int) : Int :=
  if s.dropWhile isspace = [] then -1 else ints.length

structure Cursor where
  LastPos : Nat
  Pos : Nat

/-- A line of `StrSize - 1` bytes at `pCopyPos`. -/
structure Line where
  pCopyPos : List UInt8
  StrSize : Nat

/-- The next line, and the cursor behind its newline; it stays where it is at the last line. -/
def nextLine (m_aString : List UInt8) (c : Cursor) : Line × Cursor :=
  -- find next \n or \0
  let Pos := c.Pos + ((m_aString.drop c.Pos).takeWhile fun b => b ≠ 10).length
  let line : Line := { pCopyPos := m_aString.drop c.LastPos, StrSize := Pos - c.LastPos + 1 }
  if m_aString[Pos]? = some 10 then (line, { LastPos := Pos + 1, Pos := Pos + 1 })
  else (line, { LastPos := c.LastPos, Pos := Pos })

/-- `readTee` is the result of `CSaveTee::FromString`. -/
def readTees (readTee : List UInt8 → Int) (m_aString : List UInt8) :
    Nat → Cursor → Except Int (List (List UInt8) × Cursor)
  | 0, c => .ok ([], c)
  | n + 1, c =>
      let (line, c) := nextLine m_aString c
      if line.StrSize < 1024 then
        let aSaveTee := Base.str_copy line.pCopyPos line.StrSize
        if readTee aSaveTee ≠ 0 then .error 1
        else do
          let (tees, c) ← readTees readTee m_aString n c
          return (aSaveTee :: tees, c)
      else .error 1

/-- The numbers are stored in a new switcher. -/
def SSimpleSwitchers.store (s : SSimpleSwitchers) : List Int → SSimpleSwitchers
  | [] => s
  | [Status] => { s with m_Status := Status }
  | [Status, EndTime] => { s with m_Status := Status, m_EndTime := EndTime }
  | Status :: EndTime :: SwitchType :: _ =>
      { m_Status := Status, m_EndTime := EndTime, m_Type := SwitchType }

/-- The loop from the switcher `i` on; `fresh` is what the memory of the new switchers has. -/
def readSwitchers (fresh : Nat → SSimpleSwitchers) (m_aString : List UInt8) :
    (n i : Nat) → Cursor → Except Int (List SSimpleSwitchers)
  | 0, _, _ => .ok []
  | n + 1, i, c =>
      let (line, c) := nextLine m_aString c
      if line.StrSize < 64 then
        let aSwitcher := Base.str_copy line.pCopyPos line.StrSize
        do
          let switchers ← readSwitchers fresh m_aString n (i + 1) c
          return (fresh i).store (scanInts 3 aSwitcher) :: switchers
      else .error 1

/-- How `FromString` ends: it returns early with a code, it cannot allocate, or it returns 0 with
the team. -/
inductive Loaded
  | failed (code : Int)
  | badAlloc
  | team (t : CSaveTeam)

/-- The part behind the team statistics. -/
def readTeam (readTee : List UInt8 → Int) (fresh : Nat → SSimpleSwitchers) (m_aString : List UInt8)
    (c : Cursor) (TeamState MembersCount HighestSwitchNumber TeamLocked Practice : Int) : Loaded :=
  if MembersCount > 64 then .failed 1
  else if MembersCount < 0 then .badAlloc
  else
    match readTees readTee m_aString MembersCount.toNat c with
    | .error code => .failed code
    | .ok (tees, c) =>
        -- the size of the new array is an int, too
        if wrap32 (HighestSwitchNumber + 1) < 0 then .badAlloc
        else
          match readSwitchers fresh m_aString HighestSwitchNumber.toNat 1 c with
          | .error code => .failed code
          | .ok switchers =>
              .team { m_pSavedTees := tees, m_pSwitchers := switchers, m_TeamState := TeamState
                      m_TeamLocked := TeamLocked, m_Practice := Practice }

def FromString (readTee : List UInt8 → Int) (fresh : Nat → SSimpleSwitchers) (pString : List UInt8) :
    Loaded :=
  let m_aString := Base.str_copy pString 65536
  let (line, c) := nextLine m_aString { LastPos := 0, Pos := 0 }
  if line.StrSize < 128 then
    let aTeamStats := Base.str_copy line.pCopyPos line.StrSize
    match scanInts 5 aTeamStats with
    | [TeamState, MembersCount, HighestSwitchNumber, TeamLocked] =>
        readTeam readTee fresh m_aString c TeamState MembersCount HighestSwitchNumber TeamLocked 0
    | [TeamState, MembersCount, HighestSwitchNumber, TeamLocked, Practice] =>
        readTeam readTee fresh m_aString c TeamState MembersCount HighestSwitchNumber TeamLocked
          Practice
    | ints => .failed (scanResult aTeamStats ints + 1)
  else .failed 1

end Fex.Game.SaveTeam
