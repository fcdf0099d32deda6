import Fex.Base.Strings
import Fex.Engine.Server

/-!
# Executing a line

Model of `CConsole::ExecuteLine` with `InterpretSemicolons`.  A line is cut into
parts, a part into a command and its arguments, and the calls are listed in the
order in which they are made.  Messages, the historian and the victims of the
parameter `v` are not modelled, and no callback changes the console.
-/

namespace Fex.Engine.Console

open Fex.Lib Fex.Base Server

def CFGFLAG_STORE : Nat := 1 <<< 3
def CMDFLAG_TEST : Nat := 1 <<< 6
def CFGFLAG_GAME : Nat := 1 <<< 8

def CLIENT_ID_GAME : Int := -2
def CLIENT_ID_NO_GAME : Int := -3

def CONSOLE_MAX_STR_LENGTH : Nat := 8192

/-! ## Parts of a line -/

/-- The part of a line up to a separator or a comment and what comes after the separator. -/
def partEnd : Bool → CString → CString × Option CString
  | _, [] => ([], none)
  | InString, 34 :: l =>
      let r := partEnd (!InString) l
      (34 :: r.1, r.2)
  | InString, 92 :: 34 :: l =>
      -- escape sequences
      let r := partEnd InString l
      (92 :: 34 :: r.1, r.2)
  | InString, c :: l =>
      if InString = false ∧ c = 59 then ([], some l)
      else if InString = false ∧ c = 35 then ([], none)
      else
        let r := partEnd InString l
        (c :: r.1, r.2)

/-- The command and its arguments. -/
def ParseStart (pString : CString) (Length : Nat) : CString × CString :=
  let pStr := str_skip_whitespaces (str_copy pString (min (CONSOLE_MAX_STR_LENGTH + 1) Length))
  let (m_pCommand, rest) := str_skip_to_whitespace pStr
  (m_pCommand, rest.drop 1)

theorem length_partEnd (InString : Bool) (l : CString) :
    ∀ next, (partEnd InString l).2 = some next → next.length < l.length := by
  induction InString, l using partEnd.induct with
  | case1 => exact fun next h => by cases h
  | case2 InString l ih =>
      intro next h
      exact Nat.lt_succ_of_lt (ih next h)
  | case3 InString l ih =>
      intro next h
      exact Nat.lt_succ_of_lt (Nat.lt_succ_of_lt (ih next h))
  | case4 InString c l h₁ h₂ hsep =>
      intro next h
      rw [partEnd, if_pos hsep] at h
      · cases h
        exact Nat.lt_succ_self _
      · exact h₁
      · exact h₂
  | case5 InString c l h₁ h₂ hsep hcomment =>
      intro next h
      rw [partEnd, if_neg hsep, if_pos hcomment] at h
      · cases h
      · exact h₁
      · exact h₂
  | case6 InString c l h₁ h₂ hsep hcomment ih =>
      intro next h
      rw [partEnd, if_neg hsep, if_neg hcomment] at h
      · exact Nat.lt_succ_of_lt (ih next h)
      · exact h₁
      · exact h₂

/-- The commands of a line and their arguments, up to an empty command. -/
def parts (pStr : CString) : List (CString × CString) :=
  if pStr = [] then []
  else
    let part := ParseStart pStr ((partEnd false pStr).1.length + 1)
    if part.1 = [] then []
    else
      match _h : (partEnd false pStr).2 with
      | none => [part]
      | some pNextPart => part :: parts pNextPart
termination_by pStr.length
decreasing_by exact length_partEnd false pStr pNextPart _h

/-- The parts after the prefix `mc;`. -/
def lineParts : CString → List (CString × CString)
  | 109 :: 99 :: 59 :: pStr => parts pStr
  | pStr => parts pStr

/-! ## Arguments -/

inductive ParseError
  | MISSING_VALUE
  | INVALID_INTEGER
  | INVALID_FLOAT

/-- Places in a format: at a parameter, behind one, in the brackets with its name. -/
inductive FormatPlace
  | parameter
  | behind
  | bracket

/-- The parameters that `NextParam` goes through. -/
def formatParams : FormatPlace → CString → CString
  | _, [] => []
  | .parameter, c :: pFormat => c :: formatParams .behind pFormat
  | .behind, c :: pFormat =>
      if c = 91 then formatParams .bracket pFormat else c :: formatParams .behind pFormat
  | .bracket, 93 :: 32 :: pFormat => formatParams .parameter pFormat
  | .bracket, c :: pFormat =>
      if c = 93 then formatParams .parameter pFormat else formatParams .bracket pFormat

/-- The argument after a quote and the rest after the next one. -/
def unquote : CString → Option (CString × CString)
  | [] => none
  | 34 :: l => some ([], l)
  | 92 :: 92 :: l => (unquote l).map fun r => (92 :: r.1, r.2)
  | 92 :: 34 :: l => (unquote l).map fun r => (34 :: r.1, r.2)
  | c :: l => (unquote l).map fun r => (c :: r.1, r.2)

def validInteger (arg : CString) : Bool :=
  match str_toint arg with
  | none => false
  | some Value => Value ≠ 2147483647 ∧ Value ≠ -2147483648

/-- The loop of `ParseArgs` over the parameters of a format; `validFloat` says whether
`str_tofloat` reads a string as a number that `ParseArgs` accepts. -/
def ParseArgs (validFloat : CString → Bool) (IsColor : Bool) :
    CString → Bool → CString → Except ParseError (List CString)
  | [], _, _ => .ok []
  | Command :: pFormat, Optional, pStr =>
      if Command = 63 then ParseArgs validFloat IsColor pFormat true pStr
      else
        match str_skip_whitespaces pStr with
        | [] => if Optional then .ok [] else .error .MISSING_VALUE
        | 34 :: pStr =>
            match unquote pStr with
            | none => .error .MISSING_VALUE
            | some (arg, pStr) => do
                let args ← ParseArgs validFloat IsColor pFormat Optional pStr
                return arg :: args
        | pStr =>
            -- rest of the string
            if Command = 114 then .ok [pStr]
            else
              let (arg, pStr) :=
                if Command = 118 ∨ Command = 105 ∨ Command = 102 ∨ Command = 115 then
                  str_skip_to_whitespace pStr
                else ([], pStr)
              if Command = 105 ∧ IsColor = false ∧ ¬ validInteger arg then .error .INVALID_INTEGER
              else if Command = 102 ∧ ¬ validFloat arg then .error .INVALID_FLOAT
              else do
                let args ← ParseArgs validFloat IsColor pFormat Optional (pStr.drop 1)
                return arg :: args

/-! ## Commands -/

/-- What the console looks at besides its commands. -/
structure CConsole extends Server.CConsole where
  m_FlagMask : Nat
  m_AccessLevel : Int
  m_StoreCommands : Bool
  m_SvTestingCommands : Bool
  /-- The callback is that of a color variable. -/
  IsColor : CCommand → Bool
  validFloat : CString → Bool

/-- A command of the console and the arguments its callback gets. -/
abbrev Call := Nat × List CString

namespace CConsole

def flagMask (c : CConsole) (ClientId : Int) : Nat :=
  if ClientId = CLIENT_ID_GAME then c.m_FlagMask ||| CFGFLAG_GAME else c.m_FlagMask

/-- A client may use the command here. -/
def Allows (c : CConsole) (ClientId : Int) (pCommand : CCommand) : Prop :=
  ¬ (ClientId = CLIENT_ID_GAME ∧ pCommand.m_Flags &&& CFGFLAG_GAME = 0) ∧
    ¬ (ClientId = CLIENT_ID_NO_GAME ∧ pCommand.m_Flags &&& CFGFLAG_GAME ≠ 0) ∧
    pCommand.m_AccessLevel ≥ c.m_AccessLevel

instance (c : CConsole) (ClientId : Int) (pCommand : CCommand) :
    Decidable (c.Allows ClientId pCommand) := inferInstanceAs (Decidable (_ ∧ _))

/-- `m_apStrokeStr` -/
def strokeStr (Stroke : Bool) : CString := if Stroke then [49] else [48]

/-- One part of a line, `none` ends the execution. -/
def ExecutePart (c : CConsole) (Stroke : Bool) (ClientId : Int) (m_pCommand m_pArgsStart : CString) :
    Option (List Call) :=
  match c.FindCommand m_pCommand (c.flagMask ClientId) with
  | none => some []
  | some i =>
      match c.commands[i]? with
      | none => some []
      | some pCommand =>
          if ¬ c.Allows ClientId pCommand then some []
          else
            -- insert the stroke direction token
            let stroke := if m_pCommand.head? = some 43 then [strokeStr Stroke] else []
            if Stroke = false ∧ stroke = [] then some []
            else
              match ParseArgs c.validFloat (c.IsColor pCommand)
                (formatParams .parameter pCommand.m_pParams) false m_pArgsStart with
              | .error _ => some []
              | .ok args =>
                  if c.m_StoreCommands ∧ pCommand.m_Flags &&& CFGFLAG_STORE ≠ 0 then some []
                  else if pCommand.m_Flags &&& CMDFLAG_TEST ≠ 0 ∧ c.m_SvTestingCommands = false then
                    none
                  else some [(i, stroke ++ args)]

def executeParts (c : CConsole) (Stroke : Bool) (ClientId : Int) :
    List (CString × CString) → List Call
  | [] => []
  | part :: rest =>
      match c.ExecutePart Stroke ClientId part.1 part.2 with
      | none => []
      | some calls => calls ++ c.executeParts Stroke ClientId rest

def ExecuteLineStroked (c : CConsole) (Stroke : Bool) (pStr : CString) (ClientId : Int) :
    List Call :=
  c.executeParts Stroke ClientId (lineParts pStr)

def ExecuteLine (c : CConsole) (pStr : CString) (ClientId : Int) : List Call :=
  -- press it
  c.ExecuteLineStroked true pStr ClientId ++
    -- then release it
    c.ExecuteLineStroked false pStr ClientId

end CConsole

/-! ## Quoting -/

/-- The room is that before the NUL. -/
def str_escape : Nat → CString → CString
  | _, [] => []
  | room, c :: src =>
      if room = 0 then []
      -- escape \ and "
      else if c = 34 ∨ c = 92 then
        if room ≥ 2 then 92 :: c :: str_escape (room - 2) src else []
      else c :: str_escape (room - 1) src

end Fex.Engine.Console
