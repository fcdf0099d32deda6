import Fex.Engine.Console
import Fex.Lib.Segments

/-!
# The list of commands

Model of `AddCommandSorted`, `Register` and the functions for temporary commands.  A pointer to a
command is an address, and `memory` has the commands that are alive.  Callbacks are not modelled.
-/

namespace Fex.Engine.Console.Commands

open Fex.Lib Fex.Base Server

def CFGFLAG_CHAT : Nat := 1 <<< 7

def TEMPCMD_NAME_LENGTH : Nat := 64
def TEMPCMD_HELP_LENGTH : Nat := 192
def TEMPCMD_PARAMS_LENGTH : Nat := 96

/-- `allocated` is the first address that was never used, `m_TempCommands` the commands on the
heap. -/
structure CConsole where
  memory : Nat → Option (Node Nat CCommand)
  allocated : Nat
  m_pFirstCommand : Option Nat
  m_pRecycleList : Option Nat
  m_TempCommands : List Nat

namespace CConsole

def empty : CConsole :=
  { memory := fun _ => none, allocated := 0, m_pFirstCommand := none, m_pRecycleList := none
    m_TempCommands := [] }

/-- The command at an address. -/
def deref (c : CConsole) (p : Nat) : Exec (Node Nat CCommand) :=
  match c.memory p with
  | some n => .ok n
  | none => .error .outOfBounds

def write (c : CConsole) (p : Nat) (n : Node Nat CCommand) : CConsole :=
  { c with memory := Function.update c.memory p (some n) }

/-- `p->m_pNext = q` -/
def setNext (c : CConsole) (p : Nat) (q : Option Nat) : Exec CConsole := do
  let n ← c.deref p
  return c.write p { n with next := q }

/-- A new command, which is not initialized. -/
def allocate (c : CConsole) (command : CCommand) : CConsole × Nat :=
  ({ c.write c.allocated { data := command, next := none } with allocated := c.allocated + 1 },
    c.allocated)

/-! ## Registration -/

/-- The loop of `FindCommand`. -/
def findLoop (c : CConsole) (pName : CString) (FlagMask : Nat) : Nat → Option Nat →
    Exec (Option Nat)
  | _, none => .ok none
  | 0, some _ => .error .diverges
  | fuel + 1, some p => do
      let n ← c.deref p
      if n.data.m_Flags &&& FlagMask ≠ 0 ∧ str_comp_nocase n.data.m_pName pName = 0 then
        return some p
      else findLoop c pName FlagMask fuel n.next

def FindCommand (c : CConsole) (pName : CString) (FlagMask : Nat) : Exec (Option Nat) :=
  c.findLoop pName FlagMask c.allocated c.m_pFirstCommand

/-- The loop of `AddCommandSorted`. -/
def insertLoop (c : CConsole) (pCommand : Nat) (pName : CString) : Nat → Nat → Exec CConsole
  | 0, _ => .error .diverges
  | fuel + 1, p => do
      let n ← c.deref p
      match n.next with
      | none => (← c.setNext pCommand n.next).setNext p (some pCommand)
      | some pNext => do
          if str_comp pName (← c.deref pNext).data.m_pName ≤ 0 then
            (← c.setNext pCommand n.next).setNext p (some pCommand)
          else insertLoop c pCommand pName fuel pNext

def AddCommandSorted (c : CConsole) (pCommand : Nat) : Exec CConsole := do
  let pName := (← c.deref pCommand).data.m_pName
  match c.m_pFirstCommand with
  | none => return { ← c.setNext pCommand none with m_pFirstCommand := some pCommand }
  | some pFirst => do
      let n ← c.deref pFirst
      if str_comp pName n.data.m_pName ≤ 0 then
        let c ← c.setNext pCommand (if n.next.isSome then some pFirst else none)
        return { c with m_pFirstCommand := some pCommand }
      else c.insertLoop pCommand pName c.allocated pFirst

/-- The fields of a permanent command. -/
def permanent (pName pParams : CString) (Flags : Nat) (pHelp : CString) (AccessLevel : Int) :
    CCommand :=
  { m_pName := pName, m_pHelp := pHelp, m_pParams := pParams, m_Flags := Flags, m_Temp := false
    m_AccessLevel := AccessLevel }

def Register (c : CConsole) (pName pParams : CString) (Flags : Nat) (pHelp : CString) :
    Exec CConsole := do
  let found ← c.FindCommand pName Flags
  let (c, pCommand) :=
    match found with
    | some pCommand => (c, pCommand)
    | none => c.allocate (permanent [] [] 0 [] ACCESS_LEVEL_ADMIN)
  let n ← c.deref pCommand
  let c := c.write pCommand
    { n with data := permanent pName pParams Flags pHelp n.data.m_AccessLevel }
  let c ← if found.isNone then c.AddCommandSorted pCommand else pure c
  let n ← c.deref pCommand
  if n.data.m_Flags &&& CFGFLAG_CHAT ≠ 0 then
    return c.write pCommand { n with data := n.data.SetAccessLevel ACCESS_LEVEL_USER }
  else return c

/-! ## Temporary commands -/

/-- The fields of a temporary command; the strings are copied into buffers. -/
def temporary (pName pParams : CString) (Flags : Nat) (pHelp : CString) (AccessLevel : Int) :
    CCommand :=
  { m_pName := str_copy pName TEMPCMD_NAME_LENGTH
    m_pHelp := str_copy pHelp TEMPCMD_HELP_LENGTH
    m_pParams := str_copy pParams TEMPCMD_PARAMS_LENGTH
    m_Flags := Flags
    m_Temp := true
    m_AccessLevel := AccessLevel }

def RegisterTemp (c : CConsole) (pName pParams : CString) (Flags : Nat) (pHelp : CString) :
    Exec CConsole := do
  match c.m_pRecycleList with
  | some pCommand => do
      let n ← c.deref pCommand
      let c := c.write pCommand
        { n with data := temporary pName pParams Flags pHelp n.data.m_AccessLevel }
      { c with m_pRecycleList := n.next }.AddCommandSorted pCommand
  | none => do
      let (c, pCommand) := c.allocate (temporary pName pParams Flags pHelp ACCESS_LEVEL_ADMIN)
      { c with m_TempCommands := pCommand :: c.m_TempCommands }.AddCommandSorted pCommand

/-- The loop of `DeregisterTemp`; the command that is taken out, if any. -/
def removeLoop (c : CConsole) (pName : CString) : Nat → Nat → Exec (CConsole × Option Nat)
  | 0, _ => .error .diverges
  | fuel + 1, pCommand => do
      let n ← c.deref pCommand
      match n.next with
      | none => return (c, none)
      | some pNext => do
          let next ← c.deref pNext
          if next.data.m_Temp ∧ str_comp next.data.m_pName pName = 0 then
            return (← c.setNext pCommand next.next, some pNext)
          else removeLoop c pName fuel pNext

def DeregisterTemp (c : CConsole) (pName : CString) : Exec CConsole := do
  match c.m_pFirstCommand with
  | none => return c
  | some pFirst => do
      let n ← c.deref pFirst
      let (c, pRemoved) ←
        if n.data.m_Temp ∧ str_comp n.data.m_pName pName = 0 then
          pure ({ c with m_pFirstCommand := n.next }, some pFirst)
        else c.removeLoop pName c.allocated pFirst
      -- add to recycle list
      match pRemoved with
      | none => return c
      | some pRemoved => do
          let c ← c.setNext pRemoved c.m_pRecycleList
          return { c with m_pRecycleList := some pRemoved }

/-- The first command from `p` on that is not temporary. -/
def skipTemp (c : CConsole) : Nat → Option Nat → Exec (Option Nat)
  | _, none => .ok none
  | 0, some _ => .error .diverges
  | fuel + 1, some p => do
      let n ← c.deref p
      if n.data.m_Temp then skipTemp c fuel n.next else return some p

/-- The second loop of `DeregisterTempAll`. -/
def relinkLoop (c : CConsole) : Nat → Option Nat → Exec CConsole
  | _, none => .ok c
  | 0, some _ => .error .diverges
  | fuel + 1, some pCommand => do
      let n ← c.deref pCommand
      match n.next with
      | none => return c
      | some pNext => do
          if (← c.deref pNext).data.m_Temp then
            let pNext ← c.skipTemp c.allocated (some pNext)
            relinkLoop (← c.setNext pCommand pNext) fuel pNext
          else relinkLoop c fuel (some pNext)

/-- `m_TempCommands.Reset()`: the commands on the heap are not alive any more. -/
def resetHeap (c : CConsole) : CConsole :=
  { c with
    memory := fun p => if p ∈ c.m_TempCommands then none else c.memory p
    m_TempCommands := [] }

def DeregisterTempAll (c : CConsole) : Exec CConsole := do
  let pFirst ← c.skipTemp c.allocated c.m_pFirstCommand
  let c := { c with m_pFirstCommand := pFirst }
  let c ← c.relinkLoop c.allocated c.m_pFirstCommand
  return { c.resetHeap with m_pRecycleList := none }

/-! ## Runs -/

inductive Event
  | Register (pName pParams : CString) (Flags : Nat) (pHelp : CString)
  | RegisterTemp (pName pParams : CString) (Flags : Nat) (pHelp : CString)
  | DeregisterTemp (pName : CString)
  | DeregisterTempAll

def step (c : CConsole) : Event → Exec CConsole
  | .Register pName pParams Flags pHelp => c.Register pName pParams Flags pHelp
  | .RegisterTemp pName pParams Flags pHelp => c.RegisterTemp pName pParams Flags pHelp
  | .DeregisterTemp pName => c.DeregisterTemp pName
  | .DeregisterTempAll => c.DeregisterTempAll

end CConsole

end Fex.Engine.Console.Commands
