import Fex.Client.SavedBinds

/-!
# The bind wheel

The binds of the wheel are written and read back after any session of console commands and of
the menu.
-/

namespace Fex.Client.SavedBinds

open Fex.Base Fex.Engine Fex.Engine.Server Fex.Engine.Console Fex.Lib
open Fex.Client.QuickActions (Registered clientCommand CFGFLAG_CLIENT)

def BINDWHEEL_MAX_NAME : Nat := 64
def BINDWHEEL_MAX_CMD : Nat := 1024
def MAX_BINDS : Nat := 64

structure SBind where
  m_aName : CString
  m_aCommand : CString
  deriving DecidableEq

def SBind.new (pName pCommand : CString) : SBind where
  m_aName := str_copy pName BINDWHEEL_MAX_NAME
  m_aCommand := str_copy pCommand BINDWHEEL_MAX_CMD

/-- A bind that the file keeps. -/
def SBind.Kept (b : SBind) : Prop :=
  SavedBinds.Kept (CServer.ascii "add_bindwheel") b.m_aName b.m_aCommand

namespace CBindWheel

def AddBind (m_vBinds : List SBind) (pName pCommand : CString) : List SBind :=
  if (pName = [] ∧ pCommand = []) ∨ m_vBinds.length ≥ MAX_BINDS then m_vBinds
  else m_vBinds ++ [.new pName pCommand]

def RemoveBind (m_vBinds : List SBind) (pName pCommand : CString) : List SBind :=
  m_vBinds.erase (.new pName pCommand)

def ConAddBindwheelLegacy (m_vBinds : List SBind) (BindPos : Int) (aName aCommand : CString) :
    List SBind :=
  if BindPos < 0 ∨ BindPos ≥ MAX_BINDS then m_vBinds
  else
    -- each turn of the loop adds a bind
    let m_vBinds := (fun m_vBinds => AddBind m_vBinds (CServer.ascii "EMPTY") [])^[
      BindPos.toNat + 1 - m_vBinds.length] m_vBinds
    m_vBinds.set BindPos.toNat (.new aName aCommand)

/-- The commands of `OnConsoleInit` that change the binds, by their places in the list of the
console. -/
structure Commands where
  bindwheel : Nat
  add_bindwheel : Nat
  remove_bindwheel : Nat
  delete_all_bindwheel_binds : Nat

/-- The callbacks; those of other commands leave the binds alone. -/
def callback (cmds : Commands) (m_vBinds : List SBind) (call : Call) : List SBind :=
  if call.1 = cmds.add_bindwheel then AddBind m_vBinds (GetString call.2 0) (GetString call.2 1)
  else if call.1 = cmds.bindwheel then
    ConAddBindwheelLegacy m_vBinds (GetInteger call.2 0) (GetString call.2 1) (GetString call.2 2)
  else if call.1 = cmds.remove_bindwheel then
    RemoveBind m_vBinds (GetString call.2 0) (GetString call.2 1)
  else if call.1 = cmds.delete_all_bindwheel_binds then []
  else m_vBinds

/-- What `OnConsoleInit` registers. -/
structure OnConsoleInit (c : Console.CConsole) (ClientId : Int) (cmds : Commands) : Prop where
  bindwheel : Registered c ClientId cmds.bindwheel (CServer.ascii "bindwheel")
    (CServer.ascii "i[index] s[name] s[command]")
  add_bindwheel : Registered c ClientId cmds.add_bindwheel (CServer.ascii "add_bindwheel")
    (CServer.ascii "s[name] s[command]")
  remove_bindwheel : Registered c ClientId cmds.remove_bindwheel (CServer.ascii "remove_bindwheel")
    (CServer.ascii "s[name] s[command]")
  delete_all_bindwheel_binds : Registered c ClientId cmds.delete_all_bindwheel_binds
    (CServer.ascii "delete_all_bindwheel_binds") []

def bindLine (Bind : SBind) : CString :=
  SavedBinds.bindLine (CServer.ascii "add_bindwheel \"") (BINDWHEEL_MAX_CMD * 2) Bind.m_aName
    Bind.m_aCommand

/-- The file that `ConfigSaveCallback` writes. -/
def saved (m_vBinds : List SBind) : CString := savedText (m_vBinds.map bindLine)

/-- What executing a file makes of an empty bind wheel. -/
def load (c : Console.CConsole) (ClientId : Int) (cmds : Commands) (text : CString) : List SBind :=
  (ExecuteFile c ClientId text).foldl (callback cmds) []

/-! ### The binds that are loaded -/

section

variable {c : Console.CConsole} {ClientId : Int} {cmds : Commands}

/-- `RemoveBind` by the index. -/
def RemoveBindIndex (m_vBinds : List SBind) (Index : Int) : List SBind :=
  if Index ≥ m_vBinds.length ∨ Index < 0 then m_vBinds else m_vBinds.eraseIdx Index.toNat

/-- The right mouse button in the menu. -/
def SwapBinds (m_vBinds : List SBind) (s_SelectedBindIndex HoveringIndex : Nat) : List SBind :=
  match m_vBinds[s_SelectedBindIndex]?, m_vBinds[HoveringIndex]? with
  | some BindA, some BindB => (m_vBinds.set s_SelectedBindIndex BindB).set HoveringIndex BindA
  | _, _ => m_vBinds

/-- The name that the menu gives a bind. -/
def menuName (s_aBindName : CString) : CString :=
  if s_aBindName.length = 0 then CServer.ascii "*" else s_aBindName

/-- What changes the binds: a console command, and in the menu the right mouse button and the
buttons for adding, overriding and removing. -/
inductive Op
  | call (pResult : Call)
  | swap (s_SelectedBindIndex HoveringIndex : Nat)
  | add (s_aBindName s_aBindCommand : CString)
  | override (s_SelectedBindIndex : Nat) (s_aBindName s_aBindCommand : CString)
  | remove (s_SelectedBindIndex : Int)

def Op.apply (cmds : Commands) (m_vBinds : List SBind) : Op → List SBind
  | .call pResult => callback cmds m_vBinds pResult
  | .swap s_SelectedBindIndex HoveringIndex =>
      SwapBinds m_vBinds s_SelectedBindIndex HoveringIndex
  | .add s_aBindName s_aBindCommand => AddBind m_vBinds (menuName s_aBindName) s_aBindCommand
  | .override s_SelectedBindIndex s_aBindName s_aBindCommand =>
      m_vBinds.set s_SelectedBindIndex (.new (menuName s_aBindName) s_aBindCommand)
  | .remove s_SelectedBindIndex => RemoveBindIndex m_vBinds s_SelectedBindIndex

/-- What the steps of a session make of an empty bind wheel. -/
def run (cmds : Commands) (ops : List Op) : List SBind := ops.foldl (Op.apply cmds) []

end

end CBindWheel

end Fex.Client.SavedBinds
