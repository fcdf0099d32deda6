import Fex.Engine.Network
import Fex.Engine.Packer

/-!
# Lists sent to an authenticated client

Model of `UpdateClientMaplistEntries` with the client and the console commands it
reads.  A pointer to a command is its index in the list of the console.
-/

namespace Fex.Engine.Server

open Fex.Lib Packer

abbrev CString := List UInt8

/-! ## Console -/

def ACCESS_LEVEL_ADMIN : Int := 0
def ACCESS_LEVEL_MOD : Int := 1
def ACCESS_LEVEL_HELPER : Int := 2
def ACCESS_LEVEL_USER : Int := 3

def CFGFLAG_SERVER : Nat := 1 <<< 2

/-- `strcmp` -/
def str_comp : CString → CString → Int
  | [], [] => 0
  | [], b :: _ => -b.toNat
  | a :: _, [] => a.toNat
  | a :: as, b :: bs => if a = b then str_comp as bs else a.toNat - b.toNat

/-- `tolower` of an ASCII letter. -/
def toLower (c : UInt8) : UInt8 := if 65 ≤ c ∧ c ≤ 90 then c + 32 else c

/-- `strcasecmp` -/
def str_comp_nocase (a b : CString) : Int := str_comp (a.map toLower) (b.map toLower)

structure CCommand where
  m_pName : CString
  m_pHelp : CString
  m_pParams : CString
  m_Flags : Nat
  m_Temp : Bool
  m_AccessLevel : Int

def CCommand.SetAccessLevel (c : CCommand) (AccessLevel : Int) : CCommand :=
  { c with m_AccessLevel := max ACCESS_LEVEL_ADMIN (min AccessLevel ACCESS_LEVEL_USER) }

/-- A command with one of the flags that this access level may use. -/
def CCommand.Grants (c : CCommand) (AccessLevel : Int) (FlagMask : Nat) : Bool :=
  c.m_Flags &&& FlagMask ≠ 0 && c.m_AccessLevel ≥ AccessLevel

/-- The list that starts at `m_pFirstCommand`. -/
structure CConsole where
  commands : List CCommand

namespace CConsole

/-- `FindCommand` -/
def FindCommand (c : CConsole) (pName : CString) (FlagMask : Nat) : Option Nat :=
  c.commands.findIdx? fun pCommand =>
    pCommand.m_Flags &&& FlagMask ≠ 0 && str_comp_nocase pCommand.m_pName pName = 0

def GetCommandInfo (c : CConsole) (pName : CString) (FlagMask : Nat) (Temp : Bool) : Option Nat :=
  c.commands.findIdx? fun pCommand =>
    (pCommand.m_Flags &&& FlagMask ≠ 0 && pCommand.m_Temp = Temp) &&
      str_comp_nocase pCommand.m_pName pName = 0

def FirstCommandInfo (c : CConsole) (AccessLevel : Int) (FlagMask : Nat) : Option Nat :=
  c.commands.findIdx? fun pCommand => pCommand.Grants AccessLevel FlagMask

def NextCommandInfo (c : CConsole) (pInfo : Nat) (AccessLevel : Int) (FlagMask : Nat) : Option Nat :=
  ((c.commands.drop (pInfo + 1)).findIdx? fun pCommand => pCommand.Grants AccessLevel FlagMask).map
    fun i => pInfo + 1 + i

end CConsole

/-! ## Clients -/

inductive State
  | REDIRECTED
  | EMPTY
  | PREAUTH
  | AUTH
  | CONNECTING
  | READY
  | INGAME
  deriving DecidableEq

inductive Authed
  | NO
  | HELPER
  | MOD
  | ADMIN
  deriving DecidableEq

def MAPLIST_UNINITIALIZED : Int := -1
def MAPLIST_DISABLED : Int := -2
def MAPLIST_DONE : Int := -3

structure CClient where
  m_State : State
  m_Authed : Authed
  m_Sixup : Bool
  m_pRconCmdToSend : Option Nat
  m_MaplistEntryToSend : Int

def CClient.ConsoleAccessLevel (Client : CClient) : Int :=
  if Client.m_Authed = .ADMIN then ACCESS_LEVEL_ADMIN
  else if Client.m_Authed = .MOD then ACCESS_LEVEL_MOD
  else ACCESS_LEVEL_HELPER

/-! ## The list of maps -/

structure CServer where
  Console : CConsole
  /-- `m_aName` of the entries -/
  m_vMaplistEntries : List CString

namespace CServer

/-- The bytes of an ASCII text. -/
def ascii (s : String) : CString := s.toList.map fun c => UInt8.ofNat c.toNat

def MAP_COMMANDS : List CString := [ascii "sv_map", ascii "change_map"]

/-- `std::any_of` over the map commands. -/
def anyMapCommand (s : CServer) (ConsoleAccessLevel : Int) : List CString → Exec Bool
  | [] => .ok false
  | pMapCommand :: cmds =>
      match s.Console.GetCommandInfo pMapCommand CFGFLAG_SERVER false with
      | none => .error .assertion
      | some pInfo =>
          match s.Console.commands[pInfo]? with
          | none => .error .outOfBounds
          | some info =>
              if ConsoleAccessLevel ≤ info.m_AccessLevel then .ok true
              else anyMapCommand s ConsoleAccessLevel cmds

def MaplistGroupStart (s : CServer) : CMsgPacker :=
  (CMsgPacker.new NETMSG_MAPLIST_GROUP_START true).AddInt (wrap32 s.m_vMaplistEntries.length)

def MaplistGroupEnd : CMsgPacker := CMsgPacker.new NETMSG_MAPLIST_GROUP_END true

/-- The conversion of an `int` to `size_t`. -/
def size_t (i : Int) : Int := i % 18446744073709551616

/-- `++` on an `int` -/
def increment (i : Int) : Exec Int := if i < intMax then .ok (i + 1) else .error .overflow

/-- The loop that fills a message with the entries that are left. -/
def fillMaplist : List CString → CMsgPacker → Int → Int → Exec (CMsgPacker × Int)
  | [], Msg, _, EntryToSend => .ok (Msg, EntryToSend)
  | m_aName :: entries, Msg, Limit, EntryToSend => do
      let SizeBefore := Msg.Size
      let Msg ← Msg.AddString m_aName (Limit - 1) false
      if Msg.Error then return (Msg, EntryToSend)
      let Limit := Limit - ((Msg.Size : Int) - SizeBefore)
      if Limit ≤ 1 then return (Msg, EntryToSend)
      fillMaplist entries Msg Limit (← increment EntryToSend)

/-- The part of `UpdateClientMaplistEntries` that sends entries. -/
def sendMaplist (s : CServer) (Client : CClient) : Exec (CClient × List CMsgPacker) := do
  let (Client, sent) ←
    if size_t Client.m_MaplistEntryToSend < s.m_vMaplistEntries.length then do
      let (Msg, EntryToSend) ←
        fillMaplist (s.m_vMaplistEntries.drop Client.m_MaplistEntryToSend.toNat)
          (CMsgPacker.new NETMSG_MAPLIST_ADD true) ((Network.NET_MAX_PAYLOAD : Int) - 128)
          Client.m_MaplistEntryToSend
      pure ({ Client with m_MaplistEntryToSend := EntryToSend }, [Msg])
    else pure (Client, [])
  if size_t Client.m_MaplistEntryToSend ≥ s.m_vMaplistEntries.length then
    return ({ Client with m_MaplistEntryToSend := MAPLIST_DONE }, sent ++ [MaplistGroupEnd])
  else return (Client, sent)

/-- The client after the call and the messages that are sent to it. -/
def UpdateClientMaplistEntries (s : CServer) (Client : CClient) :
    Exec (CClient × List CMsgPacker) :=
  if Client.m_State ≠ .INGAME ∨ Client.m_Authed = .NO ∨ Client.m_Sixup ∨
      Client.m_pRconCmdToSend ≠ none ∨ Client.m_MaplistEntryToSend = MAPLIST_DISABLED ∨
      Client.m_MaplistEntryToSend = MAPLIST_DONE then .ok (Client, [])
  else if Client.m_MaplistEntryToSend = MAPLIST_UNINITIALIZED then do
    let MapCommandAllowed ← s.anyMapCommand Client.ConsoleAccessLevel MAP_COMMANDS
    if MapCommandAllowed then
      let (Client, sent) ← s.sendMaplist { Client with m_MaplistEntryToSend := 0 }
      return (Client, s.MaplistGroupStart :: sent)
    else return ({ Client with m_MaplistEntryToSend := MAPLIST_DISABLED }, [])
  else s.sendMaplist Client

end CServer

end Fex.Engine.Server
