import Fex.Base.Strings
import Fex.Engine.Server
import Fex.Lib.Run
import Mathlib.Logic.Function.Basic

/-!
# Rcon keys

Model of `CAuthManager` and of the part of `CServer` that logs clients in and
out.  Keys carry an identity and a revision that the source does not have: they
tell a key from one of the same ident that was added later, and from itself
after a change.  Failed passwords are not counted.
-/

namespace Fex.Engine.Auth

open Fex.Lib Fex.Base Fex.Engine.Server

inductive Authed
  | NO
  | HELPER
  | MOD
  | ADMIN
  deriving DecidableEq

def Authed.toNat : Authed → Nat
  | NO => 0
  | HELPER => 1
  | MOD => 2
  | ADMIN => 3

/-! ## Keys -/

structure CKey where
  m_aIdent : CString
  m_Pw : List UInt8
  m_aSalt : List UInt8
  m_Level : Authed
  id : Nat
  revision : Nat
  deriving DecidableEq

/-- `sizeof(CKey().m_aIdent)` -/
def IDENT_SIZE : Nat := 64

/-- `m_aDefault` by level, there is none for `NO`; `setTo` is the key an entry was set to. -/
structure CAuthManager where
  m_vKeys : List CKey
  m_aDefault : Authed → Int
  setTo : Authed → Nat
  next : Nat

namespace CAuthManager

def new : CAuthManager :=
  { m_vKeys := [], m_aDefault := fun _ => -1, setTo := fun _ => 0, next := 0 }

/-- `ADMIN_IDENT`, `MOD_IDENT` and `HELPER_IDENT` -/
def defaultIdent : Authed → CString
  | .ADMIN => "default_admin".toUTF8.data.toList
  | .MOD => "default_mod".toUTF8.data.toList
  | _ => "default_helper".toUTF8.data.toList

def FindKey (a : CAuthManager) (pIdent : CString) : Int :=
  match a.m_vKeys.findIdx? fun k => k.m_aIdent = pIdent with
  | some i => i
  | none => -1

/-- The key of a slot, if it is one. -/
def key (a : CAuthManager) (Slot : Int) : Option CKey :=
  if Slot < 0 ∨ Slot ≥ a.m_vKeys.length then none else a.m_vKeys[Slot.toNat]?

def AddKeyHash (a : CAuthManager) (pIdent : CString) (Hash pSalt : List UInt8)
    (AuthLevel : Authed) : CAuthManager × Int :=
  if a.FindKey pIdent ≥ 0 then (a, -1)
  else
    ({ a with
        m_vKeys := a.m_vKeys ++ [{
          m_aIdent := str_copy pIdent IDENT_SIZE
          m_Pw := Hash
          m_aSalt := pSalt
          m_Level := AuthLevel
          id := a.next
          revision := a.next }]
        next := a.next + 1 },
      a.m_vKeys.length)

def RemoveKey (a : CAuthManager) (Slot : Int) : CAuthManager :=
  { a with
    m_vKeys := a.m_vKeys.eraseIdx Slot.toNat
    -- Update indices of default keys
    m_aDefault := fun level =>
      if a.m_aDefault level = Slot then -1
      else if a.m_aDefault level > Slot then a.m_aDefault level - 1
      else a.m_aDefault level }

def DefaultKey (a : CAuthManager) (AuthLevel : Authed) : Int := a.m_aDefault AuthLevel

def KeyLevel (a : CAuthManager) (Slot : Int) : Authed :=
  match a.key Slot with
  | none => .NO
  | some k => k.m_Level

/-- `nullptr` is `none`. -/
def KeyIdent (a : CAuthManager) (Slot : Int) : Option CString :=
  (a.key Slot).map fun k => k.m_aIdent

def IsValidIdent (pIdent : CString) : Bool := pIdent.length < IDENT_SIZE

def UpdateKeyHash (a : CAuthManager) (Slot : Int) (Hash pSalt : List UInt8)
    (AuthLevel : Authed) : CAuthManager :=
  if Slot < 0 ∨ Slot ≥ a.m_vKeys.length then a
  else
    { a with
      m_vKeys := a.m_vKeys.modify Slot.toNat fun k =>
        { k with m_Pw := Hash, m_aSalt := pSalt, m_Level := AuthLevel, revision := a.next }
      next := a.next + 1 }

section

-- MD5 of a password and a salt
variable (HashPassword : CString → List UInt8 → List UInt8)

def AddKey (a : CAuthManager) (pIdent pPw : CString) (aSalt : List UInt8) (AuthLevel : Authed) :
    CAuthManager × Int :=
  a.AddKeyHash pIdent (HashPassword pPw aSalt) aSalt AuthLevel

def CheckKey (a : CAuthManager) (Slot : Int) (pPw : CString) : Bool :=
  match a.key Slot with
  | none => false
  | some k => k.m_Pw = HashPassword pPw k.m_aSalt

def UpdateKey (a : CAuthManager) (Slot : Int) (pPw : CString) (aSalt : List UInt8)
    (AuthLevel : Authed) : CAuthManager :=
  a.UpdateKeyHash Slot (HashPassword pPw aSalt) aSalt AuthLevel

def AddDefaultKey (a : CAuthManager) (Level : Authed) (pPw : CString) (aSalt : List UInt8) :
    CAuthManager :=
  if Level = .NO then a
  else if a.m_aDefault Level ≥ 0 then a -- already exists
  else
    let (a', Slot) := a.AddKey HashPassword (defaultIdent Level) pPw aSalt Level
    { a' with
      m_aDefault := Function.update a'.m_aDefault Level Slot
      setTo := Function.update a'.setTo Level a.next }

end

end CAuthManager

/-! ## Clients -/

/-- `login` is the key of the client, as it was at the login. -/
structure CClient where
  m_Authed : Authed
  m_AuthKey : Int
  login : Option CKey

def CClient.loggedOut : CClient := { m_Authed := .NO, m_AuthKey := -1, login := none }

/-- A logout that was printed: `pIdent` is the ident in the message. -/
structure Logout where
  ClientId : Nat
  pIdent : Option CString
  login : Option CKey

structure CServer where
  m_AuthManager : CAuthManager
  m_aClients : List CClient
  printed : List Logout

namespace CServer

def new : CServer :=
  { m_AuthManager := .new, m_aClients := .replicate 128 .loggedOut, printed := [] }

def LogoutClient (s : CServer) (ClientId : Nat) : CServer :=
  match s.m_aClients[ClientId]? with
  | none => s
  | some c =>
      { s with
        m_aClients := s.m_aClients.set ClientId .loggedOut
        printed := s.printed ++ [{
          ClientId := ClientId
          pIdent := s.m_AuthManager.KeyIdent c.m_AuthKey
          login := c.login }] }

/-- One iteration of `LogoutKey`. -/
def logoutWith (Key : Int) (s : CServer) (i : Nat) : CServer :=
  match s.m_aClients[i]? with
  | none => s
  | some c => if c.m_AuthKey = Key then s.LogoutClient i else s

def LogoutKey (s : CServer) (Key : Int) : CServer :=
  (List.range s.m_aClients.length).foldl (logoutWith Key) s

def AuthRemoveKey (s : CServer) (KeySlot : Int) : CServer :=
  let s := { s with m_AuthManager := s.m_AuthManager.RemoveKey KeySlot }
  let s := s.LogoutKey KeySlot
  -- Update indices.
  { s with
    m_aClients := s.m_aClients.map fun Client =>
      if Client.m_AuthKey = KeySlot then { Client with m_AuthKey := -1 }
      else if Client.m_AuthKey > KeySlot then { Client with m_AuthKey := Client.m_AuthKey - 1 }
      else Client }

/-- `str_startswith(pLevel, "mod")` and the names of the other levels. -/
def GetAuthLevel (pLevel : CString) : Option Authed :=
  if str_comp_nocase pLevel "admin".toUTF8.data.toList = 0 then some .ADMIN
  else if "mod".toUTF8.data.toList <+: pLevel then some .MOD
  else if str_comp_nocase pLevel "helper".toUTF8.data.toList = 0 then some .HELPER
  else none

/-- `auth_add_p`, behind the parsing of the hash and of the salt. -/
def ConAuthAddHashed (s : CServer) (pIdent pLevel : CString) (Hash aSalt : List UInt8) : CServer :=
  if CAuthManager.IsValidIdent pIdent = false then s
  else
    match GetAuthLevel pLevel with
    | none => s
    | some Level =>
        { s with m_AuthManager := (s.m_AuthManager.AddKeyHash pIdent Hash aSalt Level).1 }

/-- `auth_change_p`, behind the parsing of the hash and of the salt. -/
def ConAuthUpdateHashed (s : CServer) (pIdent pLevel : CString) (Hash aSalt : List UInt8) :
    CServer :=
  let KeySlot := s.m_AuthManager.FindKey pIdent
  if KeySlot = -1 then s
  else
    match GetAuthLevel pLevel with
    | none => s
    | some Level =>
        { s with m_AuthManager := s.m_AuthManager.UpdateKeyHash KeySlot Hash aSalt Level }.LogoutKey
          KeySlot

def ConAuthRemove (s : CServer) (pIdent : CString) : CServer :=
  let KeySlot := s.m_AuthManager.FindKey pIdent
  if KeySlot = -1 then s else s.AuthRemoveKey KeySlot

section

variable (HashPassword : CString → List UInt8 → List UInt8)

def ConAuthAdd (s : CServer) (pIdent pLevel pPw : CString) (aSalt : List UInt8) : CServer :=
  s.ConAuthAddHashed pIdent pLevel (HashPassword pPw aSalt) aSalt

def ConAuthUpdate (s : CServer) (pIdent pLevel pPw : CString) (aSalt : List UInt8) : CServer :=
  s.ConAuthUpdateHashed pIdent pLevel (HashPassword pPw aSalt) aSalt

def ConchainRconPasswordChangeGeneric (s : CServer) (Level : Authed) (pCurrent pNew : CString)
    (aSalt : List UInt8) : CServer :=
  let KeySlot := s.m_AuthManager.DefaultKey Level
  if pCurrent = pNew then s
  else if KeySlot = -1 ∧ pNew ≠ [] then
    { s with m_AuthManager := s.m_AuthManager.AddDefaultKey HashPassword Level pNew aSalt }
  else if KeySlot ≥ 0 then
    if pNew = [] then s.AuthRemoveKey KeySlot
    else
      { s with m_AuthManager :=
          (s.m_AuthManager.UpdateKey HashPassword KeySlot pNew aSalt Level) }.LogoutKey KeySlot
  else s

/-- The level and the slot that a name and a password are accepted for. -/
def accepted (s : CServer) (pName pPw : CString) : Option (Authed × Int) :=
  let m := s.m_AuthManager
  if pName = [] then
    if m.CheckKey HashPassword (m.DefaultKey .ADMIN) pPw then some (.ADMIN, m.DefaultKey .ADMIN)
    else if m.CheckKey HashPassword (m.DefaultKey .MOD) pPw then some (.MOD, m.DefaultKey .MOD)
    else if m.CheckKey HashPassword (m.DefaultKey .HELPER) pPw then
      some (.HELPER, m.DefaultKey .HELPER)
    else none
  else if m.CheckKey HashPassword (m.FindKey pName) pPw then
    some (m.KeyLevel (m.FindKey pName), m.FindKey pName)
  else none

/-- `NETMSG_RCON_AUTH` -/
def RconAuth (s : CServer) (ClientId : Nat) (pName pPw : CString) : CServer :=
  match s.m_aClients[ClientId]?, s.accepted HashPassword pName pPw with
  | some c, some (AuthLevel, KeySlot) =>
      if c.m_Authed ≠ AuthLevel then
        { s with m_aClients := s.m_aClients.set ClientId {
            m_Authed := AuthLevel
            m_AuthKey := KeySlot
            login := s.m_AuthManager.key KeySlot } }
      else s
  | _, _ => s

end

end CServer

/-! ## Calls -/

inductive Call
  /-- `CAuthManager::Init` with a generated password. -/
  | Init (pPw : CString) (aSalt : List UInt8)
  | AuthAdd (pIdent pLevel pPw : CString) (aSalt : List UInt8)
  | AuthAddHashed (pIdent pLevel : CString) (Hash aSalt : List UInt8)
  | AuthUpdate (pIdent pLevel pPw : CString) (aSalt : List UInt8)
  | AuthUpdateHashed (pIdent pLevel : CString) (Hash aSalt : List UInt8)
  | AuthRemove (pIdent : CString)
  /-- `sv_rcon_password`, `sv_rcon_mod_password` or `sv_rcon_helper_password` is set. -/
  | RconPasswordChange (Level : Authed) (pCurrent pNew : CString) (aSalt : List UInt8)
  | RconAuth (ClientId : Nat) (pName pPw : CString)
  | Logout (ClientId : Nat)
  /-- A client leaves or a new one takes its place. -/
  | Reset (ClientId : Nat)

def step (HashPassword : CString → List UInt8 → List UInt8) (s : CServer) : Call → Exec CServer
  | .Init pPw aSalt =>
      .ok { s with m_AuthManager := s.m_AuthManager.AddDefaultKey HashPassword .ADMIN pPw aSalt }
  | .AuthAdd pIdent pLevel pPw aSalt => .ok (s.ConAuthAdd HashPassword pIdent pLevel pPw aSalt)
  | .AuthAddHashed pIdent pLevel Hash aSalt => .ok (s.ConAuthAddHashed pIdent pLevel Hash aSalt)
  | .AuthUpdate pIdent pLevel pPw aSalt =>
      .ok (s.ConAuthUpdate HashPassword pIdent pLevel pPw aSalt)
  | .AuthUpdateHashed pIdent pLevel Hash aSalt =>
      .ok (s.ConAuthUpdateHashed pIdent pLevel Hash aSalt)
  | .AuthRemove pIdent => .ok (s.ConAuthRemove pIdent)
  | .RconPasswordChange Level pCurrent pNew aSalt =>
      .ok (s.ConchainRconPasswordChangeGeneric HashPassword Level pCurrent pNew aSalt)
  | .RconAuth ClientId pName pPw => .ok (s.RconAuth HashPassword ClientId pName pPw)
  | .Logout ClientId => .ok (s.LogoutClient ClientId)
  | .Reset ClientId => .ok { s with m_aClients := s.m_aClients.set ClientId .loggedOut }

end Fex.Engine.Auth
