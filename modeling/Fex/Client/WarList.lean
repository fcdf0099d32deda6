import Fex.Base.Characters
import Fex.Engine.Server
import Fex.Lib.Run
import Mathlib.Logic.Function.Basic

/-!
# War list

Model of `CWarList`.  A pointer to a type is the number of its allocation, types are never
freed while the list exists.  Chat messages and the webhook log are left out.
-/

namespace Fex.Client

open Fex.Lib Fex.Base Fex.Engine.Server

def MAX_CLIENTS : Nat := 128

def MAX_NAME_LENGTH : Nat := 16

def MAX_CLAN_LENGTH : Nat := 12

def MAX_WARLIST_TYPE_LENGTH : Nat := 10

def MAX_WARLIST_REASON_LENGTH : Nat := 256

/-- The components are only copied. -/
structure ColorRGBA where
  r : Rat
  g : Rat
  b : Rat
  a : Rat

structure CWarType where
  m_aWarName : CString
  m_Color : ColorRGBA
  m_Removable : Bool
  m_Index : Nat

def CWarType.new (pName : CString) (Color : ColorRGBA) (Removable : Bool) : CWarType where
  m_aWarName := str_copy pName MAX_WARLIST_TYPE_LENGTH
  m_Color := Color
  m_Removable := Removable
  m_Index := 0

structure CWarEntry where
  m_aName : CString
  m_aClan : CString
  m_aReason : CString
  m_pWarType : Nat
  deriving DecidableEq

/-- `operator==` -/
def CWarEntry.equals (e Other : CWarEntry) : Bool :=
  let NameMatch := e.m_aName = Other.m_aName ∧ e.m_aName ≠ []
  let ClanMatch := e.m_aClan = Other.m_aClan ∧ e.m_aClan ≠ []
  (NameMatch ∨ ClanMatch) ∧ e.m_pWarType = Other.m_pWarType

structure CWarDataCache where
  m_NameColor : ColorRGBA
  m_ClanColor : ColorRGBA
  IsWarName : Bool
  IsWarClan : Bool
  IsMuted : Bool
  m_WarGroupMatches : List Bool
  m_aReason : CString

/-- What the war list reads of `GameClient()->m_aClients`. -/
structure CClientData where
  m_Active : Bool
  m_aName : CString
  m_aClan : CString

structure CWarList where
  /-- What the pointers point to. -/
  pWarTypes : Nat → CWarType
  allocated : Nat
  m_WarTypes : List Nat
  m_WarEntries : List CWarEntry
  m_MuteEntries : List CString
  m_WarPlayers : List CWarDataCache

namespace CWarList

def white : ColorRGBA := ⟨1, 1, 1, 1⟩

/-- The first of `m_WarTypes` at the construction. -/
def m_pWarTypeNone : Nat := 0

def noneName : CString := CServer.ascii "none"

/-- The types a new list has, by pointer. -/
def builtin : Nat → CWarType
  | 1 => .new (CServer.ascii "enemy") ⟨1, 0.2, 0.2, 1⟩ false
  | 2 => .new (CServer.ascii "team") ⟨0, 0.9, 0.2, 1⟩ false
  | 3 => .new (CServer.ascii "helper") ⟨0.9, 0.87, 0.2, 1⟩ false
  | _ => .new noneName white false

def emptyCache : CWarDataCache where
  m_NameColor := white
  m_ClanColor := white
  IsWarName := false
  IsWarClan := false
  IsMuted := false
  m_WarGroupMatches := [false, false, false, false]
  m_aReason := []

def new : CWarList where
  pWarTypes := builtin
  allocated := 4
  m_WarTypes := [0, 1, 2, 3]
  m_WarEntries := []
  m_MuteEntries := []
  m_WarPlayers := List.replicate MAX_CLIENTS emptyCache

/-! ## Types -/

def FindWarType (s : CWarList) (pType : CString) : Nat :=
  (s.m_WarTypes.find? fun warTypePtr =>
    (s.pWarTypes warTypePtr).m_aWarName = str_copy pType MAX_WARLIST_TYPE_LENGTH).getD m_pWarTypeNone

def AddWarType (s : CWarList) (pType : CString) (Color : ColorRGBA) : CWarList :=
  if pType = noneName then s
  else
    let WarType := s.FindWarType pType
    if WarType = m_pWarTypeNone then
      { s with
        pWarTypes := Function.update s.pWarTypes s.allocated (.new pType Color true)
        allocated := s.allocated + 1
        m_WarTypes := s.m_WarTypes ++ [s.allocated] }
    else
      { s with
        pWarTypes := Function.update s.pWarTypes WarType
          { s.pWarTypes WarType with m_Color := Color } }

def UpsertWarType (s : CWarList) (Index : Int) (pType : CString) (Color : ColorRGBA) : CWarList :=
  if pType = noneName then s
  else if h : 0 ≤ Index ∧ Index.toNat < s.m_WarTypes.length then
    let WarType := s.m_WarTypes[Index.toNat]
    { s with
      pWarTypes := Function.update s.pWarTypes WarType
        { s.pWarTypes WarType with
          m_aWarName := str_copy pType MAX_WARLIST_TYPE_LENGTH
          m_Color := Color } }
  else s.AddWarType pType Color

def RemoveWarType (s : CWarList) (pType : CString) : CWarList :=
  if pType = [] then s
  else
    match s.m_WarTypes.find? fun it => (s.pWarTypes it).m_aWarName = pType with
    | none => s
    | some it =>
        if ¬ (s.pWarTypes it).m_Removable then s
        else { s with m_WarTypes := s.m_WarTypes.erase it }

/-! ## Entries -/

def RemoveWarEntryDuplicates (s : CWarList) (pName pClan : CString) : CWarList :=
  if pName = [] ∧ pClan = [] then s
  else
    { s with
      m_WarEntries := s.m_WarEntries.filter fun it => ¬ (it.m_aName = pName ∧ it.m_aClan = pClan) }

def AddWarEntry (s : CWarList) (m_ClWarListAllowDuplicates : Bool)
    (pName pClan pReason pType : CString) : CWarList :=
  if pName = [] ∧ pClan = [] then s
  else
    let s :=
      if s.FindWarType pType = m_pWarTypeNone then s.AddWarType pType ⟨0, 0, 0, 1⟩ else s
    let Entry : CWarEntry :=
      { m_aName := if pClan ≠ [] then [] else str_copy pName MAX_NAME_LENGTH
        m_aClan := if pClan ≠ [] then str_copy pClan MAX_CLAN_LENGTH else []
        m_aReason := str_copy pReason MAX_WARLIST_REASON_LENGTH
        m_pWarType := s.FindWarType pType }
    let s := if m_ClWarListAllowDuplicates then s else s.RemoveWarEntryDuplicates pName pClan
    { s with m_WarEntries := s.m_WarEntries ++ [Entry] }

/-- `RemoveWarEntry(pName, pClan)` -/
def RemoveWarEntryNamed (s : CWarList) (pName pClan : CString) : CWarList :=
  { s with
    m_WarEntries := s.m_WarEntries.filter fun Entry =>
      ¬ ((Entry.m_aName = pName ∧ pName ≠ []) ∨ (Entry.m_aClan = pClan ∧ pClan ≠ [])) }

/-- `RemoveWarEntry(pName, pClan, pType)` -/
def RemoveWarEntryTyped (s : CWarList) (pName pClan pType : CString) : CWarList :=
  let Entry : CWarEntry :=
    { m_aName := str_copy pName MAX_NAME_LENGTH
      m_aClan := str_copy pClan MAX_CLAN_LENGTH
      m_aReason := []
      m_pWarType := s.FindWarType pType }
  { s with m_WarEntries := s.m_WarEntries.eraseP fun it => it.equals Entry }

/-- `RemoveWarEntry(Entry)`, a pointer that is not into the vector is an index behind it. -/
def RemoveWarEntryAt (s : CWarList) (Entry : Nat) : CWarList :=
  { s with m_WarEntries := s.m_WarEntries.eraseIdx Entry }

/-- `RemoveEntryByName`, the null pointer is `none`. -/
def RemoveEntryByName (s : CWarList) (WarType : Int) (pName : Option CString) : CWarList × Bool :=
  match pName with
  | none => (s, false)
  | some pName =>
      if WarType < 1 then (s, false)
      else
        match s.m_WarTypes[WarType.toNat]? with
        | none => (s, false)
        | some pWarType =>
            let remove (it : CWarEntry) : Bool := it.m_pWarType = pWarType ∧
              ((it.m_aName = pName ∧ it.m_aName ≠ []) ∨ (it.m_aClan = pName ∧ it.m_aClan ≠ []))
            ({ s with m_WarEntries := s.m_WarEntries.filter fun it => ¬ remove it },
              s.m_WarEntries.any remove)

/-- `m_WarTypes[WarType]` behind the check of the upper bound, `none` returns early. -/
def warType (s : CWarList) (WarType : Int) : Exec (Option Nat) :=
  if WarType ≥ s.m_WarTypes.length then .ok none
  else if WarType < 0 then .error .outOfBounds
  else .ok s.m_WarTypes[WarType.toNat]?

/-- The clan that the loop of `AddWarEntryInGame` leaves in `Entry.m_aClan`. -/
def addedClan (pName : CString) (m_aClan : CString) : List CClientData → CString
  | [] => m_aClan
  | c :: cs =>
      if ¬ c.m_Active then addedClan pName m_aClan cs
      else if c.m_aName = pName then
        if c.m_aClan ≠ [] then addedClan pName (str_copy c.m_aClan MAX_CLAN_LENGTH) cs
        else m_aClan
      else addedClan pName m_aClan cs

/-- The clan that the loop of `RemoveWarEntryInGame` leaves in `Entry.m_aClan`. -/
def removedClan (pName : CString) : List CClientData → CString
  | [] => []
  | c :: cs =>
      if ¬ c.m_Active then removedClan pName cs
      else if c.m_aName = pName then
        if c.m_aClan ≠ [] then str_copy c.m_aClan MAX_CLAN_LENGTH else []
      else removedClan pName cs

def AddWarEntryInGame (s : CWarList) (m_ClWarListAllowDuplicates : Bool)
    (m_aClients : List CClientData) (WarType : Int) (pName pReason : CString) (IsClan : Bool) :
    Exec CWarList :=
  if pName = [] then .ok s
  else do
    match ← s.warType WarType with
    | none => return s
    | some pWarType =>
        let m_aClan := if IsClan then addedClan pName [] m_aClients else []
        let m_aName := if IsClan then [] else str_copy pName MAX_NAME_LENGTH
        let m_aReason := str_copy pReason MAX_WARLIST_REASON_LENGTH
        let s := if m_ClWarListAllowDuplicates then s else s.RemoveWarEntryDuplicates m_aName m_aClan
        return s.AddWarEntry m_ClWarListAllowDuplicates m_aName m_aClan m_aReason
          (s.pWarTypes pWarType).m_aWarName

def RemoveWarEntryInGame (s : CWarList) (m_aClients : List CClientData) (WarType : Int)
    (pName : CString) (IsClan : Bool) : Exec CWarList :=
  if pName = [] then .ok s
  else do
    match ← s.warType WarType with
    | none => return s
    | some pWarType =>
        let m_aClan := if IsClan then removedClan pName m_aClients else []
        let m_aName := if IsClan then [] else str_copy pName MAX_NAME_LENGTH
        return s.RemoveWarEntryTyped m_aName m_aClan (s.pWarTypes pWarType).m_aWarName

def AddMuteEntry (s : CWarList) (pName : CString) : CWarList :=
  if pName = [] then s
  else { s with m_MuteEntries := s.m_MuteEntries ++ [str_copy pName MAX_NAME_LENGTH] }

/-! ## The players -/

/-- `m_WarTypes[i]->m_Index = i` from an index on. -/
def reindex (pWarTypes : Nat → CWarType) (i : Nat) : List Nat → Nat → CWarType
  | [] => pWarTypes
  | p :: m_WarTypes =>
      reindex (Function.update pWarTypes p { pWarTypes p with m_Index := i }) (i + 1) m_WarTypes

/-- `m_WarGroupMatches[Index] = true` -/
def setMatch (m_WarGroupMatches : List Bool) (Index : Nat) : Exec (List Bool) :=
  if Index < m_WarGroupMatches.length then .ok (m_WarGroupMatches.set Index true)
  else .error .outOfBounds

/-- One entry in the loop of `UpdateWarPlayers`. -/
def visitEntry (pWarTypes : Nat → CWarType) (c : CClientData) (p : CWarDataCache)
    (Entry : CWarEntry) : Exec CWarDataCache := do
  let WarType := pWarTypes Entry.m_pWarType
  if c.m_aName = Entry.m_aName ∧ Entry.m_aName ≠ [] then
    let m_WarGroupMatches ← setMatch p.m_WarGroupMatches WarType.m_Index
    return { p with
      m_aReason := str_copy Entry.m_aReason MAX_WARLIST_REASON_LENGTH
      IsWarName := true
      m_NameColor := WarType.m_Color
      m_WarGroupMatches := m_WarGroupMatches }
  else if c.m_aClan = Entry.m_aClan ∧ Entry.m_aClan ≠ [] then
    let m_WarGroupMatches ← setMatch p.m_WarGroupMatches WarType.m_Index
    return { p with
      -- Name war reason has priority over clan war reason
      m_aReason := if ¬ p.IsWarName then str_copy Entry.m_aReason MAX_WARLIST_REASON_LENGTH
        else p.m_aReason
      IsWarClan := true
      m_ClanColor := WarType.m_Color
      m_WarGroupMatches := m_WarGroupMatches }
  else return p

def updatePlayer (s : CWarList) (c : CClientData) : Exec CWarDataCache := do
  let p ← s.m_WarEntries.foldlM (visitEntry s.pWarTypes c)
    { emptyCache with m_WarGroupMatches := List.replicate s.m_WarTypes.length false }
  return { p with
    IsMuted := s.m_MuteEntries.any fun m_aMutedName =>
      c.m_aName = m_aMutedName ∧ m_aMutedName ≠ [] }

/-- The loop over the clients, inactive ones keep their cache. -/
def updateLoop (s : CWarList) :
    List CClientData → List CWarDataCache → Exec (List CWarDataCache)
  | c :: m_aClients, p :: m_WarPlayers => do
      let p ← (if ¬ c.m_Active then pure p else s.updatePlayer c)
      let m_WarPlayers ← updateLoop s m_aClients m_WarPlayers
      return p :: m_WarPlayers
  | _, m_WarPlayers => .ok m_WarPlayers

def UpdateWarPlayers (s : CWarList) (m_aClients : List CClientData) : Exec CWarList := do
  let s := { s with pWarTypes := reindex s.pWarTypes 0 s.m_WarTypes }
  let m_WarPlayers ← s.updateLoop m_aClients s.m_WarPlayers
  return { s with m_WarPlayers := m_WarPlayers }

/-! ## Calls -/

inductive Call
  | AddWarEntry (m_ClWarListAllowDuplicates : Bool) (pName pClan pReason pType : CString)
  | AddWarEntryInGame (m_ClWarListAllowDuplicates : Bool) (m_aClients : List CClientData)
      (WarType : Int) (pName pReason : CString) (IsClan : Bool)
  | RemoveWarEntryInGame (m_aClients : List CClientData) (WarType : Int) (pName : CString)
      (IsClan : Bool)
  | RemoveWarEntryNamed (pName pClan : CString)
  | RemoveWarEntryTyped (pName pClan pType : CString)
  | RemoveWarEntryAt (Entry : Nat)
  | RemoveEntryByName (WarType : Int) (pName : Option CString)
  | AddWarType (pType : CString) (Color : ColorRGBA)
  | UpsertWarType (Index : Int) (pType : CString) (Color : ColorRGBA)
  | RemoveWarType (pType : CString)
  | AddMuteEntry (pName : CString)
  | UpdateWarPlayers (m_aClients : List CClientData)

def step (s : CWarList) : Call → Exec CWarList
  | .AddWarEntry m_ClWarListAllowDuplicates pName pClan pReason pType =>
      .ok (s.AddWarEntry m_ClWarListAllowDuplicates pName pClan pReason pType)
  | .AddWarEntryInGame m_ClWarListAllowDuplicates m_aClients WarType pName pReason IsClan =>
      s.AddWarEntryInGame m_ClWarListAllowDuplicates m_aClients WarType pName pReason IsClan
  | .RemoveWarEntryInGame m_aClients WarType pName IsClan =>
      s.RemoveWarEntryInGame m_aClients WarType pName IsClan
  | .RemoveWarEntryNamed pName pClan => .ok (s.RemoveWarEntryNamed pName pClan)
  | .RemoveWarEntryTyped pName pClan pType => .ok (s.RemoveWarEntryTyped pName pClan pType)
  | .RemoveWarEntryAt Entry => .ok (s.RemoveWarEntryAt Entry)
  | .RemoveEntryByName WarType pName => .ok (s.RemoveEntryByName WarType pName).1
  | .AddWarType pType Color => .ok (s.AddWarType pType Color)
  | .UpsertWarType Index pType Color => .ok (s.UpsertWarType Index pType Color)
  | .RemoveWarType pType => .ok (s.RemoveWarType pType)
  | .AddMuteEntry pName => .ok (s.AddMuteEntry pName)
  | .UpdateWarPlayers m_aClients => s.UpdateWarPlayers m_aClients

end CWarList

end Fex.Client
