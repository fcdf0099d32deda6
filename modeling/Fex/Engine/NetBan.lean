import Fex.Lib.CInt
import Fex.Lib.DList
import Fex.Lib.Memory

/-!
# Bans of network addresses

Model of `netban.h` and `netban.cpp`.  A pointer to a slot of `m_aBans` is its
index, and the link fields of the slots are functions on the indices.  `Now` is
the value that `time_timestamp` returns.  What is only printed is left out.
-/

namespace Fex.Engine.NetBan

open Fex.Lib

def NETTYPE_IPV4 : UInt32 := 1
def NETTYPE_IPV6 : UInt32 := 2
def NETTYPE_WEBSOCKET_IPV4 : UInt32 := 8

structure NETADDR where
  type : UInt32
  ip : Vector UInt8 16
  port : UInt16
  deriving DecidableEq

structure CNetRange where
  m_LB : NETADDR
  m_UB : NETADDR

def NETADDR.zero : NETADDR := { type := 0, ip := .replicate 16 0, port := 0 }

/-- The bytes of `ip` from `Start` on, `Length` of them. -/
def NETADDR.bytes (a : NETADDR) (Start Length : Nat) : List UInt8 :=
  (a.ip.toList.drop Start).take Length

/-- The object representation of an `unsigned int`. -/
def uintBytes (x : UInt32) : List UInt8 :=
  [x.toUInt8, (x >>> 8).toUInt8, (x >>> 16).toUInt8, (x >>> 24).toUInt8]

/-- Bytes of `ip` that count for a type. -/
def ipLength (type : UInt32) : Nat := if type = NETTYPE_IPV4 then 4 else 16

/-- Compares the type and the ip. -/
def NetComp (pAddr1 pAddr2 : NETADDR) : Int :=
  mem_comp (uintBytes pAddr1.type ++ pAddr1.bytes 0 (ipLength pAddr1.type))
    (uintBytes pAddr2.type ++ pAddr2.bytes 0 (ipLength pAddr1.type))

def CNetRange.IsValid (r : CNetRange) : Bool :=
  r.m_LB.type == r.m_UB.type && NetComp r.m_LB r.m_UB < 0

/-- `NetComp` of ranges: zero if they are equal. -/
def NetCompRange (pRange1 pRange2 : CNetRange) : Int :=
  if NetComp pRange1.m_LB pRange2.m_LB ≠ 0 ∨ NetComp pRange1.m_UB pRange2.m_UB ≠ 0 then 1 else 0

/-- `NetMatch` of a range from byte `Start` on. -/
def NetMatchRange (pRange : CNetRange) (pAddr : NETADDR) (Start Length : Nat) : Bool :=
  pRange.m_LB.type == pAddr.type &&
    (Start == 0 || mem_comp (pRange.m_LB.bytes 0 Start) (pAddr.bytes 0 Start) == 0) &&
    mem_comp (pRange.m_LB.bytes Start (Length - Start)) (pAddr.bytes Start (Length - Start)) ≤ 0 &&
    mem_comp (pRange.m_UB.bytes Start (Length - Start)) (pAddr.bytes Start (Length - Start)) ≥ 0

/-! ## Hashes -/

structure CNetHash where
  m_Hash : Nat
  /-- matching parts for ranges, 0 for addr -/
  m_HashIndex : Nat
  deriving DecidableEq

/-- The sum of bytes of an address. -/
def byteSum (l : List UInt8) : Nat := (l.map UInt8.toNat).sum

/-- `CNetHash(const NETADDR *)` -/
def AddrHash (pAddr : NETADDR) : CNetHash :=
  { m_Hash := byteSum (pAddr.bytes 0 (ipLength pAddr.type)) &&& 0xFF, m_HashIndex := 0 }

/-- The loop of `CNetHash(const CNetRange *)` over the common prefix; it must end within `ip`. -/
def RangeHashLoop : List UInt8 → List UInt8 → CNetHash → Exec CNetHash
  | a :: as, b :: bs, h =>
      if a = b then
        RangeHashLoop as bs { m_Hash := h.m_Hash + a.toNat, m_HashIndex := h.m_HashIndex + 1 }
      else .ok { h with m_Hash := h.m_Hash &&& 0xFF }
  | _, _, _ => .error .outOfBounds

/-- `CNetHash(const CNetRange *)` -/
def RangeHash (pRange : CNetRange) : Exec CNetHash :=
  RangeHashLoop pRange.m_LB.ip.toList pRange.m_UB.ip.toList { m_Hash := 0, m_HashIndex := 0 }

/-- The entry `i` that `MakeHashArray` writes. -/
def HashEntry (pAddr : NETADDR) (Length i : Nat) : CNetHash :=
  { m_Hash := byteSum (pAddr.bytes 0 i) &&& 0xFF, m_HashIndex := i % Length }

/-- The array and the length that `MakeHashArray` returns. -/
def MakeHashArray (pAddr : NETADDR) : List CNetHash × Nat :=
  let Length := ipLength pAddr.type
  ((List.range (Length + 1)).map (HashEntry pAddr Length), Length)

/-! ## Pools -/

structure CBanInfo where
  m_Expires : Int
  m_aReason : List UInt8
  m_VerbatimReason : Bool

def EXPIRES_NEVER : Int := -1

def REASON_LENGTH : Nat := 128

structure CBan (T : Type) where
  m_Data : T
  m_Info : CBanInfo
  m_NetHash : CNetHash

def MAX_BANS : Nat := 2048

structure CBanPool (T : Type) (HashCount : Nat) where
  m_aapHashList : Nat → Nat → Option Nat
  m_aBans : Nat → CBan T
  m_pHashNext : Nat → Option Nat
  m_pHashPrev : Nat → Option Nat
  m_pNext : Nat → Option Nat
  m_pPrev : Nat → Option Nat
  m_pFirstFree : Option Nat
  m_pFirstUsed : Option Nat
  m_CountUsed : Int

/-- What the pools of addresses and of ranges do with their data. -/
class BanData (T : Type) where
  zero : T
  NetComp : T → T → Int
  NetHash : T → Exec CNetHash
  NetMatch : T → NETADDR → Bool

instance : BanData NETADDR where
  zero := .zero
  NetComp := NetComp
  NetHash a := .ok (AddrHash a)
  NetMatch a b := NetComp a b == 0

instance : BanData CNetRange where
  zero := { m_LB := .zero, m_UB := .zero }
  NetComp := NetCompRange
  NetHash := RangeHash
  NetMatch r a := NetMatchRange r a 0 (ipLength r.m_LB.type)

namespace CBanPool

variable {T : Type} {HashCount : Nat}

/-- The used list, the free list and a hash list. -/
def usedList (s : CBanPool T HashCount) : DList Nat :=
  { next := s.m_pNext, prev := s.m_pPrev, head := s.m_pFirstUsed }

def freeList (s : CBanPool T HashCount) : DList Nat :=
  { next := s.m_pNext, prev := s.m_pPrev, head := s.m_pFirstFree }

def hashList (s : CBanPool T HashCount) (h : CNetHash) : DList Nat :=
  { next := s.m_pHashNext, prev := s.m_pHashPrev, head := s.m_aapHashList h.m_HashIndex h.m_Hash }

def setUsed (s : CBanPool T HashCount) (d : DList Nat) : CBanPool T HashCount :=
  { s with m_pNext := d.next, m_pPrev := d.prev, m_pFirstUsed := d.head }

def setFree (s : CBanPool T HashCount) (d : DList Nat) : CBanPool T HashCount :=
  { s with m_pNext := d.next, m_pPrev := d.prev, m_pFirstFree := d.head }

def setHash (s : CBanPool T HashCount) (h : CNetHash) (d : DList Nat) : CBanPool T HashCount :=
  { s with
    m_pHashNext := d.next
    m_pHashPrev := d.prev
    m_aapHashList := fun i j =>
      if i = h.m_HashIndex ∧ j = h.m_Hash then d.head else s.m_aapHashList i j }

/-- An entry of `m_aapHashList`. -/
def InRange (HashCount : Nat) (h : CNetHash) : Prop := h.m_HashIndex < HashCount ∧ h.m_Hash < 256

instance (h : CNetHash) : Decidable (InRange HashCount h) := inferInstanceAs (Decidable (_ ∧ _))

def Expires (s : CBanPool T HashCount) (p : Nat) : Int := (s.m_aBans p).m_Info.m_Expires

/-- The loop of `InsertUsed`. -/
def InsertLoop (pBan : Nat) : Nat → CBanPool T HashCount → Nat → Exec (CBanPool T HashCount)
  | 0, _, _ => .error .diverges
  | n + 1, s, p =>
      if s.Expires p = EXPIRES_NEVER ∨
          (s.Expires pBan ≠ EXPIRES_NEVER ∧ s.Expires pBan ≤ s.Expires p) then
        -- insert before
        .ok (s.setUsed (s.usedList.insertBefore p pBan))
      else
        match s.m_pNext p with
        -- last entry
        | none => .ok (s.setUsed (s.usedList.insertLast p pBan))
        | some q => InsertLoop pBan n s q

def InsertUsed (s : CBanPool T HashCount) (pBan : Nat) : Exec (CBanPool T HashCount) :=
  match s.m_pFirstUsed with
  | some p => InsertLoop pBan (MAX_BANS + 1) s p
  | none => .ok { s with
      m_pFirstUsed := some pBan
      m_pNext := Function.update s.m_pNext pBan none
      m_pPrev := Function.update s.m_pPrev pBan none }

/-- Returns the new ban, or null when no slot is free. -/
def Add (s : CBanPool T HashCount) (pData : T) (pInfo : CBanInfo) (pNetHash : CNetHash) :
    Exec (CBanPool T HashCount × Option Nat) :=
  match s.m_pFirstFree with
  | none => .ok (s, none)
  | some pBan =>
      if ¬ InRange HashCount pNetHash then .error .outOfBounds
      else do
        -- create new ban
        let ban : CBan T := { m_Data := pData, m_Info := pInfo, m_NetHash := pNetHash }
        let s : CBanPool T HashCount := { s with m_aBans := Function.update s.m_aBans pBan ban }
        let s := s.setFree (s.freeList.unlink pBan)
        -- add it to the hash list
        let s := s.setHash pNetHash ((s.hashList pNetHash).pushFront pBan)
        -- insert it into the used list
        let s ← s.InsertUsed pBan
        -- update ban count
        return ({ s with m_CountUsed := s.m_CountUsed + 1 }, some pBan)

def Remove (s : CBanPool T HashCount) (pBan? : Option Nat) : Exec (CBanPool T HashCount × Int) :=
  match pBan? with
  | none => .ok (s, -1)
  | some pBan =>
      let h := (s.m_aBans pBan).m_NetHash
      if ¬ InRange HashCount h then .error .outOfBounds
      else
        -- remove from hash list
        let s := s.setHash h ((s.hashList h).unlink pBan)
        let s : CBanPool T HashCount := { s with
          m_pHashNext := Function.update s.m_pHashNext pBan none
          m_pHashPrev := Function.update s.m_pHashPrev pBan none }
        -- remove from used list
        let s := s.setUsed (s.usedList.unlink pBan)
        -- add to recycle list
        let s := s.setFree (s.freeList.pushFront pBan)
        -- update ban count
        .ok ({ s with m_CountUsed := s.m_CountUsed - 1 }, 0)

def Update (s : CBanPool T HashCount) (pBan : Nat) (pInfo : CBanInfo) :
    Exec (CBanPool T HashCount) :=
  let ban : CBan T := { s.m_aBans pBan with m_Info := pInfo }
  let s : CBanPool T HashCount := { s with m_aBans := Function.update s.m_aBans pBan ban }
  -- remove from used list
  let s := s.setUsed (s.usedList.unlink pBan)
  -- insert it into the used list
  s.InsertUsed pBan

def Reset [BanData T] (_ : CBanPool T HashCount) : CBanPool T HashCount :=
  { m_aapHashList := fun _ _ => none
    m_aBans := fun _ =>
      { m_Data := BanData.zero
        m_Info := { m_Expires := 0, m_aReason := [], m_VerbatimReason := false }
        m_NetHash := { m_Hash := 0, m_HashIndex := 0 } }
    m_pHashNext := fun _ => none
    m_pHashPrev := fun _ => none
    m_pNext := fun i => if i + 1 < MAX_BANS then some (i + 1) else none
    m_pPrev := fun i => if 0 < i ∧ i < MAX_BANS then some (i - 1) else none
    m_pFirstFree := some 0
    m_pFirstUsed := none
    m_CountUsed := 0 }

/-- The loop of `Find`. -/
def FindLoop [BanData T] (s : CBanPool T HashCount) (pData : T) :
    Nat → Option Nat → Exec (Option Nat)
  | _, none => .ok none
  | 0, some _ => .error .diverges
  | n + 1, some pBan =>
      if BanData.NetComp (s.m_aBans pBan).m_Data pData = 0 then .ok (some pBan)
      else FindLoop s pData n (s.m_pHashNext pBan)

def Find [BanData T] (s : CBanPool T HashCount) (pData : T) (pNetHash : CNetHash) :
    Exec (Option Nat) :=
  if ¬ InRange HashCount pNetHash then .error .outOfBounds
  else s.FindLoop pData MAX_BANS (s.m_aapHashList pNetHash.m_HashIndex pNetHash.m_Hash)

/-- The loop of `Get`. -/
def GetLoop (s : CBanPool T HashCount) : Nat → Option Nat → Option Nat
  | _, none => none
  | 0, some pBan => some pBan
  | n + 1, some pBan => s.GetLoop n (s.m_pNext pBan)

def Get (s : CBanPool T HashCount) (Index : Int) : Option Nat :=
  if Index < 0 ∨ Index ≥ s.m_CountUsed then none else s.GetLoop Index.toNat s.m_pFirstUsed

/-- The loop of `CNetBan::Update` for one pool. -/
def RemoveExpired (Now : Int) : Nat → CBanPool T HashCount → Exec (CBanPool T HashCount)
  | 0, _ => .error .diverges
  | n + 1, s =>
      match s.m_pFirstUsed with
      | none => .ok s
      | some pBan =>
          if s.Expires pBan ≠ EXPIRES_NEVER ∧ s.Expires pBan < Now then do
            let (s, _) ← s.Remove (some pBan)
            RemoveExpired Now n s
          else .ok s

end CBanPool

/-! ## Bans -/

abbrev CBanAddrPool := CBanPool NETADDR 1
abbrev CBanRangePool := CBanPool CNetRange 16

structure CNetBan where
  m_BanAddrPool : CBanAddrPool
  m_BanRangePool : CBanRangePool
  m_LocalhostIpV4 : NETADDR
  m_LocalhostIpV6 : NETADDR

namespace CNetBan

open CBanPool

/-- `Ban` on one pool: the pool and the result. -/
def Ban {T : Type} {HashCount : Nat} [BanData T] (s : CNetBan) (pBanPool : CBanPool T HashCount)
    (Now : Int) (pData : T) (Seconds : Int) (pReason : List UInt8) (VerbatimReason : Bool) :
    Exec (CBanPool T HashCount × Int) :=
  -- do not ban localhost
  if BanData.NetMatch pData s.m_LocalhostIpV4 || BanData.NetMatch pData s.m_LocalhostIpV6 then
    .ok (pBanPool, -1)
  else do
    -- set up info
    let Info : CBanInfo :=
      { m_Expires := if Seconds > 0 then Now + Seconds else EXPIRES_NEVER
        m_aReason := pReason.take (REASON_LENGTH - 1)
        m_VerbatimReason := VerbatimReason }
    -- check if it already exists
    let NetHash ← BanData.NetHash pData
    match ← pBanPool.Find pData NetHash with
    | some pBan => return (← pBanPool.Update pBan Info, 1)
    | none =>
        let (pBanPool, pBan) ← pBanPool.Add pData Info NetHash
        return (pBanPool, if pBan.isSome then 0 else -1)

/-- `Unban` on one pool. -/
def Unban {T : Type} {HashCount : Nat} [BanData T] (pBanPool : CBanPool T HashCount) (pData : T) :
    Exec (CBanPool T HashCount × Int) := do
  let NetHash ← BanData.NetHash pData
  match ← pBanPool.Find pData NetHash with
  | some pBan => return ((← pBanPool.Remove (some pBan)).1, 0)
  | none => return (pBanPool, -1)

def Update (s : CNetBan) (Now : Int) : Exec CNetBan := do
  let a ← s.m_BanAddrPool.RemoveExpired Now (MAX_BANS + 1)
  let r ← s.m_BanRangePool.RemoveExpired Now (MAX_BANS + 1)
  return { s with m_BanAddrPool := a, m_BanRangePool := r }

def BanAddr (s : CNetBan) (Now : Int) (pAddr : NETADDR) (Seconds : Int) (pReason : List UInt8)
    (VerbatimReason : Bool) : Exec CNetBan := do
  let (p, _) ← s.Ban s.m_BanAddrPool Now pAddr Seconds pReason VerbatimReason
  return { s with m_BanAddrPool := p }

def BanRange (s : CNetBan) (Now : Int) (pRange : CNetRange) (Seconds : Int)
    (pReason : List UInt8) : Exec CNetBan :=
  if pRange.IsValid then do
    let (p, _) ← s.Ban s.m_BanRangePool Now pRange Seconds pReason false
    return { s with m_BanRangePool := p }
  else .ok s

def UnbanByAddr (s : CNetBan) (pAddr : NETADDR) : Exec CNetBan := do
  let (p, _) ← Unban s.m_BanAddrPool pAddr
  return { s with m_BanAddrPool := p }

def UnbanByRange (s : CNetBan) (pRange : CNetRange) : Exec CNetBan :=
  if pRange.IsValid then do
    let (p, _) ← Unban s.m_BanRangePool pRange
    return { s with m_BanRangePool := p }
  else .ok s

def UnbanByIndex (s : CNetBan) (Index : Int) : Exec CNetBan :=
  match s.m_BanAddrPool.Get Index with
  | some pBan => do
      let (p, _) ← s.m_BanAddrPool.Remove (some pBan)
      return { s with m_BanAddrPool := p }
  | none =>
      match s.m_BanRangePool.Get (Index - s.m_BanAddrPool.m_CountUsed) with
      | some pBanRange => do
          let (p, _) ← s.m_BanRangePool.Remove (some pBanRange)
          return { s with m_BanRangePool := p }
      | none => .ok s

def UnbanAll (s : CNetBan) : CNetBan :=
  { s with m_BanAddrPool := s.m_BanAddrPool.Reset, m_BanRangePool := s.m_BanRangePool.Reset }

/-- The pools after `Init`; the memory holds garbage before. -/
def Init (s : CNetBan) (LocalhostIpV4 LocalhostIpV6 : NETADDR) : CNetBan :=
  { s.UnbanAll with m_LocalhostIpV4 := LocalhostIpV4, m_LocalhostIpV6 := LocalhostIpV6 }

/-- The inner loop over the ranges of one hash list. -/
def MatchLoop (s : CBanRangePool) (pAddr : NETADDR) (i Length : Nat) :
    Nat → Option Nat → Exec Bool
  | _, none => .ok false
  | 0, some _ => .error .diverges
  | n + 1, some pBanRange =>
      if NetMatchRange (s.m_aBans pBanRange).m_Data pAddr i Length then .ok true
      else MatchLoop s pAddr i Length n (s.m_pHashNext pBanRange)

/-- The loop over the lengths of prefixes, from `i - 1` down. -/
def RangeLoop (s : CBanRangePool) (pAddr : NETADDR) (aHash : List CNetHash) (Length : Nat) :
    Nat → Exec Bool
  | 0 => .ok false
  | i + 1 =>
      match aHash[i]? with
      | none => .error .outOfBounds
      | some h =>
          if ¬ InRange 16 h then .error .outOfBounds
          else do
            if ← MatchLoop s pAddr i Length MAX_BANS (s.m_aapHashList h.m_HashIndex h.m_Hash) then
              return true
            else RangeLoop s pAddr aHash Length i

def IsBanned (s : CNetBan) (pOrigAddr : NETADDR) : Exec Bool :=
  let pAddr := if pOrigAddr.type = NETTYPE_WEBSOCKET_IPV4 then
      { pOrigAddr with type := NETTYPE_IPV4 }
    else pOrigAddr
  let (aHash, Length) := MakeHashArray pAddr
  match aHash[Length]? with
  | none => .error .outOfBounds
  | some h => do
      -- check ban addresses
      match ← s.m_BanAddrPool.Find pAddr h with
      | some _ => return true
      -- check ban ranges
      | none => RangeLoop s.m_BanRangePool pAddr aHash Length Length

end CNetBan

end Fex.Engine.NetBan
