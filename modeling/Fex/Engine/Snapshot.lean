import Fex.Lib.Ints
import Fex.Lib.Memory
import Mathlib.Logic.Function.Basic

/-!
# Snapshots

Model of `snapshot.h`, `snapshot.cpp` and of the UUID manager.  A `CSnapshot`
is the ints and the bytes behind its header, whose fields are the two lengths.
The pointer to the data of an item is the index of the item.  `Obj_SixToSeven`
is generated code and a parameter here.
-/

namespace Fex.Engine.Snapshot

open Fex.Lib

/-! ## UUIDs -/

def UUID_UNKNOWN : Int := -1
def OFFSET_UUID : Int := 65536

abbrev CUuid := Vector UInt8 16

/-- `operator<` -/
def CUuid.less (a b : CUuid) : Bool := mem_comp a.toList b.toList < 0

structure CNameIndexed where
  m_Uuid : CUuid
  m_Id : Int

/-- The names are only printed. -/
structure CUuidManager where
  m_vNames : List CUuid
  m_vNamesSorted : List CNameIndexed

namespace CUuidManager

def GetUuid (m : CUuidManager) (Id : Int) : Exec CUuid :=
  if Id < OFFSET_UUID then .error .outOfBounds
  else
    match m.m_vNames[(Id - OFFSET_UUID).toNat]? with
    | none => .error .outOfBounds
    | some Uuid => .ok Uuid

/-- `std::equal_range` -/
def EqualRange (m : CUuidManager) (Uuid : CUuid) : List CNameIndexed :=
  (m.m_vNamesSorted.dropWhile fun e => e.m_Uuid.less Uuid).takeWhile fun e => !Uuid.less e.m_Uuid

def LookupUuid (m : CUuidManager) (Uuid : CUuid) : Int :=
  match m.EqualRange Uuid with
  | [e] => e.m_Id + OFFSET_UUID
  | _ => UUID_UNKNOWN

/-- `Uuid` is the hash of the name. -/
def RegisterName (m : CUuidManager) (Id : Int) (Uuid : CUuid) : Exec CUuidManager :=
  if Id - OFFSET_UUID ≠ m.m_vNames.length then .error .assertion
  else if m.LookupUuid Uuid ≠ UUID_UNKNOWN then .error .assertion
  else .ok
    { m_vNames := m.m_vNames ++ [Uuid]
      m_vNamesSorted :=
        (m.m_vNamesSorted.takeWhile fun e => e.m_Uuid.less Uuid) ++
          { m_Uuid := Uuid, m_Id := Id - OFFSET_UUID } ::
          m.m_vNamesSorted.dropWhile fun e => e.m_Uuid.less Uuid }

end CUuidManager

/-! ## Snapshots -/

def OFFSET_UUID_TYPE : Int := 0x4000
def MAX_TYPE : Int := 0x7fff
def MAX_ID : Int := 0xffff
def MAX_ITEMS : Nat := 1024
def MAX_PARTS : Nat := 64
def MAX_SIZE : Nat := MAX_PARTS * 1024

/-- An item with the bytes of its data. -/
structure CSnapshotItem where
  m_TypeAndId : Int
  Data : List UInt8
  deriving DecidableEq

namespace CSnapshotItem

def ItemType (i : CSnapshotItem) : Int := i.m_TypeAndId / 65536
def Id (i : CSnapshotItem) : Int := i.m_TypeAndId % 65536
def Key (i : CSnapshotItem) : Int := i.m_TypeAndId

end CSnapshotItem

/-- `(Type << 16) | Id` -/
def makeKey (ItemType Id : Int) : Int := ((BitVec.ofInt 32 ItemType <<< 16) ||| BitVec.ofInt 32 Id).toInt

structure CSnapshot where
  Offsets : List Int
  DataStart : List UInt8

namespace CSnapshot

def m_NumItems (s : CSnapshot) : Nat := s.Offsets.length
def m_DataSize (s : CSnapshot) : Nat := s.DataStart.length

def TotalSize (s : CSnapshot) : Nat := 8 + 4 * s.m_NumItems + s.m_DataSize

/-- `Index` is less than `m_NumItems`. -/
def GetItemSize (s : CSnapshot) (Index : Nat) : Int :=
  if Index + 1 = s.m_NumItems then s.m_DataSize - s.Offsets.getD Index 0 - 4
  else s.Offsets.getD (Index + 1) 0 - s.Offsets.getD Index 0 - 4

def IsValid (s : CSnapshot) (ActualSize : Nat) : Bool :=
  -- validate total size
  if ActualSize < 8 ∨ ActualSize > MAX_SIZE ∨ s.m_NumItems > MAX_ITEMS ∨ ActualSize ≠ s.TotalSize then
    false
  else
    -- validate item offsets and item sizes
    (s.Offsets.all fun o => 0 ≤ o ∧ o ≤ s.m_DataSize) &&
      (List.range s.m_NumItems).all fun Index => 0 ≤ s.GetItemSize Index

/-- The item and its data, which lie within the snapshot. -/
def GetItem (s : CSnapshot) (Index : Nat) : Exec CSnapshotItem :=
  match s.Offsets[Index]? with
  | none => .error .outOfBounds
  | some o =>
      let Size := s.GetItemSize Index
      if 0 ≤ o ∧ 0 ≤ Size ∧ o + 4 + Size ≤ s.m_DataSize then
        .ok { m_TypeAndId := intAt s.DataStart o.toNat
              Data := (s.DataStart.drop (o.toNat + 4)).take Size.toNat }
      else .error .outOfBounds

/-- The loop of `GetItemIndex` from `i` on. -/
def GetItemIndexLoop (s : CSnapshot) (Key : Int) : Nat → Nat → Exec (Option Nat)
  | 0, _ => .ok none
  | n + 1, i => do
      let Item ← s.GetItem i
      if Item.Key = Key then return some i
      else GetItemIndexLoop s Key n (i + 1)

/-- `none` is `-1`. -/
def GetItemIndex (s : CSnapshot) (Key : Int) : Exec (Option Nat) :=
  s.GetItemIndexLoop Key s.m_NumItems 0

def GetExternalItemType (g_UuidManager : CUuidManager) (s : CSnapshot) (InternalType : Int) :
    Exec Int :=
  if InternalType < OFFSET_UUID_TYPE then .ok InternalType
  else do
    match ← s.GetItemIndex InternalType with
    | none => return InternalType
    | some TypeItemIndex =>
        if s.GetItemSize TypeItemIndex < 16 then return InternalType
        else
          let TypeItem ← s.GetItem TypeItemIndex
          let Bytes := bytesBE (ints (TypeItem.Data.take 16))
          if h : Bytes.length = 16 then
            return g_UuidManager.LookupUuid ⟨⟨Bytes⟩, h⟩
          else .error .outOfBounds

def GetItemType (g_UuidManager : CUuidManager) (s : CSnapshot) (Index : Nat) : Exec Int := do
  let Item ← s.GetItem Index
  s.GetExternalItemType g_UuidManager Item.ItemType

/-- The loop of `FindItem` over the items that describe extended types. -/
def FindTypeLoop (s : CSnapshot) (aTypeUuidItem : List UInt8) : Nat → Nat → Exec (Option Int)
  | 0, _ => .ok none
  | n + 1, i => do
      let Item ← s.GetItem i
      if Item.ItemType = 0 ∧ Item.Id ≥ OFFSET_UUID_TYPE then
        if Item.Data.length < 16 then .error .outOfBounds
        else if mem_comp (Item.Data.take 16) aTypeUuidItem = 0 then return some Item.Id
        else FindTypeLoop s aTypeUuidItem n (i + 1)
      else FindTypeLoop s aTypeUuidItem n (i + 1)

/-- The bytes of the item that describes an extended type. -/
def uuidData (Uuid : CUuid) : List UInt8 := (intsBE Uuid.toList).flatMap intBytes

/-- The first part of `FindItem`: the type under which items are stored. -/
def FindInternalType (g_UuidManager : CUuidManager) (s : CSnapshot) (ItemType : Int) :
    Exec (Option Int) :=
  if ItemType ≥ OFFSET_UUID then do
    let TypeUuid ← g_UuidManager.GetUuid ItemType
    s.FindTypeLoop (uuidData TypeUuid) s.m_NumItems 0
  else .ok (some ItemType)

/-- The data of the item, `none` is null. -/
def FindItem (g_UuidManager : CUuidManager) (s : CSnapshot) (ItemType Id : Int) :
    Exec (Option (List UInt8)) := do
  match ← s.FindInternalType g_UuidManager ItemType with
  | none => return none
  | some InternalType =>
      match ← s.GetItemIndex (makeKey InternalType Id) with
      | none => return none
      | some Index => return some (← s.GetItem Index).Data

end CSnapshot

/-! ## Building snapshots -/

def MAX_EXTENDED_ITEM_TYPES : Nat := 64

/-- The bytes and offsets in use; `m_DataSize` and `m_NumItems` are their numbers. -/
structure CSnapshotBuilder where
  m_aData : List UInt8
  m_aOffsets : List Nat
  m_aExtendedItemTypes : List Int
  m_Sixup : Bool

/-- What `NewItem` returns: null, the data of an item or memory that no item uses. -/
inductive CItemPtr
  | null
  | data (Index : Nat)
  | unused
  deriving DecidableEq

namespace CSnapshotBuilder

def m_DataSize (b : CSnapshotBuilder) : Nat := b.m_aData.length
def m_NumItems (b : CSnapshotBuilder) : Nat := b.m_aOffsets.length
def m_NumExtendedItemTypes (b : CSnapshotBuilder) : Nat := b.m_aExtendedItemTypes.length

/-- Where the data of an item ends. -/
def ItemEnd (b : CSnapshotBuilder) (Index : Nat) : Nat :=
  (b.m_aOffsets[Index + 1]?).getD b.m_DataSize

/-- Writes to the data of an item, which must hold it. -/
def WriteData (b : CSnapshotBuilder) (Index : Nat) (bytes : List UInt8) : Exec CSnapshotBuilder :=
  match b.m_aOffsets[Index]? with
  | none => .error .outOfBounds
  | some o =>
      if o + 4 + bytes.length ≤ b.ItemEnd Index then
        .ok { b with
          m_aData := b.m_aData.take (o + 4) ++ bytes ++ b.m_aData.drop (o + 4 + bytes.length) }
      else .error .outOfBounds

/-- The loop of `GetItemData` from `i` on. -/
def GetItemDataLoop (b : CSnapshotBuilder) (Key : Int) : List Nat → Nat → Option Nat
  | [], _ => none
  | o :: os, i => if intAt b.m_aData o = Key then some i else GetItemDataLoop b Key os (i + 1)

def GetItemData (b : CSnapshotBuilder) (Key : Int) : Option Nat :=
  b.GetItemDataLoop Key b.m_aOffsets 0

def Finish (b : CSnapshotBuilder) : Exec (CSnapshot × Nat) :=
  if b.m_NumItems > MAX_ITEMS then .error .assertion
  else
    let Snap : CSnapshot := { Offsets := b.m_aOffsets.map Int.ofNat, DataStart := b.m_aData }
    if Snap.TotalSize > MAX_SIZE then .error .assertion else .ok (Snap, Snap.TotalSize)

def GetTypeFromIndex (Index : Nat) : Int := MAX_TYPE - Index

/-- The check for room of `NewItem`. -/
def HasRoom (b : CSnapshotBuilder) (Size : Nat) : Prop :=
  b.m_NumItems < MAX_ITEMS ∧ 8 + (b.m_NumItems + 1) * 4 + b.m_DataSize + (4 + Size) ≤ MAX_SIZE

instance (b : CSnapshotBuilder) (Size : Nat) : Decidable (b.HasRoom Size) :=
  inferInstanceAs (Decidable (_ ∧ _))

/-- The writes of `NewItem`, which must not leave `m_aData` and `m_aOffsets`. -/
def PutItem (b : CSnapshotBuilder) (ItemType Id : Int) (Size : Nat) :
    Exec (CSnapshotBuilder × CItemPtr) :=
  if MAX_SIZE < b.m_DataSize + (4 + Size) ∨ MAX_ITEMS ≤ b.m_NumItems then .error .outOfBounds
  else .ok
    ({ b with
        m_aData := b.m_aData ++ (intBytes (makeKey ItemType Id) ++ List.replicate Size 0)
        m_aOffsets := b.m_aOffsets ++ [b.m_DataSize] }, .data b.m_NumItems)

variable (Obj_SixToSeven : Int → Int) (g_UuidManager : CUuidManager)

/-- `NewItem`, with the function it calls for extended types. -/
def NewItemWith
    (GetExtendedItemTypeIndex : CSnapshotBuilder → Int → Exec (CSnapshotBuilder × Option Nat))
    (b : CSnapshotBuilder) (ItemType Id : Int) (Size : Nat) : Exec (CSnapshotBuilder × CItemPtr) :=
  if Id = -1 then .ok (b, .null)
  else if ¬ b.HasRoom Size then .ok (b, .null)
  else if ItemType ≥ OFFSET_UUID then do
    let (b, ExtendedItemTypeIndex) ← GetExtendedItemTypeIndex b ItemType
    match ExtendedItemTypeIndex with
    | none => return (b, .null)
    | some Index => b.PutItem (GetTypeFromIndex Index) Id Size
  else if b.m_Sixup then
    let ItemType := if ItemType ≥ 0 then Obj_SixToSeven ItemType else -ItemType
    if ItemType < 0 then .ok (b, .unused) else b.PutItem ItemType Id Size
  else if ItemType < 0 then .ok (b, .null)
  else b.PutItem ItemType Id Size

/-- ItemType 0 is not extended, so the call of `NewItem` makes no further call. -/
def AddExtendedItemType (b : CSnapshotBuilder) (Index : Nat) : Exec (CSnapshotBuilder × Bool) := do
  let (b, pUuidItem) ← b.NewItemWith Obj_SixToSeven (fun _ _ => .error .diverges) 0
    (GetTypeFromIndex Index) 16
  match pUuidItem, b.m_aExtendedItemTypes[Index]? with
  | _, none => .error .assertion
  | .null, _ => return (b, false)
  | .data i, some TypeId => do
      let Uuid ← g_UuidManager.GetUuid TypeId
      return (← b.WriteData i (CSnapshot.uuidData Uuid), true)
  | .unused, some TypeId => do
      let _ ← g_UuidManager.GetUuid TypeId
      return (b, true)

/-- `none` is `-1`. -/
def GetExtendedItemTypeIndex (b : CSnapshotBuilder) (TypeId : Int) :
    Exec (CSnapshotBuilder × Option Nat) :=
  match b.m_aExtendedItemTypes.findIdx? (· == TypeId) with
  | some i => .ok (b, some i)
  | none =>
      if b.m_NumExtendedItemTypes ≥ MAX_EXTENDED_ITEM_TYPES then .error .assertion
      else do
        let Index := b.m_NumExtendedItemTypes
        let b : CSnapshotBuilder :=
          { b with m_aExtendedItemTypes := b.m_aExtendedItemTypes ++ [TypeId] }
        let (b, Added) ← b.AddExtendedItemType Obj_SixToSeven g_UuidManager Index
        if Added then return (b, some Index)
        else
          return ({ b with m_aExtendedItemTypes := b.m_aExtendedItemTypes.dropLast }, none)

def NewItem (b : CSnapshotBuilder) (ItemType Id : Int) (Size : Nat) :
    Exec (CSnapshotBuilder × CItemPtr) :=
  b.NewItemWith Obj_SixToSeven (GetExtendedItemTypeIndex Obj_SixToSeven g_UuidManager) ItemType Id Size

/-- The loop of `Init` over the extended types from `i` on. -/
def InitLoop : Nat → Nat → CSnapshotBuilder → Exec CSnapshotBuilder
  | 0, _, b => .ok b
  | n + 1, i, b => do
      let (b, _) ← b.AddExtendedItemType Obj_SixToSeven g_UuidManager i
      InitLoop n (i + 1) b

def Init (b : CSnapshotBuilder) (Sixup : Bool) : Exec CSnapshotBuilder :=
  InitLoop Obj_SixToSeven g_UuidManager b.m_NumExtendedItemTypes 0
    { b with m_aData := [], m_aOffsets := [], m_Sixup := Sixup }

end CSnapshotBuilder

/-- After the constructor. -/
def CSnapshotBuilder.new : CSnapshotBuilder :=
  { m_aData := [], m_aOffsets := [], m_aExtendedItemTypes := [], m_Sixup := false }

end Fex.Engine.Snapshot
