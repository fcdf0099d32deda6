import Fex.Engine.Datafile

/-!
# Opening a datafile

Model of `CDataFileReader::Open` on the bytes of a file, and of the accessors with the
addresses they read.  The machine is little-endian with pointers of 8 bytes, and a file
is read as it is.
-/

namespace Fex.Engine.DataFile

open Fex.Lib

/-! ## The header -/

structure CDatafileHeader where
  m_aId : List UInt8
  m_Version : Int
  m_Size : Int
  m_Swaplen : Int
  m_NumItemTypes : Int
  m_NumItems : Int
  m_NumRawData : Int
  m_ItemSize : Int
  m_DataSize : Int

/-- `sizeof(CDatafileHeader)` -/
def headerSize : Int := 36

/-- `CDatafileHeader::SizeOffset` -/
def SizeOffset : Int := 16

/-- `sizeof(CDatafile)` -/
def datafileSize : Int := 160

def MaxAllocSize : Int := 2147483648

namespace CDatafileHeader

variable (Header : CDatafileHeader)

def Valid : Prop :=
  0 ≤ Header.m_NumItemTypes ∧ Header.m_NumItemTypes ≤ MAX_ITEM_TYPE + 1 ∧ 0 ≤ Header.m_NumItems ∧
    0 ≤ Header.m_NumRawData ∧ 0 ≤ Header.m_ItemSize ∧ Header.m_ItemSize % 4 = 0 ∧
    0 ≤ Header.m_DataSize

instance : Decidable Header.Valid := inferInstanceAs (Decidable (_ ∧ _))

/-- v4 has uncompressed data sizes as well. -/
def SizeFix : Int := if Header.m_Version = 4 then 4 * Header.m_NumRawData else 0

def Size : Int :=
  12 * Header.m_NumItemTypes + 4 * Header.m_NumItems + 4 * Header.m_NumRawData + Header.SizeFix +
    Header.m_ItemSize

def AllocSize : Int := Header.Size + datafileSize + 8 * Header.m_NumRawData + 4 * Header.m_NumRawData

/-- A size of the header against that of the file, where maps of old tools lack `SizeFix`. -/
def fix (Field Actual : Int) (fixable : Bool) : Option Int :=
  if Field + SizeOffset = Actual then some Field
  else if fixable ∧ Header.SizeFix ≠ 0 ∧ Field + SizeOffset + Header.SizeFix = Actual then
    some (wrap32 (Field + Header.SizeFix))
  else none

end CDatafileHeader

/-! ## The file -/

/-- The item types in a table of `int`s. -/
def itemTypes : List Int → List CDatafileItemType
  | m_Type :: m_Start :: m_Num :: l => { m_Type, m_Start, m_Num } :: itemTypes l
  | _ => []

/-- `length` bytes of a block as a table of `int`s. -/
def table (m_pData : List UInt8) (start length : Int) : List Int :=
  ints ((m_pData.drop start.toNat).take length.toNat)

/-- The tables of a block one behind the other. -/
def info (Header : CDatafileHeader) (m_pData : List UInt8) : CDatafileInfo :=
  let types := 12 * Header.m_NumItemTypes
  let offsets := types + 4 * Header.m_NumItems
  let sizes := offsets + 4 * Header.m_NumRawData
  { m_pItemTypes := itemTypes (table m_pData 0 types)
    m_pItemOffsets := table m_pData types (4 * Header.m_NumItems)
    m_pDataOffsets := table m_pData offsets (4 * Header.m_NumRawData)
    m_pDataSizes :=
      if Header.m_Version = 4 then some (table m_pData sizes (4 * Header.m_NumRawData)) else none
    m_pItemStart := m_pData.drop (sizes + Header.SizeFix).toNat }

/-- A file that is open. -/
structure Opened where
  m_Header : CDatafileHeader
  m_pDataFile : CDatafile
  m_DataStartOffset : Int

/-- The end of `Open`, where the block is allocated and read. -/
def readBlock (malloc : Bool) (file : List UInt8) (Header : CDatafileHeader) :
    Exec (Option Opened) :=
  if Header.AllocSize > MaxAllocSize then .ok none
  else if ¬ malloc then .ok none
  else
    let m_pData := (file.drop 36).take Header.Size.toNat
    if (m_pData.length : Int) ≠ Header.Size then .ok none
    else
      -- the header was swapped before
      let DataSwapLen := Header.m_Swaplen - (headerSize - SizeOffset)
      if DataSwapLen ≠ Header.Size then .error .assertion
      else
        let m_pDataFile : CDatafile :=
          { m_Info := info Header m_pData, m_DataSize := Header.m_DataSize }
        if ¬ m_pDataFile.Validate then .ok none
        else .ok (some
          { m_Header := Header, m_pDataFile, m_DataStartOffset := headerSize + Header.Size })

section

variable (d : CDatafile)

def checkIndex (Index : Int) : Exec Unit :=
  if Index ≥ 0 ∧ Index < d.m_NumItems then .ok () else .error .assertion

/-- The table of offsets has `m_NumItems` entries. -/
def itemOffset (Index : Int) : Exec Int :=
  if 0 ≤ Index ∧ Index < d.m_NumItems then .ok (d.m_pItemOffsets Index) else .error .outOfBounds

def GetItemSize (Index : Int) : Exec Int := do
  checkIndex d Index
  if Index = d.m_NumItems - 1 then return d.m_ItemSize - (← itemOffset d Index) - 8
  else return (← itemOffset d (Index + 1)) - (← itemOffset d Index) - 8

/-- `CDatafile::GetItem` as a position in the item area. -/
def itemPos (Index : Int) : Exec Int := do
  checkIndex d Index
  itemOffset d Index

/-- An `int` of the item area. -/
def areaInt (pos : Int) : Exec Int :=
  if 0 ≤ pos ∧ pos + 4 ≤ d.m_ItemSize then .ok (readInt (d.m_Info.m_pItemStart.drop pos.toNat))
  else .error .outOfBounds

/-- `CDatafileItem::Type` -/
def itemType (pItem : Int) : Exec Int := do
  let m_TypeAndId ← areaInt d pItem
  return m_TypeAndId % 4294967296 / 65536

/-- `CDatafileItem::Id` -/
def itemId (pItem : Int) : Exec Int := do
  let m_TypeAndId ← areaInt d pItem
  return m_TypeAndId % 4294967296 % 65536

/-- The words of a `CItemEx`. -/
def ToUuid (pItemEx : Int) : Exec (List Int) :=
  (List.range 4).mapM fun k : Nat => areaInt d (pItemEx + 4 * k)

/-- `GetType` for an internal type. -/
def typeRange (InternalType : Int) : Int × Int :=
  match d.m_Info.m_pItemTypes.find? fun ItemType => ItemType.m_Type = InternalType with
  | none => (0, 0)
  | some ItemType => (ItemType.m_Start, ItemType.m_Num)

def findId (Id : Int) : Nat → Int → Exec Int
  | 0, _ => .ok (-1)
  | n + 1, Index => do
      let pItem ← itemPos d Index
      if (← itemId d pItem) = Id then return Index else findId Id n (Index + 1)

/-- `GetItem` returns the data, the external type and the id; it is called for the types of the
file again, where the type is that of `CItemEx` and no further call is made. -/
def GetItemWith (GetExternalItemType : Int → Exec Int) (Index : Int) : Exec (Int × Int × Int) := do
  let pItem ← itemPos d Index
  let ExternalType ← GetExternalItemType (← itemType d pItem)
  let Id ← itemId d pItem
  return (pItem + 8, ExternalType, Id)

-- the UUID manager on the four words of a UUID
variable (LookupUuid : List Int → Int) (GetUuid : Int → List Int)

def GetExternalItemTypeWith (GetItem : Int → Exec (Int × Int × Int)) (InternalType : Int) :
    Exec Int :=
  if InternalType ≤ OFFSET_UUID_TYPE ∨ InternalType = ITEMTYPE_EX then .ok InternalType
  else do
    let TypeIndex ← findId d InternalType (typeRange d ITEMTYPE_EX).2.toNat
      (typeRange d ITEMTYPE_EX).1
    if TypeIndex < 0 then return InternalType
    else if (← GetItemSize d TypeIndex) < 16 then return InternalType
    else
      let r ← GetItem TypeIndex
      let Uuid ← ToUuid d r.1
      return LookupUuid Uuid

def GetExternalItemType : Int → Exec Int :=
  GetExternalItemTypeWith d LookupUuid
    (GetItemWith d (GetExternalItemTypeWith d LookupUuid fun _ => .error .diverges))

def GetItem (Index : Int) : Exec (Int × Int × Int) :=
  GetItemWith d (GetExternalItemType d LookupUuid) Index

/-- The loop of `GetInternalItemType`. -/
def findUuid (Uuid : List Int) : Nat → Int → Exec Int
  | 0, _ => .ok (-1)
  | n + 1, Index => do
      if (← GetItemSize d Index) < 16 then findUuid Uuid n (Index + 1)
      else
        let r ← GetItem d LookupUuid Index
        if Uuid = (← ToUuid d r.1) then return r.2.2 else findUuid Uuid n (Index + 1)

def OFFSET_UUID : Int := 0x10000

def GetInternalItemType (ExternalType : Int) : Exec Int :=
  if ExternalType < OFFSET_UUID then .ok ExternalType
  else
    findUuid d LookupUuid (GetUuid ExternalType) (typeRange d ITEMTYPE_EX).2.toNat
      (typeRange d ITEMTYPE_EX).1

def GetType (type : Int) : Exec (Int × Int) := do
  let InternalType ← GetInternalItemType d LookupUuid GetUuid type
  return typeRange d InternalType

def FindItemIndex (type Id : Int) : Exec Int := do
  let r ← GetType d LookupUuid GetUuid type
  findId d Id r.2.toNat r.1

def FindItem (type Id : Int) : Exec (Option Int) := do
  let Index ← FindItemIndex d LookupUuid GetUuid type Id
  if Index < 0 then return none
  else
    let r ← GetItem d LookupUuid Index
    return some r.1

end

/-- Where `GetData` seeks to in the file, the addition is one of `int`s. -/
def Opened.seekPos (o : Opened) (Index : Int) : Int :=
  wrap32 (o.m_DataStartOffset + o.m_pDataFile.m_pDataOffsets Index)

end Fex.Engine.DataFile
