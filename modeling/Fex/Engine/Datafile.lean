import Fex.Lib.Ints

/-!
# Datafiles

Model of `CDatafile` and `CDataFileReader`: the check of a file that is opened, the
search for items and the data blocks that are loaded on demand.  An array has as
many entries as the header says.
-/

namespace Fex.Engine

open Fex.Lib

def MAX_ITEM_TYPE : Int := 0xFFFF
def ITEMTYPE_EX : Int := 0xFFFF
def OFFSET_UUID_TYPE : Int := 0x8000

structure CDatafileItemType where
  m_Type : Int
  m_Start : Int
  m_Num : Int

/-- Files of version 3 have no `m_pDataSizes`. -/
structure CDatafileInfo where
  m_pItemTypes : List CDatafileItemType
  m_pItemOffsets : List Int
  m_pDataOffsets : List Int
  m_pDataSizes : Option (List Int)
  m_pItemStart : List UInt8

structure CDatafile where
  m_Info : CDatafileInfo
  m_DataSize : Int

namespace CDatafile

variable (d : CDatafile)

def m_NumItems : Int := d.m_Info.m_pItemOffsets.length
def m_NumRawData : Int := d.m_Info.m_pDataOffsets.length
def m_ItemSize : Int := d.m_Info.m_pItemStart.length

def m_pItemOffsets (Index : Int) : Int := d.m_Info.m_pItemOffsets.getD Index.toNat 0
def m_pDataOffsets (Index : Int) : Int := d.m_Info.m_pDataOffsets.getD Index.toNat 0

def GetFileItemSize (Index : Int) : Int :=
  if Index = d.m_NumItems - 1 then d.m_ItemSize - d.m_pItemOffsets Index
  else d.m_pItemOffsets (Index + 1) - d.m_pItemOffsets Index

/-- The header of an item has 8 bytes. -/
def GetItemSize (Index : Int) : Int := d.GetFileItemSize Index - 8

/-- The `int` with the number `k` after the start of an item. -/
def itemInt (Index : Int) (k : Nat) : Int :=
  readInt (d.m_Info.m_pItemStart.drop (d.m_pItemOffsets Index + 4 * k).toNat)

/-- `CDatafileItem::Type` -/
def itemType (Index : Int) : Int := d.itemInt Index 0 % 4294967296 / 65536
def Id (Index : Int) : Int := d.itemInt Index 0 % 4294967296 % 65536
def m_Size (Index : Int) : Int := d.itemInt Index 1

/-- The contents of an item follow its header. -/
def itemField (Index : Int) (k : Nat) : Int := d.itemInt Index (k + 2)

def GetFileDataSize (Index : Int) : Int :=
  if Index = d.m_NumRawData - 1 then d.m_DataSize - d.m_pDataOffsets Index
  else d.m_pDataOffsets (Index + 1) - d.m_pDataOffsets Index

/-! ## The check of a file -/

/-- The items that the types count. -/
def countItems : List CDatafileItemType → List Int → Int → Option Int
  | [], _, CountedItems => some CountedItems
  | ItemType :: types, UsedItemTypes, CountedItems =>
      if ¬ (ItemType.m_Type ≥ 0 ∧ ItemType.m_Type ≤ MAX_ITEM_TYPE) then none
      else if ItemType.m_Type ∈ UsedItemTypes then none
      else if ¬ ItemType.m_Num > 0 then none
      else if ItemType.m_Start ≠ CountedItems then none
      else
        let CountedItems := CountedItems + ItemType.m_Num
        if CountedItems > d.m_NumItems then some CountedItems
        else countItems types (ItemType.m_Type :: UsedItemTypes) CountedItems

/-- The first offset is zero and the others grow up to the size. -/
def offsetsValid (size : Int) : Option Int → List Int → Bool
  | _, [] => true
  | none, Offset :: l => Offset = 0 ∧ Offset < size ∧ offsetsValid size (some Offset) l
  | some Prev, Offset :: l => Offset > Prev ∧ Offset < size ∧ offsetsValid size (some Offset) l

/-- The size with the items of one type. -/
def itemsValid (m_Type : Int) : Nat → Int → List Int → Int → Option Int
  | 0, _, _, TotalItemSize => some TotalItemSize
  | n + 1, ItemIndex, UsedItemIds, TotalItemSize =>
      let FileItemSize := d.GetFileItemSize ItemIndex
      if ¬ FileItemSize ≥ 8 then none
      else if d.itemType ItemIndex ≠ m_Type then none
      else if d.itemType ItemIndex ≠ ITEMTYPE_EX ∧ d.Id ItemIndex ∈ UsedItemIds then none
      else if ¬ d.m_Size ItemIndex ≥ 0 then none
      else if d.m_Size ItemIndex % 4 ≠ 0 then none
      else if d.m_Size ItemIndex ≠ d.GetItemSize ItemIndex then none
      else
        let TotalItemSize := TotalItemSize + FileItemSize
        if TotalItemSize > d.m_ItemSize then some TotalItemSize
        else itemsValid m_Type n (ItemIndex + 1) (d.Id ItemIndex :: UsedItemIds) TotalItemSize

def typesValid : List CDatafileItemType → Int → Option Int
  | [], TotalItemSize => some TotalItemSize
  | ItemType :: types, TotalItemSize => do
      let TotalItemSize ←
        d.itemsValid ItemType.m_Type ItemType.m_Num.toNat ItemType.m_Start [] TotalItemSize
      typesValid types TotalItemSize

def Validate : Bool :=
  d.countItems d.m_Info.m_pItemTypes [] 0 = some d.m_NumItems ∧
    offsetsValid d.m_ItemSize none d.m_Info.m_pItemOffsets ∧
    d.typesValid d.m_Info.m_pItemTypes 0 = some d.m_ItemSize ∧
    offsetsValid d.m_DataSize none d.m_Info.m_pDataOffsets ∧
    d.m_Info.m_pDataSizes.all fun sizes => sizes.all fun Size => Size ≥ 0

end CDatafile

/-! ## Items -/

/-- A datafile that was opened. -/
structure CDataFileReader extends CDatafile where
  accepted : toCDatafile.Validate = true
  sizes_length : ∀ sizes ∈ m_Info.m_pDataSizes, sizes.length = m_Info.m_pDataOffsets.length
  numItems_le : toCDatafile.m_NumItems ≤ intMax

namespace CDataFileReader

variable (d : CDataFileReader)

/-- An item that exists is asked for. -/
def checkIndex (Index : Int) : Exec Unit :=
  if Index ≥ 0 ∧ Index < d.m_NumItems then .ok () else .error .assertion

/-- Types that are no UUID, which are internal types as well. -/
def GetType (type : Int) : Int × Int :=
  match d.m_Info.m_pItemTypes.find? fun ItemType => ItemType.m_Type = type with
  | none => (0, 0)
  | some ItemType => (ItemType.m_Start, ItemType.m_Num)

def findId (Id : Int) : Nat → Int → Exec Int
  | 0, _ => .ok (-1)
  | n + 1, Index => do
      d.checkIndex Index
      if d.Id Index = Id then return Index else findId Id n (Index + 1)

def FindItemIndex (type Id : Int) : Exec Int :=
  d.findId Id (d.GetType type).2.toNat (d.GetType type).1

/-- The UUID of a type that is not a number, `none` is the type itself. -/
def GetExternalItemType (InternalType : Int) : Exec (Option (List Int)) :=
  if InternalType ≤ OFFSET_UUID_TYPE ∨ InternalType = ITEMTYPE_EX then .ok none
  else do
    let TypeIndex ← d.FindItemIndex ITEMTYPE_EX InternalType
    if TypeIndex < 0 ∨ d.GetItemSize TypeIndex < 16 then return none
    else return some ((List.range 4).map (d.itemField TypeIndex))

/-- The item is the number that was asked for. -/
def GetItem (Index : Int) : Exec Int := do
  d.checkIndex Index
  let _ ← d.GetExternalItemType (d.itemType Index)
  return Index

def FindItem (type Id : Int) : Exec (Option Int) := do
  let Index ← d.FindItemIndex type Id
  if Index < 0 then return none
  else
    let Item ← d.GetItem Index
    return some Item

/-- An `int` of an item is read. -/
def readField (Item : Int) (k : Nat) : Exec Int :=
  if 4 * (k + 1) ≤ d.GetItemSize Item then .ok (d.itemField Item k) else .error .outOfBounds

end CDataFileReader

/-! ## Data blocks -/

structure CTile where
  m_Index : UInt8
  m_Flags : UInt8
  m_Skip : UInt8
  m_Reserved : UInt8

/-- The whole tiles in a block of memory. -/
def tiles : List UInt8 → List CTile
  | b₀ :: b₁ :: b₂ :: b₃ :: l => ⟨b₀, b₁, b₂, b₃⟩ :: tiles l
  | _ => []

/-- A block as it is in the file or the tiles it was replaced by. -/
inductive Block
  | file (bytes : List UInt8)
  | replaced (tiles : List CTile)

def Block.tiles : Block → List CTile
  | .file bytes => Engine.tiles bytes
  | .replaced l => l

/-- The blocks in memory, and their sizes or -1 where loading failed. -/
structure CData where
  m_ppDataPtrs : Int → Option Block
  m_pDataSizes : Int → Int

namespace CDataFileReader

variable (d : CDataFileReader)

/-- The size of a block when it is loaded. -/
def fileSize (Index : Int) : Int :=
  match d.m_Info.m_pDataSizes with
  | some sizes => sizes.getD Index.toNat 0
  | none => d.GetFileDataSize Index

def GetDataSize (s : CData) (Index : Int) : Int :=
  if Index < 0 ∨ Index ≥ d.m_NumRawData then 0
  else
    match s.m_ppDataPtrs Index with
    | none => d.fileSize Index
    | some _ => if s.m_pDataSizes Index < 0 then 0 else s.m_pDataSizes Index

/-- What is read from the file and uncompressed, `none` where this fails or there is no memory. -/
abbrev ReadBlock := Int → Option (List UInt8)

/-- A block that has its size. -/
def content (read : ReadBlock) (Index : Int) : Option (List UInt8) :=
  if d.m_Info.m_pDataSizes.isSome ∧ d.fileSize Index = 0 then none
  else (read Index).filter fun bytes => bytes.length = d.fileSize Index

def GetData (read : ReadBlock) (s : CData) (Index : Int) : Option Block × CData :=
  if Index < 0 ∨ Index ≥ d.m_NumRawData then (none, s)
  else
    match s.m_ppDataPtrs Index with
    | some block => (some block, s)
    | none =>
        if s.m_pDataSizes Index < 0 then (none, s)
        else
          match d.content read Index with
          | none =>
              (none, { s with m_pDataSizes := fun i => if i = Index then -1 else s.m_pDataSizes i })
          | some bytes =>
              (some (.file bytes),
                { m_ppDataPtrs := fun i => if i = Index then some (.file bytes) else s.m_ppDataPtrs i
                  m_pDataSizes := fun i =>
                    if i = Index then d.fileSize Index else s.m_pDataSizes i })

/-- The size is stored in an `int`. -/
def ReplaceData (s : CData) (Index : Int) (pData : List CTile) (Size : Int) : Exec CData :=
  if Index ≥ 0 ∧ Index < d.m_NumRawData then
    .ok
      { m_ppDataPtrs := fun i => if i = Index then some (.replaced pData) else s.m_ppDataPtrs i
        m_pDataSizes := fun i => if i = Index then wrap32 Size else s.m_pDataSizes i }
  else .error .assertion

end CDataFileReader

end Fex.Engine

/-!
## Accepted files

The items of a type are items of a file that was accepted, so that the search for
an item does not leave them.
-/

namespace Fex.Engine

open Fex.Lib

variable {d : CDataFileReader}

theorem countItems_start {d : CDatafile} {types : List CDatafileItemType} {used : List Int}
    {n : Int} (h : d.countItems types used n = some d.m_NumItems) (hn : 0 ≤ n) :
    n ≤ d.m_NumItems ∧ ∀ t ∈ types, 0 ≤ t.m_Start ∧ 0 ≤ t.m_Num ∧
      t.m_Start + t.m_Num ≤ d.m_NumItems := by
  induction types generalizing used n with
  | nil =>
      cases h
      exact ⟨Int.le_refl _, fun t ht => by cases ht⟩
  | cons t types ih =>
      rw [CDatafile.countItems] at h
      split at h
      next => cases h
      next =>
        split at h
        next => cases h
        next =>
          split at h
          next => cases h
          next hnum =>
            split at h
            next => cases h
            next hstart =>
              simp only at h
              split at h
              next hgt =>
                injection h with h
                omega
              next =>
                obtain ⟨hle, hrest⟩ := ih h (by omega)
                refine ⟨by omega, fun t' ht' => ?_⟩
                rcases List.mem_cons.mp ht' with rfl | ht'
                · omega
                · exact hrest t' ht'

namespace CDataFileReader

theorem types_in_range (d : CDataFileReader) :
    ∀ t ∈ d.m_Info.m_pItemTypes, 0 ≤ t.m_Start ∧ 0 ≤ t.m_Num ∧
      t.m_Start + t.m_Num ≤ d.m_NumItems := by
  have haccepted := d.accepted
  unfold CDatafile.Validate at haccepted
  exact (countItems_start (of_decide_eq_true haccepted).1 (Int.le_refl 0)).2

/-- The items of a type are items of the file. -/
theorem getType_in_range (d : CDataFileReader) (type : Int) :
    0 ≤ (d.GetType type).1 ∧ 0 ≤ (d.GetType type).2 ∧
      (d.GetType type).1 + (d.GetType type).2 ≤ d.m_NumItems := by
  unfold GetType
  cases hfind : d.m_Info.m_pItemTypes.find? fun ItemType => ItemType.m_Type = type with
  | none => exact ⟨Int.le_refl 0, Int.le_refl 0, Int.natCast_nonneg _⟩
  | some t => exact d.types_in_range t (List.mem_of_find?_eq_some hfind)

theorem checkIndex_eq {Index : Int} (h : 0 ≤ Index ∧ Index < d.m_NumItems) :
    d.checkIndex Index = .ok () :=
  if_pos h

theorem findId_succeeds {Id : Int} {n : Nat} {Index : Int} (h₀ : 0 ≤ Index)
    (h₁ : Index + n ≤ d.m_NumItems) :
    ∃ r, d.findId Id n Index = .ok r ∧ (r = -1 ∨ 0 ≤ r ∧ r < d.m_NumItems) := by
  induction n generalizing Index with
  | zero => exact ⟨-1, rfl, .inl rfl⟩
  | succ n ih =>
      unfold findId
      rw [checkIndex_eq ⟨h₀, by omega⟩]
      show ∃ r, (if d.Id Index = Id then _ else _) = _ ∧ _
      split
      next => exact ⟨Index, rfl, .inr ⟨h₀, by omega⟩⟩
      next => exact ih (by omega) (by omega)

/-- The search for an item finds an item of the file or none. -/
theorem findItemIndex_succeeds (d : CDataFileReader) (type Id : Int) :
    ∃ r, d.FindItemIndex type Id = .ok r ∧ (r = -1 ∨ 0 ≤ r ∧ r < d.m_NumItems) := by
  obtain ⟨hstart, hnum, hend⟩ := d.getType_in_range type
  exact findId_succeeds hstart (by omega)

theorem getExternalItemType_succeeds (d : CDataFileReader) (type : Int) :
    ∃ r, d.GetExternalItemType type = .ok r := by
  unfold GetExternalItemType
  split
  next => exact ⟨none, rfl⟩
  next =>
    obtain ⟨r, hr, -⟩ := d.findItemIndex_succeeds ITEMTYPE_EX type
    rw [hr]
    show ∃ r', (if r < 0 ∨ d.GetItemSize r < 16 then _ else _) = Except.ok r'
    split
    next => exact ⟨_, rfl⟩
    next => exact ⟨_, rfl⟩

/-- Exactly the items of the file can be asked for. -/
theorem getItem_eq (d : CDataFileReader) (Index : Int) :
    d.GetItem Index =
      if 0 ≤ Index ∧ Index < d.m_NumItems then .ok Index else .error .assertion := by
  unfold GetItem
  split
  next h =>
    obtain ⟨r, hr⟩ := d.getExternalItemType_succeeds (d.itemType Index)
    rw [checkIndex_eq h, hr]
    rfl
  next h =>
    have hcheck : d.checkIndex Index = .error .assertion := if_neg h
    rw [hcheck]
    rfl

theorem findItem_succeeds (d : CDataFileReader) (type Id : Int) :
    ∃ r, d.FindItem type Id = .ok r := by
  unfold FindItem
  obtain ⟨r, hr, hrange⟩ := d.findItemIndex_succeeds type Id
  rw [hr]
  show ∃ r', (if r < 0 then _ else _) = Except.ok r'
  split
  next => exact ⟨none, rfl⟩
  next h =>
    rw [getItem_eq, if_pos (by omega)]
    exact ⟨_, rfl⟩

end CDataFileReader

end Fex.Engine
