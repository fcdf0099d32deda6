import Fex.Engine.Snapshot

/-!
# Deltas of snapshots

Model of `CSnapshotDelta`.  A delta that is created is a list of ints, a delta
that is unpacked is any block of bytes.  The statistics on data rates, which
nothing reads back, are left out.
-/

namespace Fex.Engine.Snapshot

open Fex.Lib

def MAX_NETOBJSIZES : Int := 64

structure CSnapshotDelta where
  m_aItemSizes : Nat → Nat
  m_aItemSizes7 : Nat → Nat

/-! ## Hash lists -/

def HASHLIST_SIZE : Nat := 256
def HASHLIST_BUCKET_SIZE : Nat := 64

/-- Keys and indices of one bucket, `m_Num` of them. -/
abbrev CItemList := List (Int × Nat)

def CalcHashId (Key : Int) : Nat :=
  -- djb2
  (intBytes Key).foldl (fun Hash b => (Hash * 33 + b.toNat) % 4294967296) 5381 % HASHLIST_SIZE

/-- The loop of `GenerateHash` from item `i` on. -/
def GenerateHashLoop (s : CSnapshot) : Nat → Nat → (Nat → CItemList) → Exec (Nat → CItemList)
  | 0, _, Hashlist => .ok Hashlist
  | n + 1, i, Hashlist => do
      let Item ← s.GetItem i
      let HashId := CalcHashId Item.Key
      if (Hashlist HashId).length < HASHLIST_BUCKET_SIZE then
        GenerateHashLoop s n (i + 1)
          (Function.update Hashlist HashId (Hashlist HashId ++ [(Item.Key, i)]))
      else GenerateHashLoop s n (i + 1) Hashlist

def GenerateHash (s : CSnapshot) : Exec (Nat → CItemList) :=
  GenerateHashLoop s s.m_NumItems 0 fun _ => []

/-- `none` is `-1`. -/
def GetItemIndexHashed (Key : Int) (Hashlist : Nat → CItemList) : Option Nat :=
  ((Hashlist (CalcHashId Key)).find? fun e => e.1 == Key).map Prod.snd

/-! ## Creating a delta -/

/-- The subtraction wraps. -/
def DiffItem (pPast pCurrent : List Int) : List Int :=
  List.zipWith (fun Past Current => wrap32 (Current - Past)) pPast pCurrent

/-- The addition wraps. -/
def UndiffItem (pPast pDiff : List Int) : List Int :=
  List.zipWith (fun Past Diff => wrap32 (Past + Diff)) pPast pDiff

namespace CSnapshotDelta

variable (d : CSnapshotDelta)

/-- The delta has the size of items of this type. -/
def IncludeSize (ItemType : Int) : Bool :=
  ItemType ≥ MAX_NETOBJSIZES || d.m_aItemSizes ItemType.toNat == 0

/-- What an item of the new snapshot adds to the delta and how many ints behind `pData` are
written for it. -/
def DeltaItem (pPastItem : Option CSnapshotItem) (pCurItem : CSnapshotItem) :
    Exec (List Int × Nat) :=
  let Current := ints pCurItem.Data
  let Header := [pCurItem.ItemType, pCurItem.Id] ++
    if d.IncludeSize pCurItem.ItemType then [(Current.length : Int)] else []
  match pPastItem with
  | some pPastItem =>
      if (ints pPastItem.Data).length < Current.length then .error .outOfBounds
      else
        let Diff := DiffItem (ints pPastItem.Data) Current
        -- the difference is written before it is known whether it is needed
        .ok (if Diff.any (· != 0) then Header ++ Diff else [],
          if Current.length = 0 then 0 else Header.length + Current.length)
  | none => .ok (Header ++ Current, Header.length + Current.length)

/-- The loop over the items of the old snapshot that are deleted. -/
def DeletedLoop (pFrom : CSnapshot) (Hashlist : Nat → CItemList) :
    Nat → Nat → List Int → Exec (List Int)
  | 0, _, Deleted => .ok Deleted
  | n + 1, i, Deleted => do
      let FromItem ← pFrom.GetItem i
      if (GetItemIndexHashed FromItem.Key Hashlist).isNone then
        DeletedLoop pFrom Hashlist n (i + 1) (Deleted ++ [FromItem.Key])
      else DeletedLoop pFrom Hashlist n (i + 1) Deleted

/-- The output of `CreateDelta`: the counts, the ints and how many of `pDstData` were written. -/
structure Output where
  m_NumDeletedItems : Nat
  m_NumUpdateItems : Nat
  m_aData : List Int
  Written : Nat

/-- The loop over the items of the new snapshot. -/
def UpdateItems (pFrom pTo : CSnapshot) (Hashlist : Nat → CItemList) :
    Nat → Nat → Output → Exec Output
  | 0, _, Out => .ok Out
  | n + 1, i, Out => do
      let CurItem ← pTo.GetItem i
      let PastItem ← match GetItemIndexHashed CurItem.Key Hashlist with
        | some PastIndex => (do return some (← pFrom.GetItem PastIndex) : Exec (Option CSnapshotItem))
        | none => .ok none
      let (Ints, Touched) ← d.DeltaItem PastItem CurItem
      UpdateItems pFrom pTo Hashlist n (i + 1)
        { Out with
          m_NumUpdateItems := if Ints.isEmpty then Out.m_NumUpdateItems else Out.m_NumUpdateItems + 1
          m_aData := Out.m_aData ++ Ints
          Written := max Out.Written (3 + Out.m_aData.length + Touched) }

/-- The delta and its size in bytes. -/
def CreateDelta (pFrom pTo : CSnapshot) : Exec (Output × Int) := do
  let Hashlist ← GenerateHash pTo
  -- pack deleted stuff
  let Deleted ← DeletedLoop pFrom Hashlist pFrom.m_NumItems 0 []
  let Hashlist ← GenerateHash pFrom
  let Out ← d.UpdateItems pFrom pTo Hashlist pTo.m_NumItems 0
    { m_NumDeletedItems := Deleted.length, m_NumUpdateItems := 0, m_aData := Deleted
      Written := 3 + Deleted.length }
  if Out.m_NumDeletedItems = 0 ∧ Out.m_NumUpdateItems = 0 then return (Out, 0)
  else return (Out, 4 * (3 + Out.m_aData.length : Nat))

/-- The bytes of a delta; `m_NumTempItems` is zero. -/
def Output.bytes (Out : Output) : List UInt8 :=
  ((Out.m_NumDeletedItems : Int) :: (Out.m_NumUpdateItems : Int) :: 0 :: Out.m_aData).flatMap intBytes

/-! ## Unpacking a delta -/

/-- An `int` of the delta, which must lie within it. -/
def readWord (src : List UInt8) (p : Nat) : Exec Int :=
  if 4 * (p + 1) ≤ src.length then .ok (intAt src (4 * p)) else .error .outOfBounds

variable (Obj_SixToSeven : Int → Int) (g_UuidManager : CUuidManager)

/-- The loop that copies all non deleted items; the left side is an error code. -/
def CopyLoop (pFrom : CSnapshot) (Deleted : List Int) :
    Nat → Nat → CSnapshotBuilder → Exec (Int ⊕ CSnapshotBuilder)
  | 0, _, Builder => .ok (.inr Builder)
  | n + 1, i, Builder => do
      let FromItem ← pFrom.GetItem i
      if FromItem.Key ∈ Deleted then CopyLoop pFrom Deleted n (i + 1) Builder
      else do
        let (Builder, pObj) ← Builder.NewItem Obj_SixToSeven g_UuidManager FromItem.ItemType FromItem.Id
          FromItem.Data.length
        match pObj with
        | .null => return .inl (-301)
        | .unused => CopyLoop pFrom Deleted n (i + 1) Builder
        | .data k => do
            let Builder ← Builder.WriteData k FromItem.Data
            CopyLoop pFrom Deleted n (i + 1) Builder

/-- The size of an item in bytes and the position behind it; the left side is an error code. -/
def UnpackSize (src : List UInt8) (Sixup : Bool) (ItemType : Int) (p : Nat) :
    Exec (Int ⊕ (Nat × Nat)) :=
  let pItemSizes := if Sixup then d.m_aItemSizes7 else d.m_aItemSizes
  if ItemType < MAX_NETOBJSIZES ∧ pItemSizes ItemType.toNat ≠ 0 then
    .ok (.inr (pItemSizes ItemType.toNat, p))
  else if src.length < 4 * (p + 1) then .ok (.inl (-103))
  else do
    let Size ← readWord src p
    if Size < 0 ∨ Size > 536870911 then return .inl (-204)
    else return .inr (4 * Size.toNat, p + 1)

/-- The item with the key, which is created if needed. -/
def FindOrCreate (Builder : CSnapshotBuilder) (ItemType Id : Int) (ItemSize : Nat) :
    Exec (CSnapshotBuilder × CItemPtr) :=
  match Builder.GetItemData (makeKey ItemType Id) with
  | some k => .ok (Builder, .data k)
  | none => Builder.NewItem Obj_SixToSeven g_UuidManager ItemType Id ItemSize

/-- The new data of an item: the difference is applied or the data copied. -/
def UnpackData (pFrom : CSnapshot) (Key : Int) (Payload : List UInt8) : Exec (List UInt8) := do
  match ← pFrom.GetItemIndex Key with
  | some FromIndex =>
      let FromItem ← pFrom.GetItem FromIndex
      if FromItem.Data.length / 4 < Payload.length / 4 then .error .outOfBounds
      else return (UndiffItem (ints FromItem.Data) (ints Payload)).flatMap intBytes
  | none => return Payload

/-- The loop over the updated items. -/
def UpdateLoop (pFrom : CSnapshot) (src : List UInt8) (Sixup : Bool) :
    Nat → Nat → CSnapshotBuilder → Exec (Int ⊕ CSnapshotBuilder)
  | 0, _, Builder => .ok (.inr Builder)
  | n + 1, p, Builder =>
      if src.length < 4 * (p + 2) then .ok (.inl (-102))
      else do
        let ItemType ← readWord src p
        if ItemType < 0 ∨ ItemType > MAX_TYPE then return .inl (-202)
        else do
          let Id ← readWord src (p + 1)
          if Id < 0 ∨ Id > MAX_ID then return .inl (-203)
          else do
            match ← d.UnpackSize src Sixup ItemType (p + 2) with
            | .inl Error => return .inl Error
            | .inr (ItemSize, p) =>
                if src.length < 4 * p + ItemSize then return .inl (-205)
                else do
                  let (Builder, pNewData) ←
                    FindOrCreate Obj_SixToSeven g_UuidManager Builder ItemType Id ItemSize
                  match pNewData with
                  | .null => return .inl (-302)
                  | .unused => UpdateLoop pFrom src Sixup n (p + ItemSize / 4) Builder
                  | .data k => do
                      let Data ← UnpackData pFrom (makeKey ItemType Id)
                        ((src.drop (4 * p)).take ItemSize)
                      let Builder ← Builder.WriteData k Data
                      UpdateLoop pFrom src Sixup n (p + ItemSize / 4) Builder

/-- The snapshot, or an error code. -/
def UnpackDelta (pFrom : CSnapshot) (src : List UInt8) (Sixup : Bool) : Exec (Int ⊕ CSnapshot) := do
  let NumDeletedItems ← readWord src 0
  if NumDeletedItems < 0 then return .inl (-201)
  else if src.length < 4 * (3 + NumDeletedItems.toNat) then return .inl (-101)
  else do
    let NumUpdateItems ← readWord src 1
    let Deleted := (ints (src.drop 12)).take NumDeletedItems.toNat
    let Builder ← CSnapshotBuilder.new.Init Obj_SixToSeven g_UuidManager false
    match ← CopyLoop Obj_SixToSeven g_UuidManager pFrom Deleted pFrom.m_NumItems 0 Builder with
    | .inl Error => return .inl Error
    | .inr Builder =>
        match ← d.UpdateLoop Obj_SixToSeven g_UuidManager pFrom src Sixup NumUpdateItems.toNat
          (3 + NumDeletedItems.toNat) Builder with
        | .inl Error => return .inl Error
        | .inr Builder => return .inr (← Builder.Finish).1

end CSnapshotDelta

/-- The sum of all ints of the items. -/
def CSnapshot.CrcLoop (s : CSnapshot) : Nat → Nat → Int → Exec Int
  | 0, _, Crc => .ok Crc
  | n + 1, i, Crc => do
      let Item ← s.GetItem i
      CrcLoop s n (i + 1) ((Crc + (ints Item.Data).sum) % 4294967296)

def CSnapshot.Crc (s : CSnapshot) : Exec Int := s.CrcLoop s.m_NumItems 0 0

end Fex.Engine.Snapshot
