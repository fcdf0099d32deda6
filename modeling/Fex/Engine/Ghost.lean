import Fex.Base.Strings
import Fex.Engine.Compression
import Fex.Engine.Network
import Fex.Engine.SnapshotDelta

/-!
# Ghost files

Model of `CGhostRecorder` and `CGhostLoader`.  A file is the list of its bytes, and opening,
writing and reading it succeed.  Of a buffer the model has the part that is in use.
-/

namespace Fex.Engine.Ghost

open Fex.Lib Fex.Base

def MAX_ITEM_SIZE : Nat := 128
def NUM_ITEMS_PER_CHUNK : Nat := 50
def MAX_CHUNK_SIZE : Nat := MAX_ITEM_SIZE * NUM_ITEMS_PER_CHUNK
def MAX_NAME_LENGTH : Nat := 16

def gs_aHeaderMarker : List UInt8 := [84, 87, 71, 72, 79, 83, 84, 0]
def gs_CurVersion : UInt8 := 6

/-- Four bytes, the most significant one first. -/
def uint_to_bytes_be (value : Int) : List UInt8 :=
  let n := (value % 4294967296).toNat
  [UInt8.ofNat (n / 16777216), UInt8.ofNat (n / 65536), UInt8.ofNat (n / 256), UInt8.ofNat n]

def bytes_be_to_uint (bytes : List UInt8) : Nat := bytes.foldl (fun n b => 256 * n + b.toNat) 0

/-! ## The header -/

structure SHA256_DIGEST where
  data : List UInt8
  size : data.length = 32

structure CGhostHeader where
  m_aMarker : List UInt8
  m_Version : UInt8
  m_aOwner : List UInt8
  m_aMap : List UInt8
  m_aZeroes : List UInt8
  m_aNumTicks : List UInt8
  m_aTime : List UInt8
  m_MapSha256 : List UInt8

/-- `sizeof(CGhostHeader)` -/
def sizeofHeader : Nat := 133

/-- `offsetof(CGhostHeader, m_aNumTicks)` -/
def offsetofNumTicks : Nat := 93

/-- `sizeof(SHA256_DIGEST)` -/
def sizeofSha256 : Nat := 32

/-- What `str_copy` leaves in an array of zeros. -/
def copyField (src : List UInt8) (size : Nat) : List UInt8 :=
  let copied := src.take (size - 1)
  let fixed := str_copy src size
  let bytes := fixed ++ 0 :: copied.drop (fixed.length + 1)
  bytes ++ List.replicate (size - bytes.length) 0

/-- The string in an array. -/
def cstr (field : List UInt8) : List UInt8 := field.takeWhile (· != 0)

namespace CGhostHeader

def bytes (Header : CGhostHeader) : List UInt8 :=
  Header.m_aMarker ++ Header.m_Version :: Header.m_aOwner ++ Header.m_aMap ++ Header.m_aZeroes ++
    Header.m_aNumTicks ++ Header.m_aTime ++ Header.m_MapSha256

def ofBytes (bytes : List UInt8) : CGhostHeader :=
  { m_aMarker := bytes.take 8
    m_Version := bytes.getD 8 0
    m_aOwner := (bytes.drop 9).take MAX_NAME_LENGTH
    m_aMap := (bytes.drop 25).take 64
    m_aZeroes := (bytes.drop 89).take 4
    m_aNumTicks := (bytes.drop 93).take 4
    m_aTime := (bytes.drop 97).take 4
    m_MapSha256 := (bytes.drop 101).take sizeofSha256 }

def GetTicks (Header : CGhostHeader) : Int := wrap32 (bytes_be_to_uint Header.m_aNumTicks)

def GetTime (Header : CGhostHeader) : Int := wrap32 (bytes_be_to_uint Header.m_aTime)

/-- `CGhostLoader::ValidateHeader` -/
def Validate (Header : CGhostHeader) : Bool :=
  if Header.m_aMarker ≠ gs_aHeaderMarker then false
  else if Header.m_Version < 4 ∨ Header.m_Version > gs_CurVersion then false
  else if 0 ∉ Header.m_aOwner ∨ str_utf8_check (cstr Header.m_aOwner) = false then false
  else if 0 ∉ Header.m_aMap ∨ str_utf8_check (cstr Header.m_aMap) = false then false
  else if Header.GetTicks ≤ 0 then false
  else if Header.GetTime ≤ 0 then false
  else true

/-- `CGhostLoader::CheckHeaderMap` -/
def CheckMap (Header : CGhostHeader) (pMap : List UInt8) (MapSha256 : SHA256_DIGEST)
    (MapCrc : Nat) (m_ClRaceGhostStrictMap : Bool) : Bool :=
  if cstr Header.m_aMap ≠ pMap then false
  else if Header.m_Version ≥ 6 then
    ¬ (Header.m_MapSha256 ≠ MapSha256.data ∧ m_ClRaceGhostStrictMap = true)
  else ¬ (bytes_be_to_uint Header.m_aZeroes ≠ MapCrc ∧ m_ClRaceGhostStrictMap = true)

end CGhostHeader

/-! ## Items -/

/-- An item with the words of its data that are set. -/
structure CGhostItem where
  m_Type : Int
  m_aData : List Int

def CGhostItem.Reset (Item : CGhostItem) : CGhostItem := { Item with m_Type := -1 }

/-- Words of the past item that are not set cannot be read. -/
def DiffItem (pPast pCurrent : List Int) : Exec (List Int) :=
  if pPast.length < pCurrent.length then .error .outOfBounds
  else .ok (Snapshot.DiffItem pPast pCurrent)

def UndiffItem (pPast pDiff : List Int) : Exec (List Int) :=
  if pPast.length < pDiff.length then .error .outOfBounds
  else .ok (Snapshot.UndiffItem pPast pDiff)

/-- The assertions on the arguments of `WriteData` and `ReadData`. -/
def ValidItem (ItemType : Int) (Size : Nat) : Prop :=
  (0 ≤ ItemType ∧ ItemType ≤ 255) ∧ 0 < Size ∧ Size ≤ MAX_ITEM_SIZE ∧ Size % 4 = 0

instance (ItemType : Int) (Size : Nat) : Decidable (ValidItem ItemType Size) :=
  inferInstanceAs (Decidable (_ ∧ _))

/-! ## The recorder -/

/-- `m_File` has what was written to the open file, `m_aBuffer` the words before `m_pBufferPos`. -/
structure CGhostRecorder where
  m_File : Option (List UInt8)
  m_aBuffer : List Int
  m_BufferNumItems : Nat
  m_LastItem : CGhostItem

namespace CGhostRecorder

def new : CGhostRecorder :=
  { m_File := none, m_aBuffer := [], m_BufferNumItems := 0
    m_LastItem := { m_Type := -1, m_aData := [] } }

def ResetBuffer (r : CGhostRecorder) : CGhostRecorder :=
  { r with m_aBuffer := [], m_BufferNumItems := 0 }

/-- Both ends of `FlushChunk`, with the bytes that were written. -/
def flushed (r : CGhostRecorder) (File : List UInt8) : CGhostRecorder :=
  { r with m_File := some File, m_LastItem := r.m_LastItem.Reset }.ResetBuffer

def Start (r : CGhostRecorder) (pMap : List UInt8) (MapSha256 : SHA256_DIGEST)
    (pName : List UInt8) : Exec CGhostRecorder :=
  if r.m_File.isSome then .error .assertion
  else
    let Header : CGhostHeader :=
      { m_aMarker := gs_aHeaderMarker
        m_Version := gs_CurVersion
        m_aOwner := copyField pName MAX_NAME_LENGTH
        m_aMap := copyField pMap 64
        m_aZeroes := List.replicate 4 0
        m_aNumTicks := List.replicate 4 0
        m_aTime := List.replicate 4 0
        m_MapSha256 := MapSha256.data }
    .ok (r.flushed Header.bytes)

def FlushChunk (r : CGhostRecorder) : Exec CGhostRecorder :=
  match r.m_File with
  | none => .error .assertion
  | some File =>
      if r.m_aBuffer.length = 0 ∨ r.m_BufferNumItems = 0 then .ok r
      else do
        -- of `m_aBufferTemp` only what was written is read
        let (Size, m_aBufferTemp) ←
          Compression.Compress r.m_aBuffer (List.replicate MAX_CHUNK_SIZE 0) MAX_CHUNK_SIZE
        if Size < 0 then return r.flushed File
        else
          match Network.ms_Huffman.Compress (m_aBufferTemp.take Size.toNat) MAX_CHUNK_SIZE with
          | none => return r.flushed File
          | some m_aBuffer =>
              let aChunkHeader : List UInt8 :=
                [UInt8.ofNat (r.m_LastItem.m_Type % 256).toNat, UInt8.ofNat r.m_BufferNumItems,
                  UInt8.ofNat (m_aBuffer.length / 256), UInt8.ofNat m_aBuffer.length]
              return r.flushed (File ++ aChunkHeader ++ m_aBuffer)

/-- The words of an item are put behind `m_pBufferPos`. -/
def putWords (r : CGhostRecorder) (words : List Int) (Data : CGhostItem) : Exec CGhostRecorder :=
  if MAX_CHUNK_SIZE < 4 * (r.m_aBuffer.length + words.length) then .error .outOfBounds
  else .ok { r with
    m_aBuffer := r.m_aBuffer ++ words
    m_BufferNumItems := r.m_BufferNumItems + 1
    m_LastItem := Data }

/-- The check for the end of the buffer: `m_pBufferEnd` is never moved, and the difference is a
`size_t`. -/
def makeRoom (r : CGhostRecorder) (Size : Nat) : Exec CGhostRecorder :=
  if (2 ^ 64 - 4 * r.m_aBuffer.length) % 2 ^ 64 < Size then r.FlushChunk else .ok r

/-- The difference to the last item, or the item behind a chunk that is closed. -/
def putItem (r : CGhostRecorder) (Data : CGhostItem) : Exec CGhostRecorder :=
  if r.m_LastItem.m_Type = Data.m_Type then do
    r.putWords (← DiffItem r.m_LastItem.m_aData Data.m_aData) Data
  else do
    (← r.FlushChunk).putWords Data.m_aData Data

def WriteData (r : CGhostRecorder) (ItemType : Int) (pData : List UInt8) : Exec CGhostRecorder :=
  if r.m_File.isNone ∨ ¬ ValidItem ItemType pData.length then .error .assertion
  else do
    let r ← r.makeRoom pData.length
    let r ← r.putItem { m_Type := ItemType, m_aData := ints pData }
    if r.m_BufferNumItems ≥ NUM_ITEMS_PER_CHUNK then r.FlushChunk else .ok r

/-- The recorder and the file that is left, if any. -/
def Stop (r : CGhostRecorder) (Ticks Time : Int) : Exec (CGhostRecorder × Option (List UInt8)) :=
  if r.m_File.isNone then .ok (r, none)
  else if Ticks ≤ 0 ∨ Time ≤ 0 then .ok ({ r with m_File := none }, none)
  else do
    let r ← r.FlushChunk
    let File := (r.m_File.getD []).take offsetofNumTicks ++ uint_to_bytes_be Ticks ++
      uint_to_bytes_be Time ++ (r.m_File.getD []).drop (offsetofNumTicks + 8)
    return ({ r with m_File := none }, some File)

end CGhostRecorder

/-! ## The loader -/

/-- `m_File` has the bytes that are left, `m_aBuffer` the words from `m_pBufferPos` to
`m_pBufferEnd`. -/
structure CGhostLoader where
  m_File : List UInt8
  m_Version : UInt8
  m_aBuffer : List Int
  m_BufferNumItems : Nat
  m_BufferCurItem : Int
  m_BufferPrevItem : Int
  m_LastItem : CGhostItem

namespace CGhostLoader

def ResetBuffer (l : CGhostLoader) : CGhostLoader :=
  { l with m_aBuffer := [], m_BufferNumItems := 0, m_BufferCurItem := 0, m_BufferPrevItem := -1 }

/-- A loader that was made with a file that is accepted. -/
def Load (File pMap : List UInt8) (MapSha256 : SHA256_DIGEST) (MapCrc : Nat)
    (m_ClRaceGhostStrictMap : Bool) : Option CGhostLoader :=
  let Header := CGhostHeader.ofBytes File
  if File.length < sizeofHeader then none
  else if ¬ Header.Validate ∨ ¬ Header.CheckMap pMap MapSha256 MapCrc m_ClRaceGhostStrictMap then none
  else some
    { m_File := File.drop (if Header.m_Version < 6 then sizeofHeader - sizeofSha256 else sizeofHeader)
      m_Version := Header.m_Version
      m_aBuffer := []
      m_BufferNumItems := 0
      m_BufferCurItem := 0
      m_BufferPrevItem := -1
      m_LastItem := { m_Type := -1, m_aData := [] } }

/-- The type of the chunk, `none` for an error or the end of the file. -/
def ReadChunk (l : CGhostLoader) : Exec (CGhostLoader × Option Int) :=
  let l := (if l.m_Version ≠ 4 then { l with m_LastItem := l.m_LastItem.Reset } else l).ResetBuffer
  match l.m_File with
  | b₀ :: b₁ :: b₂ :: b₃ :: File =>
      let Size := b₂.toNat * 256 + b₃.toNat
      let l := { l with m_BufferNumItems := b₁.toNat, m_File := File }
      if Size ≤ 0 ∨ Size > MAX_CHUNK_SIZE then .ok (l, none)
      else
        let m_aBuffer := File.take Size
        let l := { l with m_File := File.drop Size }
        if m_aBuffer.length ≠ Size then .ok (l, none)
        else
          match Network.ms_Huffman.Decompress m_aBuffer MAX_CHUNK_SIZE with
          | .error _ => .ok (l, none)
          | .ok m_aBufferTemp => do
              -- the words that are not written are not read
              let (Size, m_aBuffer) ← Compression.Decompress m_aBufferTemp
                (List.replicate (MAX_CHUNK_SIZE / 4) 0) MAX_CHUNK_SIZE
              if Size < 0 then return (l, none)
              else return ({ l with m_aBuffer := m_aBuffer.take (Size.toNat / 4) }, some b₀.toNat)
  | _ => .ok ({ l with m_File := [] }, none)

def ReadNextType (l : CGhostLoader) : Exec (CGhostLoader × Option Int) := do
  let (l, pType) ←
    if l.m_BufferCurItem ≠ l.m_BufferPrevItem ∧ l.m_BufferCurItem < l.m_BufferNumItems then
      .ok (l, some l.m_LastItem.m_Type)
    else l.ReadChunk
  match pType with
  | none => return (l, none)
  | some pType => return ({ l with m_BufferPrevItem := l.m_BufferCurItem }, some pType)

def ReadData (l : CGhostLoader) (ItemType : Int) (Size : Nat) :
    Exec (CGhostLoader × Option (List UInt8)) :=
  if ¬ ValidItem ItemType Size then .error .assertion
  else if 4 * l.m_aBuffer.length < Size then .ok (l, none)
  else do
    let pDiff := l.m_aBuffer.take (Size / 4)
    let m_aData ←
      if l.m_LastItem.m_Type = ItemType then UndiffItem l.m_LastItem.m_aData pDiff else .ok pDiff
    return ({ l with
      m_LastItem := { m_Type := ItemType, m_aData := m_aData }
      m_aBuffer := l.m_aBuffer.drop (Size / 4)
      m_BufferCurItem := l.m_BufferCurItem + 1 }, some (m_aData.flatMap intBytes))

end CGhostLoader

/-! ## Recording and playing back -/

/-- A type and data. -/
abbrev Item := Int × List UInt8

/-- The file of a recording. -/
def record (pMap : List UInt8) (MapSha256 : SHA256_DIGEST) (pName : List UInt8)
    (items : List Item) (Ticks Time : Int) : Exec (Option (List UInt8)) := do
  let r ← CGhostRecorder.new.Start pMap MapSha256 pName
  let r ← items.foldlM (fun r item => r.WriteData item.1 item.2) r
  return (← r.Stop Ticks Time).2

/-- The items that are read until the end of the file, those of types that are not known are
left out; `none` for an error. -/
def playback (sizeOf : Int → Nat) (known : Int → Bool) :
    Nat → CGhostLoader → Exec (Option (List Item))
  | 0, _ => .ok none
  | n + 1, l => do
      match ← l.ReadNextType with
      | (_, none) => return if l.m_File = [] then some [] else none
      | (l, some ItemType) =>
          if known ItemType then do
            match ← l.ReadData ItemType (sizeOf ItemType) with
            | (_, none) => return none
            | (l, some pData) =>
                return (← playback sizeOf known n l).map ((ItemType, pData) :: ·)
          else playback sizeOf known n l

end Fex.Engine.Ghost
