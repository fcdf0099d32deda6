import Fex.Engine.Datafile
import Fex.Lib.Loop

/-!
# Loading a map

Model of `CMap::Load` and `CMap::ExtractTiles`.  What `malloc` returns and what is
read of a data block are parameters.
-/

namespace Fex.Engine.CMap

open Fex.Lib

def MAPITEMTYPE_VERSION : Int := 0
def MAPITEMTYPE_GROUP : Int := 4
def MAPITEMTYPE_LAYER : Int := 5
def LAYERTYPE_TILES : Int := 2
def VERSION_TEEWORLDS_TILESKIP : Int := 4

/-! ## Tiles -/

/-- The copies of a tile, `DestIndex` counts the tiles that are written. -/
def copyTile (DestSize : Nat) (tile : CTile) : Nat → List CTile × Nat → List CTile × Nat
  | 0, r => r
  | n + 1, (pDest, DestIndex) =>
      if DestIndex < DestSize then
        copyTile DestSize tile n (pDest.set DestIndex { tile with m_Skip := 0 }, DestIndex + 1)
      else (pDest, DestIndex)

def extractFrom (DestSize : Nat) : List CTile → List CTile × Nat → List CTile × Nat
  | [], r => r
  | tile :: pSrc, (pDest, DestIndex) =>
      if DestIndex < DestSize then
        extractFrom DestSize pSrc
          (copyTile DestSize tile (tile.m_Skip.toNat + 1) (pDest, DestIndex))
      else (pDest, DestIndex)

/-- An access beyond the source is counted where the source is handed over. -/
def ExtractTiles (pDest : List CTile) (DestSize : Nat) (pSrc : List CTile) (SrcSize : Nat) :
    Exec (List CTile × Nat) :=
  if SrcSize ≤ pSrc.length then .ok (extractFrom DestSize (pSrc.take SrcSize) (pDest, 0))
  else .error .outOfBounds

/-! ## Layers -/

/-- A layer whose data block was replaced, `written` tiles of it by `ExtractTiles`. -/
structure Replaced where
  m_Data : Int
  TilemapCount : Nat
  written : Nat

structure Loading where
  data : CData
  replaced : List Replaced

/-- What is in the memory for the tiles of a layer, if there is memory. -/
abbrev Malloc := Nat → Nat → Nat → Option (Nat → CTile)

/-- The result of an operation on ints. -/
def int32 (x : Int) : Exec Int := if IsInt32 x then .ok x else .error .overflow

def divide (x y : Int) : Exec Int := if y = 0 then .error .divByZero else int32 (x.tdiv y)

section

variable (d : CDataFileReader) (read : CDataFileReader.ReadBlock) (malloc : Malloc)

/-- The number of tiles as a `size_t`. -/
def TilemapCount (m_Width m_Height : Int) : Int := m_Width * m_Height % 18446744073709551616

def TilemapSize (count : Int) : Int := count * 4 % 18446744073709551616

/-- The tiles of a layer of the group `pGroup`. -/
def replaceTiles (s : Loading) (pTilemap : Int) (count : Int) (garbage : Nat → CTile) :
    Exec Loading := do
  let m_Data ← d.readField pTilemap 14
  let (pSrc, data) := d.GetData read s.data m_Data
  let SrcSize := (d.GetDataSize data m_Data % 18446744073709551616 / 4).toNat
  let (pTiles, written) ← ExtractTiles ((List.range count.toNat).map garbage) count.toNat
    (pSrc.elim [] Block.tiles) SrcSize
  let data ← d.ReplaceData data m_Data pTiles (TilemapSize count)
  return { data := data, replaced := ⟨m_Data, count.toNat, written⟩ :: s.replaced }

def loadTilemap (s : Loading) (pTilemap : Int) (g l : Nat) : Exec (Bool × Loading) := do
  let m_Version ← d.readField pTilemap 3
  if m_Version < VERSION_TEEWORLDS_TILESKIP then return (true, s)
  else
    let m_Width ← d.readField pTilemap 4
    let m_Height ← d.readField pTilemap 5
    let count := TilemapCount m_Width m_Height
    let rows ← divide (wrap32 count) m_Width
    if rows ≠ m_Height ∨ TilemapSize count / 4 ≠ count then return (false, s)
    else
      match malloc g l count.toNat with
      | none => return (false, s)
      | some garbage =>
          let s ← replaceTiles d read s pTilemap count garbage
          return (true, s)

/-- The layer with the number `l` of a group. -/
def loadLayer (g : Nat) (pGroup : Int) (s : Loading) (l : Nat) : Exec (Bool × Loading) := do
  let m_StartLayer ← d.readField pGroup 5
  let start ← int32 ((d.GetType MAPITEMTYPE_LAYER).1 + m_StartLayer)
  let Index ← int32 (start + l)
  let pLayer ← d.GetItem Index
  let m_Type ← d.readField pLayer 1
  if m_Type ≠ LAYERTYPE_TILES then return (true, s)
  else loadTilemap d read malloc s pLayer g l

def loadGroup (s : Loading) (g : Nat) : Exec (Bool × Loading) := do
  let Index ← int32 ((d.GetType MAPITEMTYPE_GROUP).1 + g)
  let pGroup ← d.GetItem Index
  let m_NumLayers ← d.readField pGroup 6
  loop (loadLayer d read malloc g pGroup) (List.range m_NumLayers.toNat) s

/-- What is left of `Load` when the file was opened. -/
def loadFile : Exec (Bool × Loading) := do
  let s : Loading := { data := ⟨fun _ => none, fun _ => 0⟩, replaced := [] }
  let pItem ← d.FindItem MAPITEMTYPE_VERSION 0
  match pItem with
  | none => return (false, s)
  | some pItem =>
      let m_Version ← d.readField pItem 0
      if m_Version ≠ 1 then return (false, s)
      else loop (loadGroup d read malloc) (List.range (d.GetType MAPITEMTYPE_GROUP).2.toNat) s

end

/-- A map that is loaded. -/
structure DataFile where
  reader : CDataFileReader
  data : CData

/-- The file that `Open` accepted replaces the one that was loaded, with the layers that were
replaced in it. -/
def Load (m_DataFile : Option DataFile) (NewDataFile : CDataFileReader)
    (read : CDataFileReader.ReadBlock) (malloc : Malloc) :
    Exec (Bool × Option DataFile × List Replaced) := do
  let (loaded, s) ← loadFile NewDataFile read malloc
  if loaded then return (true, some ⟨NewDataFile, s.data⟩, s.replaced)
  else return (false, m_DataFile, s.replaced)

end Fex.Engine.CMap

/-!
## Extracting tiles

How many tiles `ExtractTiles` writes, and that what it writes is not packed.
-/

namespace Fex.Engine.CMap

open Fex.Lib

/-- The tiles that packed tiles stand for. -/
def unpackedSize (l : List CTile) : Nat := (l.map fun tile => tile.m_Skip.toNat + 1).sum

theorem unpackedSize_of_unpacked {l : List CTile} (h : ∀ tile ∈ l, tile.m_Skip = 0) :
    unpackedSize l = l.length := by
  induction l with
  | nil => rfl
  | cons tile l ih =>
      have htile := h tile List.mem_cons_self
      have hrest := ih fun t ht => h t (List.mem_cons_of_mem tile ht)
      unfold unpackedSize at hrest ⊢
      rw [List.map_cons, List.sum_cons, hrest, htile, List.length_cons, Nat.add_comm]
      rfl

variable {DestSize : Nat}

/-- The tiles that were written are not packed. -/
def Unpacked (r : List CTile × Nat) : Prop :=
  ∀ j < r.2, ∀ tile, r.1[j]? = some tile → tile.m_Skip = 0

theorem copyTile_spec (tile : CTile) (n : Nat) {r : List CTile × Nat}
    (hsize : r.2 ≤ DestSize) (hr : Unpacked r) :
    (copyTile DestSize tile n r).1.length = r.1.length ∧
      (copyTile DestSize tile n r).2 = min DestSize (r.2 + n) ∧
      Unpacked (copyTile DestSize tile n r) := by
  induction n generalizing r with
  | zero =>
      refine ⟨rfl, ?_, hr⟩
      show r.2 = min DestSize (r.2 + 0)
      omega
  | succ n ih =>
      obtain ⟨pDest, DestIndex⟩ := r
      have hle : DestIndex ≤ DestSize := hsize
      rw [copyTile]
      split
      next hlt =>
        have hset : Unpacked (pDest.set DestIndex { tile with m_Skip := 0 }, DestIndex + 1) := by
          intro j hj t ht
          have hj' : j < DestIndex + 1 := hj
          have ht' : (pDest.set DestIndex { tile with m_Skip := 0 })[j]? = some t := ht
          rw [List.getElem?_set] at ht'
          by_cases heq : DestIndex = j
          · rw [if_pos heq] at ht'
            split at ht'
            next =>
              cases ht'
              rfl
            next => cases ht'
          · rw [if_neg heq] at ht'
            exact hr j (by show j < DestIndex; omega) t ht'
        obtain ⟨hlength, hindex, hunpacked⟩ :=
          ih (r := (pDest.set DestIndex { tile with m_Skip := 0 }, DestIndex + 1)) hlt hset
        refine ⟨?_, ?_, hunpacked⟩
        · rw [hlength]
          exact List.length_set
        · rw [hindex]
          show min DestSize (DestIndex + 1 + n) = min DestSize (DestIndex + (n + 1))
          omega
      next hge =>
        refine ⟨rfl, ?_, hr⟩
        show DestIndex = min DestSize (DestIndex + (n + 1))
        omega

variable (DestSize) in
/-- `ExtractTiles` writes as many tiles as the source stands for. -/
theorem extractFrom_spec (pSrc : List CTile) {r : List CTile × Nat}
    (hsize : r.2 ≤ DestSize) (hr : Unpacked r) :
    (extractFrom DestSize pSrc r).1.length = r.1.length ∧
      (extractFrom DestSize pSrc r).2 = min DestSize (r.2 + unpackedSize pSrc) ∧
      Unpacked (extractFrom DestSize pSrc r) := by
  induction pSrc generalizing r with
  | nil =>
      refine ⟨rfl, ?_, hr⟩
      show r.2 = min DestSize (r.2 + 0)
      omega
  | cons tile pSrc ih =>
      obtain ⟨pDest, DestIndex⟩ := r
      have hle : DestIndex ≤ DestSize := hsize
      have hcons : unpackedSize (tile :: pSrc) = tile.m_Skip.toNat + 1 + unpackedSize pSrc := rfl
      rw [extractFrom]
      split
      next hlt =>
        obtain ⟨hlength, hindex, hunpacked⟩ := copyTile_spec tile (tile.m_Skip.toNat + 1) hsize hr
        have hindex' : (copyTile DestSize tile (tile.m_Skip.toNat + 1) (pDest, DestIndex)).2 =
            min DestSize (DestIndex + (tile.m_Skip.toNat + 1)) := hindex
        obtain ⟨hlength', hindex'', hunpacked'⟩ := ih (by omega) hunpacked
        refine ⟨hlength'.trans hlength, ?_, hunpacked'⟩
        rw [hindex'', hindex', hcons]
        show _ = min DestSize (DestIndex + _)
        omega
      next hge =>
        refine ⟨rfl, ?_, hr⟩
        show DestIndex = min DestSize (DestIndex + _)
        omega

/-- The whole source is handed over, tiles that are not packed are left. -/
theorem extractTiles_spec {pDest pSrc : List CTile} {SrcSize : Nat}
    (hdest : pDest.length = DestSize) (hsrc : SrcSize ≤ pSrc.length) :
    ∃ pTiles, ExtractTiles pDest DestSize pSrc SrcSize =
        .ok (pTiles, min DestSize (unpackedSize (pSrc.take SrcSize))) ∧
      pTiles.length = DestSize ∧
      (DestSize ≤ unpackedSize (pSrc.take SrcSize) → ∀ tile ∈ pTiles, tile.m_Skip = 0) := by
  obtain ⟨hlength, hindex, hunpacked⟩ := extractFrom_spec DestSize
    (pSrc.take SrcSize) (r := (pDest, 0)) (Nat.zero_le _) fun j hj => absurd hj (Nat.not_lt_zero j)
  rw [Nat.zero_add] at hindex
  refine ⟨(extractFrom DestSize (pSrc.take SrcSize) (pDest, 0)).1, ?_, hlength.trans hdest, ?_⟩
  · unfold ExtractTiles
    rw [if_pos hsrc, ← hindex]
  · intro hle tile htile
    obtain ⟨j, hj⟩ := List.getElem?_of_mem htile
    refine hunpacked j ?_ tile hj
    have hlt := (List.getElem?_eq_some_iff.mp hj).1
    rw [hlength, hdest] at hlt
    omega

theorem length_tiles (l : List UInt8) : (tiles l).length = l.length / 4 := by
  induction l using tiles.induct with
  | case1 b₀ b₁ b₂ b₃ l ih =>
      rw [tiles, List.length_cons, ih]
      simp only [List.length_cons]
      omega
  | case2 l hl =>
      rw [tiles]
      · have hlt : l.length < 4 := by
          match l, hl with
          | [], _ => decide
          | [_], _ => simp
          | [_, _], _ => simp
          | [_, _, _], _ => simp
          | b₀ :: b₁ :: b₂ :: b₃ :: l, h => exact absurd rfl (h b₀ b₁ b₂ b₃ l)
        rw [List.length_nil]
        omega
      · exact hl

end Fex.Engine.CMap
