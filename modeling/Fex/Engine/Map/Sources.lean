import Fex.Engine.Datafile
import Fex.Engine.Map

/-!
# Layers and their data blocks

What a file says about its layers, and where the tiles of a layer come from after
other layers were replaced.
-/

namespace Fex.Engine.CMap

open Fex.Lib

/-! ## Layers of a file -/

section

variable (d : CDataFileReader) (read : CDataFileReader.ReadBlock)

def groupItem (g : Nat) : Int := (d.GetType MAPITEMTYPE_GROUP).1 + g

def numLayers (g : Nat) : Nat := (d.itemField (groupItem d g) 6).toNat

/-- The item that the code takes for the layer `l` of the group `g`. -/
def layerItem (g l : Nat) : Int :=
  (d.GetType MAPITEMTYPE_LAYER).1 + d.itemField (groupItem d g) 5 + l

/-- The item is a tile layer with packed tiles. -/
def TileSkip (i : Int) : Prop :=
  d.itemField i 1 = LAYERTYPE_TILES ∧ VERSION_TEEWORLDS_TILESKIP ≤ d.itemField i 3

def dataIndex (i : Int) : Int := d.itemField i 14

def tileCount (i : Int) : Int := TilemapCount (d.itemField i 4) (d.itemField i 5)

/-- The height that the code computes to check for an overflow. -/
def rows (i : Int) : Int := (wrap32 (tileCount d i)).tdiv (d.itemField i 4)

def TooBig (i : Int) : Prop :=
  rows d i ≠ d.itemField i 5 ∨ TilemapSize (tileCount d i) / 4 ≠ tileCount d i

theorem tileCount_nonneg (i : Int) : 0 ≤ tileCount d i := Int.emod_nonneg _ (by decide)

theorem natCast_toNat_tileCount (i : Int) : ((tileCount d i).toNat : Int) = tileCount d i :=
  Int.toNat_of_nonneg (tileCount_nonneg d i)

/-! ## Data blocks of a file -/

/-- The tiles in a block of the file. -/
def fileTiles (idx : Int) : List CTile := (d.content read idx).elim [] tiles

/-- The number of these tiles as it is computed from the size of the block. -/
def fileTileCount (idx : Int) : Nat := (d.fileSize idx % 18446744073709551616 / 4).toNat

/-- A block can be loaded or has no tile. -/
def Loadable (idx : Int) : Prop := d.content read idx ≠ none ∨ fileTileCount d idx = 0

/-- The tiles that the block of the file stands for. -/
def blockTiles (idx : Int) : Nat :=
  unpackedSize ((fileTiles d read idx).take (fileTileCount d idx))

end

variable {d : CDataFileReader} {read : CDataFileReader.ReadBlock}

theorem length_content {idx : Int} {bytes : List UInt8} (h : d.content read idx = some bytes) :
    (bytes.length : Int) = d.fileSize idx := by
  unfold CDataFileReader.content at h
  split at h
  next => cases h
  next => exact of_decide_eq_true (Option.filter_eq_some_iff.mp h).2

theorem loadable_iff {idx : Int} :
    Loadable d read idx ↔ fileTileCount d idx ≤ (fileTiles d read idx).length := by
  unfold Loadable fileTiles
  cases hcontent : d.content read idx with
  | none =>
      show (none ≠ none ∨ _) ↔ _ ≤ 0
      constructor
      · rintro (h | h)
        · exact absurd rfl h
        · omega
      · intro h
        exact .inr (by omega)
  | some bytes =>
      refine ⟨fun _ => ?_, fun _ => .inl fun h => by cases h⟩
      have hlength := length_content hcontent
      show _ ≤ (tiles bytes).length
      unfold fileTileCount
      rw [length_tiles, ← hlength]
      omega

/-! ## Where the tiles come from -/

variable (read) in
/-- The block was not asked for before. -/
theorem getData_file {s : CData} {idx : Int} (hidx : 0 ≤ idx ∧ idx < d.m_NumRawData)
    (hptr : s.m_ppDataPtrs idx = none) (hsize : s.m_pDataSizes idx = 0) :
    (d.GetData read s idx).1.elim [] Block.tiles = fileTiles d read idx ∧
      d.GetDataSize (d.GetData read s idx).2 idx = d.fileSize idx ∧
      ∀ i ≠ idx, (d.GetData read s idx).2.m_ppDataPtrs i = s.m_ppDataPtrs i ∧
        (d.GetData read s idx).2.m_pDataSizes i = s.m_pDataSizes i := by
  have hrange : ¬ (idx < 0 ∨ idx ≥ d.m_NumRawData) := by omega
  unfold CDataFileReader.GetData fileTiles
  rw [if_neg hrange]
  simp only [hptr, hsize]
  rw [if_neg (by decide)]
  cases hcontent : d.content read idx with
  | none =>
      refine ⟨rfl, ?_, fun i hi => ⟨rfl, if_neg hi⟩⟩
      unfold CDataFileReader.GetDataSize
      rw [if_neg hrange]
      simp only [hptr]
  | some bytes =>
      refine ⟨rfl, ?_, fun i hi => ⟨if_neg hi, if_neg hi⟩⟩
      have hlength := length_content hcontent
      unfold CDataFileReader.GetDataSize
      rw [if_neg hrange]
      simp only [if_true]
      rw [if_neg (by omega)]

variable (read) in
/-- The block was replaced by the tiles of another layer. -/
theorem getData_replaced {s : CData} {idx : Int} {ts : List CTile}
    (hidx : 0 ≤ idx ∧ idx < d.m_NumRawData)
    (hptr : s.m_ppDataPtrs idx = some (.replaced ts)) :
    d.GetData read s idx = (some (.replaced ts), s) ∧
      d.GetDataSize s idx = if s.m_pDataSizes idx < 0 then 0 else s.m_pDataSizes idx := by
  have hrange : ¬ (idx < 0 ∨ idx ≥ d.m_NumRawData) := by omega
  constructor
  · unfold CDataFileReader.GetData
    rw [if_neg hrange]
    simp only [hptr]
  · unfold CDataFileReader.GetDataSize
    rw [if_neg hrange]
    simp only [hptr]

/-- The size of replaced tiles as `GetDataSize` returns it. -/
def storedSize (count : Nat) : Int :=
  if wrap32 (TilemapSize count) < 0 then 0 else wrap32 (TilemapSize count)

theorem storedSize_le (count : Nat) :
    0 ≤ storedSize count ∧ (storedSize count % 18446744073709551616 / 4).toNat ≤ count := by
  unfold storedSize wrap32 TilemapSize
  split <;> omega

/-- The size is right if it is an int. -/
theorem storedSize_eq_iff (count : Nat) :
    storedSize count = count * 4 ↔ (count : Int) * 4 ≤ 2147483647 := by
  unfold storedSize wrap32 TilemapSize
  split <;> omega

end Fex.Engine.CMap
