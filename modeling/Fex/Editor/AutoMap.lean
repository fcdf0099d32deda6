import Fex.Game.MapItems
import Fex.Lib.Grid

/-!
# Auto mapping

Model of `CAutoMapper::Proceed` and `ProceedLocalized`.  Each access to a tile names
the position that it is for and the index that the code computes: a position
outside the layer, or an index that is not the one of the position, is a fault.
-/

namespace Fex.Editor.AutoMap

open Fex.Lib Fex.Engine Fex.Game

/-! ## Layers -/

/-- What the auto mapper uses of a `CLayerTiles`. -/
structure CLayerTiles where
  m_Width : Nat
  m_Height : Nat
  m_pTiles : List CTile
  m_Readonly : Bool := false

namespace CLayerTiles

/-- The tiles of a new layer are empty. -/
def new (w h : Nat) : CLayerTiles where
  m_Width := w
  m_Height := h
  m_pTiles := List.replicate (w * h) ⟨0, 0, 0, 0⟩

/-- The index is that of a position inside the layer. -/
def IsIndex (l : CLayerTiles) (x y index : Nat) : Prop :=
  x < l.m_Width ∧ y < l.m_Height ∧ index = y * l.m_Width + x

instance (l : CLayerTiles) (x y index : Nat) : Decidable (l.IsIndex x y index) :=
  inferInstanceAs (Decidable (_ ∧ _ ∧ _))

def read (l : CLayerTiles) (x y index : Nat) : Exec CTile :=
  if l.IsIndex x y index then load l.m_pTiles index else .error .outOfBounds

def write (l : CLayerTiles) (x y index : Nat) (Tile : CTile) : Exec CLayerTiles :=
  if l.IsIndex x y index then do
    let m_pTiles ← store l.m_pTiles index Tile
    return { l with m_pTiles }
  else .error .outOfBounds

/-- The index and the flags of a tile are replaced. -/
def setTile (l : CLayerTiles) (x y index : Nat) (m_Index m_Flags : UInt8) : Exec CLayerTiles := do
  let Tile ← l.read x y index
  l.write x y index { Tile with m_Index, m_Flags }

end CLayerTiles

/-! ## Rules -/

structure CIndexInfo where
  m_Id : Int
  m_Flag : Int
  m_TestFlag : Bool

inductive RuleValue
  | NORULE
  | INDEX
  | NOTINDEX

structure CPosRule where
  m_X : Int
  m_Y : Int
  m_Value : RuleValue
  m_vIndexList : List CIndexInfo

/-- `Load` replaces a modulus that is zero. -/
structure CModuloRule where
  m_ModX : Int
  m_ModY : Int
  m_OffsetX : Int
  m_OffsetY : Int

/-- `m_RandomProbability` is what its two comparisons say of a hash: it is one or more, or it is more
than the hash after a multiplication with `HASH_MAX`. -/
structure CIndexRule where
  m_Id : Int
  m_vRules : List CPosRule
  m_Flag : Int
  m_RandomProbability : UInt32 → Bool
  m_vModuloRules : List CModuloRule
  m_SkipEmpty : Bool
  m_SkipFull : Bool

structure CRun where
  m_vIndexRules : List CIndexRule
  m_AutomapCopy : Bool

/-- `Load` keeps the least and the greatest offset of a rule and zero. -/
structure CConfiguration where
  m_vRuns : List CRun
  m_StartX : Int
  m_StartY : Int
  m_EndX : Int
  m_EndY : Int
  startX_le : m_StartX ≤ 0
  startY_le : m_StartY ≤ 0
  le_endX : 0 ≤ m_EndX
  le_endY : 0 ≤ m_EndY

structure CAutoMapper where
  m_FileLoaded : Bool
  m_vConfigs : List CConfiguration

/-! ## Hashes -/

def HashUInt32 (Num : UInt32) : UInt32 :=
  let Num := Num + 1
  let Num := Num ^^^ (Num >>> 17)
  let Num := Num * 0xed5ad4bb
  let Num := Num ^^^ (Num >>> 11)
  let Num := Num * 0xac4c1b51
  let Num := Num ^^^ (Num >>> 15)
  let Num := Num * 0x31848bab
  Num ^^^ (Num >>> 14)

def HASH_MAX : UInt32 := 65536

def HashLocation (Seed Run Rule X Y : UInt32) : UInt32 :=
  let Prime : UInt32 := 31
  let Hash := 1 * Prime + HashUInt32 Seed
  let Hash := Hash * Prime + HashUInt32 Run
  let Hash := Hash * Prime + HashUInt32 Rule
  let Hash := Hash * Prime + HashUInt32 X
  let Hash := Hash * Prime + HashUInt32 Y
  HashUInt32 (Hash * Prime) % HASH_MAX

/-! ## One run -/

/-- `TILE_SOLID`, `TILE_DEATH`, `TILE_NOHOOK`, `TILE_FREEZE`, `TILE_UNFREEZE`, `TILE_DFREEZE`,
`TILE_DUNFREEZE`, `TILE_LFREEZE` and `TILE_LUNFREEZE` -/
def s_aTileIndex : List UInt8 := [1, 2, 3, 9, 11, 12, 13, 144, 145]

/-- What is fixed while a run is carried out.  `pReadLayer` is `none` for the layer itself. -/
structure Pass where
  pReadLayer : Option CLayerTiles
  IsFilterable : Bool
  LayerWidth : Nat
  LayerHeight : Nat
  Seed : Int
  h : Nat
  SeedOffsetX : Int
  SeedOffsetY : Int

namespace Pass

variable (p : Pass)

def readLayer (pLayer : CLayerTiles) : CLayerTiles := p.pReadLayer.getD pLayer

/-- `CheckIndex` and `CheckFlags`: what is outside has the index -1. -/
def check (pLayer : CLayerTiles) (CheckX CheckY : Int) : Exec (Int × Int) :=
  if CheckX ≥ 0 ∧ CheckX < p.LayerWidth ∧ CheckY ≥ 0 ∧ CheckY < p.LayerHeight then do
    let CheckTile := CheckY.toNat * p.LayerWidth + CheckX.toNat
    let Tile ← (p.readLayer pLayer).read CheckX.toNat CheckY.toNat CheckTile
    return (Tile.m_Index.toNat,
      (Tile.m_Flags &&& (TILEFLAG_ROTATE ||| TILEFLAG_XFLIP ||| TILEFLAG_YFLIP)).toNat)
  else .ok (-1, 0)

def respected (pRule : CPosRule) (CheckIndex CheckFlags : Int) : Bool :=
  let found := pRule.m_vIndexList.any fun Index =>
    CheckIndex = Index.m_Id ∧ (¬ Index.m_TestFlag ∨ CheckFlags = Index.m_Flag)
  match pRule.m_Value with
  | .NORULE => true
  | .INDEX => found
  | .NOTINDEX => ! found

/-- `RespectRules`, up to the first rule that is not respected. -/
def respectRules (pLayer : CLayerTiles) (x y : Nat) : List CPosRule → Exec Bool
  | [] => .ok true
  | pRule :: rules => do
      let checked ← p.check pLayer (wrap32 (x + pRule.m_X)) (wrap32 (y + pRule.m_Y))
      if respected pRule checked.1 checked.2 then respectRules pLayer x y rules else return false

def passesModuloCheck (x y : Nat) (rules : List CModuloRule) : Bool :=
  rules.isEmpty || rules.any fun ModuloRule =>
    (wrap32 (x + p.SeedOffsetX + ModuloRule.m_OffsetX)).tmod ModuloRule.m_ModX = 0 ∧
    (wrap32 (y + p.SeedOffsetY + ModuloRule.m_OffsetY)).tmod ModuloRule.m_ModY = 0

def passesHash (pIndexRule : CIndexRule) (i x y : Nat) : Bool :=
  pIndexRule.m_RandomProbability
    (HashLocation (UInt32.ofInt p.Seed) (UInt32.ofNat p.h) (UInt32.ofNat i)
      (UInt32.ofInt (x + p.SeedOffsetX)) (UInt32.ofInt (y + p.SeedOffsetY)))

/-- One rule for the tile at a position. -/
def applyRule (x y : Nat) (pLayer : CLayerTiles) (rule : CIndexRule × Nat) : Exec CLayerTiles := do
  let index := y * p.LayerWidth + x
  let pTile ← pLayer.read x y index
  let pReadTile ← (p.readLayer pLayer).read x y index
  if pReadTile.m_Index = 0 ∧ pTile.m_Index ≠ 0 ∧ p.IsFilterable then
    pLayer.setTile x y index 0 (UInt8.ofInt rule.1.m_Flag)
  else if pReadTile.m_Index = 0 ∧ rule.1.m_SkipEmpty then return pLayer
  else if rule.1.m_SkipFull ∧ pReadTile.m_Index ≠ 0 then return pLayer
  else do
    let RespectRules ← p.respectRules pLayer x y rule.1.m_vRules
    if RespectRules ∧ p.passesModuloCheck x y rule.1.m_vModuloRules ∧ p.passesHash rule.1 rule.2 x y then
      pLayer.setTile x y index (UInt8.ofInt rule.1.m_Id) (UInt8.ofInt rule.1.m_Flag)
    else return pLayer

/-- `pTile` and `pReadTile` are taken before the rules are tried. -/
def mapTile (rules : List CIndexRule) (pLayer : CLayerTiles) (x y : Nat) : Exec CLayerTiles := do
  let _ ← pLayer.read x y (y * p.LayerWidth + x)
  let _ ← (p.readLayer pLayer).read x y (y * p.LayerWidth + x)
  rules.zipIdx.foldlM (p.applyRule x y) pLayer

end Pass

/-- The index of a copied tile: a reference leaves one kind of tiles. -/
def filtered (h : Nat) (ReferenceId : Int) (m_Index : UInt8) : Exec UInt8 :=
  if h = 0 ∧ ReferenceId ≥ 1 then do
    let Tile ← load s_aTileIndex (ReferenceId - 1).toNat
    return if m_Index ≠ Tile then 0 else m_Index
  else .ok m_Index

/-- The copy that a run reads. -/
def copyLayer (pBuffer : CLayerTiles) (LayerWidth LayerHeight LoopWidth LoopHeight h : Nat)
    (ReferenceId : Int) : Exec CLayerTiles :=
  forCells LoopWidth LoopHeight (fun pReadLayer x y => do
    let pIn ← pBuffer.read x y (y * pBuffer.m_Width + x)
    let m_Index ← filtered h ReferenceId pIn.m_Index
    pReadLayer.setTile x y (y * LayerWidth + x) m_Index pIn.m_Flags)
    (CLayerTiles.new LayerWidth LayerHeight)

/-- The first run filters by the game layer. -/
def IsFilterable (h : Nat) (ReferenceId : Int) : Bool := decide (h = 0 ∧ ReferenceId ≥ 0)

def copyFor (pLayer pGameLayer : CLayerTiles) (ReferenceId : Int) (h : Nat) : Exec CLayerTiles :=
  if IsFilterable h ReferenceId then
    copyLayer pGameLayer pLayer.m_Width pLayer.m_Height (min pGameLayer.m_Width pLayer.m_Width)
      (min pGameLayer.m_Height pLayer.m_Height) h ReferenceId
  else
    copyLayer pLayer pLayer.m_Width pLayer.m_Height pLayer.m_Width pLayer.m_Height h ReferenceId

/-- `pReadLayer` of a run. -/
def chooseReadLayer (pLayer pGameLayer : CLayerTiles) (ReferenceId : Int) (run : CRun × Nat) :
    Exec (Option CLayerTiles) :=
  if run.1.m_AutomapCopy then do
    let pReadLayer ← copyFor pLayer pGameLayer ReferenceId run.2
    return some pReadLayer
  else .ok (if IsFilterable run.2 ReferenceId then some pGameLayer else none)

def proceedRun (pGameLayer : CLayerTiles) (ReferenceId Seed SeedOffsetX SeedOffsetY : Int)
    (pLayer : CLayerTiles) (run : CRun × Nat) : Exec CLayerTiles := do
  let pReadLayer ← chooseReadLayer pLayer pGameLayer ReferenceId run
  let p : Pass :=
    { pReadLayer
      IsFilterable := IsFilterable run.2 ReferenceId
      LayerWidth := pLayer.m_Width
      LayerHeight := pLayer.m_Height
      Seed
      h := run.2
      SeedOffsetX
      SeedOffsetY }
  forCells pLayer.m_Width pLayer.m_Height (p.mapTile run.1.m_vIndexRules) pLayer

/-! ## All runs -/

/-- The configuration, unless the function returns at once. -/
def CAutoMapper.config (a : CAutoMapper) (pLayer : CLayerTiles) (ConfigId : Int) :
    Option CConfiguration :=
  if ¬ a.m_FileLoaded ∨ pLayer.m_Readonly ∨ ConfigId < 0 then none
  else a.m_vConfigs[ConfigId.toNat]?

def proceedRuns (pConf : CConfiguration) (pLayer pGameLayer : CLayerTiles)
    (ReferenceId Seed SeedOffsetX SeedOffsetY : Int) : Exec CLayerTiles :=
  pConf.m_vRuns.zipIdx.foldlM
    (proceedRun pGameLayer ReferenceId Seed SeedOffsetX SeedOffsetY) pLayer

/-- `rand` is the number that is drawn for the seed zero. -/
def CAutoMapper.Proceed (a : CAutoMapper) (rand : Int) (pLayer pGameLayer : CLayerTiles)
    (ReferenceId ConfigId Seed SeedOffsetX SeedOffsetY : Int) : Exec CLayerTiles :=
  match a.config pLayer ConfigId with
  | none => .ok pLayer
  | some pConf =>
      proceedRuns pConf pLayer pGameLayer ReferenceId (if Seed = 0 then rand else Seed) SeedOffsetX
        SeedOffsetY

/-! ## A region -/

/-- The positions that are written back and those that are mapped. -/
structure Region where
  CommitFromX : Nat
  CommitFromY : Nat
  CommitToX : Nat
  CommitToY : Nat
  UpdateFromX : Nat
  UpdateFromY : Nat
  UpdateToX : Nat
  UpdateToY : Nat

/-- A sum of `int`s. -/
def checkInt (x : Int) : Exec Int := if IsInt32 x then .ok x else .error .overflow

/-- `std::clamp(x, 0, hi)` -/
def clampTo (x : Int) (hi : Nat) : Nat := (max 0 (min x hi)).toNat

/-- `std::clamp(X + Factor * Start, 0, hi)` -/
def fromBound (X Factor Start : Int) (hi : Nat) : Exec Nat := do
  let Offset ← checkInt (Factor * Start)
  let From ← checkInt (X + Offset)
  return clampTo From hi

/-- `std::clamp(X + Width + Factor * End, 0, hi)` -/
def toBound (X Width Factor End : Int) (hi : Nat) : Exec Nat := do
  let To ← checkInt (X + Width)
  let Offset ← checkInt (Factor * End)
  let To ← checkInt (To + Offset)
  return clampTo To hi

def region (pConf : CConfiguration) (pLayer : CLayerTiles) (X Y Width Height : Int) :
    Exec Region := do
  let CommitFromX ← fromBound X 1 pConf.m_StartX pLayer.m_Width
  let CommitFromY ← fromBound Y 1 pConf.m_StartY pLayer.m_Height
  let CommitToX ← toBound X Width 1 pConf.m_EndX pLayer.m_Width
  let CommitToY ← toBound Y Height 1 pConf.m_EndY pLayer.m_Height
  let UpdateFromX ← fromBound X 3 pConf.m_StartX pLayer.m_Width
  let UpdateFromY ← fromBound Y 3 pConf.m_StartY pLayer.m_Height
  let UpdateToX ← toBound X Width 3 pConf.m_EndX pLayer.m_Width
  let UpdateToY ← toBound Y Height 3 pConf.m_EndY pLayer.m_Height
  return { CommitFromX, CommitFromY, CommitToX, CommitToY, UpdateFromX, UpdateFromY, UpdateToX,
           UpdateToY }

/-- The tiles of a region are copied to `(0, 0)`. -/
def copyRegion (l : CLayerTiles) (r : Region) (pOut : CLayerTiles) (i j : Nat) : Exec CLayerTiles := do
  let x := r.UpdateFromX + i
  let y := r.UpdateFromY + j
  let pIn ← l.read x y (y * l.m_Width + x)
  pOut.setTile i j ((y - r.UpdateFromY) * pOut.m_Width + x - r.UpdateFromX) pIn.m_Index pIn.m_Flags

/-- `pUpdateLayer` and `pUpdateGame` -/
def updateLayers (pLayer pGameLayer : CLayerTiles) (r : Region) :
    Exec (CLayerTiles × CLayerTiles) :=
  let new := CLayerTiles.new (r.UpdateToX - r.UpdateFromX) (r.UpdateToY - r.UpdateFromY)
  forCells (r.UpdateToX - r.UpdateFromX) (r.UpdateToY - r.UpdateFromY) (fun s i j => do
    let pUpdateLayer ← copyRegion pLayer r s.1 i j
    let pUpdateGame ← copyRegion pGameLayer r s.2 i j
    return (pUpdateLayer, pUpdateGame)) (new, new)

/-- A tile of an updated layer is copied back. -/
def commitTile (pUpdate : CLayerTiles) (r : Region) (l : CLayerTiles) (i j : Nat) :
    Exec CLayerTiles := do
  let x := r.CommitFromX + i
  let y := r.CommitFromY + j
  let pIn ← pUpdate.read (x - r.UpdateFromX) (y - r.UpdateFromY)
    ((y - r.UpdateFromY) * pUpdate.m_Width + x - r.UpdateFromX)
  l.setTile x y (y * l.m_Width + x) pIn.m_Index pIn.m_Flags

def commit (pUpdateLayer pUpdateGame pLayer pGameLayer : CLayerTiles) (r : Region) :
    Exec (CLayerTiles × CLayerTiles) :=
  forCells (r.CommitToX - r.CommitFromX) (r.CommitToY - r.CommitFromY) (fun s i j => do
    let pLayer ← commitTile pUpdateLayer r s.1 i j
    let pGameLayer ← commitTile pUpdateGame r s.2 i j
    return (pLayer, pGameLayer)) (pLayer, pGameLayer)

/-- The layer and the game layer afterwards. -/
def CAutoMapper.ProceedLocalized (a : CAutoMapper) (rand : Int) (pLayer pGameLayer : CLayerTiles)
    (ReferenceId ConfigId Seed X Y Width Height : Int) : Exec (CLayerTiles × CLayerTiles) :=
  match a.config pLayer ConfigId with
  | none => .ok (pLayer, pGameLayer)
  | some pConf => do
      let Width := if Width < 0 then (pLayer.m_Width : Int) else Width
      let Height := if Height < 0 then (pLayer.m_Height : Int) else Height
      let r ← region pConf pLayer X Y Width Height
      let update ← updateLayers pLayer pGameLayer r
      let pUpdateLayer ←
        a.Proceed rand update.1 update.2 ReferenceId ConfigId Seed r.UpdateFromX r.UpdateFromY
      commit pUpdateLayer update.2 pLayer pGameLayer r

end Fex.Editor.AutoMap
