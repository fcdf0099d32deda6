import Fex.Game.MapItems
import Fex.Lib.History
import Fex.Lib.Run

/-!
# Histories of tile layers

Model of `BrushDraw` and `FillSelection` of `CLayerTiles` and `CLayerTele`, of the histories they
record and of the part of `CEditorBrushDrawAction` that is about one layer.  Positions are already
converted from world coordinates.
-/

namespace Fex.Editor.TileHistory

open Fex.Lib Fex.Engine Fex.Game

structure CTeleTile where
  m_Number : UInt8
  m_Type : UInt8
  deriving DecidableEq

/-- `STeleTileStateChange::SData` -/
structure SData where
  m_Number : UInt8
  m_Type : UInt8
  m_Index : UInt8
  deriving DecidableEq

structure CLayerTiles where
  m_Width : Nat
  m_Height : Nat
  m_Readonly : Bool
  m_pTiles : List CTile
  m_TilesHistory : List (Change CTile)

structure CLayerTele extends CLayerTiles where
  m_pTeleTile : List CTeleTile
  m_History : List (Change SData)

/-- A layer of the brush.  A layer that is not a tele layer has no tele tiles. -/
structure Brush where
  m_IsTiles : Bool
  m_Width : Nat
  m_Height : Nat
  m_pTiles : List CTile
  m_HasTele : Bool
  m_pTeleTile : List CTeleTile
  m_TeleNum : UInt8
  m_TeleCheckpointNum : UInt8
  m_aFileName : String

/-- The settings of the editor. -/
structure Settings where
  m_BrushDrawDestructive : Bool
  m_AllowPlaceUnusedTiles : Bool
  m_TeleNumber : UInt8
  m_TeleCheckpointNumber : UInt8
  m_aFileName : String

/-- What a call for a layer of tiles takes from the other layers and the rules of its image: whether
the brush is empty, whether another layer has a tile where a tile of the brush goes, the tile that
`SetTile` puts in its place, and the tiles that the auto mapper commits. -/
structure Surroundings where
  IsEmpty : Bool
  HasOther : Nat → Nat → CTile → Bool
  placed : Nat → Nat → CTile → CTile
  mapped : List (Nat × Nat × CTile)

/-- The position in the layer, if it has one. -/
def target (m_Width m_Height : Nat) (sx sy : Int) (x y : Nat) : Option (Nat × Nat) :=
  let fx := x + sx
  let fy := y + sy
  if fx < 0 ∨ fx ≥ m_Width ∨ fy < 0 ∨ fy ≥ m_Height then none else some (fx.toNat, fy.toNat)

/-- The tile of a brush that is repeated. -/
def repeated (pLt : Brush) (x y : Nat) : Nat :=
  (y * pLt.m_Width + x % pLt.m_Width) % (pLt.m_Width * pLt.m_Height)

/-! ## Layers of tiles -/

namespace CLayerTiles

def SetTileIgnoreHistory (l : CLayerTiles) (y x : Nat) (Tile : CTile) : Exec CLayerTiles := do
  let m_pTiles ← store l.m_pTiles (y * l.m_Width + x) Tile
  return { l with m_pTiles }

def RecordStateChange (l : CLayerTiles) (x y : Nat) (Previous Tile : CTile) : CLayerTiles :=
  { l with m_TilesHistory := record y x Previous Tile l.m_TilesHistory }

def SetTile (l : CLayerTiles) (x y : Nat) (Tile : CTile) : Exec CLayerTiles := do
  let CurrentTile ← load l.m_pTiles (y * l.m_Width + x)
  let l ← l.SetTileIgnoreHistory y x Tile
  return l.RecordStateChange x y CurrentTile Tile

/-- The auto mapper commits the index and the flags of its tiles. -/
def FlagModified (mapped : List (Nat × Nat × CTile)) (l : CLayerTiles) : Exec CLayerTiles :=
  mapped.foldlM (fun l change => do
    let (x, y, In) := change
    if l.m_Width ≤ x ∨ l.m_Height ≤ y then .error .outOfBounds
    else
      let Previous ← load l.m_pTiles (y * l.m_Width + x)
      l.SetTile x y { Previous with m_Index := In.m_Index, m_Flags := In.m_Flags }) l

/-- A tile is drawn unless that would replace one. -/
def place (around : Surroundings) (Destructive : Bool) (l : CLayerTiles) (fx fy : Nat)
    (Tile : CTile) : Exec CLayerTiles := do
  let old ← load l.m_pTiles (fy * l.m_Width + fx)
  if !Destructive && (old.m_Index != 0 || around.HasOther fx fy Tile) then return l
  else l.SetTile fx fy (around.placed fx fy Tile)

def BrushDraw (s : Settings) (around : Surroundings) (pBrush : Brush) (sx sy : Int)
    (l : CLayerTiles) : Exec CLayerTiles :=
  if l.m_Readonly then .ok l
  else do
    let Destructive := s.m_BrushDrawDestructive || around.IsEmpty
    let l ← forCells pBrush.m_Width pBrush.m_Height (fun l x y =>
      match target l.m_Width l.m_Height sx sy x y with
      | none => .ok l
      | some (fx, fy) => do
          let Tile ← load pBrush.m_pTiles (y * pBrush.m_Width + x)
          l.place around Destructive fx fy Tile) l
    l.FlagModified around.mapped

/-- `none` stands for the empty brush. -/
def FillSelection (s : Settings) (around : Surroundings) (pBrush : Option Brush) (sx sy : Int)
    (w h : Nat) (l : CLayerTiles) : Exec CLayerTiles :=
  if l.m_Readonly || pBrush.any (!·.m_IsTiles) then .ok l
  else do
    let Destructive := s.m_BrushDrawDestructive || pBrush.isNone || around.IsEmpty
    let l ← forCells w h (fun l x y =>
      match target l.m_Width l.m_Height sx sy x y with
      | none => .ok l
      | some (fx, fy) =>
          match pBrush with
          | none => l.place around Destructive fx fy ⟨0, 0, 0, 0⟩
          | some pLt => do
              let Tile ← load pLt.m_pTiles (repeated pLt x y)
              l.place around Destructive fx fy Tile) l
    l.FlagModified around.mapped

end CLayerTiles

/-! ## Tele layers -/

namespace CLayerTele

def ClearHistory (l : CLayerTele) : CLayerTele := { l with m_TilesHistory := [], m_History := [] }

/-- Whether a brush has no tiles for a tele layer. -/
def IsEmpty (s : Settings) (pLayer : Brush) : Bool :=
  !pLayer.m_pTiles.any fun Tile => s.m_AllowPlaceUnusedTiles || IsValidTeleTile Tile.m_Index

/-- A tile and its tele tile are changed, and what the history keeps of them is recorded. -/
def change (l : CLayerTele) (x y : Nat) (Tile : CTile) (TeleTile : CTeleTile) :
    Exec CLayerTele := do
  let TgtIndex := y * l.m_Width + x
  let OldTile ← load l.m_pTiles TgtIndex
  let OldTeleTile ← load l.m_pTeleTile TgtIndex
  let Previous := ⟨OldTeleTile.m_Number, OldTeleTile.m_Type, OldTile.m_Index⟩
  let m_pTiles ← store l.m_pTiles TgtIndex Tile
  let m_pTeleTile ← store l.m_pTeleTile TgtIndex TeleTile
  let Current := ⟨TeleTile.m_Number, TeleTile.m_Type, Tile.m_Index⟩
  return { l with m_pTiles, m_pTeleTile, m_History := record y x Previous Current l.m_History }

/-- What `BrushDraw` draws for a tile of the brush. -/
def drawn (s : Settings) (pTeleLayer : Brush) (SrcIndex : Nat) (Src : CTile) : Exec SData :=
  -- the number of a brush of another map is taken over
  let m_TeleNumber := if pTeleLayer.m_aFileName ≠ s.m_aFileName then pTeleLayer.m_TeleNum
    else s.m_TeleNumber
  if (s.m_AllowPlaceUnusedTiles || IsValidTeleTile Src.m_Index) && Src.m_Index != TILE_AIR then
    let IsCheckpoint := IsTeleTileCheckpoint Src.m_Index
    if !IsCheckpoint && !IsTeleTileNumberUsed Src.m_Index false then
      .ok ⟨255, Src.m_Index, Src.m_Index⟩
    else do
      let SrcTele ← load pTeleLayer.m_pTeleTile SrcIndex
      if SrcTele.m_Number ≠ 0 then return ⟨SrcTele.m_Number, Src.m_Index, Src.m_Index⟩
      else if (!IsCheckpoint && m_TeleNumber == 0) ||
          (IsCheckpoint && s.m_TeleCheckpointNumber == 0) then return ⟨0, 0, 0⟩
      else return ⟨if IsCheckpoint then s.m_TeleCheckpointNumber else m_TeleNumber, Src.m_Index,
        Src.m_Index⟩
  else .ok ⟨0, 0, 0⟩

def BrushDraw (s : Settings) (pBrush : Brush) (sx sy : Int) (l : CLayerTele) : Exec CLayerTele :=
  if l.m_Readonly then .ok l
  else
    let Destructive := s.m_BrushDrawDestructive || IsEmpty s pBrush
    forCells pBrush.m_Width pBrush.m_Height (fun l x y =>
      match target l.m_Width l.m_Height sx sy x y with
      | none => .ok l
      | some (fx, fy) => do
          let Old ← load l.m_pTiles (fy * l.m_Width + fx)
          if !Destructive && Old.m_Index != 0 then return l
          else
            let SrcIndex := y * pBrush.m_Width + x
            let Src ← load pBrush.m_pTiles SrcIndex
            let Data ← drawn s pBrush SrcIndex Src
            l.change fx fy { Old with m_Index := Data.m_Index } ⟨Data.m_Number, Data.m_Type⟩) l

/-- Whether `FillSelection` takes a tile of the brush. -/
def fills (s : Settings) (Src : CTile) : Bool :=
  s.m_AllowPlaceUnusedTiles || IsValidTeleTile Src.m_Index

/-- What `FillSelection` puts in the place of a tile. -/
def filled (s : Settings) (pLt : Brush) (SrcIndex : Nat) (Old Src : CTile) :
    Exec (CTile × CTeleTile) :=
  if !fills s Src then .ok ({ Old with m_Index := 0 }, ⟨0, 0⟩)
  else if pLt.m_HasTele && 0 < Src.m_Index then
    let IsCheckpoint := IsTeleTileCheckpoint Src.m_Index
    if !IsCheckpoint && !IsTeleTileNumberUsed Src.m_Index false then
      .ok (Src, ⟨255, Src.m_Index⟩)
    else do
      let SrcTele ← load pLt.m_pTeleTile SrcIndex
      let m_Number :=
        if !IsCheckpoint && ((SrcTele.m_Number == 0 && s.m_TeleNumber != 0) ||
            s.m_TeleNumber != pLt.m_TeleNum) then s.m_TeleNumber
        else if IsCheckpoint && ((SrcTele.m_Number == 0 && s.m_TeleCheckpointNumber != 0) ||
            s.m_TeleCheckpointNumber != pLt.m_TeleCheckpointNum) then s.m_TeleCheckpointNumber
        else SrcTele.m_Number
      return (Src, ⟨m_Number, Src.m_Index⟩)
  else .ok ({ Src with m_Index := 0 }, ⟨0, 0⟩)

/-- Whether `FillSelection` replaces tiles. -/
def fillDestructive (s : Settings) (pBrush : Option Brush) : Bool :=
  s.m_BrushDrawDestructive || pBrush.all (IsEmpty s)

/-- `none` stands for the empty brush. -/
def FillSelection (s : Settings) (pBrush : Option Brush) (sx sy : Int) (w h : Nat)
    (l : CLayerTele) : Exec CLayerTele :=
  if l.m_Readonly || pBrush.any (!·.m_IsTiles) then .ok l
  else
    forCells w h (fun l x y =>
      match target l.m_Width l.m_Height sx sy x y with
      | none => .ok l
      | some (fx, fy) => do
          let Old ← load l.m_pTiles (fy * l.m_Width + fx)
          if !fillDestructive s pBrush && Old.m_Index != 0 then return l
          else
            match pBrush with
            | none => l.change fx fy { Old with m_Index := 0 } ⟨0, 0⟩
            | some pLt => do
                let SrcIndex := repeated pLt x y
                let Src ← load pLt.m_pTiles SrcIndex
                let (Tile, TeleTile) ← filled s pLt SrcIndex Old Src
                l.change fx fy Tile TeleTile) l

/-- The data of a tile is written by an action. -/
def putData (l : CLayerTele) (y x : Nat) (Data : SData) : Exec CLayerTele := do
  let Index := y * l.m_Width + x
  let m_pTeleTile ← store l.m_pTeleTile Index ⟨Data.m_Number, Data.m_Type⟩
  let Tile ← load l.m_pTiles Index
  let m_pTiles ← store l.m_pTiles Index { Tile with m_Index := Data.m_Index }
  return { l with m_pTiles, m_pTeleTile }

end CLayerTele

/-! ## The action -/

/-- The changes of one layer. -/
structure CEditorBrushDrawAction where
  m_vTileChanges : Option (List (Change CTile))
  m_TeleTileChanges : List (Change SData)

namespace CEditorBrushDrawAction

def ofTiles (l : CLayerTiles) : CEditorBrushDrawAction × CLayerTiles :=
  if l.m_TilesHistory.isEmpty then (⟨none, []⟩, l)
  else (⟨some l.m_TilesHistory, []⟩, { l with m_TilesHistory := [] })

/-- The history of the tele layer is taken first, which clears that of its tiles too. -/
def ofTele (l : CLayerTele) : CEditorBrushDrawAction × CLayerTele :=
  let (m_TeleTileChanges, l) :=
    if l.m_History.isEmpty then ([], l) else (l.m_History, l.ClearHistory)
  if l.m_TilesHistory.isEmpty then (⟨none, m_TeleTileChanges⟩, l)
  else (⟨some l.m_TilesHistory, m_TeleTileChanges⟩, l.ClearHistory)

def ApplyTiles (Undo : Bool) (a : CEditorBrushDrawAction) (l : CLayerTiles) : Exec CLayerTiles :=
  match a.m_vTileChanges with
  | none => .ok l
  | some Changes => writeBack CLayerTiles.SetTileIgnoreHistory Undo Changes l

def ApplyTele (Undo : Bool) (a : CEditorBrushDrawAction) (l : CLayerTele) : Exec CLayerTele := do
  let tiles ← a.ApplyTiles Undo l.toCLayerTiles
  writeBack CLayerTele.putData Undo a.m_TeleTileChanges { l with toCLayerTiles := tiles }

end CEditorBrushDrawAction

/-! ## Runs -/

inductive TilesCall
  | BrushDraw (s : Settings) (around : Surroundings) (pBrush : Brush) (sx sy : Int)
  | FillSelection (s : Settings) (around : Surroundings) (pBrush : Option Brush) (sx sy : Int)
      (w h : Nat)

def TilesCall.step (l : CLayerTiles) : TilesCall → Exec CLayerTiles
  | BrushDraw s around pBrush sx sy => l.BrushDraw s around pBrush sx sy
  | FillSelection s around pBrush sx sy w h => l.FillSelection s around pBrush sx sy w h

inductive TeleCall
  | BrushDraw (s : Settings) (pBrush : Brush) (sx sy : Int)
  | FillSelection (s : Settings) (pBrush : Option Brush) (sx sy : Int) (w h : Nat)

def TeleCall.step (l : CLayerTele) : TeleCall → Exec CLayerTele
  | BrushDraw s pBrush sx sy => l.BrushDraw s pBrush sx sy
  | FillSelection s pBrush sx sy w h => l.FillSelection s pBrush sx sy w h

/-! ## Positions -/

theorem target_eq {w h : Nat} {sx sy : Int} {x y fx fy : Nat}
    (ht : target w h sx sy x y = some (fx, fy)) :
    fx < w ∧ fy < h ∧ (fx : Int) = x + sx ∧ (fy : Int) = y + sy := by
  unfold target at ht
  dsimp only at ht
  split at ht
  · cases ht
  next hin =>
    obtain ⟨hx, hy⟩ := Prod.mk.inj (Option.some.inj ht)
    omega

/-- Positions of different tiles of the brush are different. -/
theorem target_cell_ne {w h : Nat} {sx sy : Int} {x y fx fy a b fa fb : Nat}
    (ht : target w h sx sy x y = some (fx, fy)) (hu : target w h sx sy a b = some (fa, fb))
    (hne : ¬ (a = x ∧ b = y)) : fb * w + fa ≠ fy * w + fx := by
  obtain ⟨hx, hy, hfx, hfy⟩ := target_eq ht
  obtain ⟨ha, hb, hfa, hfb⟩ := target_eq hu
  intro heq
  have hcell := (cell_inj ha hx).mp heq
  exact hne (by omega)

/-! ## Layers of tiles keep track -/

theorem getElem?_set_writes {α : Type} {l : List α} {i : Nat} (hi : i < l.length) (a : α) :
    (l.set i a)[i]? = some a ∧ ∀ j, j ≠ i → (l.set i a)[j]? = l[j]? := by
  refine ⟨?_, fun j hj => ?_⟩
  · rw [List.getElem?_set, if_pos rfl, if_pos hi]
  · rw [List.getElem?_set, if_neg (Ne.symm hj)]

/-- The tile at an index. -/
def tileAt (l : CLayerTiles) (i : Nat) : Option CTile := l.m_pTiles[i]?

/-- The history of a layer leads from an earlier state to it. -/
structure TilesKept (l₀ l : CLayerTiles) : Prop where
  width : l.m_Width = l₀.m_Width
  height : l.m_Height = l₀.m_Height
  length : l.m_pTiles.length = l₀.m_pTiles.length
  tracks : Tracks tileAt l₀.m_Width l₀ l l.m_TilesHistory

theorem TilesKept.start {l₀ : CLayerTiles} (h : l₀.m_TilesHistory = []) : TilesKept l₀ l₀ where
  width := rfl
  height := rfl
  length := rfl
  tracks := by
    rw [h]
    exact Tracks.nil l₀

variable {l₀ l t : CLayerTiles}

theorem TilesKept.setTile (h : TilesKept l₀ l) {x y : Nat} {Tile : CTile} (hx : x < l.m_Width)
    (ht : l.SetTile x y Tile = .ok t) : TilesKept l₀ t := by
  obtain ⟨CurrentTile, hload, ht⟩ := bind_eq_ok.mp ht
  obtain ⟨u, hset, ht⟩ := bind_eq_ok.mp ht
  obtain ⟨m_pTiles, hstore, hu⟩ := bind_eq_ok.mp hset
  obtain rfl := Except.ok.inj hu
  obtain rfl := Except.ok.inj ht
  obtain ⟨hlt, rfl⟩ := eq_set_of_store hstore
  obtain ⟨hwritten, hothers⟩ := getElem?_set_writes hlt Tile
  refine ⟨h.width, h.height, (List.length_set ..).trans h.length, ?_⟩
  rw [h.width] at hx hload hwritten hothers
  refine h.tracks.record hx (getElem?_of_load hload) ⟨?_, fun j hj => ?_⟩
  · simp only [tileAt, CLayerTiles.RecordStateChange, h.width]
    exact hwritten
  · simp only [tileAt, CLayerTiles.RecordStateChange, h.width]
    exact hothers j hj

theorem TilesKept.flagModified (mapped : List (Nat × Nat × CTile)) : ∀ {l : CLayerTiles},
    TilesKept l₀ l → l.FlagModified mapped = .ok t → TilesKept l₀ t := by
  induction mapped with
  | nil =>
      intro l h ht
      obtain rfl := Except.ok.inj ht
      exact h
  | cons change mapped ih =>
      intro l h ht
      obtain ⟨x, y, In⟩ := change
      rw [CLayerTiles.FlagModified, List.foldlM_cons] at ht
      obtain ⟨u, hchange, ht⟩ := bind_eq_ok.mp ht
      dsimp only at hchange
      split at hchange
      · cases hchange
      next hin =>
        obtain ⟨Previous, -, hset⟩ := bind_eq_ok.mp hchange
        exact ih (h.setTile (by omega) hset) ht

theorem TilesKept.place (h : TilesKept l₀ l) {around : Surroundings} {Destructive : Bool}
    {fx fy : Nat} {Tile : CTile} (hx : fx < l.m_Width)
    (ht : l.place around Destructive fx fy Tile = .ok t) : TilesKept l₀ t := by
  obtain ⟨old, -, ht⟩ := bind_eq_ok.mp ht
  split at ht
  · obtain rfl := Except.ok.inj ht
    exact h
  · exact h.setTile hx ht

theorem TilesKept.brushDraw (h : TilesKept l₀ l) {s : Settings} {around : Surroundings}
    {pBrush : Brush} {sx sy : Int} (ht : l.BrushDraw s around pBrush sx sy = .ok t) :
    TilesKept l₀ t := by
  unfold CLayerTiles.BrushDraw at ht
  split at ht
  · obtain rfl := Except.ok.inj ht
    exact h
  · obtain ⟨u, hloop, hmodified⟩ := bind_eq_ok.mp ht
    refine TilesKept.flagModified _ ?_ hmodified
    refine forCells_keeps (fun _ _ l => TilesKept l₀ l) ?_ (fun _ _ _ h => h) h hloop
    intro x y l t _ _ h ht
    split at ht
    · obtain rfl := Except.ok.inj ht
      exact h
    next fx fy htarget =>
      obtain ⟨Tile, -, hplace⟩ := bind_eq_ok.mp ht
      exact h.place (target_eq htarget).1 hplace

theorem TilesKept.fillSelection (h : TilesKept l₀ l) {s : Settings} {around : Surroundings}
    {pBrush : Option Brush} {sx sy : Int} {w h' : Nat}
    (ht : l.FillSelection s around pBrush sx sy w h' = .ok t) : TilesKept l₀ t := by
  unfold CLayerTiles.FillSelection at ht
  split at ht
  · obtain rfl := Except.ok.inj ht
    exact h
  · obtain ⟨u, hloop, hmodified⟩ := bind_eq_ok.mp ht
    refine TilesKept.flagModified _ ?_ hmodified
    refine forCells_keeps (fun _ _ l => TilesKept l₀ l) ?_ (fun _ _ _ h => h) h hloop
    intro x y l t _ _ h ht
    split at ht
    · obtain rfl := Except.ok.inj ht
      exact h
    next fx fy htarget =>
      have hx := (target_eq htarget).1
      cases pBrush with
      | none => exact h.place hx ht
      | some pLt =>
          obtain ⟨Tile, -, hplace⟩ := bind_eq_ok.mp ht
          exact h.place hx hplace

theorem TilesKept.step (h : TilesKept l₀ l) {c : TilesCall} (ht : c.step l = .ok t) :
    TilesKept l₀ t := by
  cases c with
  | BrushDraw => exact h.brushDraw ht
  | FillSelection => exact h.fillSelection ht

/-- A recorded tile can be written back. -/
theorem TilesKept.put (h : TilesKept l₀ l) : ∀ c ∈ l.m_TilesHistory, ∀ (s : CLayerTiles) Tile,
    s.m_Width = l₀.m_Width ∧ s.m_pTiles.length = l₀.m_pTiles.length →
      ∃ t, s.SetTileIgnoreHistory c.y c.x Tile = .ok t ∧
        (t.m_Width = l₀.m_Width ∧ t.m_pTiles.length = l₀.m_pTiles.length) ∧
          Writes tileAt s t (c.cell l₀.m_Width) Tile := by
  rintro c hc s Tile ⟨hw, hlength⟩
  have hlt : c.y * s.m_Width + c.x < s.m_pTiles.length := by
    rw [hw, hlength]
    exact (List.getElem?_eq_some_iff.mp (h.tracks.previous c hc)).1
  obtain ⟨hwritten, hothers⟩ := getElem?_set_writes hlt Tile
  rw [← hw]
  refine ⟨{ s with m_pTiles := s.m_pTiles.set (c.y * s.m_Width + c.x) Tile }, ?_,
    ⟨rfl, (List.length_set ..).trans hlength⟩, hwritten, hothers⟩
  unfold CLayerTiles.SetTileIgnoreHistory
  rw [store_eq hlt]
  rfl

/-- The action restores the tiles of `l₀` and then those of `l`. -/
def TilesExact (l₀ l : CLayerTiles) : Prop :=
  let (action, cleared) := CEditorBrushDrawAction.ofTiles l
  ∃ t u, action.ApplyTiles true cleared = .ok t ∧ t.m_pTiles = l₀.m_pTiles ∧
    action.ApplyTiles false t = .ok u ∧ u.m_pTiles = l.m_pTiles

theorem ofTiles_eq (l : CLayerTiles) : ∃ action, CEditorBrushDrawAction.ofTiles l =
    (action, { l with m_TilesHistory := [] }) ∧ ∀ Undo s, action.ApplyTiles Undo s =
      writeBack CLayerTiles.SetTileIgnoreHistory Undo l.m_TilesHistory s := by
  unfold CEditorBrushDrawAction.ofTiles
  cases hhistory : l.m_TilesHistory with
  | nil =>
      refine ⟨⟨none, []⟩, ?_, fun _ _ => rfl⟩
      rw [List.isEmpty_nil, if_pos rfl, ← hhistory]
  | cons c history => exact ⟨⟨some (c :: history), []⟩, rfl, fun _ _ => rfl⟩

theorem TilesKept.exact (h : TilesKept l₀ l) : TilesExact l₀ l := by
  obtain ⟨action, hof, happly⟩ := ofTiles_eq l
  unfold TilesExact
  rw [hof]
  have hinv : ({ l with m_TilesHistory := [] } : CLayerTiles).m_Width = l₀.m_Width ∧
      ({ l with m_TilesHistory := [] } : CLayerTiles).m_pTiles.length = l₀.m_pTiles.length :=
    ⟨h.width, h.length⟩
  have hcleared : Tracks tileAt l₀.m_Width l₀ { l with m_TilesHistory := [] } l.m_TilesHistory :=
    ⟨h.tracks.inRow, h.tracks.previous, h.tracks.current, h.tracks.same⟩
  obtain ⟨t, ht, hinvt, hbase⟩ := hcleared.undo _ h.put hinv
  obtain ⟨u, hu, -, hcurrent⟩ := hcleared.redo _ h.put hinvt hbase
  refine ⟨t, u, ?_, List.ext_getElem? hbase, ?_, List.ext_getElem? hcurrent⟩
  · rw [happly]
    exact ht
  · rw [happly]
    exact hu

theorem tilesExact_of_run (h₀ : l₀.m_TilesHistory = [])
    (h : Reachable (fun l c => TilesCall.step l c) (fun _ _ => True) l₀ l) : TilesExact l₀ l := by
  have hkept : TilesKept l₀ l := by
    refine @Reachable.invariant _ _ _ _ _ _ (TilesKept l₀) h (TilesKept.start h₀) ?_
    exact fun _ _ _ hl _ ht => hl.step ht
  exact hkept.exact

/-! ## Tele layers keep track -/

/-- What the history of a tele layer keeps of an index. -/
def teleAt (l : CLayerTele) (i : Nat) : Option SData := do
  let Tile ← l.m_pTiles[i]?
  let TeleTile ← l.m_pTeleTile[i]?
  return ⟨TeleTile.m_Number, TeleTile.m_Type, Tile.m_Index⟩

/-- A tile without its index. -/
def rest (Tile : CTile) : CTile := { Tile with m_Index := 0 }

theorem rest_withIndex (Tile : CTile) (m_Index : UInt8) :
    rest { Tile with m_Index := m_Index } = rest Tile := rfl

/-- What the history does not keep of an index. -/
def restAt (l : CLayerTele) (i : Nat) : Option CTile := l.m_pTiles[i]?.map rest

/-- Arrays of `n` tiles in rows of `w`. -/
structure HasSize (w n : Nat) (l : CLayerTele) : Prop where
  width : l.m_Width = w
  tiles : l.m_pTiles.length = n
  teles : l.m_pTeleTile.length = n

theorem teleAt_eq {l : CLayerTele} {i : Nat} {Tile : CTile} {TeleTile : CTeleTile}
    (htile : l.m_pTiles[i]? = some Tile) (htele : l.m_pTeleTile[i]? = some TeleTile) :
    teleAt l i = some ⟨TeleTile.m_Number, TeleTile.m_Type, Tile.m_Index⟩ := by
  rw [teleAt, htile, htele]
  rfl

/-- A tile is its index and the rest. -/
theorem HasSize.ext {w n : Nat} {l t : CLayerTele} (hl : HasSize w n l) (ht : HasSize w n t)
    (hdata : ∀ i, teleAt t i = teleAt l i) (hrest : ∀ i, restAt t i = restAt l i) :
    t.m_pTiles = l.m_pTiles ∧ t.m_pTeleTile = l.m_pTeleTile := by
  have hcells : ∀ i : Nat, t.m_pTiles[i]? = l.m_pTiles[i]? ∧ t.m_pTeleTile[i]? = l.m_pTeleTile[i]? := by
    intro i
    by_cases hi : i < n
    · obtain ⟨a, ha⟩ : ∃ a, t.m_pTiles[i]? = some a :=
        ⟨_, List.getElem?_eq_getElem (by rw [ht.tiles]; exact hi)⟩
      obtain ⟨b, hb⟩ : ∃ b, l.m_pTiles[i]? = some b :=
        ⟨_, List.getElem?_eq_getElem (by rw [hl.tiles]; exact hi)⟩
      obtain ⟨c, hc⟩ : ∃ c, t.m_pTeleTile[i]? = some c :=
        ⟨_, List.getElem?_eq_getElem (by rw [ht.teles]; exact hi)⟩
      obtain ⟨d, hd⟩ : ∃ d, l.m_pTeleTile[i]? = some d :=
        ⟨_, List.getElem?_eq_getElem (by rw [hl.teles]; exact hi)⟩
      have hdata := hdata i
      rw [teleAt_eq ha hc, teleAt_eq hb hd] at hdata
      have hrest := hrest i
      rw [restAt, restAt, ha, hb] at hrest
      obtain ⟨hnumber, htype, hindex⟩ := SData.mk.inj (Option.some.inj hdata)
      have htile := CTile.mk.inj (Option.some.inj hrest)
      rw [ha, hb, hc, hd]
      refine ⟨congrArg some ?_, congrArg some ?_⟩
      · cases a
        cases b
        simp_all
      · cases c
        cases d
        simp_all
    · rw [List.getElem?_eq_none (by rw [ht.tiles]; omega),
        List.getElem?_eq_none (by rw [hl.tiles]; omega),
        List.getElem?_eq_none (by rw [ht.teles]; omega),
        List.getElem?_eq_none (by rw [hl.teles]; omega)]
      exact ⟨rfl, rfl⟩
  exact ⟨List.ext_getElem? fun i => (hcells i).1, List.ext_getElem? fun i => (hcells i).2⟩

/-- Tiles and tele tiles are changed at one index. -/
theorem teleAt_set {l : CLayerTele} {i : Nat} (Tile : CTile) (TeleTile : CTeleTile)
    (htile : i < l.m_pTiles.length) (htele : i < l.m_pTeleTile.length) (history) :
    Writes teleAt l { l with
        m_pTiles := l.m_pTiles.set i Tile
        m_pTeleTile := l.m_pTeleTile.set i TeleTile
        m_History := history } i ⟨TeleTile.m_Number, TeleTile.m_Type, Tile.m_Index⟩ := by
  obtain ⟨hwritten, hothers⟩ := getElem?_set_writes htile Tile
  obtain ⟨hwritten', hothers'⟩ := getElem?_set_writes htele TeleTile
  refine ⟨teleAt_eq hwritten hwritten', fun j hj => ?_⟩
  rw [teleAt, teleAt]
  simp only [hothers j hj, hothers' j hj]

/-- The history of a tele layer leads from an earlier state to it. -/
structure TeleKept (l₀ l : CLayerTele) : Prop where
  height : l.m_Height = l₀.m_Height
  size : HasSize l₀.m_Width l₀.m_pTiles.length l
  noTiles : l.m_TilesHistory = []
  tracks : Tracks teleAt l₀.m_Width l₀ l l.m_History

/-- A tele layer without a history. -/
structure Cleared (l : CLayerTele) : Prop where
  teles : l.m_pTeleTile.length = l.m_pTiles.length
  noTiles : l.m_TilesHistory = []
  noTeles : l.m_History = []

theorem TeleKept.start {l₀ : CLayerTele} (h : Cleared l₀) : TeleKept l₀ l₀ where
  height := rfl
  size := ⟨rfl, rfl, h.teles⟩
  noTiles := h.noTiles
  tracks := by
    rw [h.noTeles]
    exact Tracks.nil l₀

variable {b l t : CLayerTele}

/-- A change of one tile. -/
theorem TeleKept.change (h : TeleKept b l) {x y : Nat} {Tile : CTile} {TeleTile : CTeleTile}
    (hx : x < l.m_Width) (ht : l.change x y Tile TeleTile = .ok t) :
    TeleKept b t ∧ t.m_Readonly = l.m_Readonly ∧
      t.m_pTiles[y * l.m_Width + x]? = some Tile ∧
      ∀ i, i ≠ y * l.m_Width + x → t.m_pTiles[i]? = l.m_pTiles[i]? := by
  obtain ⟨OldTile, hold, ht⟩ := bind_eq_ok.mp ht
  obtain ⟨OldTeleTile, holdTele, ht⟩ := bind_eq_ok.mp ht
  obtain ⟨m_pTiles, htiles, ht⟩ := bind_eq_ok.mp ht
  obtain ⟨m_pTeleTile, hteles, ht⟩ := bind_eq_ok.mp ht
  obtain rfl := Except.ok.inj ht
  obtain ⟨hlt, rfl⟩ := eq_set_of_store htiles
  obtain ⟨hlt', rfl⟩ := eq_set_of_store hteles
  obtain ⟨hwritten, hothers⟩ := getElem?_set_writes hlt Tile
  have hprevious := teleAt_eq (getElem?_of_load hold) (getElem?_of_load holdTele)
  refine ⟨⟨h.height, ⟨h.size.width, (List.length_set ..).trans h.size.tiles,
    (List.length_set ..).trans h.size.teles⟩, h.noTiles, ?_⟩, rfl, hwritten, hothers⟩
  have hwrites := teleAt_set Tile TeleTile hlt hlt'
    (record y x ⟨OldTeleTile.m_Number, OldTeleTile.m_Type, OldTile.m_Index⟩
      ⟨TeleTile.m_Number, TeleTile.m_Type, Tile.m_Index⟩ l.m_History)
  rw [h.size.width] at hx hprevious hwrites
  have hrecord := h.tracks.record hx hprevious hwrites
  simp only [h.size.width]
  exact hrecord

/-! ## The action of a tele layer -/

/-- The action restores the tiles and tele tiles of `b` and then those of `l`. -/
def TeleExact (b l : CLayerTele) : Prop :=
  let (action, cleared) := CEditorBrushDrawAction.ofTele l
  ∃ t u, action.ApplyTele true cleared = .ok t ∧
    t.m_pTiles = b.m_pTiles ∧ t.m_pTeleTile = b.m_pTeleTile ∧
    action.ApplyTele false t = .ok u ∧
    u.m_pTiles = l.m_pTiles ∧ u.m_pTeleTile = l.m_pTeleTile

theorem ofTele_eq {l : CLayerTele} (h : l.m_TilesHistory = []) :
    ∃ action, CEditorBrushDrawAction.ofTele l = (action, { l with m_History := [] }) ∧
      ∀ Undo s, action.ApplyTele Undo s = writeBack CLayerTele.putData Undo l.m_History s := by
  obtain ⟨⟨_, _, _, _, m_TilesHistory⟩, _, m_History⟩ := l
  obtain rfl : m_TilesHistory = [] := h
  cases m_History with
  | nil => exact ⟨⟨none, []⟩, rfl, fun _ _ => rfl⟩
  | cons c history => exact ⟨⟨none, c :: history⟩, rfl, fun _ _ => rfl⟩

/-- What an action writes leaves the rest of the tiles. -/
structure Restoring (b l s : CLayerTele) : Prop where
  size : HasSize b.m_Width b.m_pTiles.length s
  rest : ∀ i, restAt s i = restAt l i

theorem TeleKept.put (h : TeleKept b l) : ∀ c ∈ l.m_History, ∀ (s : CLayerTele) Data,
    Restoring b l s → ∃ t, s.putData c.y c.x Data = .ok t ∧ Restoring b l t ∧
      Writes teleAt s t (c.cell b.m_Width) Data := by
  intro c hc s Data hs
  have hcell : c.cell b.m_Width < b.m_pTiles.length := by
    have hbase := h.tracks.previous c hc
    rw [teleAt] at hbase
    by_contra hout
    rw [List.getElem?_eq_none (by omega)] at hbase
    cases hbase
  have htile : c.y * s.m_Width + c.x < s.m_pTiles.length := by
    rw [hs.size.width, hs.size.tiles]
    exact hcell
  have htele : c.y * s.m_Width + c.x < s.m_pTeleTile.length := by
    rw [hs.size.width, hs.size.teles]
    exact hcell
  obtain ⟨Old, hold⟩ : ∃ Old, s.m_pTiles[c.y * s.m_Width + c.x]? = some Old :=
    ⟨_, List.getElem?_eq_getElem htile⟩
  have hwrites := teleAt_set { Old with m_Index := Data.m_Index } ⟨Data.m_Number, Data.m_Type⟩
    htile htele s.m_History
  refine ⟨{ s with
      m_pTiles := s.m_pTiles.set (c.y * s.m_Width + c.x) { Old with m_Index := Data.m_Index }
      m_pTeleTile := s.m_pTeleTile.set (c.y * s.m_Width + c.x) ⟨Data.m_Number, Data.m_Type⟩ }, ?_,
    ⟨⟨hs.size.width, (List.length_set ..).trans hs.size.tiles,
      (List.length_set ..).trans hs.size.teles⟩, fun i => ?_⟩, hs.size.width ▸ hwrites⟩
  · simp only [CLayerTele.putData, store_eq htele, load_eq hold, bind, Except.bind]
    rw [store_eq htile]
    rfl
  · rw [← hs.rest i]
    unfold restAt
    by_cases hi : i = c.y * s.m_Width + c.x
    · rw [hi, List.getElem?_set, if_pos rfl, if_pos htile, hold]
      rfl
    · rw [List.getElem?_set, if_neg (Ne.symm hi)]

/-- The action is exact if and only if the calls left the rest of the tiles. -/
theorem TeleKept.exact_iff (h : TeleKept b l) (hb : b.m_pTeleTile.length = b.m_pTiles.length) :
    TeleExact b l ↔ ∀ i, restAt l i = restAt b i := by
  obtain ⟨action, hof, happly⟩ := ofTele_eq h.noTiles
  have hsize : HasSize b.m_Width b.m_pTiles.length b := ⟨rfl, rfl, hb⟩
  have hstart : Restoring b l { l with m_History := [] } :=
    ⟨⟨h.size.width, h.size.tiles, h.size.teles⟩, fun _ => rfl⟩
  have hcleared : Tracks teleAt b.m_Width b { l with m_History := [] } l.m_History :=
    ⟨h.tracks.inRow, h.tracks.previous, h.tracks.current, h.tracks.same⟩
  obtain ⟨t, ht, hinvt, hbase⟩ := hcleared.undo _ h.put hstart
  obtain ⟨u, hu, hinvu, hcurrent⟩ := hcleared.redo _ h.put hinvt hbase
  unfold TeleExact
  rw [hof]
  constructor
  · rintro ⟨t', -, ht', htiles, -⟩ i
    rw [happly] at ht'
    obtain rfl := Except.ok.inj (ht.symm.trans ht')
    rw [← hinvt.rest i, restAt, htiles]
    rfl
  · intro hrest
    obtain ⟨htiles, hteles⟩ := hsize.ext hinvt.size hbase fun i => (hinvt.rest i).trans (hrest i)
    obtain ⟨htiles', hteles'⟩ := h.size.ext hinvu.size hcurrent hinvu.rest
    refine ⟨t, u, ?_, htiles, hteles, ?_, htiles', hteles'⟩
    · rw [happly]
      exact ht
    · rw [happly]
      exact hu

/-! ## Calls for a tele layer -/

/-- A tile that keeps the rest of the one it replaces. -/
theorem TeleKept.change_rest (h : TeleKept b l) {x y : Nat} {Old Tile : CTile}
    {TeleTile : CTeleTile} (hx : x < l.m_Width) (hold : l.m_pTiles[y * l.m_Width + x]? = some Old)
    (hrest : rest Tile = rest Old) (ht : l.change x y Tile TeleTile = .ok t) :
    TeleKept b t ∧ ∀ i, restAt t i = restAt l i := by
  obtain ⟨hkept, -, hwritten, hothers⟩ := h.change hx ht
  refine ⟨hkept, fun i => ?_⟩
  unfold restAt
  by_cases hi : i = y * l.m_Width + x
  · rw [hi, hwritten, hold, Option.map_some, Option.map_some, hrest]
  · rw [hothers i hi]

theorem TeleKept.brushDraw (h : TeleKept b l) {s : Settings} {pBrush : Brush} {sx sy : Int}
    (ht : l.BrushDraw s pBrush sx sy = .ok t) : TeleKept b t ∧ ∀ i, restAt t i = restAt l i := by
  unfold CLayerTele.BrushDraw at ht
  split at ht
  · obtain rfl := Except.ok.inj ht
    exact ⟨h, fun _ => rfl⟩
  · refine forCells_keeps (fun _ _ t => TeleKept b t ∧ ∀ i, restAt t i = restAt l i) ?_
      (fun _ _ _ h => h) ⟨h, fun _ => rfl⟩ ht
    rintro x y u v _ _ ⟨hu, hrest⟩ hv
    split at hv
    · obtain rfl := Except.ok.inj hv
      exact ⟨hu, hrest⟩
    next fx fy htarget =>
      obtain ⟨Old, hold, hv⟩ := bind_eq_ok.mp hv
      split at hv
      · obtain rfl := Except.ok.inj hv
        exact ⟨hu, hrest⟩
      · obtain ⟨Src, -, hv⟩ := bind_eq_ok.mp hv
        obtain ⟨Data, -, hv⟩ := bind_eq_ok.mp hv
        obtain ⟨hkept, hsame⟩ := hu.change_rest (target_eq htarget).1 (getElem?_of_load hold)
          (rest_withIndex Old Data.m_Index) hv
        exact ⟨hkept, fun i => (hsame i).trans (hrest i)⟩

/-- The tile of the brush that `FillSelection` copies as a whole, and the index it is copied to. -/
def copied (s : Settings) (pBrush : Option Brush) (sx sy : Int) (l : CLayerTele) (x y : Nat) :
    Option (Nat × CTile) := do
  let pLt ← pBrush
  let (fx, fy) ← target l.m_Width l.m_Height sx sy x y
  let Old ← l.m_pTiles[fy * l.m_Width + fx]?
  let Src ← pLt.m_pTiles[repeated pLt x y]?
  if !l.m_Readonly && pLt.m_IsTiles && (CLayerTele.fillDestructive s pBrush || Old.m_Index == 0) && CLayerTele.fills s Src
    then some (fy * l.m_Width + fx, Src)
    else none

section
variable {s : Settings} {pBrush : Option Brush} {sx sy : Int} {w h : Nat} {u v : CLayerTele}
  {x y : Nat}

theorem target_of_copied {i : Nat} {Src : CTile} (hc : copied s pBrush sx sy l x y = some (i, Src)) :
    ∃ fx fy, target l.m_Width l.m_Height sx sy x y = some (fx, fy) ∧ i = fy * l.m_Width + fx := by
  obtain ⟨pLt, -, hc⟩ := Option.bind_eq_some_iff.mp hc
  obtain ⟨⟨fx, fy⟩, htarget, hc⟩ := Option.bind_eq_some_iff.mp hc
  obtain ⟨Old, -, hc⟩ := Option.bind_eq_some_iff.mp hc
  obtain ⟨Src', -, hc⟩ := Option.bind_eq_some_iff.mp hc
  split at hc
  · exact ⟨fx, fy, htarget, (Prod.mk.inj (Option.some.inj hc)).1.symm⟩
  · cases hc

theorem writable_of_copied {c : Nat × CTile} (hc : copied s pBrush sx sy l x y = some c) :
    (l.m_Readonly || pBrush.any (!·.m_IsTiles)) = false := by
  obtain ⟨pLt, rfl, hc⟩ := Option.bind_eq_some_iff.mp hc
  obtain ⟨⟨fx, fy⟩, -, hc⟩ := Option.bind_eq_some_iff.mp hc
  obtain ⟨Old, -, hc⟩ := Option.bind_eq_some_iff.mp hc
  obtain ⟨Src, -, hc⟩ := Option.bind_eq_some_iff.mp hc
  split at hc
  next hcopy =>
    simp only [Bool.and_eq_true] at hcopy
    rw [Option.any_some, hcopy.1.1.2, Bool.not_true, Bool.or_false]
    exact Bool.not_eq_true' _ ▸ hcopy.1.1.1
  · cases hc

/-- `FillSelection` has filled the positions before `x` in row `y` and the rows before. -/
structure Filled (b l : CLayerTele) (s : Settings) (pBrush : Option Brush) (sx sy : Int) (w h : Nat)
    (x y : Nat) (u : CLayerTele) : Prop where
  kept : TeleKept b u
  done : ∀ x' y', x' < w → y' < y ∨ y' = y ∧ x' < x → ∀ i Src,
    copied s pBrush sx sy l x' y' = some (i, Src) → restAt u i = some (rest Src)
  others : ∀ i, (∀ x' y' Src, x' < w → y' < h → copied s pBrush sx sy l x' y' ≠ some (i, Src)) →
    restAt u i = restAt l i
  fresh : ∀ x' y' fx fy, y < y' ∨ y' = y ∧ x ≤ x' →
    target l.m_Width l.m_Height sx sy x' y' = some (fx, fy) →
      u.m_pTiles[fy * l.m_Width + fx]? = l.m_pTiles[fy * l.m_Width + fx]?

theorem Filled.step (hf : Filled b l s pBrush sx sy w h x y u) (hx : x < w) (hy : y < h)
    (hkept : TeleKept b v)
    (hagree : ∀ i, (∀ fx fy, target l.m_Width l.m_Height sx sy x y = some (fx, fy) →
      i ≠ fy * l.m_Width + fx) → v.m_pTiles[i]? = u.m_pTiles[i]?)
    (hrest : copied s pBrush sx sy l x y = none ∧ (∀ i, restAt v i = restAt u i) ∨
      ∃ i Src, copied s pBrush sx sy l x y = some (i, Src) ∧ restAt v i = some (rest Src)) :
    Filled b l s pBrush sx sy w h (x + 1) y v := by
  -- a position is changed by one turn only
  have hcell : ∀ {x' y' fx fy fx' fy'}, ¬ (x' = x ∧ y' = y) →
      target l.m_Width l.m_Height sx sy x' y' = some (fx', fy') →
      target l.m_Width l.m_Height sx sy x y = some (fx, fy) →
        fy' * l.m_Width + fx' ≠ fy * l.m_Width + fx :=
    fun hne htarget' htarget => target_cell_ne htarget htarget' hne
  have hsame : ∀ {i}, (∀ fx fy, target l.m_Width l.m_Height sx sy x y = some (fx, fy) →
      i ≠ fy * l.m_Width + fx) → restAt v i = restAt u i := by
    intro i hi
    rw [restAt, restAt, hagree i hi]
  refine ⟨hkept, fun x' y' hx' hbefore i Src hc => ?_, fun i hi => ?_,
    fun x' y' fx fy hafter htarget => ?_⟩
  · by_cases hnow : x' = x ∧ y' = y
    · obtain ⟨rfl, rfl⟩ := hnow
      rcases hrest with ⟨hnone, -⟩ | ⟨j, Src', hsome, hwritten⟩
      · rw [hnone] at hc
        cases hc
      · obtain ⟨rfl, rfl⟩ := Prod.mk.inj (Option.some.inj (hsome.symm.trans hc))
        exact hwritten
    · obtain ⟨fx', fy', htarget', rfl⟩ := target_of_copied hc
      rw [hsame fun fx fy htarget => hcell hnow htarget' htarget]
      exact hf.done x' y' hx' (by omega) _ Src hc
  · rw [← hf.others i hi]
    rcases hrest with ⟨-, hall⟩ | ⟨j, Src, hsome, -⟩
    · exact hall i
    · refine hsame fun fx fy htarget heq => ?_
      obtain ⟨fx', fy', htarget', rfl⟩ := target_of_copied hsome
      obtain ⟨rfl, rfl⟩ := Prod.mk.inj (Option.some.inj (htarget.symm.trans htarget'))
      exact hi x y Src hx hy (heq ▸ hsome)
  · rw [hagree _ fun fx' fy' htarget' => hcell (by omega) htarget htarget']
    exact hf.fresh x' y' fx fy (by omega) htarget

/-- The tile of the brush gives the rest of the tile, or the old tile keeps it. -/
theorem filled_cases {pLt : Brush} {SrcIndex : Nat} {Old Src Tile : CTile} {TeleTile : CTeleTile}
    (hfilled : CLayerTele.filled s pLt SrcIndex Old Src = .ok (Tile, TeleTile)) :
    CLayerTele.fills s Src = false ∧ rest Tile = rest Old ∨
      CLayerTele.fills s Src = true ∧ rest Tile = rest Src := by
  unfold CLayerTele.filled at hfilled
  split at hfilled
  next hfills =>
    obtain ⟨rfl, -⟩ := Prod.mk.inj (Except.ok.inj hfilled)
    exact .inl ⟨by simpa using hfills, rfl⟩
  next hfills =>
    refine .inr ⟨by simpa using hfills, ?_⟩
    split at hfilled
    · dsimp only at hfilled
      split at hfilled
      · obtain ⟨rfl, -⟩ := Prod.mk.inj (Except.ok.inj hfilled)
        rfl
      · obtain ⟨SrcTele, -, hfilled⟩ := bind_eq_ok.mp hfilled
        obtain ⟨rfl, -⟩ := Prod.mk.inj (Except.ok.inj hfilled)
        rfl
    · obtain ⟨rfl, -⟩ := Prod.mk.inj (Except.ok.inj hfilled)
      rfl

theorem copied_eq {pLt : Brush} {fx fy : Nat} {Old Src : CTile}
    (htarget : target l.m_Width l.m_Height sx sy x y = some (fx, fy))
    (hold : l.m_pTiles[fy * l.m_Width + fx]? = some Old)
    (hsrc : pLt.m_pTiles[repeated pLt x y]? = some Src) :
    copied s (some pLt) sx sy l x y =
      if !l.m_Readonly && pLt.m_IsTiles &&
          (CLayerTele.fillDestructive s (some pLt) || Old.m_Index == 0) && CLayerTele.fills s Src then
        some (fy * l.m_Width + fx, Src)
      else none := by
  unfold copied
  simp only [htarget, hold, hsrc, Option.bind_eq_bind, Option.bind_some]

theorem TeleKept.filled (hl : TeleKept b l)
    (hwritable : (l.m_Readonly || pBrush.any (!·.m_IsTiles)) = false)
    (ht : l.FillSelection s pBrush sx sy w h = .ok t) :
    Filled b l s pBrush sx sy w h 0 h t := by
  unfold CLayerTele.FillSelection at ht
  rw [hwritable, if_neg Bool.false_ne_true] at ht
  refine forCells_keeps (fun x y u => Filled b l s pBrush sx sy w h x y u) ?_ ?_
    ⟨hl, fun _ _ _ hbefore => by omega, fun _ _ => rfl, fun _ _ _ _ _ _ => rfl⟩ ht
  · intro x y u v hx hy hf hv
    have hw : u.m_Width = l.m_Width := hf.kept.size.width.trans hl.size.width.symm
    have hh : u.m_Height = l.m_Height := hf.kept.height.trans hl.height.symm
    rw [hw, hh] at hv
    cases htarget : target l.m_Width l.m_Height sx sy x y with
    | none =>
        rw [htarget] at hv
        obtain rfl := Except.ok.inj hv
        refine hf.step hx hy hf.kept (fun _ _ => rfl) (.inl ⟨?_, fun _ => rfl⟩)
        cases hcopied : copied s pBrush sx sy l x y with
        | none => rfl
        | some c =>
            obtain ⟨fx, fy, hsome, -⟩ := target_of_copied hcopied
            rw [htarget] at hsome
            cases hsome
    | some position =>
        obtain ⟨fx, fy⟩ := position
        rw [htarget] at hv
        obtain ⟨Old, hold, hv⟩ := bind_eq_ok.mp hv
        have hold' := getElem?_of_load hold
        have hfresh := hf.fresh x y fx fy (.inr ⟨rfl, Nat.le_refl x⟩) htarget
        rw [hold'] at hfresh
        have hfx : fx < u.m_Width := hw ▸ (target_eq htarget).1
        rw [← hw] at hold'
        split at hv
        next hskip =>
          obtain rfl := Except.ok.inj hv
          refine hf.step hx hy hf.kept (fun _ _ => rfl) (.inl ⟨?_, fun _ => rfl⟩)
          cases pBrush with
          | none => rfl
          | some pLt =>
              cases hsrc : pLt.m_pTiles[repeated pLt x y]? with
              | none => simp [copied, htarget, hsrc]
              | some Src =>
                  rw [copied_eq htarget hfresh.symm hsrc, if_neg]
                  intro hcopy
                  simp at hskip hcopy
                  simp [hskip] at hcopy
        next hgo =>
          cases pBrush with
          | none =>
              obtain ⟨hkept, -, -, hothers⟩ := hf.kept.change hfx hv
              refine hf.step hx hy hkept (fun i hi => hothers i (hw.symm ▸ hi fx fy htarget))
                (.inl ⟨rfl, (hf.kept.change_rest hfx hold' (rest_withIndex Old 0) hv).2⟩)
          | some pLt =>
              obtain ⟨Src, hsrc, hv⟩ := bind_eq_ok.mp hv
              obtain ⟨⟨Tile, TeleTile⟩, hfilled, hv⟩ := bind_eq_ok.mp hv
              obtain ⟨hkept, -, hwritten, hothers⟩ := hf.kept.change hfx hv
              have hcopied := copied_eq (s := s) htarget hfresh.symm (getElem?_of_load hsrc)
              refine hf.step hx hy hkept (fun i hi => hothers i (hw.symm ▸ hi fx fy htarget)) ?_
              rcases filled_cases hfilled with ⟨hfills, hrest⟩ | ⟨hfills, hrest⟩
              · left
                refine ⟨?_, (hf.kept.change_rest hfx hold' hrest hv).2⟩
                rw [hcopied, hfills, Bool.and_false, if_neg Bool.false_ne_true]
              · right
                refine ⟨_, Src, hcopied.trans (if_pos ?_), ?_⟩
                · simp at hwritable hgo
                  simp [hwritable, hfills]
                  cases hdestructive : CLayerTele.fillDestructive s (some pLt) with
                  | true => exact .inl rfl
                  | false => exact .inr (hgo hdestructive)
                · rw [restAt, ← hw, hwritten, Option.map_some, hrest]
  · intro y u hy hf
    exact ⟨hf.kept, fun x' y' hx' hbefore => hf.done x' y' hx' (by omega), hf.others,
      fun x' y' fx fy hafter => hf.fresh x' y' fx fy (by omega)⟩

/-- Every tile that a call copies as a whole agrees with the tile it replaces in all but the
index. -/
def FillKeeps (s : Settings) (pBrush : Option Brush) (sx sy : Int) (w h : Nat) (l : CLayerTele) :
    Prop :=
  ∀ x y, x < w → y < h → ∀ i Src, copied s pBrush sx sy l x y = some (i, Src) →
    restAt l i = some (rest Src)

theorem TeleKept.fillSelection (hl : TeleKept b l)
    (ht : l.FillSelection s pBrush sx sy w h = .ok t) :
    TeleKept b t ∧ ((∀ i, restAt t i = restAt l i) ↔ FillKeeps s pBrush sx sy w h l) := by
  cases hwritable : (l.m_Readonly || pBrush.any (!·.m_IsTiles)) with
  | true =>
      rw [CLayerTele.FillSelection, if_pos hwritable] at ht
      obtain rfl := Except.ok.inj ht
      refine ⟨hl, fun _ x y _ _ i Src hcopied => ?_, fun _ _ => rfl⟩
      rw [writable_of_copied hcopied] at hwritable
      cases hwritable
  | false =>
      have hfilled := hl.filled hwritable ht
      refine ⟨hfilled.kept, fun hsame x y hx hy i Src hcopied => ?_, fun hkeeps i => ?_⟩
      · rw [← hsame i]
        exact hfilled.done x y hx (.inl hy) i Src hcopied
      · by_cases hcopied : ∃ x y Src, x < w ∧ y < h ∧ copied s pBrush sx sy l x y = some (i, Src)
        · obtain ⟨x, y, Src, hx, hy, hcopied⟩ := hcopied
          rw [hkeeps x y hx hy i Src hcopied]
          exact hfilled.done x y hx (.inl hy) i Src hcopied
        · exact hfilled.others i fun x y Src hx hy heq => hcopied ⟨x, y, Src, hx, hy, heq⟩

end

/-- The calls whose changes the history keeps. -/
def TeleCall.Meets (l : CLayerTele) : TeleCall → Prop
  | BrushDraw .. => True
  | FillSelection s pBrush sx sy w h => FillKeeps s pBrush sx sy w h l

theorem TeleKept.step (hl : TeleKept b l) {c : TeleCall} (ht : c.step l = .ok t) :
    TeleKept b t ∧ ((∀ i, restAt t i = restAt l i) ↔ c.Meets l) := by
  cases c with
  | BrushDraw =>
      obtain ⟨hkept, hrest⟩ := hl.brushDraw ht
      exact ⟨hkept, fun _ => trivial, fun _ => hrest⟩
  | FillSelection => exact hl.fillSelection ht

/-- The history of a layer of tiles is exact in every run, that of a tele layer in every run whose
calls keep what is not recorded, and for one call only then. -/
theorem exact_iff_meets {l₀ : CLayerTiles} {b : CLayerTele} (h₀ : l₀.m_TilesHistory = [])
    (hb : Cleared b) :
    (∀ l, Reachable (fun l c => TilesCall.step l c) (fun _ _ => True) l₀ l → TilesExact l₀ l) ∧
    (∀ l, Reachable (fun l c => TeleCall.step l c) TeleCall.Meets b l → TeleExact b l) ∧
    ∀ c l, TeleCall.step b c = .ok l → (TeleExact b l ↔ c.Meets b) := by
  refine ⟨fun l h => tilesExact_of_run h₀ h, fun l h => ?_, fun c l hstep => ?_⟩
  · have hkept : TeleKept b l ∧ ∀ i, restAt l i = restAt b i := by
      refine @Reachable.invariant _ _ _ _ _ _ (fun l => TeleKept b l ∧ ∀ i, restAt l i = restAt b i)
        h ⟨TeleKept.start hb, fun _ => rfl⟩ ?_
      rintro l t c ⟨hl, hrest⟩ hmeets ht
      obtain ⟨hkept, hiff⟩ := hl.step ht
      exact ⟨hkept, fun i => (hiff.mpr hmeets i).trans (hrest i)⟩
    exact (hkept.1.exact_iff hb.teles).mpr hkept.2
  · obtain ⟨hkept, hiff⟩ := (TeleKept.start hb).step hstep
    exact (hkept.exact_iff hb.teles).trans hiff

def oneTile : CLayerTiles := ⟨1, 1, false, [⟨1, 0, 0, 0⟩], []⟩

/-- A layer with one entrance of number 1. -/
def oneTele : CLayerTele := ⟨⟨1, 1, false, [⟨26, 0, 0, 0⟩], []⟩, [⟨1, 26⟩], []⟩

def destructive : Settings := ⟨true, false, 1, 1, "map"⟩

theorem exact_iff_meets_one :
    TeleExact oneTele ⟨⟨1, 1, false, [⟨0, 0, 0, 0⟩], []⟩, [⟨0, 0⟩], [⟨0, 0, ⟨1, 26, 26⟩, ⟨0, 0, 0⟩⟩]⟩ :=
  ((@exact_iff_meets oneTile oneTele rfl ⟨rfl, rfl, rfl⟩).2.2
    (.FillSelection destructive none 0 0 1 1) _ rfl).mpr fun _ _ _ _ _ _ hcopied => nomatch hcopied

/-- A flipped tile from a layer that is not a tele layer. -/
def flipped : Brush := ⟨true, 1, 1, [⟨26, 1, 0, 0⟩], false, [], 0, 0, "map"⟩

/-- The layer filled with the flipped tile. -/
def filledTele : CLayerTele :=
  ⟨⟨1, 1, false, [⟨0, 1, 0, 0⟩], []⟩, [⟨0, 0⟩], [⟨0, 0, ⟨1, 26, 26⟩, ⟨0, 0, 0⟩⟩]⟩

/-- The flags of the brush stay after the action is undone. -/
theorem flags_not_undone :
    oneTele.FillSelection destructive (some flipped) 0 0 1 1 = .ok filledTele ∧
    (∃ t, (CEditorBrushDrawAction.ofTele filledTele).1.ApplyTele true
      (CEditorBrushDrawAction.ofTele filledTele).2 = .ok t ∧ t.m_pTiles = [⟨26, 1, 0, 0⟩]) ∧
    ¬ TeleExact oneTele filledTele := by
  have hfill : oneTele.FillSelection destructive (some flipped) 0 0 1 1 = .ok filledTele := rfl
  refine ⟨hfill, ⟨_, rfl, rfl⟩, fun hexact => ?_⟩
  have hkept := ((@TeleKept.start oneTele ⟨rfl, rfl, rfl⟩).fillSelection hfill).1
  have hrest := (hkept.exact_iff rfl).mp hexact 0
  have hflags : (1 : UInt8) = 0 := congrArg CTile.m_Flags (Option.some.inj hrest)
  exact absurd hflags (by decide)

end Fex.Editor.TileHistory
