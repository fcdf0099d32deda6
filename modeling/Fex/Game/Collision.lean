import Fex.Game.MapItems
import Fex.Lib.Cells
import Fex.Lib.Loop

/-!
# Stoppers next to a tile

Model of `CCollision::TileExistsNext`.  A layer is in memory, so that an index plus the width of the
map is an `int`.
-/

namespace Fex.Game

open Fex.Lib Fex.Engine

structure CDoorTile where
  m_Index : UInt8
  m_Flags : UInt8
  m_Number : Int

/-- What the tiles of the three layers have in common. -/
structure Stopper where
  m_Index : UInt8
  m_Flags : UInt8

def tileStoppers (l : List CTile) : List Stopper := l.map fun t => ⟨t.m_Index, t.m_Flags⟩

def doorStoppers (l : List CDoorTile) : List Stopper := l.map fun t => ⟨t.m_Index, t.m_Flags⟩

/-- Each layer that is there has a tile for each position. -/
structure CCollision where
  m_Width : Int
  m_Height : Int
  m_pTiles : List CTile
  m_pFront : Option (List CTile)
  m_pDoor : Option (List CDoorTile)
  width_pos : 1 ≤ m_Width
  height_pos : 1 ≤ m_Height
  tiles_length : m_Width * m_Height ≤ m_pTiles.length
  front_length : ∀ l ∈ m_pFront, m_Width * m_Height ≤ l.length
  door_length : ∀ l ∈ m_pDoor, m_Width * m_Height ≤ l.length

/-- The checks of one layer, which all return true. -/
def checks (Right Left Below Above : Stopper) : Bool :=
  ((Right.m_Index == TILE_STOP && Right.m_Flags == ROTATION_270) ||
    (Left.m_Index == TILE_STOP && Left.m_Flags == ROTATION_90)) ||
  ((Below.m_Index == TILE_STOP && Below.m_Flags == ROTATION_0) ||
    (Above.m_Index == TILE_STOP && Above.m_Flags == ROTATION_180)) ||
  (Right.m_Index == TILE_STOPA || Left.m_Index == TILE_STOPA ||
    (Right.m_Index == TILE_STOPS || Left.m_Index == TILE_STOPS)) ||
  -- `|` binds tighter than `&&`
  (Below.m_Index == TILE_STOPA || Above.m_Index == TILE_STOPA ||
    ((Below.m_Index == TILE_STOPS || Above.m_Index == TILE_STOPS) &&
      (Below.m_Flags ||| ROTATION_180 ||| ROTATION_0) != 0))

/-- All four tiles are read before the first check. -/
def stopsNext (m_pTiles : List Stopper)
    (TileOnTheRight TileOnTheLeft TileBelow TileAbove : Int) : Exec Bool := do
  let Right ← loadInt m_pTiles TileOnTheRight
  let Left ← loadInt m_pTiles TileOnTheLeft
  let Below ← loadInt m_pTiles TileBelow
  let Above ← loadInt m_pTiles TileAbove
  return checks Right Left Below Above

namespace CCollision

variable (c : CCollision)

def TileExistsNext (Index : Int) : Exec Bool := do
  if Index < 0 then return false
  let TileOnTheLeft := if Index - 1 > 0 then Index - 1 else Index
  let TileOnTheRight := if Index + 1 < c.m_Width * c.m_Height then Index + 1 else Index
  let TileBelow := if Index + c.m_Width < c.m_Width * c.m_Height then Index + c.m_Width else Index
  let TileAbove := if Index - c.m_Width > 0 then Index - c.m_Width else Index
  if ← stopsNext (tileStoppers c.m_pTiles) TileOnTheRight TileOnTheLeft TileBelow TileAbove then
    return true
  if let some m_pFront := c.m_pFront then
    if ← stopsNext (tileStoppers m_pFront) TileOnTheRight TileOnTheLeft TileBelow TileAbove then
      return true
  if let some m_pDoor := c.m_pDoor then
    if ← stopsNext (doorStoppers m_pDoor) TileOnTheRight TileOnTheLeft TileBelow TileAbove then
      return true
  return false

/-! ## Neighbours -/

def layers : List (List Stopper) :=
  tileStoppers c.m_pTiles ::
    ((c.m_pFront.map tileStoppers).toList ++ (c.m_pDoor.map doorStoppers).toList)

end CCollision

inductive Side
  | left
  | right
  | above
  | below

/-- The flags with which `TILE_STOP` stops on a side. -/
def Side.rotation : Side → UInt8
  | left => ROTATION_90
  | right => ROTATION_270
  | above => ROTATION_180
  | below => ROTATION_0

def Stopper.Stops (t : Stopper) (side : Side) : Prop :=
  t.m_Index = TILE_STOPA ∨ t.m_Index = TILE_STOPS ∨
    t.m_Index = TILE_STOP ∧ t.m_Flags = side.rotation

instance (t : Stopper) (side : Side) : Decidable (t.Stops side) :=
  inferInstanceAs (Decidable (_ ∨ _))

def StopsIn (l : List Stopper) (side : Side) (i : Int) : Prop :=
  ∃ t, l[i.toNat]? = some t ∧ t.Stops side

namespace CCollision

variable (c : CCollision)

/-- A tile stops on a side in one of the layers. -/
def StopsAt (side : Side) (i : Int) : Prop := ∃ l ∈ c.layers, StopsIn l side i

/-- The tile next to one inside of the map. -/
def neighbour (Index : Int) : Side → Option Int
  | .left => if Index % c.m_Width = 0 then none else some (Index - 1)
  | .right => if Index % c.m_Width = c.m_Width - 1 then none else some (Index + 1)
  | .above => if Index < c.m_Width then none else some (Index - c.m_Width)
  | .below =>
      if Index + c.m_Width < c.m_Width * c.m_Height then some (Index + c.m_Width) else none

/-- The tile looked at for a side, the one at the index itself where there is no other. -/
def lookedAt (Index : Int) : Side → Int
  | .left => if Index - 1 > 0 then Index - 1 else Index
  | .right => if Index + 1 < c.m_Width * c.m_Height then Index + 1 else Index
  | .above => if Index - c.m_Width > 0 then Index - c.m_Width else Index
  | .below =>
      if Index + c.m_Width < c.m_Width * c.m_Height then Index + c.m_Width else Index

/-- No neighbour that stops is overlooked and all reads are inside of the layers. -/
def Behaves (Index : Int) : Prop :=
  ∃ found, c.TileExistsNext Index = .ok found ∧
    ∀ side i, c.neighbour Index side = some i → c.StopsAt side i → found = true

end CCollision

/-! ## One layer -/

theorem checks_iff (Right Left Below Above : Stopper) :
    checks Right Left Below Above = true ↔
      Right.Stops .right ∨ Left.Stops .left ∨ Below.Stops .below ∨ Above.Stops .above := by
  have hflags : (Below.m_Flags ||| ROTATION_180 ||| ROTATION_0 != 0) = true := by
    rw [bne_iff_ne, ne_eq, UInt8.or_eq_zero_iff, UInt8.or_eq_zero_iff]
    exact fun h => absurd h.1.2 (by decide)
  unfold checks Stopper.Stops
  rw [hflags]
  simp only [Bool.or_eq_true, Bool.and_eq_true, beq_iff_eq, and_true, Side.rotation]
  grind

theorem stopsNext_eq {l : List Stopper} {n R L B A : Int} (hl : n ≤ l.length)
    (hR : 0 ≤ R ∧ R < n) (hL : 0 ≤ L ∧ L < n) (hB : 0 ≤ B ∧ B < n) (hA : 0 ≤ A ∧ A < n) :
    ∃ found, stopsNext l R L B A = .ok found ∧
      (found = true ↔ StopsIn l .right R ∨ StopsIn l .left L ∨ StopsIn l .below B ∨
        StopsIn l .above A) := by
  have hget : ∀ {i : Int}, 0 ≤ i ∧ i < n → ∃ t, l[i.toNat]? = some t := fun {i} hi =>
    ⟨_, List.getElem?_eq_getElem (by omega)⟩
  have hstops : ∀ {i : Int} {t : Stopper} {side : Side}, l[i.toNat]? = some t →
      (StopsIn l side i ↔ t.Stops side) := fun {i t side} ht =>
    ⟨fun ⟨t', ht', hstop⟩ => Option.some.inj (ht'.symm.trans ht) ▸ hstop, fun hstop => ⟨t, ht, hstop⟩⟩
  obtain ⟨right, hright⟩ := hget hR
  obtain ⟨left, hleft⟩ := hget hL
  obtain ⟨below, hbelow⟩ := hget hB
  obtain ⟨above, habove⟩ := hget hA
  rw [hstops hright, hstops hleft, hstops hbelow, hstops habove]
  unfold stopsNext
  rw [loadInt_eq hR.1 hright, loadInt_eq hL.1 hleft, loadInt_eq hB.1 hbelow, loadInt_eq hA.1 habove]
  exact ⟨_, rfl, checks_iff right left below above⟩

/-! ## All layers -/

namespace CCollision

variable (c : CCollision)

theorem length_layers {l : List Stopper} (hl : l ∈ c.layers) :
    c.m_Width * c.m_Height ≤ l.length := by
  unfold layers at hl
  rcases List.mem_cons.mp hl with rfl | hl
  · rw [tileStoppers, List.length_map]
    exact c.tiles_length
  rcases List.mem_append.mp hl with hl | hl
  · obtain ⟨m_pFront, hfront, rfl⟩ := Option.map_eq_some_iff.mp (Option.mem_toList.mp hl)
    rw [tileStoppers, List.length_map]
    exact c.front_length m_pFront hfront
  · obtain ⟨m_pDoor, hdoor, rfl⟩ := Option.map_eq_some_iff.mp (Option.mem_toList.mp hl)
    rw [doorStoppers, List.length_map]
    exact c.door_length m_pDoor hdoor

/-- What is looked at is inside of the map. -/
theorem lookedAt_inRange {Index : Int} (h : 0 ≤ Index ∧ Index < c.m_Width * c.m_Height)
    (side : Side) : 0 ≤ c.lookedAt Index side ∧ c.lookedAt Index side < c.m_Width * c.m_Height := by
  have hwidth := c.width_pos
  cases side <;> unfold lookedAt <;> simp only <;> split <;> omega

/-- One layer of an index in range. -/
theorem stopsNext_layer {Index : Int} (h : 0 ≤ Index ∧ Index < c.m_Width * c.m_Height)
    {l : List Stopper} (hl : l ∈ c.layers) :
    ∃ found, stopsNext l (c.lookedAt Index .right) (c.lookedAt Index .left)
        (c.lookedAt Index .below) (c.lookedAt Index .above) = .ok found ∧
      (found = true ↔ ∃ side, StopsIn l side (c.lookedAt Index side)) := by
  obtain ⟨found, hfound, hiff⟩ := stopsNext_eq (c.length_layers hl)
    (c.lookedAt_inRange h .right) (c.lookedAt_inRange h .left) (c.lookedAt_inRange h .below)
    (c.lookedAt_inRange h .above)
  refine ⟨found, hfound, hiff.trans ⟨?_, ?_⟩⟩
  · rintro (hstop | hstop | hstop | hstop)
    exacts [⟨_, hstop⟩, ⟨_, hstop⟩, ⟨_, hstop⟩, ⟨_, hstop⟩]
  · rintro ⟨side, hstop⟩
    cases side
    exacts [.inr (.inl hstop), .inl hstop, .inr (.inr (.inr hstop)), .inr (.inr (.inl hstop))]

/-- The layers are checked one after the other. -/
theorem TileExistsNext_layers {Index : Int} (h : 0 ≤ Index) :
    c.TileExistsNext Index = c.layers.anyM fun l =>
      stopsNext l (c.lookedAt Index .right) (c.lookedAt Index .left) (c.lookedAt Index .below)
        (c.lookedAt Index .above) := by
  unfold TileExistsNext layers lookedAt
  rw [if_neg (by omega)]
  simp only [List.anyM_cons]
  refine bind_congr fun found => ?_
  cases found
  case true => rfl
  cases c.m_pFront with
  | none =>
      cases c.m_pDoor with
      | none => rfl
      | some m_pDoor =>
          simp only [Option.map_none, Option.map_some, Option.toList_none, Option.toList_some,
            List.nil_append, List.anyM_cons, List.anyM_nil, Bool.false_eq_true, if_false]
  | some m_pFront =>
      simp only [Option.map_some, Option.toList_some, List.singleton_append, List.anyM_cons]
      refine bind_congr fun found => ?_
      cases found
      case true => rfl
      cases c.m_pDoor with
      | none => rfl
      | some m_pDoor =>
          simp only [Option.map_some, Option.toList_some, List.anyM_cons, List.anyM_nil,
            Bool.false_eq_true, if_false]

theorem TileExistsNext_eq {Index : Int} (h : 0 ≤ Index ∧ Index < c.m_Width * c.m_Height) :
    ∃ found, c.TileExistsNext Index = .ok found ∧
      (found = true ↔ ∃ side, c.StopsAt side (c.lookedAt Index side)) := by
  rw [TileExistsNext_layers c h.1]
  obtain ⟨found, hfound, hiff⟩ := anyM_spec fun l (hl : l ∈ c.layers) => c.stopsNext_layer h hl
  refine ⟨found, hfound, hiff.trans ⟨?_, ?_⟩⟩
  · rintro ⟨l, hl, side, hstop⟩
    exact ⟨side, l, hl, hstop⟩
  · rintro ⟨side, l, hl, hstop⟩
    exact ⟨l, hl, side, hstop⟩

/-! ## The condition -/

/-- The last tile is at the end of its row. -/
theorem emod_width_of_last {Index : Int} (h : Index + 1 = c.m_Width * c.m_Height) :
    Index % c.m_Width = c.m_Width - 1 := by
  have hwidth := c.width_pos
  have hsplit : Index = c.m_Width - 1 + c.m_Width * (c.m_Height - 1) := by
    rw [Int.mul_sub, ← h]
    omega
  rw [hsplit, Int.add_mul_emod_self_left]
  exact Int.emod_eq_of_lt (by omega) (by omega)

/-- All neighbours but tile 0 are looked at. -/
theorem lookedAt_neighbour {Index i : Int} {side : Side}
    (hIndex : 0 ≤ Index ∧ Index < c.m_Width * c.m_Height)
    (h : c.neighbour Index side = some i) : i = 0 ∨ c.lookedAt Index side = i := by
  have hwidth := c.width_pos
  cases side with
  | left =>
      obtain ⟨hcolumn, ⟨⟩⟩ := Option.ite_none_left_eq_some.mp h
      have hne : Index ≠ 0 := by
        rintro rfl
        exact hcolumn (Int.zero_emod _)
      by_cases hpos : Index - 1 > 0
      · exact .inr (if_pos hpos)
      · exact .inl (by omega)
  | right =>
      obtain ⟨hcolumn, ⟨⟩⟩ := Option.ite_none_left_eq_some.mp h
      have hne : Index + 1 ≠ c.m_Width * c.m_Height := fun hlast =>
        hcolumn (c.emod_width_of_last hlast)
      exact .inr (if_pos (by omega))
  | above =>
      obtain ⟨hrow, ⟨⟩⟩ := Option.ite_none_left_eq_some.mp h
      by_cases hpos : Index - c.m_Width > 0
      · exact .inr (if_pos hpos)
      · exact .inl (by omega)
  | below =>
      obtain ⟨hrow, ⟨⟩⟩ := Option.ite_none_right_eq_some.mp h
      exact .inr (if_pos hrow)

/-- Tile 0 does not stop as a neighbour, or another tile stops that is looked at. -/
def Seen (Index : Int) : Prop :=
  (∀ side, c.neighbour Index side = some 0 → ¬ c.StopsAt side 0) ∨
    ∃ side, c.StopsAt side (c.lookedAt Index side)

theorem seen_iff {Index : Int} (h : 0 ≤ Index ∧ Index < c.m_Width * c.m_Height) :
    c.Behaves Index ↔ c.Seen Index := by
  obtain ⟨found, hfound, hiff⟩ := c.TileExistsNext_eq h
  constructor
  · rintro ⟨found', hfound', hbehaves⟩
    obtain rfl := Except.ok.inj (hfound'.symm.trans hfound)
    by_cases hlooked : ∃ side, c.StopsAt side (c.lookedAt Index side)
    · exact .inr hlooked
    · exact .inl fun side hside hstop => hlooked (hiff.mp (hbehaves side 0 hside hstop))
  · intro hseen
    refine ⟨found, hfound, fun side i hside hstop => hiff.mpr ?_⟩
    rcases hseen with hzero | hlooked
    · rcases c.lookedAt_neighbour h hside with rfl | hi
      · exact absurd hstop (hzero side hside)
      · exact ⟨side, hi ▸ hstop⟩
    · exact hlooked

end CCollision

/-- Two tiles in a row, of which the first one stops. -/
def corner : CCollision := {
  m_Width := 2
  m_Height := 1
  m_pTiles := [⟨TILE_STOPA, 0, 0, 0⟩, ⟨0, 0, 0, 0⟩]
  m_pFront := none
  m_pDoor := none
  width_pos := by decide
  height_pos := by decide
  tiles_length := by decide
  front_length := nofun
  door_length := nofun
}

theorem seen_iff_corner : corner.Behaves 0 := by
  refine (CCollision.seen_iff corner (by decide)).mpr (.inl fun side hside => ?_)
  cases side <;> exact absurd hside (by decide)

theorem not_seen :
    corner.neighbour 1 .left = some 0 ∧ corner.StopsAt .left 0 ∧
      corner.TileExistsNext 1 = .ok false ∧ ¬ corner.Behaves 1 := by
  have hstop : corner.StopsAt .left 0 :=
    ⟨_, List.mem_cons_self .., ⟨TILE_STOPA, 0⟩, rfl, .inl rfl⟩
  have hfalse : corner.TileExistsNext 1 = .ok false := rfl
  refine ⟨rfl, hstop, hfalse, ?_⟩
  rintro ⟨found, hfound, hbehaves⟩
  obtain rfl := Except.ok.inj (hfound.symm.trans hfalse)
  exact Bool.false_ne_true (hbehaves .left 0 rfl hstop)

end Fex.Game
