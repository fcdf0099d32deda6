import Fex.Game.MapItems
import Fex.Lib.Grid

/-!
# Brushes of tiles

Model of the flips and rotations of a `CLayerTiles` that is used as a brush.  The array has as many
tiles as the layer has positions.
-/

namespace Fex.Editor

open Fex.Lib Fex.Engine Fex.Game

/-- `m_AllowPlaceUnusedTiles` is what the editor answers. -/
structure CLayerTiles where
  m_Width : Nat
  m_Height : Nat
  m_pTiles : List CTile
  m_HasGame : Bool
  m_HasFront : Bool
  m_HasTele : Bool
  m_HasSpeedup : Bool
  m_HasSwitch : Bool
  m_HasTune : Bool
  m_AllowPlaceUnusedTiles : Bool

def BrushFlipXImpl {T : Type} (m_Width m_Height : Nat) (pTiles : List T) : Exec (List T) :=
  forCells (m_Width / 2) m_Height
    (fun pTiles x y => swapAt pTiles (y * m_Width + x) ((y + 1) * m_Width - 1 - x)) pTiles

def BrushFlipYImpl {T : Type} (m_Width m_Height : Nat) (pTiles : List T) : Exec (List T) :=
  forCells m_Width (m_Height / 2)
    (fun pTiles x y => swapAt pTiles (y * m_Width + x) ((m_Height - 1 - y) * m_Width + x)) pTiles

/-- A tile loses its flags if it has no direction and may not be turned. -/
def turned (Rotate : Bool) (turn : UInt8 → UInt8) (Tile : CTile) : CTile :=
  if !Rotate && !IsRotatableTile Tile.m_Index then { Tile with m_Flags := 0 }
  else { Tile with m_Flags := turn Tile.m_Flags }

def flipXFlags (m_Flags : UInt8) : UInt8 :=
  m_Flags ^^^ (if m_Flags &&& TILEFLAG_ROTATE != 0 then TILEFLAG_YFLIP else TILEFLAG_XFLIP)

def flipYFlags (m_Flags : UInt8) : UInt8 :=
  m_Flags ^^^ (if m_Flags &&& TILEFLAG_ROTATE != 0 then TILEFLAG_XFLIP else TILEFLAG_YFLIP)

def rotateFlags (m_Flags : UInt8) : UInt8 :=
  (if m_Flags &&& TILEFLAG_ROTATE != 0 then m_Flags ^^^ (TILEFLAG_YFLIP ||| TILEFLAG_XFLIP)
    else m_Flags) ^^^ TILEFLAG_ROTATE

namespace CLayerTiles

def BrushFlipX (c : CLayerTiles) : Exec CLayerTiles := do
  let m_pTiles ← BrushFlipXImpl c.m_Width c.m_Height c.m_pTiles
  if c.m_HasTele || c.m_HasSpeedup || c.m_HasTune then
    return { c with m_pTiles := m_pTiles }
  let Rotate := !(c.m_HasGame || c.m_HasFront || c.m_HasSwitch) || c.m_AllowPlaceUnusedTiles
  let m_pTiles ← forCells c.m_Width c.m_Height
    (fun m_pTiles x y => updateAt (turned Rotate flipXFlags) m_pTiles (y * c.m_Width + x)) m_pTiles
  return { c with m_pTiles := m_pTiles }

def BrushFlipY (c : CLayerTiles) : Exec CLayerTiles := do
  let m_pTiles ← BrushFlipYImpl c.m_Width c.m_Height c.m_pTiles
  if c.m_HasTele || c.m_HasSpeedup || c.m_HasTune then
    return { c with m_pTiles := m_pTiles }
  let Rotate := !(c.m_HasGame || c.m_HasFront || c.m_HasSwitch) || c.m_AllowPlaceUnusedTiles
  let m_pTiles ← forCells c.m_Width c.m_Height
    (fun m_pTiles x y => updateAt (turned Rotate flipYFlags) m_pTiles (y * c.m_Width + x)) m_pTiles
  return { c with m_pTiles := m_pTiles }

/-- The rotation by 90 degrees.  `k` counts the turns of the loop over `y`, which goes down. -/
def rotate90 (c : CLayerTiles) : Exec CLayerTiles := do
  let pTempData := c.m_pTiles
  let Rotate := !(c.m_HasGame || c.m_HasFront) || c.m_AllowPlaceUnusedTiles
  let written ← forCells c.m_Height c.m_Width
    (fun (written : List CTile × Nat) k x => do
      let y := c.m_Height - 1 - k
      let pDst := written.2
      let Tile ← load pTempData (y * c.m_Width + x)
      let m_pTiles ← store written.1 pDst (turned Rotate rotateFlags Tile)
      return (m_pTiles, pDst + 1)) (c.m_pTiles, 0)
  return { c with m_Width := c.m_Height, m_Height := c.m_Width, m_pTiles := written.1 }

/-- `Degrees` is the amount in degrees after it was rounded to an `int`. -/
def BrushRotate (Degrees : Int) (c : CLayerTiles) : Exec CLayerTiles := do
  let Rotation := (Degrees.tdiv 90).tmod 4
  let Rotation := if Rotation < 0 then Rotation + 4 else Rotation
  let c ← if Rotation = 1 ∨ Rotation = 3 then c.rotate90 else .ok c
  if Rotation = 2 ∨ Rotation = 3 then
    let c ← c.BrushFlipX
    c.BrushFlipY
  else .ok c

/-! ## Brushes as functions of the position -/

/-- A brush of tiles alone. -/
structure Plain (c : CLayerTiles) : Prop where
  game : c.m_HasGame = false
  front : c.m_HasFront = false
  tele : c.m_HasTele = false
  speedup : c.m_HasSpeedup = false
  switch : c.m_HasSwitch = false
  tune : c.m_HasTune = false
  length_eq : c.m_pTiles.length = c.m_Width * c.m_Height

def tile (c : CLayerTiles) (x y : Nat) : CTile := c.m_pTiles.getD (y * c.m_Width + x) ⟨0, 0, 0, 0⟩

/-- The brush with other tiles. -/
def withTiles (c : CLayerTiles) (w h : Nat) (f : Nat → Nat → CTile) : CLayerTiles :=
  { c with m_Width := w, m_Height := h, m_pTiles := tabulate w h f }

end CLayerTiles

/-! ## Flags -/

theorem forall_byte {P : UInt8 → Bool}
    (h : ((List.range 256).all fun n => P (UInt8.ofNat n)) = true) (b : UInt8) : P b = true := by
  have hb := List.all_eq_true.mp h b.toNat (List.mem_range.mpr b.toNat_lt)
  rwa [UInt8.ofNat_toNat] at hb

theorem flipXFlags_flipXFlags (b : UInt8) : flipXFlags (flipXFlags b) = b :=
  eq_of_beq (forall_byte (P := fun b => flipXFlags (flipXFlags b) == b) (by decide +kernel) b)

theorem flipYFlags_flipYFlags (b : UInt8) : flipYFlags (flipYFlags b) = b :=
  eq_of_beq (forall_byte (P := fun b => flipYFlags (flipYFlags b) == b) (by decide +kernel) b)

theorem flipYFlags_flipXFlags (b : UInt8) :
    flipYFlags (flipXFlags b) = flipXFlags (flipYFlags b) :=
  eq_of_beq (forall_byte (P := fun b => flipYFlags (flipXFlags b) == flipXFlags (flipYFlags b))
    (by decide +kernel) b)

theorem rotateFlags_rotateFlags (b : UInt8) :
    rotateFlags (rotateFlags b) = flipYFlags (flipXFlags b) :=
  eq_of_beq (forall_byte (P := fun b => rotateFlags (rotateFlags b) == flipYFlags (flipXFlags b))
    (by decide +kernel) b)

/-- A flip and a rotation do not commute. -/
theorem flipXFlags_rotateFlags (b : UInt8) :
    flipXFlags (rotateFlags b) = rotateFlags (flipYFlags b) :=
  eq_of_beq (forall_byte (P := fun b => flipXFlags (rotateFlags b) == rotateFlags (flipYFlags b))
    (by decide +kernel) b)

theorem turned_turned (g g' : UInt8 → UInt8) (Tile : CTile) :
    turned true g (turned true g' Tile) = turned true (fun b => g (g' b)) Tile := rfl

theorem turned_same (Tile : CTile) : turned true (fun b => b) Tile = Tile := rfl

/-! ## The loops -/

theorem BrushFlipXImpl_spec {T : Type} {w h : Nat} {l : List T} (hl : l.length = w * h) :
    ∃ t, BrushFlipXImpl w h l = .ok t ∧ t.length = w * h ∧
      ∀ x y, x < w → y < h → t[y * w + x]? = l[y * w + (w - 1 - x)]? := by
  obtain ⟨t, ht, hlength, hget⟩ := forCells_spec
    (f := fun l x y => swapAt l (y * w + x) ((y + 1) * w - 1 - x)) (n := w / 2) (m := h) (s := l)
    -- both ends of a row are swapped up to `x`
    (fun x y t => t.length = w * h ∧ ∀ a b, a < w → b < h →
      t[b * w + a]? = if b < y ∨ b = y ∧ (a < x ∨ w - 1 - a < x) then l[b * w + (w - 1 - a)]?
        else l[b * w + a]?)
    (fun x y s hx hy ⟨hs, hinv⟩ => by
      have hmirror : (y + 1) * w - 1 - x = y * w + (w - 1 - x) := by
        rw [Nat.add_mul, Nat.one_mul]
        omega
      have hxw : x < w := by omega
      have hxw' : w - 1 - x < w := by omega
      obtain ⟨t, ht, hlength, hget⟩ := swapAt_spec (l := s) (i := y * w + x)
        (j := y * w + (w - 1 - x)) (by rw [hs]; exact cell_lt hxw hy)
        (by rw [hs]; exact cell_lt hxw' hy)
      refine ⟨t, hmirror ▸ ht, hlength.trans hs, fun a b ha hb => ?_⟩
      rw [hget, hinv a b ha hb, hinv x y hxw hy, hinv (w - 1 - x) y hxw' hy,
        if_neg (show ¬ (y < y ∨ y = y ∧ (x < x ∨ w - 1 - x < x)) by omega),
        if_neg (show ¬ (y < y ∨ y = y ∧ (w - 1 - x < x ∨ w - 1 - (w - 1 - x) < x)) by omega)]
      by_cases hright : a = w - 1 - x ∧ b = y
      · obtain ⟨rfl, rfl⟩ := hright
        rw [if_pos rfl, if_pos (by omega), show w - 1 - (w - 1 - x) = x by omega]
      rw [if_neg (mt (cell_inj ha hxw').mp hright)]
      by_cases hleft : a = x ∧ b = y
      · obtain ⟨rfl, rfl⟩ := hleft
        rw [if_pos rfl, if_pos (by omega)]
      rw [if_neg (mt (cell_inj ha hxw).mp hleft)]
      exact if_congr (by omega) rfl rfl)
    (fun y s hy ⟨hs, hinv⟩ => by
      refine ⟨hs, fun a b ha hb => ?_⟩
      rw [hinv a b ha hb]
      by_cases hmiddle : b = y ∧ a = w - 1 - a
      · rw [← hmiddle.2, ite_self, ite_self]
      · exact if_congr (by omega) rfl rfl)
    ⟨hl, fun a b ha hb => by simp⟩
  refine ⟨t, ht, hlength, fun x y hx hy => ?_⟩
  rw [hget x y hx hy, if_pos (.inl hy)]

theorem BrushFlipYImpl_spec {T : Type} {w h : Nat} {l : List T} (hl : l.length = w * h) :
    ∃ t, BrushFlipYImpl w h l = .ok t ∧ t.length = w * h ∧
      ∀ x y, x < w → y < h → t[y * w + x]? = l[(h - 1 - y) * w + x]? := by
  obtain ⟨t, ht, hlength, hget⟩ := forCells_spec
    (f := fun l x y => swapAt l (y * w + x) ((h - 1 - y) * w + x)) (n := w) (m := h / 2) (s := l)
    (fun x y t => t.length = w * h ∧ ∀ a b, a < w → b < h →
      t[b * w + a]? = if (b < y ∨ h - 1 - b < y) ∨ (b = y ∨ h - 1 - b = y) ∧ a < x then
        l[(h - 1 - b) * w + a]? else l[b * w + a]?)
    (fun x y s hx hy ⟨hs, hinv⟩ => by
      have hyh : y < h := by omega
      have hyh' : h - 1 - y < h := by omega
      obtain ⟨t, ht, hlength, hget⟩ := swapAt_spec (l := s) (i := y * w + x)
        (j := (h - 1 - y) * w + x) (by rw [hs]; exact cell_lt hx hyh)
        (by rw [hs]; exact cell_lt hx hyh')
      refine ⟨t, ht, hlength.trans hs, fun a b ha hb => ?_⟩
      rw [hget, hinv a b ha hb, hinv x y hx hyh, hinv x (h - 1 - y) hx hyh',
        if_neg (show ¬ ((y < y ∨ h - 1 - y < y) ∨ (y = y ∨ h - 1 - y = y) ∧ x < x) by omega),
        if_neg (show ¬ ((h - 1 - y < y ∨ h - 1 - (h - 1 - y) < y) ∨
          (h - 1 - y = y ∨ h - 1 - (h - 1 - y) = y) ∧ x < x) by omega)]
      by_cases hlower : a = x ∧ b = h - 1 - y
      · obtain ⟨rfl, rfl⟩ := hlower
        rw [if_pos rfl, if_pos (by omega), show h - 1 - (h - 1 - y) = y by omega]
      rw [if_neg (mt (cell_inj ha hx).mp hlower)]
      by_cases hupper : a = x ∧ b = y
      · obtain ⟨rfl, rfl⟩ := hupper
        rw [if_pos rfl, if_pos (by omega)]
      rw [if_neg (mt (cell_inj ha hx).mp hupper)]
      exact if_congr (by omega) rfl rfl)
    (fun y s hy ⟨hs, hinv⟩ => by
      refine ⟨hs, fun a b ha hb => ?_⟩
      rw [hinv a b ha hb]
      exact if_congr (by omega) rfl rfl)
    ⟨hl, fun a b ha hb => by simp⟩
  refine ⟨t, ht, hlength, fun x y hx hy => ?_⟩
  rw [hget x y hx hy]
  by_cases hmiddle : y = h - 1 - y
  · rw [← hmiddle, ite_self]
  · exact if_pos (by omega)

namespace CLayerTiles

variable {c : CLayerTiles}

theorem Plain.ordinary (hc : c.Plain) :
    (c.m_HasTele || c.m_HasSpeedup || c.m_HasTune) = false := by
  rw [hc.tele, hc.speedup, hc.tune]
  rfl

theorem Plain.rotate90 (hc : c.Plain) :
    (!(c.m_HasGame || c.m_HasFront) || c.m_AllowPlaceUnusedTiles) = true := by
  rw [hc.game, hc.front]
  rfl

/-- All tiles of a plain brush may be turned. -/
theorem Plain.rotate (hc : c.Plain) :
    (!(c.m_HasGame || c.m_HasFront || c.m_HasSwitch) || c.m_AllowPlaceUnusedTiles) = true := by
  rw [hc.game, hc.front, hc.switch]
  rfl

theorem getElem?_tile (hc : c.Plain) {x y : Nat} (hx : x < c.m_Width) (hy : y < c.m_Height) :
    c.m_pTiles[y * c.m_Width + x]? = some (c.tile x y) := by
  obtain ⟨t, ht⟩ := exists_getElem? hc.length_eq hx hy
  rw [ht, tile, List.getD_eq_getElem?_getD, ht, Option.getD_some]

/-- A brush is known by its tiles. -/
theorem eq_withTiles {w h : Nat} {l : List CTile} {f : Nat → Nat → CTile}
    (hl : l.length = w * h) (heq : ∀ x y, x < w → y < h → l[y * w + x]? = some (f x y)) :
    { c with m_Width := w, m_Height := h, m_pTiles := l } = c.withTiles w h f := by
  have htiles : l = tabulate w h f := grid_ext hl (length_tabulate f) fun x y hx hy =>
    (heq x y hx hy).trans (getElem?_tabulate hx hy f).symm
  rw [htiles]
  rfl

theorem BrushFlipX_eq (hc : c.Plain) : c.BrushFlipX = .ok (c.withTiles c.m_Width c.m_Height
    fun x y => turned true flipXFlags (c.tile (c.m_Width - 1 - x) y)) := by
  obtain ⟨l, hflip, hl, hget⟩ := BrushFlipXImpl_spec hc.length_eq
  unfold BrushFlipX
  simp only [hflip, hc.ordinary, hc.rotate, bind, Except.bind, Bool.false_eq_true, if_false,
    forCells_updateAt (turned true flipXFlags) hl]
  refine congrArg Except.ok (eq_withTiles (by rw [List.length_map, hl]) fun x y hx hy => ?_)
  rw [List.getElem?_map, hget x y hx hy, getElem?_tile hc (by omega) hy, Option.map_some]

theorem BrushFlipY_eq (hc : c.Plain) : c.BrushFlipY = .ok (c.withTiles c.m_Width c.m_Height
    fun x y => turned true flipYFlags (c.tile x (c.m_Height - 1 - y))) := by
  obtain ⟨l, hflip, hl, hget⟩ := BrushFlipYImpl_spec hc.length_eq
  unfold BrushFlipY
  simp only [hflip, hc.ordinary, hc.rotate, bind, Except.bind, Bool.false_eq_true, if_false,
    forCells_updateAt (turned true flipYFlags) hl]
  refine congrArg Except.ok (eq_withTiles (by rw [List.length_map, hl]) fun x y hx hy => ?_)
  rw [List.getElem?_map, hget x y hx hy, getElem?_tile hc hx (by omega), Option.map_some]

theorem rotate90_eq (hc : c.Plain) : c.rotate90 = .ok (c.withTiles c.m_Height c.m_Width
    fun x y => turned true rotateFlags (c.tile y (c.m_Height - 1 - x))) := by
  unfold rotate90
  simp only [hc.rotate90]
  -- the tiles before `pDst` are written
  obtain ⟨⟨l, pDst⟩, hloop, hl, -, hget⟩ := forCells_spec
    (f := fun (written : List CTile × Nat) k x => do
      let Tile ← load c.m_pTiles ((c.m_Height - 1 - k) * c.m_Width + x)
      let m_pTiles ← store written.1 written.2 (turned true rotateFlags Tile)
      return (m_pTiles, written.2 + 1)) (n := c.m_Height) (m := c.m_Width) (s := (c.m_pTiles, 0))
    (fun k x written => written.1.length = c.m_Height * c.m_Width ∧
      written.2 = x * c.m_Height + k ∧ ∀ a b, a < c.m_Height → b < c.m_Width →
        (b < x ∨ b = x ∧ a < k) → written.1[b * c.m_Height + a]? =
          some (turned true rotateFlags (c.tile b (c.m_Height - 1 - a))))
    (fun k x ⟨l, pDst⟩ hk hx ⟨hl, hpDst, hinv⟩ => by
      obtain rfl : pDst = x * c.m_Height + k := hpDst
      have hin : x * c.m_Height + k < l.length := by
        rw [hl]
        exact cell_lt hk hx
      have hread := getElem?_tile hc hx (show c.m_Height - 1 - k < c.m_Height by omega)
      refine ⟨(l.set (x * c.m_Height + k) (turned true rotateFlags
        (c.tile x (c.m_Height - 1 - k))), x * c.m_Height + k + 1), ?_, ?_, rfl, ?_⟩
      · simp only [load_eq hread, bind, Except.bind, store_eq hin, pure, Except.pure]
      · exact (List.length_set ..).trans hl
      · intro a b ha hb hbefore
        simp only [List.getElem?_set, cell_inj hk ha]
        by_cases hcell : k = a ∧ x = b
        · obtain ⟨rfl, rfl⟩ := hcell
          rw [if_pos ⟨rfl, rfl⟩, if_pos hin]
        · rw [if_neg hcell]
          exact hinv a b ha hb (by omega))
    (fun x ⟨l, pDst⟩ hx ⟨hl, hpDst, hinv⟩ => by
      refine ⟨hl, ?_, fun a b ha hb hbefore => hinv a b ha hb (by omega)⟩
      rw [Nat.add_mul, Nat.one_mul, Nat.add_zero]
      exact hpDst)
    ⟨hc.length_eq.trans (Nat.mul_comm ..), by simp, fun a b _ _ hbefore => absurd hbefore (by omega)⟩
  rw [hloop]
  exact congrArg Except.ok (eq_withTiles hl fun x y hx hy => hget x y hx hy (.inl hy))

/-! ## The group -/

theorem Plain.withTiles (hc : c.Plain) (w h : Nat) (f : Nat → Nat → CTile) :
    (c.withTiles w h f).Plain :=
  ⟨hc.game, hc.front, hc.tele, hc.speedup, hc.switch, hc.tune, length_tabulate f⟩

theorem tile_withTiles {w h x y : Nat} (hx : x < w) (hy : y < h) (f : Nat → Nat → CTile) :
    (c.withTiles w h f).tile x y = f x y := by
  rw [tile, List.getD_eq_getElem?_getD]
  change ((tabulate w h f)[y * w + x]?).getD _ = _
  rw [getElem?_tabulate hx hy, Option.getD_some]

theorem withTiles_congr {w h : Nat} {f g : Nat → Nat → CTile}
    (heq : ∀ x y, x < w → y < h → f x y = g x y) : c.withTiles w h f = c.withTiles w h g := by
  refine eq_withTiles (length_tabulate f) fun x y hx hy => ?_
  rw [getElem?_tabulate hx hy, heq x y hx hy]

theorem withTiles_self (hc : c.Plain) : c.withTiles c.m_Width c.m_Height c.tile = c :=
  (eq_withTiles hc.length_eq fun _ _ hx hy => getElem?_tile hc hx hy).symm

theorem BrushFlipX_withTiles (hc : c.Plain) (w h : Nat) (f : Nat → Nat → CTile) :
    (c.withTiles w h f).BrushFlipX =
      .ok (c.withTiles w h fun x y => turned true flipXFlags (f (w - 1 - x) y)) := by
  rw [BrushFlipX_eq (hc.withTiles w h f)]
  refine congrArg Except.ok (withTiles_congr fun x y hx hy => ?_)
  have hx' : x < w := hx
  exact congrArg _ (tile_withTiles (show w - 1 - x < w by omega) hy f)

theorem BrushFlipY_withTiles (hc : c.Plain) (w h : Nat) (f : Nat → Nat → CTile) :
    (c.withTiles w h f).BrushFlipY =
      .ok (c.withTiles w h fun x y => turned true flipYFlags (f x (h - 1 - y))) := by
  rw [BrushFlipY_eq (hc.withTiles w h f)]
  refine congrArg Except.ok (withTiles_congr fun x y hx hy => ?_)
  have hy' : y < h := hy
  exact congrArg _ (tile_withTiles hx (show h - 1 - y < h by omega) f)

theorem rotate90_withTiles (hc : c.Plain) (w h : Nat) (f : Nat → Nat → CTile) :
    (c.withTiles w h f).rotate90 =
      .ok (c.withTiles h w fun x y => turned true rotateFlags (f y (h - 1 - x))) := by
  rw [rotate90_eq (hc.withTiles w h f)]
  refine congrArg Except.ok (withTiles_congr fun x y hx hy => ?_)
  have hx' : x < h := hx
  exact congrArg _ (tile_withTiles hy (show h - 1 - x < h by omega) f)

theorem BrushRotate_90 (c : CLayerTiles) : c.BrushRotate 90 = c.rotate90 := by
  change (c.rotate90 >>= fun c => if (1 : Int) = 2 ∨ (1 : Int) = 3 then _ else .ok c) = c.rotate90
  simp only [show ¬ ((1 : Int) = 2 ∨ (1 : Int) = 3) by decide, if_false]
  exact bind_pure c.rotate90

theorem BrushRotate_180 (c : CLayerTiles) :
    c.BrushRotate 180 = c.BrushFlipX >>= BrushFlipY := rfl

theorem BrushRotate_270 (c : CLayerTiles) :
    c.BrushRotate 270 = c.rotate90 >>= fun c => c.BrushFlipX >>= BrushFlipY := rfl

/-- The tiles of a brush are the same at all positions. -/
theorem withTiles_eq_self (hc : c.Plain) {f : Nat → Nat → CTile}
    (heq : ∀ x y, x < c.m_Width → y < c.m_Height → f x y = c.tile x y) :
    c.withTiles c.m_Width c.m_Height f = c :=
  (withTiles_congr heq).trans (withTiles_self hc)

theorem BrushFlipX_twice (hc : c.Plain) : (c.BrushFlipX >>= BrushFlipX) = .ok c := by
  rw [BrushFlipX_eq hc]
  refine (BrushFlipX_withTiles hc _ _ _).trans (congrArg Except.ok ?_)
  refine withTiles_eq_self hc fun x y hx hy => ?_
  rw [turned_turned, show c.m_Width - 1 - (c.m_Width - 1 - x) = x by omega]
  simp only [flipXFlags_flipXFlags, turned_same]

theorem BrushFlipY_twice (hc : c.Plain) : (c.BrushFlipY >>= BrushFlipY) = .ok c := by
  rw [BrushFlipY_eq hc]
  refine (BrushFlipY_withTiles hc _ _ _).trans (congrArg Except.ok ?_)
  refine withTiles_eq_self hc fun x y hx hy => ?_
  rw [turned_turned, show c.m_Height - 1 - (c.m_Height - 1 - y) = y by omega]
  simp only [flipYFlags_flipYFlags, turned_same]

theorem BrushFlipX_BrushFlipY (hc : c.Plain) :
    (c.BrushFlipX >>= BrushFlipY) = .ok (c.withTiles c.m_Width c.m_Height fun x y =>
      turned true (fun b => flipYFlags (flipXFlags b))
        (c.tile (c.m_Width - 1 - x) (c.m_Height - 1 - y))) := by
  rw [BrushFlipX_eq hc]
  exact BrushFlipY_withTiles hc _ _ _

theorem BrushFlipY_BrushFlipX (hc : c.Plain) :
    (c.BrushFlipY >>= BrushFlipX) = .ok (c.withTiles c.m_Width c.m_Height fun x y =>
      turned true (fun b => flipYFlags (flipXFlags b))
        (c.tile (c.m_Width - 1 - x) (c.m_Height - 1 - y))) := by
  rw [BrushFlipY_eq hc]
  simp only [flipYFlags_flipXFlags]
  exact BrushFlipX_withTiles hc _ _ _

theorem rotate90_twice (hc : c.Plain) :
    (c.rotate90 >>= rotate90) = .ok (c.withTiles c.m_Width c.m_Height fun x y =>
      turned true (fun b => flipYFlags (flipXFlags b))
        (c.tile (c.m_Width - 1 - x) (c.m_Height - 1 - y))) := by
  rw [rotate90_eq hc]
  simp only [← rotateFlags_rotateFlags]
  exact rotate90_withTiles hc _ _ _

theorem rotate90_BrushFlipX (hc : c.Plain) :
    ∃ c', (c.rotate90 >>= BrushFlipX) = .ok c' ∧ (c.BrushFlipY >>= rotate90) = .ok c' := by
  rw [rotate90_eq hc, BrushFlipY_eq hc]
  refine ⟨_, BrushFlipX_withTiles hc _ _ _, (rotate90_withTiles hc _ _ _).trans ?_⟩
  refine congrArg Except.ok (withTiles_congr fun x y hx hy => ?_)
  simp only [turned_turned, flipXFlags_rotateFlags]

/-- The flips and rotations of a plain brush. -/
theorem flips_and_rotations (hc : c.Plain) :
    (c.BrushFlipX >>= BrushFlipX) = .ok c ∧ (c.BrushFlipY >>= BrushFlipY) = .ok c ∧
    (∃ c', (c.BrushFlipX >>= BrushFlipY) = .ok c' ∧ (c.BrushFlipY >>= BrushFlipX) = .ok c') ∧
    (c.BrushRotate 90 >>= BrushRotate 90 >>= BrushRotate 90 >>= BrushRotate 90) = .ok c ∧
    (∃ c', c.BrushRotate 180 = .ok c' ∧ (c.BrushRotate 90 >>= BrushRotate 90) = .ok c') ∧
    (∃ c', c.BrushRotate 270 = .ok c' ∧
      (c.BrushRotate 90 >>= BrushRotate 90 >>= BrushRotate 90) = .ok c') ∧
    (∃ c', (c.BrushRotate 90 >>= BrushFlipX) = .ok c' ∧
      (c.BrushFlipY >>= BrushRotate 90) = .ok c') := by
  have hrotate : (BrushRotate 90 : CLayerTiles → Exec CLayerTiles) = rotate90 :=
    funext BrushRotate_90
  rw [hrotate, BrushRotate_180, BrushRotate_270]
  refine ⟨BrushFlipX_twice hc, BrushFlipY_twice hc,
    ⟨_, BrushFlipX_BrushFlipY hc, BrushFlipY_BrushFlipX hc⟩, ?_,
    ⟨_, BrushFlipX_BrushFlipY hc, rotate90_twice hc⟩, ?_, rotate90_BrushFlipX hc⟩
  · -- two half turns
    rw [bind_assoc, rotate90_twice hc]
    refine (rotate90_twice (hc.withTiles _ _ _)).trans (congrArg Except.ok ?_)
    refine withTiles_eq_self hc fun x y hx hy => ?_
    change turned true _ (tile (c.withTiles c.m_Width c.m_Height _) (c.m_Width - 1 - x)
      (c.m_Height - 1 - y)) = _
    rw [tile_withTiles (by omega) (by omega), turned_turned,
      show c.m_Width - 1 - (c.m_Width - 1 - x) = x by omega,
      show c.m_Height - 1 - (c.m_Height - 1 - y) = y by omega]
    simp only [flipYFlags_flipXFlags, flipYFlags_flipYFlags, flipXFlags_flipXFlags, turned_same]
  · -- a quarter and then a half turn either way
    rw [bind_assoc, rotate90_eq hc]
    exact ⟨_, BrushFlipX_BrushFlipY (hc.withTiles _ _ _), rotate90_twice (hc.withTiles _ _ _)⟩

end CLayerTiles

/-- A brush of one row with two tiles, of which one is rotated. -/
def arrow : CLayerTiles := {
  m_Width := 2
  m_Height := 1
  m_pTiles := [⟨1, TILEFLAG_ROTATE, 0, 0⟩, ⟨2, TILEFLAG_XFLIP, 0, 0⟩]
  m_HasGame := false
  m_HasFront := false
  m_HasTele := false
  m_HasSpeedup := false
  m_HasSwitch := false
  m_HasTune := false
  m_AllowPlaceUnusedTiles := false
}

theorem flips_and_rotations_arrow : (arrow.BrushFlipX >>= CLayerTiles.BrushFlipX) = .ok arrow :=
  (CLayerTiles.flips_and_rotations
    (c := arrow) ⟨rfl, rfl, rfl, rfl, rfl, rfl, rfl⟩).1

end Fex.Editor
