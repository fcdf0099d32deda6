import Fex.Editor.AutoMap

/-!
# Auto mapping stays inside the layers

The runs of a configuration access the tiles of their positions if the first one,
where it filters by the game layer without a copy, reads a game layer with rows of
the same width.
-/

namespace Fex.Editor.AutoMap

open Fex.Lib Fex.Engine Fex.Game

variable {l : CLayerTiles} {w h x y : Nat}

/-! ## Tiles -/

/-- A layer of a size has a tile for each position. -/
structure Sized (w h : Nat) (l : CLayerTiles) : Prop where
  width : l.m_Width = w
  height : l.m_Height = h
  length : l.m_pTiles.length = w * h

theorem sized_new (w h : Nat) : Sized w h (CLayerTiles.new w h) :=
  ⟨rfl, rfl, List.length_replicate⟩

theorem Sized.isIndex (hl : Sized w h l) (hx : x < w) (hy : y < h) : l.IsIndex x y (y * w + x) := by
  refine ⟨?_, ?_, ?_⟩
  · rw [hl.width]
    exact hx
  · rw [hl.height]
    exact hy
  · rw [hl.width]

theorem Sized.read (hl : Sized w h l) (hx : x < w) (hy : y < h) :
    ∃ Tile, l.m_pTiles[y * w + x]? = some Tile ∧ l.read x y (y * w + x) = .ok Tile := by
  obtain ⟨Tile, hget⟩ := exists_getElem? hl.length hx hy
  refine ⟨Tile, hget, ?_⟩
  unfold CLayerTiles.read
  rw [if_pos (hl.isIndex hx hy), load_eq hget]

theorem isIndex_of_read {index : Nat} {Tile : CTile} (h : l.read x y index = .ok Tile) :
    l.IsIndex x y index := by
  unfold CLayerTiles.read at h
  split at h
  next hindex => exact hindex
  next => cases h

/-- The layer with another tile at an index. -/
def CLayerTiles.put (l : CLayerTiles) (i : Nat) (Tile : CTile) : CLayerTiles :=
  { l with m_pTiles := l.m_pTiles.set i Tile }

theorem Sized.put (hl : Sized w h l) (i : Nat) (Tile : CTile) : Sized w h (l.put i Tile) :=
  ⟨hl.width, hl.height, List.length_set.trans hl.length⟩

/-- The tiles of the other positions stay. -/
theorem getElem?_put_ne {i j : Nat} (hij : i ≠ j) (Tile : CTile) :
    (l.put i Tile).m_pTiles[j]? = l.m_pTiles[j]? := List.getElem?_set_ne hij

theorem Sized.getElem?_put (hl : Sized w h l) (hx : x < w) (hy : y < h) (Tile : CTile) :
    (l.put (y * w + x) Tile).m_pTiles[y * w + x]? = some Tile :=
  List.getElem?_set_self (by rw [hl.length]; exact cell_lt hx hy)

theorem Sized.setTile (hl : Sized w h l) (hx : x < w) (hy : y < h) (m_Index m_Flags : UInt8) :
    ∃ Tile, l.m_pTiles[y * w + x]? = some Tile ∧
      l.setTile x y (y * w + x) m_Index m_Flags =
        .ok (l.put (y * w + x) { Tile with m_Index, m_Flags }) := by
  obtain ⟨Tile, hget, hread⟩ := hl.read hx hy
  refine ⟨Tile, hget, ?_⟩
  unfold CLayerTiles.setTile CLayerTiles.write
  rw [hread]
  show (if l.IsIndex x y (y * w + x) then _ else _) = _
  rw [if_pos (hl.isIndex hx hy), store_eq (by rw [hl.length]; exact cell_lt hx hy)]
  rfl

theorem Sized.setTile_ok (hl : Sized w h l) (hx : x < w) (hy : y < h) (m_Index m_Flags : UInt8) :
    ∃ l', l.setTile x y (y * w + x) m_Index m_Flags = .ok l' ∧ Sized w h l' := by
  obtain ⟨Tile, -, hset⟩ := hl.setTile hx hy m_Index m_Flags
  exact ⟨_, hset, hl.put _ _⟩

/-! ## Rules -/

/-- The layer can be read with the indices of another one. -/
def Readable (w h : Nat) (l : CLayerTiles) : Prop :=
  ∀ x y, x < w → y < h → ∃ Tile, l.read x y (y * w + x) = .ok Tile

theorem Sized.readable (hl : Sized w h l) : Readable w h l := by
  intro x y hx hy
  obtain ⟨Tile, -, hread⟩ := hl.read hx hy
  exact ⟨Tile, hread⟩

/-- Rows of the same width, or one row, have the same indices. -/
theorem Sized.readable_iff {gw gh : Nat} (hl : Sized gw gh l) (hw : 0 < w) (hh : 0 < h) :
    Readable w h l ↔ w ≤ gw ∧ h ≤ gh ∧ (w = gw ∨ h ≤ 1) := by
  constructor
  · intro hread
    have hindex : ∀ x y, x < w → y < h → x < gw ∧ y < gh ∧ y * w + x = y * gw + x := by
      intro x y hx hy
      obtain ⟨Tile, hTile⟩ := hread x y hx hy
      have hxy := isIndex_of_read hTile
      unfold CLayerTiles.IsIndex at hxy
      rw [hl.width, hl.height] at hxy
      exact hxy
    have hlast := hindex (w - 1) (h - 1) (by omega) (by omega)
    refine ⟨by omega, by omega, ?_⟩
    by_cases hone : h ≤ 1
    · exact .inr hone
    · have hrow := (hindex 0 1 hw (by omega)).2.2
      exact .inl (by omega)
  · rintro ⟨hw', hh', hrows⟩ x y hx hy
    have hindex : y * w + x = y * gw + x := by
      rcases hrows with rfl | hone
      · rfl
      · rw [show y = 0 by omega, Nat.zero_mul, Nat.zero_mul]
    rw [hindex]
    exact hl.readable x y (by omega) (by omega)

/-- The layer that is read, unless it is the layer itself. -/
def Pass.Ready (p : Pass) : Prop :=
  ∀ c, p.pReadLayer = some c → Readable p.LayerWidth p.LayerHeight c

variable {p : Pass}

theorem Pass.Ready.read (hp : p.Ready) (hl : Sized p.LayerWidth p.LayerHeight l)
    (hx : x < p.LayerWidth) (hy : y < p.LayerHeight) :
    ∃ Tile, (p.readLayer l).read x y (y * p.LayerWidth + x) = .ok Tile := by
  unfold Pass.readLayer
  cases hc : p.pReadLayer with
  | none => exact hl.readable x y hx hy
  | some c => exact hp c hc x y hx hy

theorem Pass.Ready.check_ok (hp : p.Ready) (hl : Sized p.LayerWidth p.LayerHeight l)
    (CheckX CheckY : Int) : ∃ r, p.check l CheckX CheckY = .ok r := by
  unfold Pass.check
  split
  next hinside =>
    obtain ⟨Tile, hread⟩ := hp.read hl (x := CheckX.toNat) (y := CheckY.toNat) (by omega) (by omega)
    simp only
    rw [hread]
    exact ⟨_, rfl⟩
  next => exact ⟨_, rfl⟩

theorem Pass.Ready.respectRules_ok (hp : p.Ready) (hl : Sized p.LayerWidth p.LayerHeight l)
    (x y : Nat) (rules : List CPosRule) : ∃ b, p.respectRules l x y rules = .ok b := by
  induction rules with
  | nil => exact ⟨true, rfl⟩
  | cons pRule rules ih =>
      obtain ⟨r, hr⟩ := hp.check_ok hl (wrap32 (x + pRule.m_X)) (wrap32 (y + pRule.m_Y))
      unfold Pass.respectRules
      rw [hr]
      show ∃ b, (if respected pRule r.1 r.2 = true then _ else _) = _
      split
      · exact ih
      · exact ⟨false, rfl⟩

/-- A rule changes no more than the tile of its position. -/
theorem Pass.Ready.applyRule_ok (hp : p.Ready) (hl : Sized p.LayerWidth p.LayerHeight l)
    (hx : x < p.LayerWidth) (hy : y < p.LayerHeight) (rule : CIndexRule × Nat) :
    ∃ l', p.applyRule x y l rule = .ok l' ∧ Sized p.LayerWidth p.LayerHeight l' := by
  obtain ⟨pTile, -, hTile⟩ := hl.read hx hy
  obtain ⟨pReadTile, hReadTile⟩ := hp.read hl hx hy
  obtain ⟨RespectRules, hrules⟩ := hp.respectRules_ok hl x y rule.1.m_vRules
  unfold Pass.applyRule
  simp only
  rw [hTile]
  show ∃ l', ((p.readLayer l).read x y _ >>= fun pReadTile => _) = _ ∧ _
  rw [hReadTile]
  show ∃ l', (if pReadTile.m_Index = 0 ∧ _ then _ else _) = _ ∧ _
  split
  · exact hl.setTile_ok hx hy _ _
  split
  · exact ⟨l, rfl, hl⟩
  split
  · exact ⟨l, rfl, hl⟩
  rw [hrules]
  show ∃ l', (if RespectRules = true ∧ _ then _ else _) = _ ∧ _
  split
  · exact hl.setTile_ok hx hy _ _
  · exact ⟨l, rfl, hl⟩

theorem Pass.Ready.mapTile_ok (hp : p.Ready) (hl : Sized p.LayerWidth p.LayerHeight l)
    (hx : x < p.LayerWidth) (hy : y < p.LayerHeight) (rules : List CIndexRule) :
    ∃ l', p.mapTile rules l x y = .ok l' ∧ Sized p.LayerWidth p.LayerHeight l' := by
  obtain ⟨pTile, -, hTile⟩ := hl.read hx hy
  obtain ⟨pReadTile, hReadTile⟩ := hp.read hl hx hy
  unfold Pass.mapTile
  rw [hTile]
  show ∃ l', ((p.readLayer l).read x y _ >>= fun pReadTile => _) = _ ∧ _
  rw [hReadTile]
  exact foldlM_ok (Sized p.LayerWidth p.LayerHeight)
    (fun s rule _ hs => hp.applyRule_ok hs hx hy rule) hl

/-- All tiles can be mapped if the layer that is read has their indices. -/
theorem Pass.Ready.forCells_ok (hp : p.Ready) (hl : Sized p.LayerWidth p.LayerHeight l)
    (rules : List CIndexRule) :
    ∃ l', forCells p.LayerWidth p.LayerHeight (p.mapTile rules) l = .ok l' ∧
      Sized p.LayerWidth p.LayerHeight l' :=
  forCells_spec (fun _ _ s => Sized p.LayerWidth p.LayerHeight s)
    (fun _ _ _ hx hy hs => hp.mapTile_ok hs hx hy rules) (fun _ _ _ hs => hs) hl

theorem Pass.ready_of_forCells {rules : List CIndexRule} {l' : CLayerTiles}
    (hrun : forCells p.LayerWidth p.LayerHeight (p.mapTile rules) l = .ok l') : p.Ready := by
  intro c hc x y hx hy
  obtain ⟨s, t, hcell⟩ := forCells_cell hrun hx hy
  unfold Pass.mapTile at hcell
  obtain ⟨pTile, -, hcell⟩ := bind_eq_ok.mp hcell
  obtain ⟨pReadTile, hread, -⟩ := bind_eq_ok.mp hcell
  unfold Pass.readLayer at hread
  rw [hc] at hread
  exact ⟨pReadTile, hread⟩

/-! ## Copies -/

theorem filtered_ok {k : Nat} {ReferenceId : Int} (h : k = 0 → ReferenceId ≤ 9) (m_Index : UInt8) :
    ∃ i, filtered k ReferenceId m_Index = .ok i := by
  unfold filtered
  split
  next href =>
    have hle := h href.1
    have hlt : (ReferenceId - 1).toNat < s_aTileIndex.length := by
      show (ReferenceId - 1).toNat < 9
      omega
    rw [load_eq (List.getElem?_eq_getElem hlt)]
    exact ⟨_, rfl⟩
  next => exact ⟨m_Index, rfl⟩

theorem le_of_filtered {ReferenceId : Int} {m_Index i : UInt8}
    (h : filtered 0 ReferenceId m_Index = .ok i) : ReferenceId ≤ 9 := by
  unfold filtered at h
  split at h
  next href =>
    obtain ⟨Tile, hload, -⟩ := bind_eq_ok.mp h
    have hlt := (List.getElem?_eq_some_iff.mp (getElem?_of_load hload)).1
    change (ReferenceId - 1).toNat < 9 at hlt
    omega
  next href => omega

theorem copyLayer_ok {pBuffer : CLayerTiles} {bw bh n m k : Nat} {ReferenceId : Int}
    (hb : Sized bw bh pBuffer) (hn : n ≤ bw) (hm : m ≤ bh) (hw : n ≤ w) (hh : m ≤ h)
    (href : 0 < n → 0 < m → k = 0 → ReferenceId ≤ 9) :
    ∃ c, copyLayer pBuffer w h n m k ReferenceId = .ok c ∧ Sized w h c := by
  unfold copyLayer
  apply forCells_spec (fun _ _ s => Sized w h s)
  · intro x y s hx hy hs
    obtain ⟨pIn, -, hread⟩ := hb.read (x := x) (y := y) (by omega) (by omega)
    obtain ⟨i, hi⟩ := filtered_ok (href (by omega) (by omega)) pIn.m_Index
    rw [hb.width, hread]
    show ∃ t, (filtered k ReferenceId pIn.m_Index >>= fun m_Index => _) = _ ∧ _
    rw [hi]
    exact hs.setTile_ok (by omega) (by omega) i pIn.m_Flags
  · intro y s _ hs
    exact hs
  · exact sized_new w h

theorem le_of_copyLayer {pBuffer c : CLayerTiles} {n m : Nat} {ReferenceId : Int}
    (hn : 0 < n) (hm : 0 < m) (h : copyLayer pBuffer w y n m 0 ReferenceId = .ok c) :
    ReferenceId ≤ 9 := by
  unfold copyLayer at h
  obtain ⟨s, t, hcell⟩ := forCells_cell h hn hm
  obtain ⟨pIn, -, hcell⟩ := bind_eq_ok.mp hcell
  obtain ⟨i, hi, -⟩ := bind_eq_ok.mp hcell
  exact le_of_filtered hi

/-! ## Runs -/

/-- What a run needs of a game layer. -/
def RunMeets (w h gw gh : Nat) (ReferenceId : Int) (run : CRun × Nat) : Prop :=
  run.2 = 0 → 0 ≤ ReferenceId →
    if run.1.m_AutomapCopy then ReferenceId ≤ 9 else w ≤ gw ∧ h ≤ gh ∧ (w = gw ∨ h ≤ 1)

variable {pGameLayer : CLayerTiles} {gw gh : Nat} {ReferenceId Seed SeedOffsetX SeedOffsetY : Int}
  {run : CRun × Nat}

theorem isFilterable_iff {k : Nat} : IsFilterable k ReferenceId = true ↔ k = 0 ∧ 0 ≤ ReferenceId :=
  decide_eq_true_iff

theorem copyFor_ok (hl : Sized w h l) (hg : Sized gw gh pGameLayer) {k : Nat}
    (href : 0 < w → 0 < h → k = 0 → 0 ≤ ReferenceId → ReferenceId ≤ 9) :
    ∃ c, copyFor l pGameLayer ReferenceId k = .ok c ∧ Sized w h c := by
  unfold copyFor
  rw [hl.width, hl.height, hg.width, hg.height]
  split
  next hfilter =>
    rw [isFilterable_iff] at hfilter
    apply copyLayer_ok hg (Nat.min_le_left _ _) (Nat.min_le_left _ _) (Nat.min_le_right _ _)
      (Nat.min_le_right _ _)
    intro hn hm _
    exact href (by omega) (by omega) hfilter.1 hfilter.2
  next hfilter =>
    rw [isFilterable_iff] at hfilter
    apply copyLayer_ok hl (Nat.le_refl _) (Nat.le_refl _) (Nat.le_refl _) (Nat.le_refl _)
    intro _ _ hk
    omega

/-- The layer that a run reads has the indices of the layer that is mapped. -/
theorem chooseReadLayer_ok (hl : Sized w h l) (hg : Sized gw gh pGameLayer)
    (hmeets : 0 < w → 0 < h → RunMeets w h gw gh ReferenceId run) :
    ∃ c, chooseReadLayer l pGameLayer ReferenceId run = .ok c ∧
      ∀ b, c = some b → Readable w h b := by
  unfold chooseReadLayer
  by_cases hcopy : run.1.m_AutomapCopy = true
  · obtain ⟨c, hc, hsized⟩ := @copyFor_ok l w h pGameLayer gw gh ReferenceId hl hg run.2
      (fun hw hh hk href => by
        have hmeets := hmeets hw hh hk href
        rw [if_pos hcopy] at hmeets
        exact hmeets)
    rw [if_pos hcopy, hc]
    refine ⟨some c, rfl, fun b hb => ?_⟩
    rw [← Option.some.inj hb]
    exact hsized.readable
  · rw [if_neg hcopy]
    refine ⟨_, rfl, fun b hb x y hx hy => ?_⟩
    split at hb
    next hfilter =>
      rw [isFilterable_iff] at hfilter
      have hw : 0 < w := Nat.zero_lt_of_lt hx
      have hh : 0 < h := Nat.zero_lt_of_lt hy
      have hfits := hmeets hw hh hfilter.1 hfilter.2
      rw [if_neg hcopy] at hfits
      rw [← Option.some.inj hb]
      exact (hg.readable_iff hw hh).mpr hfits x y hx hy
    next => cases hb

theorem proceedRun_ok (hl : Sized w h l) (hg : Sized gw gh pGameLayer)
    (hmeets : 0 < w → 0 < h → RunMeets w h gw gh ReferenceId run) :
    ∃ l', proceedRun pGameLayer ReferenceId Seed SeedOffsetX SeedOffsetY l run = .ok l' ∧
      Sized w h l' := by
  obtain ⟨c, hc, hread⟩ := chooseReadLayer_ok hl hg hmeets
  obtain ⟨rfl, rfl, hlength⟩ := hl
  unfold proceedRun
  rw [hc]
  have hready : Pass.Ready
      { pReadLayer := c
        IsFilterable := IsFilterable run.2 ReferenceId
        LayerWidth := l.m_Width
        LayerHeight := l.m_Height
        Seed
        h := run.2
        SeedOffsetX
        SeedOffsetY } := hread
  exact hready.forCells_ok ⟨rfl, rfl, hlength⟩ run.1.m_vIndexRules

theorem meets_of_proceedRun {l' : CLayerTiles} (hl : Sized w h l) (hg : Sized gw gh pGameLayer)
    (hw : 0 < w) (hh : 0 < h) (hgw : 0 < gw) (hgh : 0 < gh)
    (hrun : proceedRun pGameLayer ReferenceId Seed SeedOffsetX SeedOffsetY l run = .ok l') :
    RunMeets w h gw gh ReferenceId run := by
  intro hfirst href
  unfold proceedRun at hrun
  obtain ⟨c, hc, hrun⟩ := bind_eq_ok.mp hrun
  have hfilter : IsFilterable run.2 ReferenceId = true := isFilterable_iff.mpr ⟨hfirst, href⟩
  unfold chooseReadLayer at hc
  split
  next hcopy =>
    rw [if_pos hcopy] at hc
    obtain ⟨c', hc', -⟩ := bind_eq_ok.mp hc
    unfold copyFor at hc'
    rw [if_pos hfilter, hfirst, hl.width, hl.height, hg.width, hg.height] at hc'
    exact le_of_copyLayer (by omega) (by omega) hc'
  next hcopy =>
    rw [if_neg hcopy, if_pos hfilter] at hc
    have hready := Pass.ready_of_forCells hrun pGameLayer (Except.ok.inj hc).symm
    change Readable l.m_Width l.m_Height pGameLayer at hready
    rw [hl.width, hl.height] at hready
    exact (hg.readable_iff hw hh).mp hready

end Fex.Editor.AutoMap

/-!
## Auto mapping a region

`ProceedLocalized` maps copies of a region and copies a part of them back.  Its
region is clamped to the layer, so it needs a game layer that covers the region.
-/

namespace Fex.Editor.AutoMap

open Fex.Lib Fex.Engine Fex.Game

variable {pLayer pGameLayer : CLayerTiles} {w h gw gh : Nat}
  {ReferenceId Seed SeedOffsetX SeedOffsetY : Int} {pConf : CConfiguration} {r : Region}

/-! ## All runs -/

theorem proceedRuns_ok (hl : Sized w h pLayer) (hg : Sized gw gh pGameLayer)
    (hmeets : 0 < w → 0 < h → ∀ run, pConf.m_vRuns.head? = some run →
      RunMeets w h gw gh ReferenceId (run, 0)) :
    ∃ l', proceedRuns pConf pLayer pGameLayer ReferenceId Seed SeedOffsetX SeedOffsetY = .ok l' ∧
      Sized w h l' := by
  unfold proceedRuns
  apply foldlM_ok (Sized w h) _ hl
  intro s run hrun hs
  apply proceedRun_ok hs hg
  intro hw hh hfirst
  have hhead : pConf.m_vRuns.head? = some run.1 := by
    rw [List.head?_eq_getElem?, ← hfirst]
    exact List.mem_zipIdx_iff_getElem?.mp hrun
  exact hmeets hw hh run.1 hhead rfl

theorem meets_of_proceedRuns {l' : CLayerTiles} (hl : Sized w h pLayer)
    (hg : Sized gw gh pGameLayer) (hw : 0 < w) (hh : 0 < h) (hgw : 0 < gw) (hgh : 0 < gh)
    (hrun : proceedRuns pConf pLayer pGameLayer ReferenceId Seed SeedOffsetX SeedOffsetY = .ok l')
    {run : CRun} (hhead : pConf.m_vRuns.head? = some run) :
    RunMeets w h gw gh ReferenceId (run, 0) := by
  obtain ⟨rest, hrest⟩ := List.head?_eq_some_iff.mp hhead
  unfold proceedRuns at hrun
  rw [hrest, List.zipIdx_cons, List.foldlM_cons] at hrun
  obtain ⟨s, hs, -⟩ := bind_eq_ok.mp hrun
  exact meets_of_proceedRun hl hg hw hh hgw hgh hs

/-! ## Bounds of the region -/

theorem checkInt_eq {x v : Int} (h : checkInt x = .ok v) : v = x := by
  unfold checkInt at h
  split at h
  next => exact (Except.ok.inj h).symm
  next => cases h

theorem fromBound_eq {X Factor Start : Int} {hi v : Nat} (h : fromBound X Factor Start hi = .ok v) :
    v = clampTo (X + Factor * Start) hi := by
  unfold fromBound at h
  obtain ⟨Offset, hOffset, h⟩ := bind_eq_ok.mp h
  obtain ⟨From, hFrom, h⟩ := bind_eq_ok.mp h
  rw [checkInt_eq hFrom, checkInt_eq hOffset] at h
  exact (Except.ok.inj h).symm

theorem toBound_eq {X Width Factor End : Int} {hi v : Nat}
    (h : toBound X Width Factor End hi = .ok v) : v = clampTo (X + Width + Factor * End) hi := by
  unfold toBound at h
  obtain ⟨To, hTo, h⟩ := bind_eq_ok.mp h
  obtain ⟨Offset, hOffset, h⟩ := bind_eq_ok.mp h
  obtain ⟨To', hTo', h⟩ := bind_eq_ok.mp h
  rw [checkInt_eq hTo', checkInt_eq hOffset, checkInt_eq hTo] at h
  exact (Except.ok.inj h).symm

theorem clampTo_mono {x y : Int} (h : x ≤ y) (hi : Nat) : clampTo x hi ≤ clampTo y hi := by
  unfold clampTo
  omega

theorem clampTo_le (x : Int) (hi : Nat) : clampTo x hi ≤ hi := by
  unfold clampTo
  omega

/-- What is written back was mapped, and what is mapped is inside the layer. -/
structure Region.Inside (r : Region) (w h : Nat) : Prop where
  fromX : r.UpdateFromX ≤ r.CommitFromX
  fromY : r.UpdateFromY ≤ r.CommitFromY
  toX : r.CommitToX ≤ r.UpdateToX
  toY : r.CommitToY ≤ r.UpdateToY
  width : r.UpdateToX ≤ w
  height : r.UpdateToY ≤ h

theorem region_inside {X Y Width Height : Int} (hl : Sized w h pLayer)
    (hr : region pConf pLayer X Y Width Height = .ok r) : r.Inside w h := by
  unfold region at hr
  rw [hl.width, hl.height] at hr
  obtain ⟨CommitFromX, hCFX, hr⟩ := bind_eq_ok.mp hr
  obtain ⟨CommitFromY, hCFY, hr⟩ := bind_eq_ok.mp hr
  obtain ⟨CommitToX, hCTX, hr⟩ := bind_eq_ok.mp hr
  obtain ⟨CommitToY, hCTY, hr⟩ := bind_eq_ok.mp hr
  obtain ⟨UpdateFromX, hUFX, hr⟩ := bind_eq_ok.mp hr
  obtain ⟨UpdateFromY, hUFY, hr⟩ := bind_eq_ok.mp hr
  obtain ⟨UpdateToX, hUTX, hr⟩ := bind_eq_ok.mp hr
  obtain ⟨UpdateToY, hUTY, hr⟩ := bind_eq_ok.mp hr
  have hstartX := pConf.startX_le
  have hstartY := pConf.startY_le
  have hendX := pConf.le_endX
  have hendY := pConf.le_endY
  rw [← Except.ok.inj hr, fromBound_eq hCFX, fromBound_eq hCFY, toBound_eq hCTX, toBound_eq hCTY,
    fromBound_eq hUFX, fromBound_eq hUFY, toBound_eq hUTX, toBound_eq hUTY]
  exact ⟨clampTo_mono (by omega) w, clampTo_mono (by omega) h, clampTo_mono (by omega) w,
    clampTo_mono (by omega) h, clampTo_le _ w, clampTo_le _ h⟩

/-! ## The copies -/

/-- How many columns and rows are mapped. -/
def Region.columns (r : Region) : Nat := r.UpdateToX - r.UpdateFromX

def Region.rows (r : Region) : Nat := r.UpdateToY - r.UpdateFromY

theorem copyRegion_spec {l pOut : CLayerTiles} {n m i j : Nat} (hl : Sized w h l)
    (ho : Sized n m pOut) (hi : i < n) (hj : j < m) (hx : r.UpdateFromX + i < w)
    (hy : r.UpdateFromY + j < h) :
    ∃ t t', l.m_pTiles[(r.UpdateFromY + j) * w + (r.UpdateFromX + i)]? = some t ∧
      pOut.m_pTiles[j * n + i]? = some t' ∧
      copyRegion l r pOut i j =
        .ok (pOut.put (j * n + i) { t' with m_Index := t.m_Index, m_Flags := t.m_Flags }) := by
  obtain ⟨t, ht, hread⟩ := hl.read hx hy
  obtain ⟨t', ht', hset⟩ := ho.setTile hi hj t.m_Index t.m_Flags
  refine ⟨t, t', ht, ht', ?_⟩
  have hindex : (r.UpdateFromY + j - r.UpdateFromY) * pOut.m_Width + (r.UpdateFromX + i) -
      r.UpdateFromX = j * n + i := by
    rw [Nat.add_sub_cancel_left, ho.width]
    omega
  unfold copyRegion
  simp only
  rw [hl.width, hread]
  show pOut.setTile i j _ t.m_Index t.m_Flags = _
  rw [hindex]
  exact hset

/-- A tile of the copy has the index and the flags of the tile in the layer. -/
def Copied (r : Region) (w n : Nat) (l u : CLayerTiles) (a b : Nat) : Prop :=
  ∃ t t', l.m_pTiles[(r.UpdateFromY + b) * w + (r.UpdateFromX + a)]? = some t ∧
    u.m_pTiles[b * n + a]? = some t' ∧ t'.m_Index = t.m_Index ∧ t'.m_Flags = t.m_Flags

theorem updateLayers_ok (hl : Sized w h pLayer) (hg : Sized gw gh pGameLayer)
    (hin : r.Inside w h)
    (hgame : 0 < r.columns → 0 < r.rows → r.UpdateToX ≤ gw ∧ r.UpdateToY ≤ gh) :
    ∃ u g, updateLayers pLayer pGameLayer r = .ok (u, g) ∧ Sized r.columns r.rows u ∧
      u.m_Readonly = false ∧ Sized r.columns r.rows g ∧
      ∀ a b, a < r.columns → b < r.rows → Copied r gw r.columns pGameLayer g a b := by
  have hwidth := hin.width
  have hheight := hin.height
  have hloop := forCells_spec (n := r.columns) (m := r.rows)
    (f := fun (s : CLayerTiles × CLayerTiles) i j => do
      let pUpdateLayer ← copyRegion pLayer r s.1 i j
      let pUpdateGame ← copyRegion pGameLayer r s.2 i j
      return (pUpdateLayer, pUpdateGame))
    (fun x y s => Sized r.columns r.rows s.1 ∧ s.1.m_Readonly = false ∧ Sized r.columns r.rows s.2 ∧
      ∀ a b, a < r.columns → b < r.rows → b < y ∨ b = y ∧ a < x →
        Copied r gw r.columns pGameLayer s.2 a b)
    (fun x y s hx hy ⟨hu, hread, hs, hcopied⟩ => by
      have hfits := hgame (Nat.zero_lt_of_lt hx) (Nat.zero_lt_of_lt hy)
      have hcol : r.columns = r.UpdateToX - r.UpdateFromX := rfl
      have hrow : r.rows = r.UpdateToY - r.UpdateFromY := rfl
      obtain ⟨t, t', ht, ht', hlayer⟩ := copyRegion_spec (r := r) hl hu hx hy (by omega) (by omega)
      obtain ⟨q, q', hq, hq', hcopy⟩ := copyRegion_spec (r := r) hg hs hx hy (by omega) (by omega)
      have hturn : (copyRegion pLayer r s.1 x y >>= fun pUpdateLayer =>
          copyRegion pGameLayer r s.2 x y >>= fun pUpdateGame => pure (pUpdateLayer, pUpdateGame)) =
          .ok (s.1.put (y * r.columns + x) { t' with m_Index := t.m_Index, m_Flags := t.m_Flags },
            s.2.put (y * r.columns + x) { q' with m_Index := q.m_Index, m_Flags := q.m_Flags }) := by
        rw [hlayer]
        show (copyRegion pGameLayer r s.2 x y >>= fun pUpdateGame => _) = _
        rw [hcopy]
        rfl
      refine ⟨_, hturn, hu.put _ _, hread, hs.put _ _, fun a b ha hb hlt => ?_⟩
      by_cases hcell : a = x ∧ b = y
      · obtain ⟨rfl, rfl⟩ := hcell
        exact ⟨q, { q' with m_Index := q.m_Index, m_Flags := q.m_Flags }, hq, hs.getElem?_put ha hb _,
          rfl, rfl⟩
      · obtain ⟨v, v', hv, hv', hsame⟩ := hcopied a b ha hb (by omega)
        refine ⟨v, v', hv, ?_, hsame⟩
        have hne : y * r.columns + x ≠ b * r.columns + a :=
          fun heq => hcell ((cell_inj ha hx).mp heq.symm)
        exact (getElem?_put_ne hne _).trans hv')
    (fun y s _ ⟨hu, hread, hs, hcopied⟩ =>
      ⟨hu, hread, hs, fun a b ha hb hlt => hcopied a b ha hb (by omega)⟩)
    (s := (CLayerTiles.new r.columns r.rows, CLayerTiles.new r.columns r.rows))
    ⟨sized_new _ _, rfl, sized_new _ _, fun a b _ _ hlt => absurd hlt (by omega)⟩
  obtain ⟨⟨u, g⟩, hrun, hu, hread, hs, hcopied⟩ := hloop
  exact ⟨u, g, hrun, hu, hread, hs, fun a b ha hb => hcopied a b ha hb (.inl hb)⟩

/-- The copies read the game layer in all of the region. -/
theorem game_of_updateLayers {u : CLayerTiles × CLayerTiles} (hg : Sized gw gh pGameLayer)
    (hrun : updateLayers pLayer pGameLayer r = .ok u) (hcol : 0 < r.columns) (hrow : 0 < r.rows) :
    r.UpdateToX ≤ gw ∧ r.UpdateToY ≤ gh := by
  have hcolumns : r.columns = r.UpdateToX - r.UpdateFromX := rfl
  have hrows : r.rows = r.UpdateToY - r.UpdateFromY := rfl
  unfold updateLayers at hrun
  obtain ⟨s, t, hcell⟩ := forCells_cell hrun (x := r.columns - 1) (y := r.rows - 1)
    (by omega) (by omega)
  obtain ⟨pUpdateLayer, -, hcell⟩ := bind_eq_ok.mp hcell
  obtain ⟨pUpdateGame, hgame, -⟩ := bind_eq_ok.mp hcell
  unfold copyRegion at hgame
  obtain ⟨pIn, hread, -⟩ := bind_eq_ok.mp hgame
  have hindex := isIndex_of_read hread
  unfold CLayerTiles.IsIndex at hindex
  rw [hg.width, hg.height] at hindex
  omega

/-! ## Writing back -/

/-- The position is written back. -/
def Region.Commits (r : Region) (x y : Nat) : Prop :=
  r.CommitFromX ≤ x ∧ x < r.CommitToX ∧ r.CommitFromY ≤ y ∧ y < r.CommitToY

theorem commitTile_spec {pUpdate l : CLayerTiles} {i j : Nat} (hin : r.Inside w h)
    (hu : Sized r.columns r.rows pUpdate) {v k : Nat} (hl : Sized v k l)
    (hi : i < r.CommitToX - r.CommitFromX) (hj : j < r.CommitToY - r.CommitFromY)
    (hx : r.CommitFromX + i < v) (hy : r.CommitFromY + j < k) :
    ∃ t t', pUpdate.m_pTiles[(r.CommitFromY + j - r.UpdateFromY) * r.columns +
        (r.CommitFromX + i - r.UpdateFromX)]? = some t ∧
      l.m_pTiles[(r.CommitFromY + j) * v + (r.CommitFromX + i)]? = some t' ∧
      commitTile pUpdate r l i j = .ok (l.put ((r.CommitFromY + j) * v + (r.CommitFromX + i))
        { t' with m_Index := t.m_Index, m_Flags := t.m_Flags }) := by
  have hfromX := hin.fromX
  have hfromY := hin.fromY
  have htoX := hin.toX
  have htoY := hin.toY
  have hcolumns : r.columns = r.UpdateToX - r.UpdateFromX := rfl
  have hrows : r.rows = r.UpdateToY - r.UpdateFromY := rfl
  obtain ⟨t, ht, hread⟩ := hu.read (x := r.CommitFromX + i - r.UpdateFromX)
    (y := r.CommitFromY + j - r.UpdateFromY) (by omega) (by omega)
  obtain ⟨t', ht', hset⟩ := hl.setTile hx hy t.m_Index t.m_Flags
  refine ⟨t, t', ht, ht', ?_⟩
  have hindex : (r.CommitFromY + j - r.UpdateFromY) * pUpdate.m_Width + (r.CommitFromX + i) -
      r.UpdateFromX = (r.CommitFromY + j - r.UpdateFromY) * r.columns +
        (r.CommitFromX + i - r.UpdateFromX) := by
    rw [hu.width]
    omega
  unfold commitTile
  simp only
  rw [hindex, hread]
  show l.setTile _ _ ((r.CommitFromY + j) * l.m_Width + _) t.m_Index t.m_Flags = _
  rw [hl.width]
  exact hset

/-- The game layer gets back what was copied from it. -/
theorem commitTile_game {g : CLayerTiles} {i j : Nat} (hin : r.Inside w h)
    (hs : Sized r.columns r.rows g) (hg : Sized gw gh pGameLayer)
    (hcopied : ∀ a b, a < r.columns → b < r.rows → Copied r gw r.columns pGameLayer g a b)
    (hgame : 0 < r.columns → 0 < r.rows → r.UpdateToX ≤ gw ∧ r.UpdateToY ≤ gh)
    (hi : i < r.CommitToX - r.CommitFromX) (hj : j < r.CommitToY - r.CommitFromY) :
    commitTile g r pGameLayer i j = .ok pGameLayer := by
  have hfromX := hin.fromX
  have hfromY := hin.fromY
  have htoX := hin.toX
  have htoY := hin.toY
  have hcolumns : r.columns = r.UpdateToX - r.UpdateFromX := rfl
  have hrows : r.rows = r.UpdateToY - r.UpdateFromY := rfl
  have hfits := hgame (by omega) (by omega)
  obtain ⟨t, t', ht, ht', hrun⟩ := commitTile_spec hin hs hg hi hj (by omega) (by omega)
  obtain ⟨q, q', hq, hq', hindex, hflags⟩ := hcopied (r.CommitFromX + i - r.UpdateFromX)
    (r.CommitFromY + j - r.UpdateFromY) (by omega) (by omega)
  have hx : r.UpdateFromX + (r.CommitFromX + i - r.UpdateFromX) = r.CommitFromX + i := by omega
  have hy : r.UpdateFromY + (r.CommitFromY + j - r.UpdateFromY) = r.CommitFromY + j := by omega
  rw [hx, hy, ht'] at hq
  rw [ht] at hq'
  have hsame : ({ t' with m_Index := t.m_Index, m_Flags := t.m_Flags } : CTile) = t' := by
    rw [Option.some.inj hq', hindex, hflags, ← Option.some.inj hq]
  obtain ⟨hlt, hget⟩ := List.getElem?_eq_some_iff.mp ht'
  rw [hrun, hsame, ← hget, CLayerTiles.put, List.set_getElem_self]

theorem commit_ok {u g : CLayerTiles} (hl : Sized w h pLayer) (hg : Sized gw gh pGameLayer)
    (hin : r.Inside w h) (hu : Sized r.columns r.rows u) (hs : Sized r.columns r.rows g)
    (hcopied : ∀ a b, a < r.columns → b < r.rows → Copied r gw r.columns pGameLayer g a b)
    (hgame : 0 < r.columns → 0 < r.rows → r.UpdateToX ≤ gw ∧ r.UpdateToY ≤ gh) :
    ∃ l', commit u g pLayer pGameLayer r = .ok (l', pGameLayer) ∧ Sized w h l' ∧
      ∀ a b, a < w → b < h → ¬ r.Commits a b →
        l'.m_pTiles[b * w + a]? = pLayer.m_pTiles[b * w + a]? := by
  have htoX := hin.toX
  have htoY := hin.toY
  have hwidth := hin.width
  have hheight := hin.height
  have hloop := forCells_spec (n := r.CommitToX - r.CommitFromX) (m := r.CommitToY - r.CommitFromY)
    (f := fun (s : CLayerTiles × CLayerTiles) i j => do
      let pLayer ← commitTile u r s.1 i j
      let pGameLayer ← commitTile g r s.2 i j
      return (pLayer, pGameLayer))
    (fun _ _ s => s.2 = pGameLayer ∧ Sized w h s.1 ∧ ∀ a b, a < w → b < h → ¬ r.Commits a b →
      s.1.m_pTiles[b * w + a]? = pLayer.m_pTiles[b * w + a]?)
    (fun i j s hi hj ⟨hsame, hsized, hframe⟩ => by
      obtain ⟨t, t', -, -, hlayer⟩ := commitTile_spec hin hu hsized hi hj (by omega) (by omega)
      have hback := commitTile_game hin hs hg hcopied hgame hi hj
      have hturn : (commitTile u r s.1 i j >>= fun pLayer =>
          commitTile g r s.2 i j >>= fun pGameLayer => pure (pLayer, pGameLayer)) =
          .ok (s.1.put ((r.CommitFromY + j) * w + (r.CommitFromX + i))
            { t' with m_Index := t.m_Index, m_Flags := t.m_Flags }, pGameLayer) := by
        rw [hlayer, hsame]
        show (commitTile g r pGameLayer i j >>= fun pGameLayer => _) = _
        rw [hback]
        rfl
      refine ⟨_, hturn, rfl, hsized.put _ _, fun a b ha hb hout => ?_⟩
      have hne : (r.CommitFromY + j) * w + (r.CommitFromX + i) ≠ b * w + a := by
        intro heq
        obtain ⟨rfl, rfl⟩ := (cell_inj (by omega) ha).mp heq
        apply hout
        unfold Region.Commits
        omega
      exact (getElem?_put_ne hne _).trans (hframe a b ha hb hout))
    (fun _ _ _ hinv => hinv) (s := (pLayer, pGameLayer)) ⟨rfl, hl, fun _ _ _ _ _ => rfl⟩
  obtain ⟨⟨l', g'⟩, hrun, hsame, hsized, hframe⟩ := hloop
  change g' = pGameLayer at hsame
  rw [hsame] at hrun
  exact ⟨l', hrun, hsized, hframe⟩

end Fex.Editor.AutoMap
