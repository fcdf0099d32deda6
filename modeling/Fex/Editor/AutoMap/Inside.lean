import Fex.Editor.AutoMap.Region

/-!
# When auto mapping stays inside both layers

The conditions are exact: without them an access is outside a layer or at the
tile of another position.
-/

namespace Fex.Editor.AutoMap

open Fex.Lib Fex.Engine Fex.Game

/-! ## Whole layers -/

/-- Each access is inside its layer and at the tile that it is for, and the size stays. -/
def ProceedStays (a : CAutoMapper) (rand : Int) (pLayer pGameLayer : CLayerTiles)
    (ReferenceId ConfigId Seed SeedOffsetX SeedOffsetY : Int) : Prop :=
  ∃ l', a.Proceed rand pLayer pGameLayer ReferenceId ConfigId Seed SeedOffsetX SeedOffsetY = .ok l' ∧
    Sized pLayer.m_Width pLayer.m_Height l'

/-- A first run that filters knows its reference if it copies, and else the game layer covers the
layer with rows of the same width, or the layer has one row. -/
def ProceedMeets (a : CAutoMapper) (pLayer pGameLayer : CLayerTiles)
    (ReferenceId ConfigId : Int) : Prop :=
  ∀ pConf run, a.config pLayer ConfigId = some pConf → pConf.m_vRuns.head? = some run →
    RunMeets pLayer.m_Width pLayer.m_Height pGameLayer.m_Width pGameLayer.m_Height ReferenceId
      (run, 0)

variable {a : CAutoMapper} {pLayer pGameLayer : CLayerTiles} {w h gw gh : Nat}
  {rand ReferenceId ConfigId Seed SeedOffsetX SeedOffsetY : Int}

theorem proceedStays_iff (hl : Sized w h pLayer) (hg : Sized gw gh pGameLayer) (hw : 0 < w)
    (hh : 0 < h) (hgw : 0 < gw) (hgh : 0 < gh) :
    ProceedStays a rand pLayer pGameLayer ReferenceId ConfigId Seed SeedOffsetX SeedOffsetY ↔
      ProceedMeets a pLayer pGameLayer ReferenceId ConfigId := by
  unfold ProceedStays ProceedMeets CAutoMapper.Proceed
  rw [hl.width, hl.height, hg.width, hg.height]
  cases a.config pLayer ConfigId with
  | none =>
      constructor
      · intro _ pConf run hconf
        cases hconf
      · intro _
        exact ⟨pLayer, rfl, hl⟩
  | some pConf =>
      simp only
      constructor
      · rintro ⟨l', hrun, -⟩ pConf' run hconf hhead
        rw [← Option.some.inj hconf] at hhead
        exact meets_of_proceedRuns hl hg hw hh hgw hgh hrun hhead
      · intro hmeets
        exact proceedRuns_ok hl hg fun _ _ run hhead => hmeets pConf run rfl hhead

/-! ## Regions -/

/-- The size of the region, by default that of the layer. -/
def sizeOr (size : Int) (layerSize : Nat) : Int := if size < 0 then layerSize else size

/-- Each access is inside its layer and at the tile that it is for, no tile outside the committed
region changes, and none of the game layer. -/
def LocalizedStays (a : CAutoMapper) (rand : Int) (pLayer pGameLayer : CLayerTiles)
    (ReferenceId ConfigId Seed X Y Width Height : Int) : Prop :=
  ∃ l', a.ProceedLocalized rand pLayer pGameLayer ReferenceId ConfigId Seed X Y Width Height =
      .ok (l', pGameLayer) ∧
    Sized pLayer.m_Width pLayer.m_Height l' ∧
    ∀ x y, x < pLayer.m_Width → y < pLayer.m_Height →
      l'.m_pTiles[y * pLayer.m_Width + x]? ≠ pLayer.m_pTiles[y * pLayer.m_Width + x]? →
      ∃ pConf r, a.config pLayer ConfigId = some pConf ∧
        region pConf pLayer X Y (sizeOr Width pLayer.m_Width) (sizeOr Height pLayer.m_Height) = .ok r ∧
        r.Commits x y

/-- The bounds are `int`s, and the game layer covers the region that is mapped unless it is empty; a
first run that filters and copies knows its reference. -/
def LocalizedMeets (a : CAutoMapper) (pLayer pGameLayer : CLayerTiles)
    (ReferenceId ConfigId X Y Width Height : Int) : Prop :=
  ∀ pConf, a.config pLayer ConfigId = some pConf →
    ∃ r, region pConf pLayer X Y (sizeOr Width pLayer.m_Width) (sizeOr Height pLayer.m_Height) =
        .ok r ∧
      (0 < r.columns → 0 < r.rows →
        (r.UpdateToX ≤ pGameLayer.m_Width ∧ r.UpdateToY ≤ pGameLayer.m_Height) ∧
        ∀ run, pConf.m_vRuns.head? = some run → 0 ≤ ReferenceId → run.m_AutomapCopy →
          ReferenceId ≤ 9)

theorem config_of_readonly {u : CLayerTiles} {pConf : CConfiguration}
    (hconf : a.config pLayer ConfigId = some pConf) (hu : u.m_Readonly = false) :
    a.config u ConfigId = some pConf := by
  unfold CAutoMapper.config at hconf ⊢
  split at hconf
  next => cases hconf
  next hgo =>
    rw [if_neg]
    · exact hconf
    · rw [hu]
      intro hstop
      apply hgo
      rcases hstop with hfile | hread | hneg
      · exact .inl hfile
      · cases hread
      · exact .inr (.inr hneg)

/-- Between layers of one size only the reference matters. -/
theorem runMeets_same {n m : Nat} {run : CRun} :
    RunMeets n m n m ReferenceId (run, 0) ↔
      (0 ≤ ReferenceId → run.m_AutomapCopy → ReferenceId ≤ 9) := by
  unfold RunMeets
  constructor
  · intro hmeets href hcopy
    have hle := hmeets rfl href
    rw [if_pos hcopy] at hle
    exact hle
  · intro hmeets _ href
    split
    next hcopy => exact hmeets href hcopy
    next => exact ⟨Nat.le_refl n, Nat.le_refl m, .inl rfl⟩

theorem localizedStays_iff {X Y Width Height : Int} (hl : Sized w h pLayer)
    (hg : Sized gw gh pGameLayer) :
    LocalizedStays a rand pLayer pGameLayer ReferenceId ConfigId Seed X Y Width Height ↔
      LocalizedMeets a pLayer pGameLayer ReferenceId ConfigId X Y Width Height := by
  unfold LocalizedStays LocalizedMeets CAutoMapper.ProceedLocalized
  cases hconf : a.config pLayer ConfigId with
  | none =>
      constructor
      · intro _ pConf hsome
        cases hsome
      · intro _
        refine ⟨pLayer, rfl, ⟨rfl, rfl, ?_⟩, fun x y _ _ hne => absurd rfl hne⟩
        rw [hl.width, hl.height]
        exact hl.length
  | some pConf =>
      simp only
      constructor
      · rintro ⟨l', hrun, -⟩ pConf' hsome
        rw [← Option.some.inj hsome]
        obtain ⟨r, hr, hrun⟩ := bind_eq_ok.mp hrun
        obtain ⟨⟨u, g⟩, hupdate, hrun⟩ := bind_eq_ok.mp hrun
        obtain ⟨u', hproceed, -⟩ := bind_eq_ok.mp hrun
        refine ⟨r, hr, fun hcol hrow => ?_⟩
        have hgame := game_of_updateLayers hg hupdate hcol hrow
        obtain ⟨v, q, hrun', hu, hread, hs, -⟩ :=
          updateLayers_ok hl hg (region_inside hl hr) fun _ _ => hgame
        rw [hupdate] at hrun'
        obtain ⟨rfl, rfl⟩ := Prod.mk.inj (Except.ok.inj hrun')
        rw [hg.width, hg.height]
        refine ⟨hgame, fun run hhead => ?_⟩
        unfold CAutoMapper.Proceed at hproceed
        rw [config_of_readonly hconf hread] at hproceed
        exact runMeets_same.mp (meets_of_proceedRuns hu hs hcol hrow hcol hrow hproceed hhead)
      · intro hmeets
        obtain ⟨r, hr, hfits⟩ := hmeets pConf rfl
        rw [hg.width, hg.height] at hfits
        have hin := region_inside hl hr
        obtain ⟨u, g, hupdate, hu, hread, hs, hcopied⟩ :=
          updateLayers_ok hl hg hin fun hcol hrow => (hfits hcol hrow).1
        obtain ⟨u', hproceed, hu'⟩ := @proceedRuns_ok u g r.columns r.rows r.columns r.rows ReferenceId
          (if Seed = 0 then rand else Seed) r.UpdateFromX r.UpdateFromY pConf hu hs
          fun hcol hrow run hhead => runMeets_same.mpr ((hfits hcol hrow).2 run hhead)
        obtain ⟨l', hcommit, hsized, hframe⟩ := commit_ok hl hg hin hu' hs hcopied
          fun hcol hrow => (hfits hcol hrow).1
        refine ⟨l', ?_, ?_, fun x y hx hy hne => ⟨pConf, r, rfl, hr, ?_⟩⟩
        · unfold sizeOr at hr
          rw [hr]
          show (updateLayers pLayer pGameLayer r >>= fun update => _) = _
          rw [hupdate]
          show (a.Proceed rand u g ReferenceId ConfigId Seed _ _ >>= fun pUpdateLayer => _) = _
          unfold CAutoMapper.Proceed
          rw [config_of_readonly hconf hread]
          show (proceedRuns pConf u g ReferenceId _ _ _ >>= fun pUpdateLayer => _) = _
          rw [hproceed]
          exact hcommit
        · rw [hl.width, hl.height]
          exact hsized
        · rw [hl.width] at hx hne
          rw [hl.height] at hy
          by_contra hout
          exact hne (hframe x y hx hy hout)

/-! ## Rules outside -/

/-- A rule at an offset that is outside the layer sees no tile. -/
theorem check_outside (p : Pass) (l : CLayerTiles) {x y : Nat} {m_X m_Y : Int}
    (hx : x < p.LayerWidth) (hy : y < p.LayerHeight) (hw : IsInt32 p.LayerWidth)
    (hh : IsInt32 p.LayerHeight) (hX : IsInt32 m_X) (hY : IsInt32 m_Y)
    (hout : ¬ (0 ≤ x + m_X ∧ x + m_X < p.LayerWidth ∧ 0 ≤ y + m_Y ∧ y + m_Y < p.LayerHeight)) :
    p.check l (wrap32 (x + m_X)) (wrap32 (y + m_Y)) = .ok (-1, 0) := by
  unfold IsInt32 at hw hh hX hY
  unfold Pass.check
  rw [if_neg]
  intro hin
  apply hout
  unfold wrap32 at hin
  omega

/-- Auto mapping stays inside both layers, at the tiles of its positions, exactly under the
conditions. -/
theorem autoMap_stays_iff (a : CAutoMapper) (rand ReferenceId ConfigId Seed SeedOffsetX SeedOffsetY X Y
    Width Height : Int) (hl : Sized w h pLayer) (hg : Sized gw gh pGameLayer) (hw : 0 < w)
    (hh : 0 < h) (hgw : 0 < gw) (hgh : 0 < gh) :
    (ProceedStays a rand pLayer pGameLayer ReferenceId ConfigId Seed SeedOffsetX SeedOffsetY ↔
      ProceedMeets a pLayer pGameLayer ReferenceId ConfigId) ∧
    (LocalizedStays a rand pLayer pGameLayer ReferenceId ConfigId Seed X Y Width Height ↔
      LocalizedMeets a pLayer pGameLayer ReferenceId ConfigId X Y Width Height) ∧
    ∀ (p : Pass) (l : CLayerTiles) (x y : Nat) (m_X m_Y : Int), x < p.LayerWidth →
      y < p.LayerHeight → IsInt32 p.LayerWidth → IsInt32 p.LayerHeight → IsInt32 m_X → IsInt32 m_Y →
      ¬ (0 ≤ x + m_X ∧ x + m_X < p.LayerWidth ∧ 0 ≤ y + m_Y ∧ y + m_Y < p.LayerHeight) →
      p.check l (wrap32 (x + m_X)) (wrap32 (y + m_Y)) = .ok (-1, 0) :=
  ⟨proceedStays_iff hl hg hw hh hgw hgh, localizedStays_iff hl hg,
    fun p l _ _ _ _ hx hy hw hh hX hY hout => check_outside p l hx hy hw hh hX hY hout⟩

/-- One run without rules, which reads no other tile than its own. -/
def plain : CConfiguration :=
  { m_vRuns := [⟨[], false⟩]
    m_StartX := 0
    m_StartY := 0
    m_EndX := 0
    m_EndY := 0
    startX_le := Int.le_refl 0
    startY_le := Int.le_refl 0
    le_endX := Int.le_refl 0
    le_endY := Int.le_refl 0 }

/-- Two layers of two tiles and a first run that reads the game layer itself. -/
theorem autoMap_stays_iff_two :
    ∃ a : CAutoMapper, (a.config (.new 2 1) 0).isSome ∧
      ProceedStays a 0 (.new 2 1) (.new 2 1) 0 0 1 0 0 := by
  have hstays := autoMap_stays_iff ⟨true, [plain]⟩ 0 0 0 1 0 0 0 0 0 0 (sized_new 2 1) (sized_new 2 1)
    (by decide) (by decide) (by decide) (by decide)
  refine ⟨⟨true, [plain]⟩, rfl, hstays.1.mpr ?_⟩
  intro pConf run _ _ _ _
  split
  · decide
  · exact ⟨Nat.le_refl 2, Nat.le_refl 1, .inl rfl⟩

/-- A region of a layer that is wider than the game layer, and a first run that reads the rows of a
wider game layer with the width of the layer. -/
theorem autoMap_leaves_layers :
    ∃ a : CAutoMapper, ¬ LocalizedStays a 0 (.new 2 1) (.new 1 1) (-1) 0 1 0 0 (-1) (-1) ∧
      ¬ ProceedStays a 0 (.new 2 2) (.new 3 2) 0 0 1 0 0 := by
  refine ⟨⟨true, [plain]⟩, ?_, ?_⟩
  · rintro ⟨l', hrun, -⟩
    have hfault : CAutoMapper.ProceedLocalized ⟨true, [plain]⟩ 0 (.new 2 1) (.new 1 1) (-1) 0 1 0 0
        (-1) (-1) = .error .outOfBounds := rfl
    rw [hfault] at hrun
    cases hrun
  · rintro ⟨l', hrun, -⟩
    have hfault : CAutoMapper.Proceed ⟨true, [plain]⟩ 0 (.new 2 2) (.new 3 2) 0 0 1 0 0 =
        .error .outOfBounds := rfl
    rw [hfault] at hrun
    cases hrun

end Fex.Editor.AutoMap
