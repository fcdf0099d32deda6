import Fex.Engine.Map.Sources

/-!
# Replacing layers

What holds of the data blocks when some groups and layers of a file were visited,
and what the visit of one more does.
-/

namespace Fex.Engine.CMap

open Fex.Lib

/-! ## Visits -/

/-- What is looked at, in the order of the file. -/
inductive Visit
  | group (g : Nat)
  | layer (g l : Nat)

section

variable (d : CDataFileReader) (read : CDataFileReader.ReadBlock) (malloc : Malloc)

def visits : List Visit :=
  (List.range (d.GetType MAPITEMTYPE_GROUP).2.toNat).flatMap fun g =>
    .group g :: (List.range (numLayers d g)).map (.layer g)

/-- Loading ends without a map at this layer. -/
def Rejected : Visit → Prop
  | .group _ => False
  | .layer g l =>
      TileSkip d (layerItem d g l) ∧ (TooBig d (layerItem d g l) ∨
        malloc g l (tileCount d (layerItem d g l)).toNat = none)

/-- A layer is an item of the file and has the fields that are read of it; the tiles of a layer
have a width, the check of their number stays in range and their block exists. -/
def Readable : Visit → Prop
  | .group g => 28 ≤ d.GetItemSize (groupItem d g)
  | .layer g l =>
      let i := layerItem d g l
      24 ≤ d.GetItemSize (groupItem d g) ∧ (0 ≤ i ∧ i < d.m_NumItems) ∧ 8 ≤ d.GetItemSize i ∧
        (d.itemField i 1 = LAYERTYPE_TILES → 16 ≤ d.GetItemSize i) ∧
        (TileSkip d i → 24 ≤ d.GetItemSize i ∧ d.itemField i 4 ≠ 0 ∧ IsInt32 (rows d i) ∧
          (¬ Rejected d malloc (.layer g l) →
            60 ≤ d.GetItemSize i ∧
              (0 ≤ dataIndex d i ∧ dataIndex d i < d.m_NumRawData) ∧
              Loadable d read (dataIndex d i)))

/-- The tile layers with packed tiles among the visited ones. -/
def Tilemaps (us : List Visit) (i : Int) : Prop :=
  ∃ g l, .layer g l ∈ us ∧ layerItem d g l = i ∧ TileSkip d i

/-- The blocks stand for enough tiles, no block is shared by layers of different sizes and no
size is too big for an int. -/
def Complete (us : List Visit) : Prop :=
  (∀ i, Tilemaps d us i → tileCount d i * 4 ≤ 2147483647 ∧
    (tileCount d i).toNat ≤ blockTiles d read (dataIndex d i)) ∧
  ∀ i j, Tilemaps d us i → Tilemaps d us j → dataIndex d i = dataIndex d j →
    tileCount d i = tileCount d j

/-- The data blocks after the visits `us`. -/
structure Inv (us : List Visit) (s : Loading) : Prop where
  loadable : ∀ e ∈ s.replaced, (0 ≤ e.m_Data ∧ e.m_Data < d.m_NumRawData) ∧
    Loadable d read e.m_Data
  untouched : ∀ idx, (∀ e ∈ s.replaced, e.m_Data ≠ idx) →
    s.data.m_ppDataPtrs idx = none ∧ s.data.m_pDataSizes idx = 0
  touched : ∀ e ∈ s.replaced, ∃ e' ∈ s.replaced, e'.m_Data = e.m_Data ∧
    ∃ ts, s.data.m_ppDataPtrs e.m_Data = some (.replaced ts) ∧ ts.length = e'.TilemapCount ∧
      s.data.m_pDataSizes e.m_Data = wrap32 (TilemapSize e'.TilemapCount) ∧
      (e'.written = e'.TilemapCount → ∀ tile ∈ ts, tile.m_Skip = 0)
  first : ∀ e ∈ s.replaced, ∃ e' ∈ s.replaced, e'.m_Data = e.m_Data ∧
    e'.written = min e'.TilemapCount (blockTiles d read e.m_Data)
  visited : ∀ e ∈ s.replaced, ∃ i, Tilemaps d us i ∧ e.m_Data = dataIndex d i ∧
    (e.TilemapCount : Int) = tileCount d i
  logged : ∀ i, Tilemaps d us i → ∃ e ∈ s.replaced, e.m_Data = dataIndex d i ∧
    (e.TilemapCount : Int) = tileCount d i
  complete : Complete d read us → ∀ e ∈ s.replaced, e.written = e.TilemapCount

end

variable {d : CDataFileReader} {read : CDataFileReader.ReadBlock} {malloc : Malloc}
  {us : List Visit} {s : Loading}

theorem Tilemaps.append {u : Visit} {i : Int} (h : Tilemaps d us i) : Tilemaps d (us ++ [u]) i := by
  obtain ⟨g, l, hmem, hi⟩ := h
  exact ⟨g, l, List.mem_append_left _ hmem, hi⟩

theorem Complete.of_append {u : Visit} (h : Complete d read (us ++ [u])) : Complete d read us :=
  ⟨fun i hi => h.1 i hi.append, fun i j hi hj => h.2 i j hi.append hj.append⟩

/-- A visit that replaces nothing. -/
theorem Inv.skip (h : Inv d read us s) {u : Visit}
    (hu : ∀ i, Tilemaps d (us ++ [u]) i → Tilemaps d us i) : Inv d read (us ++ [u]) s where
  loadable := h.loadable
  untouched := h.untouched
  touched := h.touched
  first := h.first
  visited := fun e he => by
    obtain ⟨i, hi, heq⟩ := h.visited e he
    exact ⟨i, hi.append, heq⟩
  logged := fun i hi => h.logged i (hu i hi)
  complete := fun hc => h.complete hc.of_append

theorem inv_nil : Inv d read [] { data := ⟨fun _ => none, fun _ => 0⟩, replaced := [] } where
  loadable := fun e he => by cases he
  untouched := fun _ _ => ⟨rfl, rfl⟩
  touched := fun e he => by cases he
  first := fun e he => by cases he
  visited := fun e he => by cases he
  logged := by
    rintro i ⟨g, l, hmem, -⟩
    cases hmem
  complete := fun _ e he => by cases he

/-! ## Replacing the tiles of a layer -/

/-- The tiles that are handed to `ExtractTiles` for a layer with this block. -/
structure Source (d : CDataFileReader) (read : CDataFileReader.ReadBlock) (s : Loading) (idx : Int)
    (data : CData) (src : List CTile) (SrcSize : Nat) : Prop where
  others : ∀ i ≠ idx, data.m_ppDataPtrs i = s.data.m_ppDataPtrs i ∧
    data.m_pDataSizes i = s.data.m_pDataSizes i
  le_iff : SrcSize ≤ src.length ↔ Loadable d read idx
  file : (∀ e ∈ s.replaced, e.m_Data ≠ idx) →
    unpackedSize (src.take SrcSize) = blockTiles d read idx
  replaced : ∀ e ∈ s.replaced, e.m_Data = idx → ∃ e' ∈ s.replaced, e'.m_Data = idx ∧
    src.length = e'.TilemapCount ∧
    SrcSize = (storedSize e'.TilemapCount % 18446744073709551616 / 4).toNat ∧
    (e'.written = e'.TilemapCount → ∀ tile ∈ src, tile.m_Skip = 0)

theorem Inv.source (h : Inv d read us s) {idx : Int} (hidx : 0 ≤ idx ∧ idx < d.m_NumRawData) :
    Source d read s idx (d.GetData read s.data idx).2
      ((d.GetData read s.data idx).1.elim [] Block.tiles)
      (d.GetDataSize (d.GetData read s.data idx).2 idx % 18446744073709551616 / 4).toNat := by
  by_cases hany : ∃ e ∈ s.replaced, e.m_Data = idx
  · obtain ⟨e, he, hdata⟩ := hany
    obtain ⟨e', he', hdata', ts, hptr, hlength, hsize, hskip⟩ := h.touched e he
    rw [hdata] at hdata' hptr hsize
    obtain ⟨hget, hgetSize⟩ := getData_replaced read hidx hptr
    have hstored : d.GetDataSize s.data idx = storedSize e'.TilemapCount := by
      rw [hgetSize, hsize]
      rfl
    rw [hget]
    show Source d read s idx s.data ts (d.GetDataSize s.data idx % 18446744073709551616 / 4).toNat
    rw [hstored]
    refine ⟨fun i _ => ⟨rfl, rfl⟩, ⟨fun _ => ?_, fun _ => ?_⟩, fun hnone => ?_,
      fun _ _ _ => ⟨e', he', hdata', hlength, rfl, hskip⟩⟩
    · rw [← hdata]
      exact (h.loadable e he).2
    · rw [hlength]
      exact (storedSize_le _).2
    · exact absurd hdata (hnone e he)
  · have hnone : ∀ e ∈ s.replaced, e.m_Data ≠ idx := fun e he hdata => hany ⟨e, he, hdata⟩
    obtain ⟨hptr, hsize⟩ := h.untouched idx hnone
    obtain ⟨hsrc, hgetSize, hothers⟩ := getData_file read hidx hptr hsize
    rw [hsrc, hgetSize]
    exact ⟨hothers, loadable_iff.symm, fun _ => rfl, fun e he hdata => absurd hdata (hnone e he)⟩

/-- All tiles of the layer are found. -/
theorem Inv.tileCount_le (h : Inv d read us s) {u : Visit} {i : Int} {data : CData}
    {src : List CTile} {SrcSize : Nat}
    (hsource : Source d read s (dataIndex d i) data src SrcSize)
    (hc : Complete d read (us ++ [u])) (hnew : Tilemaps d (us ++ [u]) i) :
    (tileCount d i).toNat ≤ unpackedSize (src.take SrcSize) := by
  have hrange := (hc.1 i hnew).1
  have hcount := natCast_toNat_tileCount d i
  by_cases hany : ∃ e ∈ s.replaced, e.m_Data = dataIndex d i
  · -- the tiles of the other layer are as many and are not packed
    obtain ⟨e, he, hsame⟩ := hany
    obtain ⟨e', he', hdata, hsrc, hsize, hskip⟩ := hsource.replaced e he hsame
    obtain ⟨j, hj, hjdata, hjcount⟩ := h.visited e' he'
    have hequal := hc.2 j i hj.append hnew (hjdata.symm.trans hdata)
    have hstored := (storedSize_eq_iff e'.TilemapCount).mpr (by omega)
    have hall : src.take SrcSize = src := by
      apply List.take_of_length_le
      rw [hsrc, hsize, hstored]
      omega
    rw [hall, unpackedSize_of_unpacked (hskip (h.complete hc.of_append e' he')), hsrc]
    omega
  · rw [hsource.file fun e he hsame => hany ⟨e, he, hsame⟩]
    exact (hc.1 i hnew).2

/-- A layer was replaced. -/
theorem Inv.replace (h : Inv d read us s) {g l : Nat} {i : Int} (hi : layerItem d g l = i)
    (hskip : TileSkip d i) (hidx : 0 ≤ dataIndex d i ∧ dataIndex d i < d.m_NumRawData)
    (hload : Loadable d read (dataIndex d i)) {data data' : CData} {src : List CTile} {SrcSize : Nat}
    (hsource : Source d read s (dataIndex d i) data src SrcSize) {pTiles : List CTile}
    (hlength : pTiles.length = (tileCount d i).toNat)
    (hunpacked : (tileCount d i).toNat ≤ unpackedSize (src.take SrcSize) →
      ∀ tile ∈ pTiles, tile.m_Skip = 0)
    (hreplace : d.ReplaceData data (dataIndex d i) pTiles (TilemapSize (tileCount d i)) =
      .ok data') :
    Inv d read (us ++ [.layer g l])
      { data := data'
        replaced := ⟨dataIndex d i, (tileCount d i).toNat,
          min (tileCount d i).toNat (unpackedSize (src.take SrcSize))⟩ :: s.replaced } := by
  have hdata' : data' =
      { m_ppDataPtrs := fun j =>
          if j = dataIndex d i then some (.replaced pTiles) else data.m_ppDataPtrs j
        m_pDataSizes := fun j =>
          if j = dataIndex d i then wrap32 (TilemapSize (tileCount d i)) else
            data.m_pDataSizes j } := by
    unfold CDataFileReader.ReplaceData at hreplace
    rw [if_pos hidx] at hreplace
    injection hreplace with hreplace
    exact hreplace.symm
  have hcount := natCast_toNat_tileCount d i
  have hTilemaps : ∀ j, Tilemaps d (us ++ [.layer g l]) j → Tilemaps d us j ∨ j = i := by
    rintro j ⟨g', l', hmem, hj, hjskip⟩
    rcases List.mem_append.mp hmem with hmem | hmem
    · exact .inl ⟨g', l', hmem, hj, hjskip⟩
    · cases List.mem_singleton.mp hmem
      exact .inr (hj.symm.trans hi)
  have hnew : Tilemaps d (us ++ [.layer g l]) i :=
    ⟨g, l, List.mem_append_right _ List.mem_cons_self, hi, hskip⟩
  have hold : ∀ e ∈ s.replaced, e.m_Data ≠ dataIndex d i →
      data'.m_ppDataPtrs e.m_Data = s.data.m_ppDataPtrs e.m_Data ∧
        data'.m_pDataSizes e.m_Data = s.data.m_pDataSizes e.m_Data := by
    intro e _ hne
    rw [hdata']
    simp only [if_neg hne]
    exact hsource.others _ hne
  exact {
    loadable := by
      intro e he
      rcases List.mem_cons.mp he with rfl | he
      · exact ⟨hidx, hload⟩
      · exact h.loadable e he
    untouched := by
      intro idx hnone
      have hne : idx ≠ dataIndex d i := (hnone _ List.mem_cons_self).symm
      have hothers := hsource.others idx hne
      obtain ⟨hptr, hsize⟩ := h.untouched idx fun e he => hnone e (List.mem_cons_of_mem _ he)
      rw [hdata']
      simp only [if_neg hne]
      exact ⟨hothers.1.trans hptr, hothers.2.trans hsize⟩
    touched := by
      intro e he
      by_cases heq : e.m_Data = dataIndex d i
      · refine ⟨_, List.mem_cons_self, heq.symm, pTiles, ?_, hlength, ?_, fun hwritten => ?_⟩
        · rw [hdata', heq]
          exact if_pos rfl
        · rw [hdata', heq]
          show (if dataIndex d i = dataIndex d i then _ else _) = wrap32 (TilemapSize _)
          rw [if_pos rfl, hcount]
        · apply hunpacked
          have hmin : min (tileCount d i).toNat (unpackedSize (src.take SrcSize)) =
            (tileCount d i).toNat := hwritten
          omega
      · rcases List.mem_cons.mp he with rfl | he
        · exact absurd rfl heq
        · obtain ⟨e', he', hsame, ts, hptr, hrest⟩ := h.touched e he
          obtain ⟨hptr', hsize'⟩ := hold e he heq
          refine ⟨e', List.mem_cons_of_mem _ he', hsame, ts, hptr'.trans hptr, ?_⟩
          show ts.length = _ ∧ data'.m_pDataSizes _ = _ ∧ _
          rw [hsize']
          exact hrest
    first := by
      intro e he
      by_cases hany : ∃ e' ∈ s.replaced, e'.m_Data = e.m_Data
      · obtain ⟨e', he', hsame⟩ := hany
        obtain ⟨e₀, he₀, hsame₀, hwritten⟩ := h.first e' he'
        rw [hsame] at hsame₀ hwritten
        exact ⟨e₀, List.mem_cons_of_mem _ he₀, hsame₀, hwritten⟩
      · rcases List.mem_cons.mp he with rfl | he
        · refine ⟨_, List.mem_cons_self, rfl, ?_⟩
          show min _ _ = min _ _
          rw [hsource.file fun e' he' hsame => hany ⟨e', he', hsame⟩]
        · exact absurd ⟨e, he, rfl⟩ hany
    visited := by
      intro e he
      rcases List.mem_cons.mp he with rfl | he
      · exact ⟨i, hnew, rfl, hcount⟩
      · obtain ⟨j, hj, heq⟩ := h.visited e he
        exact ⟨j, hj.append, heq⟩
    logged := by
      intro j hj
      rcases hTilemaps j hj with hj | rfl
      · obtain ⟨e, he, heq⟩ := h.logged j hj
        exact ⟨e, List.mem_cons_of_mem _ he, heq⟩
      · exact ⟨_, List.mem_cons_self, rfl, hcount⟩
    complete := by
      intro hc e he
      have hold := h.complete hc.of_append
      rcases List.mem_cons.mp he with rfl | he
      · exact Nat.min_eq_left (h.tileCount_le hsource hc hnew)
      · exact hold e he }

end Fex.Engine.CMap
