import Fex.Engine.Map.Layers
import Fex.Lib.Cells

/-!
# Loading any file

`Load` survives a file exactly if every group and layer up to the first one it
rejects can be read.
-/

namespace Fex.Engine.CMap

open Fex.Lib

/-! ## One visit -/

section

variable (d : CDataFileReader) (read : CDataFileReader.ReadBlock) (malloc : Malloc)

def visit (s : Loading) : Visit → Exec (Bool × Loading)
  | .group g => do
      let Index ← int32 ((d.GetType MAPITEMTYPE_GROUP).1 + g)
      let pGroup ← d.GetItem Index
      let _ ← d.readField pGroup 6
      return (true, s)
  | .layer g l => loadLayer d read malloc g (groupItem d g) s l

end

variable {d : CDataFileReader} {read : CDataFileReader.ReadBlock} {malloc : Malloc}
  {us : List Visit} {s : Loading}

theorem readField_eq_ok {Item : Int} {k : Nat} {x : Int} :
    d.readField Item k = .ok x ↔ 4 * (k + 1) ≤ d.GetItemSize Item ∧ x = d.itemField Item k := by
  unfold CDataFileReader.readField
  split
  next h => exact ⟨fun heq => ⟨h, by cases heq; rfl⟩, fun ⟨_, heq⟩ => by rw [heq]⟩
  next h =>
    constructor
    · intro heq
      cases heq
    · exact fun ⟨hsize, _⟩ => absurd hsize h

theorem readField_ok {Item : Int} (k : Nat) (h : 4 * ((k : Int) + 1) ≤ d.GetItemSize Item) :
    d.readField Item k = .ok (d.itemField Item k) :=
  if_pos h

theorem getItem_eq_ok {Index Item : Int} :
    d.GetItem Index = .ok Item ↔ (0 ≤ Index ∧ Index < d.m_NumItems) ∧ Item = Index := by
  rw [CDataFileReader.getItem_eq]
  split
  next h => exact ⟨fun heq => ⟨h, by cases heq; rfl⟩, fun ⟨_, heq⟩ => by rw [heq]⟩
  next h =>
    constructor
    · intro heq
      cases heq
    · exact fun ⟨hrange, _⟩ => absurd hrange h

theorem int32_eq_ok {x y : Int} : int32 x = .ok y ↔ IsInt32 x ∧ y = x := by
  unfold int32
  split
  next h => exact ⟨fun heq => ⟨h, by cases heq; rfl⟩, fun ⟨_, heq⟩ => by rw [heq]⟩
  next h =>
    constructor
    · intro heq
      cases heq
    · exact fun ⟨hrange, _⟩ => absurd hrange h

theorem divide_eq_ok {x y z : Int} :
    divide x y = .ok z ↔ y ≠ 0 ∧ IsInt32 (x.tdiv y) ∧ z = x.tdiv y := by
  unfold divide
  split
  next h =>
    constructor
    · intro heq
      cases heq
    · exact fun ⟨hne, _⟩ => absurd h hne
  next h =>
    rw [int32_eq_ok]
    exact ⟨fun heq => ⟨h, heq⟩, fun heq => heq.2⟩

/-! ## The tiles of a layer -/

section

variable {i : Int} {garbage : Nat → CTile}

theorem replaceTiles_eq (count : Int) :
    replaceTiles d read s i count garbage =
      d.readField i 14 >>= fun m_Data =>
        ExtractTiles ((List.range count.toNat).map garbage) count.toNat
            ((d.GetData read s.data m_Data).1.elim [] Block.tiles)
            (d.GetDataSize (d.GetData read s.data m_Data).2 m_Data %
              18446744073709551616 / 4).toNat >>= fun t =>
          d.ReplaceData (d.GetData read s.data m_Data).2 m_Data t.1 (TilemapSize count) >>=
            fun data =>
              .ok { data := data, replaced := ⟨m_Data, count.toNat, t.2⟩ :: s.replaced } :=
  rfl

theorem replaceTiles_safe (h : Inv d read us s) {s' : Loading}
    (heq : replaceTiles d read s i (tileCount d i) garbage = .ok s') :
    60 ≤ d.GetItemSize i ∧ (0 ≤ dataIndex d i ∧ dataIndex d i < d.m_NumRawData) ∧
      Loadable d read (dataIndex d i) := by
  rw [replaceTiles_eq] at heq
  obtain ⟨m_Data, hfield, heq⟩ := bind_eq_ok.mp heq
  obtain ⟨hsize, rfl⟩ := readField_eq_ok.mp hfield
  obtain ⟨t, hextract, heq⟩ := bind_eq_ok.mp heq
  obtain ⟨data, hreplace, -⟩ := bind_eq_ok.mp heq
  have hidx : 0 ≤ dataIndex d i ∧ dataIndex d i < d.m_NumRawData := by
    unfold CDataFileReader.ReplaceData at hreplace
    split at hreplace
    next hidx => exact hidx
    next => cases hreplace
  refine ⟨hsize, hidx, ?_⟩
  unfold ExtractTiles at hextract
  split at hextract
  next hle => exact (h.source hidx).le_iff.mp hle
  next => cases hextract

theorem replaceTiles_succeeds (h : Inv d read us s) {g l : Nat} (hi : layerItem d g l = i)
    (hskip : TileSkip d i) (hsize : 60 ≤ d.GetItemSize i)
    (hidx : 0 ≤ dataIndex d i ∧ dataIndex d i < d.m_NumRawData)
    (hload : Loadable d read (dataIndex d i)) (garbage : Nat → CTile) :
    ∃ s', replaceTiles d read s i (tileCount d i) garbage = .ok s' ∧
      Inv d read (us ++ [.layer g l]) s' := by
  have hsource := h.source hidx
  have hgarbage : ((List.range (tileCount d i).toNat).map garbage).length =
      (tileCount d i).toNat := by
    rw [List.length_map, List.length_range]
  obtain ⟨pTiles, hextract, hlength, hunpacked⟩ :=
    extractTiles_spec hgarbage (hsource.le_iff.mpr hload)
  obtain ⟨data', hreplace⟩ : ∃ data', d.ReplaceData (d.GetData read s.data (dataIndex d i)).2
      (dataIndex d i) pTiles (TilemapSize (tileCount d i)) = .ok data' := ⟨_, if_pos hidx⟩
  refine ⟨_, ?_, h.replace hi hskip hidx hload hsource hlength hunpacked hreplace⟩
  rw [replaceTiles_eq]
  exact bind_eq_ok.mpr ⟨_, readField_ok 14 (by omega),
    bind_eq_ok.mpr ⟨_, hextract, bind_eq_ok.mpr ⟨data', hreplace, rfl⟩⟩⟩

theorem loadTilemap_safe (h : Inv d read us s) {g l : Nat} (hi : layerItem d g l = i)
    {r : Bool × Loading}
    (heq : loadTilemap d read malloc s i g l = .ok r) :
    16 ≤ d.GetItemSize i ∧
      (TileSkip d i → 24 ≤ d.GetItemSize i ∧ d.itemField i 4 ≠ 0 ∧ IsInt32 (rows d i) ∧
        (¬ Rejected d malloc (.layer g l) →
          60 ≤ d.GetItemSize i ∧ (0 ≤ dataIndex d i ∧ dataIndex d i < d.m_NumRawData) ∧
            Loadable d read (dataIndex d i))) := by
  unfold loadTilemap at heq
  obtain ⟨m_Version, hversion, heq⟩ := bind_eq_ok.mp heq
  obtain ⟨hsize, rfl⟩ := readField_eq_ok.mp hversion
  refine ⟨hsize, fun hskip => ?_⟩
  have hnew : ¬ d.itemField i 3 < VERSION_TEEWORLDS_TILESKIP := Int.not_lt.mpr hskip.2
  rw [if_neg hnew] at heq
  obtain ⟨m_Width, hwidth, heq⟩ := bind_eq_ok.mp heq
  obtain ⟨-, rfl⟩ := readField_eq_ok.mp hwidth
  obtain ⟨m_Height, hheight, heq⟩ := bind_eq_ok.mp heq
  obtain ⟨hsize', rfl⟩ := readField_eq_ok.mp hheight
  obtain ⟨quotient, hquotient, heq⟩ := bind_eq_ok.mp heq
  obtain ⟨hne, hint, rfl⟩ := divide_eq_ok.mp hquotient
  refine ⟨hsize', hne, hint, fun hgo => ?_⟩
  have hsmall : ¬ TooBig d i := fun hbig => hgo ⟨by rw [hi]; exact hskip, .inl (by rw [hi]; exact hbig)⟩
  have hsmall' : ¬ ((wrap32 (TilemapCount (d.itemField i 4) (d.itemField i 5))).tdiv
      (d.itemField i 4) ≠ d.itemField i 5 ∨
      TilemapSize (TilemapCount (d.itemField i 4) (d.itemField i 5)) / 4 ≠
        TilemapCount (d.itemField i 4) (d.itemField i 5)) := hsmall
  rw [if_neg hsmall'] at heq
  cases hmalloc : malloc g l (TilemapCount (d.itemField i 4) (d.itemField i 5)).toNat with
  | none =>
      refine absurd ⟨by rw [hi]; exact hskip, .inr ?_⟩ hgo
      rw [hi]
      exact hmalloc
  | some garbage =>
      rw [hmalloc] at heq
      obtain ⟨s', hs', -⟩ := bind_eq_ok.mp heq
      exact replaceTiles_safe h hs'

/-- What is left of `loadTilemap` for a layer whose fields can be read. -/
theorem loadTilemap_eq {g l : Nat} (hskip : TileSkip d i) (hsize : 24 ≤ d.GetItemSize i)
    (hne : d.itemField i 4 ≠ 0) (hint : IsInt32 (rows d i)) {r : Bool × Loading}
    (hbig : TooBig d i → r = (false, s))
    (hmalloc : ¬ TooBig d i → malloc g l (tileCount d i).toNat = none → r = (false, s))
    (hreplace : ¬ TooBig d i → ∀ garbage, malloc g l (tileCount d i).toNat = some garbage →
      ∃ s', replaceTiles d read s i (tileCount d i) garbage = .ok s' ∧ r = (true, s')) :
    loadTilemap d read malloc s i g l = .ok r := by
  have hnew : ¬ d.itemField i 3 < VERSION_TEEWORLDS_TILESKIP := Int.not_lt.mpr hskip.2
  refine bind_eq_ok.mpr ⟨_, readField_ok 3 (by omega), (if_neg hnew).trans ?_⟩
  refine bind_eq_ok.mpr ⟨_, readField_ok 4 (by omega), bind_eq_ok.mpr
    ⟨_, readField_ok 5 (by omega), bind_eq_ok.mpr ⟨_, divide_eq_ok.mpr ⟨hne, hint, rfl⟩, ?_⟩⟩⟩
  by_cases htoo : TooBig d i
  · refine (if_pos htoo).trans ?_
    rw [hbig htoo]
    rfl
  · refine (if_neg htoo).trans ?_
    cases hm : malloc g l (TilemapCount (d.itemField i 4) (d.itemField i 5)).toNat with
    | none =>
        rw [hmalloc htoo hm]
        rfl
    | some garbage =>
        obtain ⟨s', hs', hr⟩ := hreplace htoo garbage hm
        rw [hr]
        exact bind_eq_ok.mpr ⟨s', hs', rfl⟩

theorem loadTilemap_succeeds (h : Inv d read us s) {g l : Nat} (hi : layerItem d g l = i)
    (hreadable : Readable d read malloc (.layer g l))
    (htype : d.itemField i 1 = LAYERTYPE_TILES) :
    (Rejected d malloc (.layer g l) → ∃ s', loadTilemap d read malloc s i g l = .ok (false, s')) ∧
      (¬ Rejected d malloc (.layer g l) → ∃ s', loadTilemap d read malloc s i g l = .ok (true, s') ∧
        Inv d read (us ++ [.layer g l]) s') := by
  obtain ⟨-, -, -, hversion, htiles⟩ := hreadable
  have hrejected : Rejected d malloc (.layer g l) ↔
      TileSkip d i ∧ (TooBig d i ∨ malloc g l (tileCount d i).toNat = none) := by
    rw [← hi]
    exact Iff.rfl
  rw [hi] at hversion htiles
  by_cases hskip : TileSkip d i
  · obtain ⟨hsize, hne, hint, hrest⟩ := htiles hskip
    constructor
    · intro hreject
      refine ⟨s, loadTilemap_eq hskip hsize hne hint (fun _ => rfl) (fun _ _ => rfl) ?_⟩
      intro hsmall garbage hm
      rcases (hrejected.mp hreject).2 with hbig | hnone
      · exact absurd hbig hsmall
      · rw [hnone] at hm
        cases hm
    · intro hgo
      have hsmall : ¬ TooBig d i := fun hbig => hgo (hrejected.mpr ⟨hskip, .inl hbig⟩)
      obtain ⟨garbage, hm⟩ : ∃ garbage, malloc g l (tileCount d i).toNat = some garbage :=
        Option.ne_none_iff_exists'.mp fun hnone => hgo (hrejected.mpr ⟨hskip, .inr hnone⟩)
      obtain ⟨hsize', hidx, hload⟩ := hrest hgo
      obtain ⟨s', hs', hinv⟩ := replaceTiles_succeeds h hi hskip hsize' hidx hload garbage
      refine ⟨s', loadTilemap_eq hskip hsize hne hint (fun hbig => absurd hbig hsmall)
        (fun _ hnone => ?_) fun _ garbage' hm' => ?_, hinv⟩
      · rw [hm] at hnone
        cases hnone
      · rw [hm] at hm'
        cases hm'
        exact ⟨s', hs', rfl⟩
  · have hold : d.itemField i 3 < VERSION_TEEWORLDS_TILESKIP := by
      by_contra hge
      exact hskip ⟨htype, Int.not_lt.mp hge⟩
    have hsize := hversion htype
    refine ⟨fun hreject => absurd (hrejected.mp hreject).1 hskip, fun _ => ⟨s, ?_, h.skip ?_⟩⟩
    · exact bind_eq_ok.mpr ⟨_, readField_ok 3 (by omega), if_pos hold⟩
    · rintro j ⟨g', l', hmem, hj, hjskip⟩
      rcases List.mem_append.mp hmem with hmem | hmem
      · exact ⟨g', l', hmem, hj, hjskip⟩
      · cases List.mem_singleton.mp hmem
        rw [hi] at hj
        rw [← hj] at hjskip
        exact absurd hjskip hskip

end

/-! ## Groups and layers -/

theorem isInt32_itemField (i : Int) (k : Nat) : IsInt32 (d.itemField i k) := isInt32_readInt _

/-- The group is one of the file. -/
def OfFile (d : CDataFileReader) : Visit → Prop
  | .group g => (g : Int) < (d.GetType MAPITEMTYPE_GROUP).2
  | .layer _ _ => True

theorem visit_safe (h : Inv d read us s) {u : Visit} {r : Bool × Loading}
    (heq : visit d read malloc s u = .ok r) : Readable d read malloc u := by
  cases u with
  | group g =>
      obtain ⟨Index, hIndex, heq⟩ := bind_eq_ok.mp heq
      obtain ⟨-, rfl⟩ := int32_eq_ok.mp hIndex
      obtain ⟨pGroup, hGroup, heq⟩ := bind_eq_ok.mp heq
      obtain ⟨-, rfl⟩ := getItem_eq_ok.mp hGroup
      obtain ⟨n, hn, -⟩ := bind_eq_ok.mp heq
      exact (readField_eq_ok.mp hn).1
  | layer g l =>
      obtain ⟨m_StartLayer, hStart, heq⟩ := bind_eq_ok.mp heq
      obtain ⟨hgroup, rfl⟩ := readField_eq_ok.mp hStart
      obtain ⟨start, hstart, heq⟩ := bind_eq_ok.mp heq
      obtain ⟨-, rfl⟩ := int32_eq_ok.mp hstart
      obtain ⟨Index, hIndex, heq⟩ := bind_eq_ok.mp heq
      obtain ⟨-, rfl⟩ := int32_eq_ok.mp hIndex
      obtain ⟨pLayer, hLayer, heq⟩ := bind_eq_ok.mp heq
      obtain ⟨hrange, rfl⟩ := getItem_eq_ok.mp hLayer
      obtain ⟨m_Type, hType, heq⟩ := bind_eq_ok.mp heq
      obtain ⟨hsize, rfl⟩ := readField_eq_ok.mp hType
      refine ⟨hgroup, hrange, hsize, ?_⟩
      by_cases htype : d.itemField (layerItem d g l) 1 = LAYERTYPE_TILES
      · have htilemap : loadTilemap d read malloc s (layerItem d g l) g l = .ok r :=
          (if_neg fun hne => hne htype).symm.trans heq
        obtain ⟨hversion, htiles⟩ := loadTilemap_safe h rfl htilemap
        exact ⟨fun _ => hversion, htiles⟩
      · exact ⟨fun h => absurd h htype, fun hskip => absurd hskip.1 htype⟩

theorem visit_group (h : Inv d read us s) {g : Nat} (hg : OfFile d (.group g))
    (hreadable : Readable d read malloc (.group g)) :
    visit d read malloc s (.group g) = .ok (true, s) ∧ Inv d read (us ++ [.group g]) s := by
  obtain ⟨hstart, -, hend⟩ := d.getType_in_range MAPITEMTYPE_GROUP
  have hlt : (g : Int) < (d.GetType MAPITEMTYPE_GROUP).2 := hg
  have hmax := d.numItems_le
  unfold intMax at hmax
  have hrange : 0 ≤ (d.GetType MAPITEMTYPE_GROUP).1 + (g : Int) ∧
      (d.GetType MAPITEMTYPE_GROUP).1 + (g : Int) < d.m_NumItems := by omega
  have hsize : 28 ≤ d.GetItemSize ((d.GetType MAPITEMTYPE_GROUP).1 + g) := hreadable
  constructor
  · exact bind_eq_ok.mpr ⟨_, int32_eq_ok.mpr ⟨⟨by omega, by omega⟩, rfl⟩,
      bind_eq_ok.mpr ⟨_, getItem_eq_ok.mpr ⟨hrange, rfl⟩,
        bind_eq_ok.mpr ⟨_, readField_ok 6 (by omega), rfl⟩⟩⟩
  · apply h.skip
    rintro j ⟨g', l', hmem, hj⟩
    rcases List.mem_append.mp hmem with hmem | hmem
    · exact ⟨g', l', hmem, hj⟩
    · cases List.mem_singleton.mp hmem

/-- What is left of the visit of a layer that is an item. -/
theorem visit_layer_eq {g l : Nat} (hreadable : Readable d read malloc (.layer g l))
    {r : Bool × Loading}
    (hother : d.itemField (layerItem d g l) 1 ≠ LAYERTYPE_TILES → r = (true, s))
    (htiles : d.itemField (layerItem d g l) 1 = LAYERTYPE_TILES →
      loadTilemap d read malloc s (layerItem d g l) g l = .ok r) :
    visit d read malloc s (.layer g l) = .ok r := by
  obtain ⟨hgroup, hrange, hsize, -⟩ := hreadable
  have hstart := (d.getType_in_range MAPITEMTYPE_LAYER).1
  have hfield := isInt32_itemField (d := d) (groupItem d g) 5
  have hmax := d.numItems_le
  have hitem : layerItem d g l =
      (d.GetType MAPITEMTYPE_LAYER).1 + d.itemField (groupItem d g) 5 + l := rfl
  unfold IsInt32 at hfield
  unfold intMax at hmax
  refine bind_eq_ok.mpr ⟨_, readField_ok 5 (by omega), bind_eq_ok.mpr
    ⟨_, int32_eq_ok.mpr ⟨⟨by omega, by omega⟩, rfl⟩, bind_eq_ok.mpr
      ⟨_, int32_eq_ok.mpr ⟨⟨by omega, by omega⟩, rfl⟩, bind_eq_ok.mpr
        ⟨_, getItem_eq_ok.mpr ⟨hrange, rfl⟩, bind_eq_ok.mpr ⟨_, readField_ok 1 ?_, ?_⟩⟩⟩⟩⟩
  · show 4 * (((1 : Nat) : Int) + 1) ≤ d.GetItemSize (layerItem d g l)
    omega
  · by_cases htype : d.itemField (layerItem d g l) 1 = LAYERTYPE_TILES
    · exact (if_neg fun hne => hne htype).trans (htiles htype)
    · refine (if_pos htype).trans ?_
      rw [hother htype]
      rfl

theorem visit_stop (h : Inv d read us s) {u : Visit} (hreadable : Readable d read malloc u)
    (hreject : Rejected d malloc u) : ∃ s', visit d read malloc s u = .ok (false, s') := by
  cases u with
  | group g => exact hreject.elim
  | layer g l =>
      have htype : d.itemField (layerItem d g l) 1 = LAYERTYPE_TILES := hreject.1.1
      obtain ⟨s', hs'⟩ := (loadTilemap_succeeds h rfl hreadable htype).1 hreject
      exact ⟨s', visit_layer_eq hreadable (fun hne => absurd htype hne) fun _ => hs'⟩

theorem visit_next (h : Inv d read us s) {u : Visit} (hu : OfFile d u)
    (hreadable : Readable d read malloc u) (hgo : ¬ Rejected d malloc u) :
    ∃ s', visit d read malloc s u = .ok (true, s') ∧ Inv d read (us ++ [u]) s' := by
  cases u with
  | group g => exact ⟨s, visit_group h hu hreadable⟩
  | layer g l =>
      by_cases htype : d.itemField (layerItem d g l) 1 = LAYERTYPE_TILES
      · obtain ⟨s', hs', hinv⟩ := (loadTilemap_succeeds h rfl hreadable htype).2 hgo
        exact ⟨s', visit_layer_eq hreadable (fun hne => absurd htype hne) fun _ => hs', hinv⟩
      · refine ⟨s, visit_layer_eq hreadable (fun _ => rfl) fun heq => absurd heq htype, h.skip ?_⟩
        rintro j ⟨g', l', hmem, hj, hjskip⟩
        rcases List.mem_append.mp hmem with hmem | hmem
        · exact ⟨g', l', hmem, hj, hjskip⟩
        · cases List.mem_singleton.mp hmem
          rw [← hj] at hjskip
          exact absurd hjskip.1 htype

/-- The loops over the groups and their layers visit everything in its order. -/
theorem loadGroups_eq (l : List Nat) (s : Loading) :
    loop (loadGroup d read malloc) l s = loop (visit d read malloc)
      (l.flatMap fun g => .group g :: (List.range (numLayers d g)).map (.layer g)) s := by
  refine loop_flatMap (fun s g => ?_) l s
  unfold loadGroup
  rw [loop, visit]
  cases hIndex : int32 ((d.GetType MAPITEMTYPE_GROUP).1 + g) with
  | error e => rfl
  | ok Index =>
      obtain ⟨-, rfl⟩ := int32_eq_ok.mp hIndex
      simp only [bind, Except.bind]
      cases hGroup : d.GetItem ((d.GetType MAPITEMTYPE_GROUP).1 + g) with
      | error e => rfl
      | ok pGroup =>
          obtain ⟨-, rfl⟩ := getItem_eq_ok.mp hGroup
          simp only
          cases hn : d.readField ((d.GetType MAPITEMTYPE_GROUP).1 + g) 6 with
          | error e => rfl
          | ok n =>
              obtain ⟨-, rfl⟩ := readField_eq_ok.mp hn
              exact (loop_map (f := visit d read malloc) (Visit.layer g)
                (List.range (numLayers d g)) s).symm

/-! ## The whole file -/

/-- Loading stays within the file; a map that is loaded has all tiles and the sizes of the layers
that were replaced, and a failure leaves the map that was loaded before. -/
def Survives (m_DataFile : Option DataFile) (d : CDataFileReader)
    (read : CDataFileReader.ReadBlock) (malloc : Malloc) : Prop :=
  ∃ loaded file replaced, Load m_DataFile d read malloc = .ok (loaded, file, replaced) ∧
    (loaded = true → ∃ data, file = some ⟨d, data⟩ ∧ ∀ e ∈ replaced,
      e.written = e.TilemapCount ∧ d.GetDataSize data e.m_Data = e.TilemapCount * 4) ∧
    (loaded = false → file = m_DataFile)

/-- The item of the file's version, if it is the supported one. -/
def Supported (d : CDataFileReader) : Prop :=
  ∃ i, d.FindItem MAPITEMTYPE_VERSION 0 = .ok (some i) ∧ d.itemField i 0 = 1

/-- The version and what is visited up to the first rejected layer can be read, and where nothing
is rejected the blocks complete their layers. -/
structure Sound (d : CDataFileReader) (read : CDataFileReader.ReadBlock) (malloc : Malloc) :
    Prop where
  version : ∀ i, d.FindItem MAPITEMTYPE_VERSION 0 = .ok (some i) → 4 ≤ d.GetItemSize i
  inOrder : Supported d → InOrder (Readable d read malloc) (Rejected d malloc) (visits d)
  complete : Supported d → (∀ u ∈ visits d, ¬ Rejected d malloc u) → Complete d read (visits d)

theorem ofFile_of_mem {u : Visit} (h : u ∈ visits d) : OfFile d u := by
  obtain ⟨g, hg, hu⟩ := List.mem_flatMap.mp h
  have hlt := List.mem_range.mp hg
  rcases List.mem_cons.mp hu with rfl | hu
  · show (g : Int) < (d.GetType MAPITEMTYPE_GROUP).2
    omega
  · obtain ⟨l, -, rfl⟩ := List.mem_map.mp hu
    exact trivial

/-- What the visits of the whole file come to. -/
theorem visits_spec (d : CDataFileReader) (read : CDataFileReader.ReadBlock) (malloc : Malloc) :
    (∀ r, loop (visit d read malloc) (visits d) ⟨⟨fun _ => none, fun _ => 0⟩, []⟩ = .ok r →
      InOrder (Readable d read malloc) (Rejected d malloc) (visits d)) ∧
    (InOrder (Readable d read malloc) (Rejected d malloc) (visits d) →
      ((∀ u ∈ visits d, ¬ Rejected d malloc u) ∧ ∃ s,
        loop (visit d read malloc) (visits d) ⟨⟨fun _ => none, fun _ => 0⟩, []⟩ = .ok (true, s) ∧
          Inv d read (visits d) s) ∨
      ((∃ u ∈ visits d, Rejected d malloc u) ∧ ∃ s,
        loop (visit d read malloc) (visits d) ⟨⟨fun _ => none, fun _ => 0⟩, []⟩ =
          .ok (false, s))) := by
  have hsafe : ∀ us s u, OfFile d u → Inv d read us s → ∀ r, visit d read malloc s u = .ok r →
      Readable d read malloc u := fun _ _ _ _ h _ heq => visit_safe h heq
  have hstop : ∀ us s u, OfFile d u → Inv d read us s → Readable d read malloc u →
      Rejected d malloc u → ∃ s', visit d read malloc s u = .ok (false, s') :=
    fun _ _ _ _ h => visit_stop h
  have hnext : ∀ us s u, OfFile d u → Inv d read us s → Readable d read malloc u →
      ¬ Rejected d malloc u → ∃ s', visit d read malloc s u = .ok (true, s') ∧
        Inv d read (us ++ [u]) s' := fun _ _ _ hu h => visit_next h hu
  exact loop_spec hsafe hstop hnext inv_nil (visits d) fun u hu => ofFile_of_mem hu

variable (read malloc) in
theorem loadFile_eq {i : Int} (hfind : d.FindItem MAPITEMTYPE_VERSION 0 = .ok (some i))
    (hsize : 4 ≤ d.GetItemSize i) (hversion : d.itemField i 0 = 1) :
    loadFile d read malloc =
      loop (visit d read malloc) (visits d) ⟨⟨fun _ => none, fun _ => 0⟩, []⟩ := by
  unfold loadFile
  rw [hfind]
  show d.readField i 0 >>= _ = _
  rw [readField_ok 0 (by omega)]
  show (if d.itemField i 0 ≠ 1 then _ else _) = _
  rw [if_neg fun hne => hne hversion, loadGroups_eq]
  rfl

/-- Layers that share a block are as large as the last one says, and the first one has what the
block of the file stands for. -/
theorem Inv.complete_iff (h : Inv d read us s) :
    Complete d read us ↔ ∀ e ∈ s.replaced,
      e.written = e.TilemapCount ∧ d.GetDataSize s.data e.m_Data = e.TilemapCount * 4 := by
  have hsize : ∀ e ∈ s.replaced, ∃ e' ∈ s.replaced, e'.m_Data = e.m_Data ∧
      d.GetDataSize s.data e.m_Data = storedSize e'.TilemapCount := by
    intro e he
    obtain ⟨e', he', hdata, ts, hptr, -, hstored, -⟩ := h.touched e he
    refine ⟨e', he', hdata, ?_⟩
    rw [(getData_replaced read (h.loadable e he).1 hptr).2, hstored]
    rfl
  constructor
  · intro hc e he
    refine ⟨h.complete hc e he, ?_⟩
    obtain ⟨e', he', hdata, hget⟩ := hsize e he
    obtain ⟨i, hi, hidata, hicount⟩ := h.visited e he
    obtain ⟨j, hj, hjdata, hjcount⟩ := h.visited e' he'
    have hequal := hc.2 j i hj hi (hjdata.symm.trans (hdata.trans hidata))
    have hrange := (hc.1 j hj).1
    rw [hget, (storedSize_eq_iff _).mpr (by omega)]
    omega
  · intro hall
    have hcount : ∀ e ∈ s.replaced, ∀ e' ∈ s.replaced, e'.m_Data = e.m_Data →
        e'.TilemapCount = e.TilemapCount := by
      intro e he e' he' hdata
      have hright := (hall e he).2
      have hright' := (hall e' he').2
      rw [hdata] at hright'
      omega
    refine ⟨fun i hi => ?_, fun i j hi hj hdata => ?_⟩
    · obtain ⟨e, he, hdata, htile⟩ := h.logged i hi
      constructor
      · obtain ⟨e', he', hdata', hget⟩ := hsize e he
        have hright := (hall e he).2
        have hsame := hcount e he e' he' hdata'
        rw [hget, hsame] at hright
        have hrange := (storedSize_eq_iff _).mp hright
        omega
      · obtain ⟨e', he', hdata', hwritten⟩ := h.first e he
        have hright := (hall e' he').1
        have hsame := hcount e he e' he' hdata'
        rw [hdata] at hwritten
        omega
    · obtain ⟨e, he, hdata', htile⟩ := h.logged i hi
      obtain ⟨e', he', hdata'', htile'⟩ := h.logged j hj
      have hsame := hcount e he e' he' (by rw [hdata', hdata'', hdata])
      omega

/-- `Load` survives exactly the files whose visited items can be read and, if it loads them, have
blocks for their layers. -/
theorem load_survives_iff (m_DataFile : Option DataFile) (d : CDataFileReader)
    (read : CDataFileReader.ReadBlock) (malloc : Malloc) :
    Survives m_DataFile d read malloc ↔ Sound d read malloc := by
  obtain ⟨hsafe, hruns⟩ := visits_spec d read malloc
  have hload : ∀ loaded file replaced, Load m_DataFile d read malloc = .ok (loaded, file, replaced) ↔
      ∃ s, loadFile d read malloc = .ok (loaded, s) ∧
        file = (if loaded then some ⟨d, s.data⟩ else m_DataFile) ∧ replaced = s.replaced := by
    intro loaded file replaced
    unfold Load
    constructor
    · intro heq
      obtain ⟨⟨b, s⟩, hs, heq⟩ := bind_eq_ok.mp heq
      cases b <;> (cases heq; exact ⟨s, hs, rfl, rfl⟩)
    · rintro ⟨s, hs, rfl, rfl⟩
      refine bind_eq_ok.mpr ⟨_, hs, ?_⟩
      cases loaded <;> rfl
  obtain ⟨found, hfind⟩ := d.findItem_succeeds MAPITEMTYPE_VERSION 0
  cases found with
  | none =>
      have hfile : loadFile d read malloc = .ok (false, ⟨⟨fun _ => none, fun _ => 0⟩, []⟩) := by
        unfold loadFile
        rw [hfind]
        rfl
      have hunsupported : ¬ Supported d := by
        rintro ⟨i, hi, -⟩
        rw [hfind] at hi
        cases hi
      refine ⟨fun _ => ⟨fun i hi => ?_, fun h => absurd h hunsupported,
        fun h => absurd h hunsupported⟩, fun _ => ?_⟩
      · rw [hfind] at hi
        cases hi
      · exact ⟨false, m_DataFile, [], (hload _ _ _).mpr ⟨_, hfile, rfl, rfl⟩,
          fun h => (by cases h), fun _ => rfl⟩
  | some i =>
      by_cases hsize : 4 ≤ d.GetItemSize i
      · have hversion : ∀ j, d.FindItem MAPITEMTYPE_VERSION 0 = .ok (some j) →
            4 ≤ d.GetItemSize j := by
          intro j hj
          rw [hfind] at hj
          cases hj
          exact hsize
        by_cases hone : d.itemField i 0 = 1
        · have hfile := loadFile_eq read malloc hfind hsize hone
          constructor
          · rintro ⟨loaded, file, replaced, heq, hright, -⟩
            obtain ⟨s, hs, hfile', hreplaced⟩ := (hload _ _ _).mp heq
            rw [hfile] at hs
            have hinOrder := hsafe _ hs
            refine ⟨hversion, fun _ => hinOrder, fun _ hnone => ?_⟩
            rcases hruns hinOrder with ⟨-, t, ht, hinv⟩ | ⟨⟨u, hu, hreject⟩, -⟩
            · rw [hs] at ht
              cases ht
              obtain ⟨data, hdata, hall⟩ := hright rfl
              rw [hdata] at hfile'
              cases hfile'
              rw [hreplaced] at hall
              exact hinv.complete_iff.mpr hall
            · exact absurd hreject (hnone u hu)
          · intro hsound
            have hsupported : Supported d := ⟨i, hfind, hone⟩
            rcases hruns (hsound.inOrder hsupported) with ⟨hnone, t, ht, hinv⟩ | ⟨-, t, ht⟩
            · refine ⟨true, some ⟨d, t.data⟩, t.replaced,
                (hload _ _ _).mpr ⟨t, hfile.trans ht, rfl, rfl⟩, fun _ => ⟨t.data, rfl, ?_⟩,
                fun h => by cases h⟩
              exact hinv.complete_iff.mp (hsound.complete hsupported hnone)
            · exact ⟨false, m_DataFile, t.replaced,
                (hload _ _ _).mpr ⟨t, hfile.trans ht, rfl, rfl⟩, fun h => (by cases h), fun _ => rfl⟩
        · have hunsupported : ¬ Supported d := by
            rintro ⟨j, hj, hversion'⟩
            rw [hfind] at hj
            cases hj
            exact hone hversion'
          have hfile : loadFile d read malloc =
              .ok (false, ⟨⟨fun _ => none, fun _ => 0⟩, []⟩) := by
            unfold loadFile
            rw [hfind]
            exact bind_eq_ok.mpr
              ⟨_, rfl, bind_eq_ok.mpr ⟨_, readField_ok 0 (by omega), if_pos hone⟩⟩
          refine ⟨fun _ => ⟨hversion, fun h => absurd h hunsupported,
            fun h => absurd h hunsupported⟩, fun _ => ?_⟩
          exact ⟨false, m_DataFile, [], (hload _ _ _).mpr ⟨_, hfile, rfl, rfl⟩,
            fun h => (by cases h), fun _ => rfl⟩
      · refine ⟨?_, fun hsound => absurd (hsound.version i hfind) hsize⟩
        rintro ⟨loaded, file, replaced, heq, -⟩
        obtain ⟨s, hs, -⟩ := (hload _ _ _).mp heq
        unfold loadFile at hs
        rw [hfind] at hs
        obtain ⟨_, hitem, hs⟩ := bind_eq_ok.mp hs
        cases hitem
        obtain ⟨n, hn, -⟩ := bind_eq_ok.mp hs
        exact absurd (readField_eq_ok.mp hn).1 hsize

/-- A map with one group and one tile layer of this width that is one tile high. -/
def tileMap (m_Width : Int) : CDatafile where
  m_Info :=
    { m_pItemTypes := [⟨MAPITEMTYPE_VERSION, 0, 1⟩, ⟨MAPITEMTYPE_GROUP, 1, 1⟩,
        ⟨MAPITEMTYPE_LAYER, 2, 1⟩]
      m_pItemOffsets := [0, 12, 48]
      m_pDataOffsets := [0]
      m_pDataSizes := none
      m_pItemStart :=
        [0, 4, 1,
          4 * 65536, 28, 3, 0, 0, 100, 100, 0, 1,
          5 * 65536, 60, 0, LAYERTYPE_TILES, 0, VERSION_TEEWORLDS_TILESKIP, m_Width, 1, 0,
          255, 255, 255, 255, -1, 0, -1, 0].flatMap intBytes }
  m_DataSize := 4

def emptyRow : CDataFileReader where
  toCDatafile := tileMap 0
  accepted := by decide +kernel
  sizes_length := fun sizes h => by cases h
  numItems_le := by decide

/-- Loading divides by the width of a layer that has none. -/
theorem load_divides_by_zero :
    ¬ Survives none emptyRow (fun _ => some [1, 0, 0, 0]) fun _ _ _ => some fun _ => ⟨0, 0, 0, 0⟩ := by
  rintro ⟨loaded, file, replaced, heq, -⟩
  have hfault : (match Load none emptyRow (fun _ => some [1, 0, 0, 0])
      (fun _ _ _ => some fun _ => ⟨0, 0, 0, 0⟩) with
    | .error .divByZero => true
    | _ => false) = true := by
    decide +kernel
  rw [heq] at hfault
  cases hfault

end Fex.Engine.CMap
