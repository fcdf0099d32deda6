import Fex.Engine.Snapshot.RoundTrip

/-!
# Valid snapshots

What the check of a received snapshot promises to its readers.
-/

namespace Fex.Engine.Snapshot

open Fex.Lib

/-- The item with this number. -/
def itemAt (s : CSnapshot) (Index : Nat) : CSnapshotItem :=
  { m_TypeAndId := intAt s.DataStart (s.Offsets.getD Index 0).toNat
    Data := (s.DataStart.drop ((s.Offsets.getD Index 0).toNat + 4)).take (s.GetItemSize Index).toNat }

/-- A valid snapshot is read without leaving it. -/
theorem reads_of_isValid {s : CSnapshot} {ActualSize : Nat} (h : s.IsValid ActualSize = true) :
    Reads s s.Items ∧ ∀ x ∈ s.Items, IsInt32 x.m_TypeAndId := by
  unfold CSnapshot.IsValid at h
  split at h
  · cases h
  obtain ⟨hoffsets, hsizes⟩ := Bool.and_eq_true_iff.mp h
  have hbounds : ∀ i, i < s.m_NumItems → 0 ≤ s.Offsets.getD i 0 ∧ 0 ≤ s.GetItemSize i ∧
      s.Offsets.getD i 0 + 4 + s.GetItemSize i ≤ s.m_DataSize := by
    intro i hi
    have hoffset : ∀ j, j < s.Offsets.length →
        0 ≤ s.Offsets.getD j 0 ∧ s.Offsets.getD j 0 ≤ s.m_DataSize := by
      intro j hj
      rw [List.getD_eq_getElem?_getD, List.getElem?_eq_getElem hj]
      exact of_decide_eq_true (List.all_eq_true.mp hoffsets _ (List.getElem_mem hj))
    have hsize : 0 ≤ s.GetItemSize i :=
      of_decide_eq_true (List.all_eq_true.mp hsizes i (List.mem_range.mpr hi))
    have hthis := hoffset i hi
    refine ⟨hthis.1, hsize, ?_⟩
    unfold CSnapshot.GetItemSize
    by_cases hlast : i + 1 = s.m_NumItems
    · rw [if_pos hlast]
      omega
    · have hnext := hoffset (i + 1) (by
        unfold CSnapshot.m_NumItems at hi hlast
        omega)
      rw [if_neg hlast]
      omega
  have hitem : ∀ i, i < s.m_NumItems → s.GetItem i = .ok (itemAt s i) := by
    intro i hi
    have hget : s.Offsets[i]? = some (s.Offsets.getD i 0) := by
      rw [List.getD_eq_getElem?_getD, List.getElem?_eq_getElem hi]
      rfl
    unfold CSnapshot.GetItem
    rw [hget]
    exact if_pos (hbounds i hi)
  have hreads : Reads s ((List.range s.m_NumItems).map (itemAt s)) := by
    constructor
    · rw [List.length_map, List.length_range]
    · intro i hi
      rw [List.length_map, List.length_range] at hi
      rw [hitem i hi, List.getElem_map, List.getElem_range]
    · intro i hi
      rw [List.length_map, List.length_range] at hi
      rw [List.getElem_map, List.getElem_range]
      obtain ⟨hlo, hsize, hhi⟩ := hbounds i hi
      unfold CSnapshot.m_DataSize at hhi
      show s.GetItemSize i = ((List.take _ _).length : Int)
      rw [List.length_take, List.length_drop]
      omega
  rw [hreads.items_eq]
  refine ⟨hreads, fun x hx => ?_⟩
  obtain ⟨i, -, rfl⟩ := List.mem_map.mp hx
  exact isInt32_readInt _

/-- The first item with a key, by its position. -/
theorem findIdx?_of_find? (items : List CSnapshotItem) (Key : Int) :
    match items.find? fun x => x.Key == Key with
    | none => (items.findIdx? fun x => x.Key == Key) = none
    | some x => ∃ is js, items = is ++ x :: js ∧ x.Key = Key ∧
        (items.findIdx? fun x => x.Key == Key) = some is.length := by
  cases hfind : items.find? fun x => x.Key == Key with
  | none =>
      apply List.findIdx?_eq_none_iff.mpr
      intro x hx
      have hne := List.find?_eq_none.mp hfind x hx
      simpa using hne
  | some x =>
      obtain ⟨hkey, is, js, rfl, hbefore⟩ := List.find?_eq_some_iff_append.mp hfind
      refine ⟨is, js, rfl, by simpa using hkey, ?_⟩
      have hnone : (is.findIdx? fun x => x.Key == Key) = none := by
        apply List.findIdx?_eq_none_iff.mpr
        intro y hy
        simpa using hbefore y hy
      rw [List.findIdx?_append, hnone, List.findIdx?_cons, hkey]
      simp

theorem Reads.getItemIndex_eq {s : CSnapshot} {items : List CSnapshotItem} (h : Reads s items)
    (Key : Int) : s.GetItemIndex Key = .ok (items.findIdx? fun x => x.Key == Key) := by
  have hloop : ∀ n i, n + i = items.length → s.GetItemIndexLoop Key n i =
      .ok (((items.drop i).findIdx? fun x => x.Key == Key).map (· + i)) := by
    intro n
    induction n with
    | zero =>
        intro i hi
        rw [List.drop_eq_nil_of_le (by omega)]
        rfl
    | succ n ih =>
        intro i hi
        have hlt : i < items.length := by omega
        have hcons : items.drop i = items[i] :: items.drop (i + 1) :=
          (List.getElem_cons_drop hlt).symm
        unfold CSnapshot.GetItemIndexLoop
        rw [h.item i hlt, hcons, List.findIdx?_cons]
        simp only [bind, Except.bind]
        by_cases hkey : items[i].Key = Key
        · rw [if_pos hkey, beq_iff_eq.mpr hkey]
          simp [pure, Except.pure]
        · rw [if_neg hkey, ih (i + 1) (by omega), beq_eq_false_iff_ne.mpr hkey,
            if_neg Bool.false_ne_true, Option.map_map]
          congr 2
          funext k
          simp only [Function.comp_apply]
          omega
  unfold CSnapshot.GetItemIndex
  rw [h.count, hloop items.length 0 (Nat.add_zero _)]
  simp

end Fex.Engine.Snapshot

/-!
## Deltas of any content

A delta names items and their sizes.  `UnpackDelta` takes the memory of an item that
exists as it is, and the old data for as many ints as the delta says, so that it stays
within bounds exactly where every size that is reached is at most that of both.
-/

namespace Fex.Engine.Snapshot

open Fex.Lib CSnapshotDelta

/-! ## Keys and sizes -/

/-- The keys and sizes of the items of a builder. -/
abbrev Shape := List (Int × Nat)

def shapeOf (items : List CSnapshotItem) : Shape := items.map fun x => (x.Key, x.Data.length)

/-- There is room for one more item. -/
def Shape.Room (shape : Shape) (Size : Nat) : Prop :=
  shape.length < MAX_ITEMS ∧
    8 + 4 * shape.length + (shape.map fun p => 4 + p.2).sum + (8 + Size) ≤ MAX_SIZE

instance (shape : Shape) (Size : Nat) : Decidable (shape.Room Size) :=
  inferInstanceAs (Decidable (_ ∧ _))

/-- The items that are not deleted, `none` where one of them cannot be created. -/
def copyShape (Deleted : List Int) : List CSnapshotItem → Shape → Option Shape
  | [], shape => some shape
  | f :: fs, shape =>
      if f.Key ∈ Deleted then copyShape Deleted fs shape
      else if f.ItemType < 0 ∨ ¬ shape.Room f.Data.length then none
      else copyShape Deleted fs (shape ++ [(f.Key, f.Data.length)])

/-- The header of an updated item and the position of its data. -/
structure Update where
  ItemType : Int
  Id : Int
  ItemSize : Nat
  pData : Nat

def Update.Key (u : Update) : Int := makeKey u.ItemType u.Id

/-- The position behind the item. -/
def Update.next (u : Update) : Nat := u.pData + u.ItemSize / 4

section

variable (d : CSnapshotDelta) (src : List UInt8) (Sixup : Bool)

/-- The updated item at a position, `none` where the delta is rejected. -/
def readUpdate (p : Nat) : Option Update :=
  let ItemType := intAt src (4 * p)
  let Id := intAt src (4 * (p + 1))
  if src.length < 4 * (p + 2) ∨ ItemType < 0 ∨ ItemType > MAX_TYPE ∨ Id < 0 ∨ Id > MAX_ID then none
  else
    match d.UnpackSize src Sixup ItemType (p + 2) with
    | .ok (.inr (ItemSize, pData)) =>
        if src.length < 4 * pData + ItemSize then none else some { ItemType, Id, ItemSize, pData }
    | _ => none

/-- The keys of the updated items. -/
def updatedKeys : Nat → Nat → List Int
  | 0, _ => []
  | n + 1, p =>
      match readUpdate d src Sixup p with
      | none => []
      | some u => u.Key :: updatedKeys n u.next

/-- The old item has the ints that are read and the new one the room that is written. -/
def Update.Fits (u : Update) (fromItems : List CSnapshotItem) (Size : Nat) : Prop :=
  match fromItems.find? fun f => f.Key == u.Key with
  | some f => u.ItemSize / 4 ≤ f.Data.length / 4 ∧ 4 * (u.ItemSize / 4) ≤ Size
  | none => u.ItemSize ≤ Size

instance (u : Update) (fromItems : List CSnapshotItem) (Size : Nat) :
    Decidable (u.Fits fromItems Size) :=
  match h : fromItems.find? fun f => f.Key == u.Key with
  | some f =>
      decidable_of_iff (u.ItemSize / 4 ≤ f.Data.length / 4 ∧ 4 * (u.ItemSize / 4) ≤ Size) (by
        unfold Update.Fits
        rw [h])
  | none =>
      decidable_of_iff (u.ItemSize ≤ Size) (by
        unfold Update.Fits
        rw [h])

/-- Every update that is reached fits; the loop ends where there is no room for a new item. -/
def UpdatesFit (fromItems : List CSnapshotItem) : Nat → Nat → Shape → Prop
  | 0, _, _ => True
  | n + 1, p, shape =>
      match readUpdate d src Sixup p with
      | none => True
      | some u =>
          match shape.find? fun x => x.1 == u.Key with
          | some x => u.Fits fromItems x.2 ∧ UpdatesFit fromItems n u.next shape
          | none =>
              shape.Room u.ItemSize → u.Fits fromItems u.ItemSize ∧
                UpdatesFit fromItems n u.next (shape ++ [(u.Key, u.ItemSize)])

instance decidableUpdatesFit (fromItems : List CSnapshotItem) :
    ∀ n p shape, Decidable (UpdatesFit d src Sixup fromItems n p shape)
  | 0, _, _ => .isTrue trivial
  | n + 1, p, shape =>
      match hread : readUpdate d src Sixup p with
      | none => .isTrue (by
          unfold UpdatesFit
          rw [hread]
          trivial)
      | some u =>
          match hfind : shape.find? fun x => x.1 == u.Key with
          | some x =>
              have := decidableUpdatesFit fromItems n u.next shape
              decidable_of_iff
                (u.Fits fromItems x.2 ∧ UpdatesFit d src Sixup fromItems n u.next shape) (by
                  conv_rhs => unfold UpdatesFit
                  simp only [hread, hfind])
          | none =>
              have := decidableUpdatesFit fromItems n u.next (shape ++ [(u.Key, u.ItemSize)])
              decidable_of_iff (shape.Room u.ItemSize → u.Fits fromItems u.ItemSize ∧
                UpdatesFit d src Sixup fromItems n u.next (shape ++ [(u.Key, u.ItemSize)])) (by
                  conv_rhs => unfold UpdatesFit
                  simp only [hread, hfind])

/-- The keys that the delta deletes. -/
def deletedOf : List Int := (ints (src.drop 12)).take (intAt src 0).toNat

/-- The header is there and every update that is reached fits. -/
def DeltaFits (pFrom : CSnapshot) : Prop :=
  4 ≤ src.length ∧
    (0 ≤ intAt src 0 → 4 * (3 + (intAt src 0).toNat) ≤ src.length →
      ∀ shape ∈ copyShape (deletedOf src) pFrom.Items [],
        UpdatesFit d src Sixup pFrom.Items (intAt src 4).toNat (3 + (intAt src 0).toNat) shape)

instance (pFrom : CSnapshot) : Decidable (DeltaFits d src Sixup pFrom) :=
  inferInstanceAs (Decidable (_ ∧ _))

/-- No access is out of bounds, a snapshot that is returned is valid and has the items that the
delta does not mention. -/
def Robust (Obj_SixToSeven : Int → Int) (g_UuidManager : CUuidManager) (pFrom : CSnapshot) : Prop :=
  ∃ r, d.UnpackDelta Obj_SixToSeven g_UuidManager pFrom src Sixup = .ok r ∧
    ∀ pTo, r = .inr pTo → pTo.IsValid pTo.TotalSize = true ∧
      ∀ x ∈ pFrom.Items, x.Key ∉ deletedOf src →
        x.Key ∉ updatedKeys d src Sixup (intAt src 4).toNat (3 + (intAt src 0).toNat) →
        x ∈ pTo.Items

end

/-! ## Room -/

section

variable {b : CSnapshotBuilder} {items : List CSnapshotItem}

theorem shapeOf_append (is js : List CSnapshotItem) :
    shapeOf (is ++ js) = shapeOf is ++ shapeOf js := List.map_append

theorem room_shapeOf (items : List CSnapshotItem) (Size : Nat) :
    (shapeOf items).Room Size ↔
      items.length < MAX_ITEMS ∧ (snapOf items).TotalSize + (8 + Size) ≤ MAX_SIZE := by
  have hsum : (shapeOf items).map (fun p => 4 + p.2) = items.map fun x => 4 + x.Data.length := by
    unfold shapeOf
    rw [List.map_map]
    rfl
  have hlength : (shapeOf items).length = items.length := List.length_map _
  unfold Shape.Room
  rw [hsum, hlength, totalSize_snapOf, length_area]

theorem limits_of_room {x : CSnapshotItem} (hroom : (shapeOf items).Room x.Data.length) :
    Limits (items ++ [x]) := by
  obtain ⟨hcount, hsize⟩ := (room_shapeOf items _).mp hroom
  rw [totalSize_snapOf] at hsize
  constructor
  · rw [List.length_append, List.length_singleton]
    omega
  · rw [totalSize_snapOf, area_append, area_cons, area_nil, List.append_nil, List.length_append,
      List.length_append, List.length_singleton, CSnapshotItem.length_encode]
    omega

variable (Obj_SixToSeven : Int → Int) (g_UuidManager : CUuidManager)

/-- An item is created exactly where its type is one and there is room. -/
theorem Plain.newItem_cases (h : Plain b items) {ItemType Id : Int} (Size : Nat)
    (ht : ItemType ≤ MAX_TYPE) (hi : 0 ≤ Id) :
    if ItemType < 0 ∨ ¬ (shapeOf items).Room Size then
      b.NewItem Obj_SixToSeven g_UuidManager ItemType Id Size = .ok (b, .null)
    else ∃ b', b.NewItem Obj_SixToSeven g_UuidManager ItemType Id Size =
        .ok (b', .data items.length) ∧ Plain b' (items ++ [Snapshot.newItem ItemType Id Size]) := by
  have hmax : MAX_TYPE = 32767 := rfl
  have hoff : OFFSET_UUID = 65536 := rfl
  have hiff := (h.holds.hasRoom_iff Size).trans (room_shapeOf items Size).symm
  unfold CSnapshotBuilder.NewItem CSnapshotBuilder.NewItemWith
  rw [if_neg (by omega : ¬ Id = -1), if_neg (by omega : ¬ ItemType ≥ OFFSET_UUID), h.sixup,
    if_neg Bool.false_ne_true]
  by_cases hroom : b.HasRoom Size
  · rw [if_neg (not_not_intro hroom)]
    by_cases hneg : ItemType < 0
    · rw [if_pos (.inl hneg), if_pos hneg]
    · have hnot : ¬ (ItemType < 0 ∨ ¬ (shapeOf items).Room Size) := by
        rintro (hc | hc)
        · exact hneg hc
        · exact hc (hiff.mp hroom)
      rw [if_neg hnot, if_neg hneg]
      obtain ⟨b', hput, -, hsixup, hb'⟩ := h.holds.putItem_of_room ItemType Id hroom
      exact ⟨b', hput, hb', hsixup.trans h.sixup⟩
  · rw [if_pos hroom, if_pos (.inr (mt hiff.mpr hroom))]

/-! ## The items that are kept -/

/-- An item of a type is created with its key and its data is copied. -/
theorem Plain.copy (h : Plain b items) {f : CSnapshotItem} (hkey : IsInt32 f.m_TypeAndId)
    (ht : 0 ≤ f.ItemType) (hroom : (shapeOf items).Room f.Data.length) :
    ∃ b₁ b₂, b.NewItem Obj_SixToSeven g_UuidManager f.ItemType f.Id f.Data.length =
        .ok (b₁, .data items.length) ∧
      b₁.WriteData items.length f.Data = .ok b₂ ∧ Plain b₂ (items ++ [f]) := by
  have hmax : f.ItemType ≤ MAX_TYPE := by
    unfold IsInt32 at hkey
    unfold CSnapshotItem.ItemType MAX_TYPE
    omega
  exact h.addItem Obj_SixToSeven g_UuidManager ⟨ht, hmax⟩ (limits_of_room hroom)

theorem Reads.copyLoop_cases {pFrom : CSnapshot} {fromItems : List CSnapshotItem}
    (hF : Reads pFrom fromItems) (hkeys : ∀ x ∈ fromItems, IsInt32 x.m_TypeAndId)
    (Deleted : List Int) {n i : Nat} (hn : n + i = fromItems.length) (h : Plain b items)
    (hlimits : Limits items) :
    match copyShape Deleted (fromItems.drop i) (shapeOf items) with
    | none => ∃ e, CopyLoop Obj_SixToSeven g_UuidManager pFrom Deleted n i b = .ok (.inl e)
    | some shape => ∃ b' items',
        CopyLoop Obj_SixToSeven g_UuidManager pFrom Deleted n i b = .ok (.inr b') ∧
          Plain b' items' ∧ Limits items' ∧ shapeOf items' = shape ∧ (∀ x ∈ items, x ∈ items') ∧
          ∀ x ∈ fromItems.drop i, x.Key ∉ Deleted → x ∈ items' := by
  induction n generalizing i b items with
  | zero =>
      rw [List.drop_eq_nil_of_le (by omega)]
      exact ⟨b, items, rfl, h, hlimits, rfl, fun x hx => hx, fun x hx => by cases hx⟩
  | succ n ih =>
      have hi : i < fromItems.length := by omega
      have hcons : fromItems.drop i = fromItems[i] :: fromItems.drop (i + 1) :=
        (List.getElem_cons_drop hi).symm
      have hkey := hkeys _ (List.getElem_mem hi)
      unfold CopyLoop
      rw [hcons, hF.item i hi, copyShape]
      simp only [bind, Except.bind]
      by_cases hdeleted : fromItems[i].Key ∈ Deleted
      · rw [if_pos hdeleted, if_pos hdeleted]
        have hrest := ih (i := i + 1) (by omega) h hlimits
        cases hshape : copyShape Deleted (fromItems.drop (i + 1)) (shapeOf items) with
        | none =>
            rw [hshape] at hrest
            exact hrest
        | some shape =>
            rw [hshape] at hrest
            obtain ⟨b', items', hrun, hb', hl', hs', hmem, hkept⟩ := hrest
            refine ⟨b', items', hrun, hb', hl', hs', hmem, fun x hx hnot => ?_⟩
            rcases List.mem_cons.mp hx with rfl | hx
            · exact absurd hdeleted hnot
            · exact hkept x hx hnot
      · rw [if_neg hdeleted, if_neg hdeleted]
        by_cases hnone : fromItems[i].ItemType < 0 ∨
            ¬ (shapeOf items).Room fromItems[i].Data.length
        · have hmax : fromItems[i].ItemType ≤ MAX_TYPE := by
            unfold IsInt32 at hkey
            unfold CSnapshotItem.ItemType MAX_TYPE
            omega
          have hid : 0 ≤ fromItems[i].Id := by
            unfold CSnapshotItem.Id
            omega
          have hnew := h.newItem_cases Obj_SixToSeven g_UuidManager fromItems[i].Data.length hmax hid
          rw [if_pos hnone] at hnew ⊢
          rw [hnew]
          exact ⟨-301, rfl⟩
        · rw [if_neg hnone]
          have htype : 0 ≤ fromItems[i].ItemType := by omega
          have hroom : (shapeOf items).Room fromItems[i].Data.length := by
            by_contra hc
            exact hnone (.inr hc)
          obtain ⟨b₁, b₂, hnew, hwrite, h₂⟩ :=
            h.copy Obj_SixToSeven g_UuidManager hkey htype hroom
          simp only [hnew, hwrite]
          have hrest := ih (i := i + 1) (by omega) h₂ (limits_of_room hroom)
          have hshapes : shapeOf (items ++ [fromItems[i]]) =
              shapeOf items ++ [(fromItems[i].Key, fromItems[i].Data.length)] :=
            shapeOf_append items [fromItems[i]]
          rw [hshapes] at hrest
          cases hshape : copyShape Deleted (fromItems.drop (i + 1))
              (shapeOf items ++ [(fromItems[i].Key, fromItems[i].Data.length)]) with
          | none =>
              rw [hshape] at hrest
              exact hrest
          | some shape =>
              rw [hshape] at hrest
              obtain ⟨b', items', hrun, hb', hl', hs', hmem, hkept⟩ := hrest
              refine ⟨b', items', hrun, hb', hl', hs',
                fun x hx => hmem x (List.mem_append_left _ hx), fun x hx hnot => ?_⟩
              rcases List.mem_cons.mp hx with rfl | hx
              · exact hmem _ (List.mem_append_right _ List.mem_cons_self)
              · exact hkept x hx hnot

/-! ## One update -/

theorem readWord_eq {src : List UInt8} {p : Nat} (h : 4 * (p + 1) ≤ src.length) :
    readWord src p = .ok (intAt src (4 * p)) :=
  if_pos h

theorem unpackSize_succeeds (d : CSnapshotDelta) (src : List UInt8) (Sixup : Bool)
    (ItemType : Int) (p : Nat) :
    ∃ r, d.UnpackSize src Sixup ItemType p = .ok r := by
  unfold UnpackSize
  generalize (if Sixup then d.m_aItemSizes7 else d.m_aItemSizes) = pItemSizes
  simp only
  split
  · exact ⟨_, rfl⟩
  split
  · exact ⟨_, rfl⟩
  next hlen =>
    rw [readWord_eq (by omega)]
    simp only [bind, Except.bind]
    split
    · exact ⟨_, rfl⟩
    · exact ⟨_, rfl⟩

variable {d : CSnapshotDelta} {src : List UInt8} {Sixup : Bool}

/-- An update that is rejected ends the loop with an error code. -/
theorem updateLoop_rejected {pFrom : CSnapshot} {n p : Nat}
    (h : readUpdate d src Sixup p = none) :
    ∃ e, d.UpdateLoop Obj_SixToSeven g_UuidManager pFrom src Sixup (n + 1) p b = .ok (.inl e) := by
  unfold UpdateLoop
  unfold readUpdate at h
  by_cases hlen : src.length < 4 * (p + 2)
  · rw [if_pos hlen]
    exact ⟨_, rfl⟩
  · rw [if_neg hlen, readWord_eq (by omega), readWord_eq (by omega)]
    simp only [bind, Except.bind]
    by_cases htype : intAt src (4 * p) < 0 ∨ intAt src (4 * p) > MAX_TYPE
    · rw [if_pos htype]
      exact ⟨_, rfl⟩
    · rw [if_neg htype]
      by_cases hid : intAt src (4 * (p + 1)) < 0 ∨ intAt src (4 * (p + 1)) > MAX_ID
      · rw [if_pos hid]
        exact ⟨_, rfl⟩
      · rw [if_neg hid]
        obtain ⟨r, hr⟩ := unpackSize_succeeds d src Sixup (intAt src (4 * p)) (p + 2)
        simp only at h
        rw [if_neg (by omega), hr] at h
        rw [hr]
        cases r with
        | inl e => exact ⟨e, rfl⟩
        | inr size =>
            simp only at h ⊢
            by_cases hfits : src.length < 4 * size.2 + size.1
            · rw [if_pos hfits]
              exact ⟨_, rfl⟩
            · rw [if_neg hfits] at h
              cases h

/-- The rest of the loop at an update. -/
def applyUpdate (d : CSnapshotDelta) (pFrom : CSnapshot) (src : List UInt8) (Sixup : Bool)
    (n : Nat) (u : Update) (Builder : CSnapshotBuilder) : Exec (Int ⊕ CSnapshotBuilder) := do
  let (Builder, pNewData) ←
    FindOrCreate Obj_SixToSeven g_UuidManager Builder u.ItemType u.Id u.ItemSize
  match pNewData with
  | .null => return .inl (-302)
  | .unused => d.UpdateLoop Obj_SixToSeven g_UuidManager pFrom src Sixup n u.next Builder
  | .data k => do
      let Data ← UnpackData pFrom u.Key ((src.drop (4 * u.pData)).take u.ItemSize)
      let Builder ← Builder.WriteData k Data
      d.UpdateLoop Obj_SixToSeven g_UuidManager pFrom src Sixup n u.next Builder

theorem updateLoop_read {pFrom : CSnapshot} {n p : Nat} {u : Update}
    (h : readUpdate d src Sixup p = some u) :
    (0 ≤ u.ItemType ∧ u.ItemType ≤ MAX_TYPE ∧ 0 ≤ u.Id ∧
      4 * u.pData + u.ItemSize ≤ src.length) ∧
      d.UpdateLoop Obj_SixToSeven g_UuidManager pFrom src Sixup (n + 1) p b =
        applyUpdate Obj_SixToSeven g_UuidManager d pFrom src Sixup n u b := by
  unfold readUpdate at h
  simp only at h
  split at h
  · cases h
  next hhead =>
    split at h
    next ItemSize pData hsize =>
      split at h
      · cases h
      next hfits =>
        cases h
        constructor
        · simp only
          omega
        conv_lhs => unfold UpdateLoop
        rw [if_neg (by omega), readWord_eq (by omega), readWord_eq (by omega)]
        simp only [bind, Except.bind]
        rw [if_neg (by omega), if_neg (by omega), hsize]
        simp only
        rw [if_neg hfits]
        rfl
    · cases h

/-! ## The data of an update -/

/-- The data that is written fits, or it or what is read for it is too long. -/
theorem Update.data_cases {pFrom : CSnapshot} {fromItems : List CSnapshotItem}
    (hF : Reads pFrom fromItems) (u : Update) {Payload : List UInt8}
    (hlen : Payload.length = u.ItemSize) (Size : Nat) :
    (u.Fits fromItems Size ∧
      ∃ Data, UnpackData pFrom u.Key Payload = .ok Data ∧ Data.length ≤ Size) ∨
    (¬ u.Fits fromItems Size ∧ ((∃ e, UnpackData pFrom u.Key Payload = .error e) ∨
      ∃ Data, UnpackData pFrom u.Key Payload = .ok Data ∧ Size < Data.length)) := by
  have hindex := findIdx?_of_find? fromItems u.Key
  unfold Update.Fits UnpackData
  rw [hF.getItemIndex_eq]
  cases hfind : fromItems.find? fun f => f.Key == u.Key with
  | none =>
      rw [hfind] at hindex
      simp only [bind, Except.bind, hindex]
      by_cases hfits : u.ItemSize ≤ Size
      · exact .inl ⟨hfits, Payload, rfl, by omega⟩
      · exact .inr ⟨hfits, .inr ⟨Payload, rfl, by omega⟩⟩
  | some f =>
      rw [hfind] at hindex
      obtain ⟨is, js, rfl, hkey, hsome⟩ := hindex
      have hitem := hF.item is.length (by simp)
      rw [List.getElem_append_right (Nat.le_refl _)] at hitem
      simp only [Nat.sub_self, List.getElem_cons_zero] at hitem
      have hlength : ((UndiffItem (ints f.Data) (ints Payload)).flatMap intBytes).length =
          4 * min (f.Data.length / 4) (u.ItemSize / 4) := by
        rw [length_flatMap_intBytes, length_undiffItem, length_ints, length_ints, hlen]
      simp only [bind, Except.bind, hsome, hitem, hlen]
      by_cases hshort : f.Data.length / 4 < u.ItemSize / 4
      · rw [if_pos hshort]
        exact .inr ⟨by omega, .inl ⟨_, rfl⟩⟩
      · rw [if_neg hshort]
        by_cases hfits : 4 * (u.ItemSize / 4) ≤ Size
        · exact .inl ⟨⟨by omega, hfits⟩, _, rfl, by omega⟩
        · exact .inr ⟨fun hc => hfits hc.2, .inr ⟨_, rfl, by omega⟩⟩

/-! ## The loop -/

theorem limits_of_shape {items' : List CSnapshotItem} (h : Limits items)
    (hshape : shapeOf items' = shapeOf items) : Limits items' := by
  have hlength := congrArg List.length hshape
  unfold shapeOf at hlength
  rw [List.length_map, List.length_map] at hlength
  have hsum : (items'.map fun x => 4 + x.Data.length) = items.map fun x => 4 + x.Data.length := by
    have hmap := congrArg (List.map fun p => 4 + p.2) hshape
    unfold shapeOf at hmap
    rw [List.map_map, List.map_map] at hmap
    exact hmap
  have hcount := h.count
  have hsize := h.size
  rw [totalSize_snapOf, length_area] at hsize
  refine ⟨by omega, ?_⟩
  rw [totalSize_snapOf, length_area, hsum]
  omega

/-- Where the update fits the item keeps its key and size, else an access is out of bounds. -/
theorem Plain.writeUpdate {pFrom : CSnapshot} {fromItems : List CSnapshotItem}
    (hF : Reads pFrom fromItems) {is js : List CSnapshotItem} {x : CSnapshotItem}
    (h : Plain b (is ++ x :: js)) (u : Update) (hlen : 4 * u.pData + u.ItemSize ≤ src.length) :
    (u.Fits fromItems x.Data.length ∧
      ∃ Data b' x', UnpackData pFrom u.Key ((src.drop (4 * u.pData)).take u.ItemSize) = .ok Data ∧
        b.WriteData is.length Data = .ok b' ∧ Plain b' (is ++ x' :: js) ∧ x'.Key = x.Key ∧
        x'.Data.length = x.Data.length) ∨
    (¬ u.Fits fromItems x.Data.length ∧
      ((∃ e, UnpackData pFrom u.Key ((src.drop (4 * u.pData)).take u.ItemSize) = .error e) ∨
        ∃ Data e, UnpackData pFrom u.Key ((src.drop (4 * u.pData)).take u.ItemSize) = .ok Data ∧
          b.WriteData is.length Data = .error e)) := by
  have hpayload : ((src.drop (4 * u.pData)).take u.ItemSize).length = u.ItemSize := by
    rw [List.length_take, List.length_drop]
    omega
  rcases u.data_cases hF hpayload x.Data.length with
    ⟨hfits, Data, hdata, hle⟩ | ⟨hfits, herror | ⟨Data, hdata, hlt⟩⟩
  · obtain ⟨b', hwrite, -, hsixup, hb'⟩ := h.holds.writeData hle
    refine .inl ⟨hfits, Data, b', _, hdata, hwrite, ⟨hb', hsixup.trans h.sixup⟩, rfl, ?_⟩
    show (Data ++ x.Data.drop Data.length).length = _
    rw [List.length_append, List.length_drop]
    omega
  · exact .inr ⟨hfits, .inl herror⟩
  · exact .inr ⟨hfits, .inr ⟨Data, _, hdata, h.holds.writeData_outOfBounds hlt⟩⟩

/-- What an update does to an item that is found or created. -/
theorem Plain.update_at {pFrom : CSnapshot} {fromItems : List CSnapshotItem}
    (hF : Reads pFrom fromItems) {is js : List CSnapshotItem} {x : CSnapshotItem}
    (h : Plain b (is ++ x :: js)) (n : Nat) {u : Update}
    (hlen : 4 * u.pData + u.ItemSize ≤ src.length) {b₀ : CSnapshotBuilder}
    (hfound : FindOrCreate Obj_SixToSeven g_UuidManager b₀ u.ItemType u.Id u.ItemSize =
      .ok (b, .data is.length)) :
    (u.Fits fromItems x.Data.length ∧ ∃ b' x', Plain b' (is ++ x' :: js) ∧ x'.Key = x.Key ∧
      x'.Data.length = x.Data.length ∧
      applyUpdate Obj_SixToSeven g_UuidManager d pFrom src Sixup n u b₀ =
        d.UpdateLoop Obj_SixToSeven g_UuidManager pFrom src Sixup n u.next b') ∨
    (¬ u.Fits fromItems x.Data.length ∧ ∃ e,
      applyUpdate Obj_SixToSeven g_UuidManager d pFrom src Sixup n u b₀ = .error e) := by
  unfold applyUpdate
  rw [hfound]
  simp only [bind, Except.bind]
  rcases h.writeUpdate hF u hlen with
    ⟨hfits, Data, b', x', hdata, hwrite, hb', hkey, hsize⟩ |
      ⟨hfits, ⟨e, herror⟩ | ⟨Data, e, hdata, hwrite⟩⟩
  · refine .inl ⟨hfits, b', x', hb', hkey, hsize, ?_⟩
    simp only [hdata, hwrite]
  · refine .inr ⟨hfits, e, ?_⟩
    simp only [herror]
  · refine .inr ⟨hfits, e, ?_⟩
    simp only [hdata, hwrite]

/-- The loop stays within bounds exactly where the updates fit, and leaves the items whose keys it
does not meet. -/
def LoopOutcome (d : CSnapshotDelta) (src : List UInt8) (Sixup : Bool) (pFrom : CSnapshot)
    (fromItems : List CSnapshotItem) (n p : Nat) (b : CSnapshotBuilder)
    (items : List CSnapshotItem) : Prop :=
  (UpdatesFit d src Sixup fromItems n p (shapeOf items) ∧
    ∃ r, d.UpdateLoop Obj_SixToSeven g_UuidManager pFrom src Sixup n p b = .ok r ∧
      ∀ b', r = .inr b' → ∃ items', Plain b' items' ∧ Limits items' ∧
        ∀ x ∈ items, x.Key ∉ updatedKeys d src Sixup n p → x ∈ items') ∨
  (¬ UpdatesFit d src Sixup fromItems n p (shapeOf items) ∧
    ∃ e, d.UpdateLoop Obj_SixToSeven g_UuidManager pFrom src Sixup n p b = .error e)

section

variable {pFrom : CSnapshot} {fromItems : List CSnapshotItem} {n p : Nat} {u : Update}

theorem updatedKeys_read (hread : readUpdate d src Sixup p = some u) :
    updatedKeys d src Sixup (n + 1) p = u.Key :: updatedKeys d src Sixup n u.next := by
  conv_lhs => unfold updatedKeys
  simp only [hread]

/-- The step of the loop at an item that is there. -/
theorem Plain.update_found (hF : Reads pFrom fromItems) {is js : List CSnapshotItem}
    {x : CSnapshotItem} (h : Plain b (is ++ x :: js)) (hlimits : Limits (is ++ x :: js))
    (hread : readUpdate d src Sixup p = some u)
    (hfind : ((is ++ x :: js).find? fun y => y.Key == u.Key) = some x) (hkey : x.Key = u.Key)
    (hindex : ((is ++ x :: js).findIdx? fun y => y.Key == u.Key) = some is.length)
    (ih : ∀ {b' items'}, Plain b' items' → Limits items' →
      LoopOutcome Obj_SixToSeven g_UuidManager d src Sixup pFrom fromItems n u.next b' items') :
    LoopOutcome Obj_SixToSeven g_UuidManager d src Sixup pFrom fromItems (n + 1) p b
      (is ++ x :: js) := by
  obtain ⟨⟨-, -, -, hlen⟩, hrun⟩ := updateLoop_read Obj_SixToSeven g_UuidManager hread
  have hshapes : (shapeOf (is ++ x :: js)).find? (fun y => y.1 == u.Key) =
      some (x.Key, x.Data.length) := by
    have hmap : (shapeOf (is ++ x :: js)).find? (fun y => y.1 == u.Key) =
        ((is ++ x :: js).find? fun y => y.Key == u.Key).map fun y => (y.Key, y.Data.length) :=
      List.find?_map
    rw [hmap, hfind, Option.map_some]
  have hfound : FindOrCreate Obj_SixToSeven g_UuidManager b u.ItemType u.Id u.ItemSize =
      .ok (b, .data is.length) := by
    have hdata : b.GetItemData (makeKey u.ItemType u.Id) = some is.length :=
      (h.holds.getItemData u.Key).trans hindex
    unfold FindOrCreate
    rw [hdata]
  unfold LoopOutcome
  rw [hrun, updatedKeys_read hread]
  unfold UpdatesFit
  simp only [hread, hshapes]
  rcases h.update_at Obj_SixToSeven g_UuidManager hF n hlen hfound with
    ⟨hfits, b', x', hb', hkey', hsize', heq⟩ | ⟨hfits, e, heq⟩
  · have hshape : shapeOf (is ++ x' :: js) = shapeOf (is ++ x :: js) := by
      unfold shapeOf
      simp only [List.map_append, List.map_cons, hkey', hsize']
    rw [heq, ← hshape]
    rcases ih hb' (limits_of_shape hlimits hshape) with ⟨hrest, r, hr, hdone⟩ | ⟨hrest, herror⟩
    · refine .inl ⟨⟨hfits, hrest⟩, r, hr, fun b'' hb'' => ?_⟩
      obtain ⟨items', hplain, hlimits', hmem⟩ := hdone b'' hb''
      refine ⟨items', hplain, hlimits', fun y hy hnot => ?_⟩
      obtain ⟨hne, hnot⟩ := List.ne_and_not_mem_of_not_mem_cons hnot
      apply hmem y _ hnot
      rcases List.mem_append.mp hy with hy | hy
      · exact List.mem_append_left _ hy
      · rcases List.mem_cons.mp hy with rfl | hy
        · exact absurd hkey hne
        · exact List.mem_append_right _ (List.mem_cons_of_mem _ hy)
    · exact .inr ⟨fun hc => hrest hc.2, herror⟩
  · exact .inr ⟨fun hc => hfits hc.1, e, heq⟩

/-- The step of the loop at an item that is new. -/
theorem Plain.update_created (hF : Reads pFrom fromItems) (h : Plain b items)
    (hread : readUpdate d src Sixup p = some u)
    (hfind : (items.find? fun y => y.Key == u.Key) = none)
    (hindex : (items.findIdx? fun y => y.Key == u.Key) = none)
    (ih : ∀ {b' items'}, Plain b' items' → Limits items' →
      LoopOutcome Obj_SixToSeven g_UuidManager d src Sixup pFrom fromItems n u.next b' items') :
    LoopOutcome Obj_SixToSeven g_UuidManager d src Sixup pFrom fromItems (n + 1) p b items := by
  obtain ⟨⟨ht₀, ht₁, hid, hlen⟩, hrun⟩ := updateLoop_read Obj_SixToSeven g_UuidManager hread
  have hshapes : (shapeOf items).find? (fun y => y.1 == u.Key) = none := by
    have hmap : (shapeOf items).find? (fun y => y.1 == u.Key) =
        (items.find? fun y => y.Key == u.Key).map fun y => (y.Key, y.Data.length) :=
      List.find?_map
    rw [hmap, hfind, Option.map_none]
  have hcreate : FindOrCreate Obj_SixToSeven g_UuidManager b u.ItemType u.Id u.ItemSize =
      b.NewItem Obj_SixToSeven g_UuidManager u.ItemType u.Id u.ItemSize := by
    have hdata : b.GetItemData (makeKey u.ItemType u.Id) = none :=
      (h.holds.getItemData u.Key).trans hindex
    unfold FindOrCreate
    rw [hdata]
  have hnew := h.newItem_cases Obj_SixToSeven g_UuidManager u.ItemSize ht₁ hid
  unfold LoopOutcome
  rw [hrun, updatedKeys_read hread]
  unfold UpdatesFit
  simp only [hread, hshapes]
  by_cases hroom : (shapeOf items).Room u.ItemSize
  · have hok : ¬ (u.ItemType < 0 ∨ ¬ (shapeOf items).Room u.ItemSize) := by
      rintro (hc | hc)
      · omega
      · exact hc hroom
    rw [if_neg hok] at hnew
    obtain ⟨b₁, hnew, h₁⟩ := hnew
    have hsize : (Snapshot.newItem u.ItemType u.Id u.ItemSize).Data.length = u.ItemSize :=
      List.length_replicate
    rcases h₁.update_at Obj_SixToSeven g_UuidManager hF n hlen (hcreate.trans hnew) with
      ⟨hfits, b', x', hb', hkey', hsize', heq⟩ | ⟨hfits, e, heq⟩
    · rw [hsize] at hfits hsize'
      have hshape : shapeOf (items ++ [x']) = shapeOf items ++ [(u.Key, u.ItemSize)] := by
        rw [shapeOf_append]
        show shapeOf items ++ [(x'.Key, x'.Data.length)] = _
        rw [hkey', hsize']
        rfl
      have hlimits' : Limits (items ++ [x']) := by
        apply limits_of_room
        rw [hsize']
        exact hroom
      rw [heq, ← hshape]
      rcases ih hb' hlimits' with ⟨hrest, r, hr, hdone⟩ | ⟨hrest, herror⟩
      · refine .inl ⟨fun _ => ⟨hfits, hrest⟩, r, hr, fun b'' hb'' => ?_⟩
        obtain ⟨items', hplain, hlimits', hmem⟩ := hdone b'' hb''
        refine ⟨items', hplain, hlimits', fun y hy hnot => ?_⟩
        exact hmem y (List.mem_append_left _ hy) (List.ne_and_not_mem_of_not_mem_cons hnot).2
      · exact .inr ⟨fun hc => hrest (hc hroom).2, herror⟩
    · rw [hsize] at hfits
      exact .inr ⟨fun hc => hfits (hc hroom).1, e, heq⟩
  · rw [if_pos (.inr hroom)] at hnew
    refine .inl ⟨fun hc => absurd hc hroom, .inl (-302), ?_, fun b' heq => by cases heq⟩
    unfold applyUpdate
    rw [hcreate, hnew]
    rfl

theorem Plain.updateLoop_cases (d : CSnapshotDelta) (src : List UInt8) (Sixup : Bool)
    (hF : Reads pFrom fromItems) (n p : Nat) (h : Plain b items) (hlimits : Limits items) :
    LoopOutcome Obj_SixToSeven g_UuidManager d src Sixup pFrom fromItems n p b items := by
  induction n generalizing p b items with
  | zero =>
      refine .inl ⟨trivial, .inr b, rfl, fun b' heq => ?_⟩
      cases heq
      exact ⟨items, h, hlimits, fun x hx _ => hx⟩
  | succ n ih =>
      cases hread : readUpdate d src Sixup p with
      | none =>
          obtain ⟨e, he⟩ := updateLoop_rejected Obj_SixToSeven g_UuidManager hread
          refine .inl ⟨?_, .inl e, he, fun b' heq => by cases heq⟩
          unfold UpdatesFit
          rw [hread]
          trivial
      | some u =>
          have hindex := findIdx?_of_find? items u.Key
          cases hfind : items.find? fun x => x.Key == u.Key with
          | some x =>
              rw [hfind] at hindex
              obtain ⟨is, js, rfl, hkey, hsome⟩ := hindex
              exact h.update_found Obj_SixToSeven g_UuidManager hF hlimits hread hfind hkey hsome
                fun hb' hlimits' => ih _ hb' hlimits'
          | none =>
              rw [hfind] at hindex
              exact h.update_created Obj_SixToSeven g_UuidManager hF hread hfind hindex
                fun hb' hlimits' => ih _ hb' hlimits'

end

/-- The snapshot that is finished is valid and has the items. -/
theorem Plain.finish (h : Plain b items) (hlimits : Limits items) :
    b.Finish = .ok (snapOf items, (snapOf items).TotalSize) ∧
      (snapOf items).IsValid (snapOf items).TotalSize = true ∧ (snapOf items).Items = items :=
  ⟨h.holds.finish hlimits.count hlimits.size, isValid_snapOf hlimits.count hlimits.size,
    (reads_snapOf h.holds.keys).items_eq⟩

/-- Unpacking after the header was read. -/
theorem unpackDelta_eq (pFrom : CSnapshot) (hlen : 4 ≤ src.length) (h₀ : 0 ≤ intAt src 0)
    (h₁ : 4 * (3 + (intAt src 0).toNat) ≤ src.length) :
    d.UnpackDelta Obj_SixToSeven g_UuidManager pFrom src Sixup = (do
      match ← CopyLoop Obj_SixToSeven g_UuidManager pFrom (deletedOf src) pFrom.m_NumItems 0
          (CSnapshotBuilder.start false) with
      | .inl Error => return .inl Error
      | .inr Builder =>
          match ← d.UpdateLoop Obj_SixToSeven g_UuidManager pFrom src Sixup (intAt src 4).toNat
            (3 + (intAt src 0).toNat) Builder with
          | .inl Error => return .inl Error
          | .inr Builder => return .inr (← Builder.Finish).1) := by
  have hread₀ : readWord src 0 = .ok (intAt src 0) := readWord_eq hlen
  have hread₁ : readWord src 1 = .ok (intAt src 4) := readWord_eq (by omega)
  unfold UnpackDelta
  rw [hread₀, hread₁]
  simp only [bind, Except.bind]
  rw [if_neg (by omega), if_neg (by omega), CSnapshotBuilder.init_new]
  rfl

theorem unpackDelta_short (d : CSnapshotDelta) (Sixup : Bool) (pFrom : CSnapshot) (hlen : src.length < 4) :
    d.UnpackDelta Obj_SixToSeven g_UuidManager pFrom src Sixup = .error .outOfBounds := by
  have hread₀ : readWord src 0 = .error .outOfBounds := if_neg (by omega)
  unfold UnpackDelta
  rw [hread₀]
  rfl

theorem unpackDelta_rejected (pFrom : CSnapshot) (hlen : 4 ≤ src.length)
    (h : intAt src 0 < 0 ∨ src.length < 4 * (3 + (intAt src 0).toNat)) :
    ∃ e, d.UnpackDelta Obj_SixToSeven g_UuidManager pFrom src Sixup = .ok (.inl e) := by
  have hread₀ : readWord src 0 = .ok (intAt src 0) := readWord_eq hlen
  unfold UnpackDelta
  rw [hread₀]
  simp only [bind, Except.bind]
  by_cases h₀ : intAt src 0 < 0
  · rw [if_pos h₀]
    exact ⟨_, rfl⟩
  · rw [if_neg h₀, if_pos (h.resolve_left h₀)]
    exact ⟨_, rfl⟩

/-- Unpacking from the items that were kept: the updates decide. -/
theorem Plain.unpack_cases (d : CSnapshotDelta) (Sixup : Bool) {pFrom : CSnapshot} (hF : Reads pFrom pFrom.Items)
    (hlen : 4 ≤ src.length) (h₀ : 0 ≤ intAt src 0)
    (h₁ : 4 * (3 + (intAt src 0).toNat) ≤ src.length)
    (hcopy : CopyLoop Obj_SixToSeven g_UuidManager pFrom (deletedOf src) pFrom.m_NumItems 0
      (CSnapshotBuilder.start false) = .ok (.inr b))
    (h : Plain b items) (hlimits : Limits items)
    (hkept : ∀ x ∈ pFrom.Items, x.Key ∉ deletedOf src → x ∈ items) :
    Robust d src Sixup Obj_SixToSeven g_UuidManager pFrom ↔
      UpdatesFit d src Sixup pFrom.Items (intAt src 4).toNat (3 + (intAt src 0).toNat)
        (shapeOf items) := by
  unfold Robust
  rw [unpackDelta_eq Obj_SixToSeven g_UuidManager pFrom hlen h₀ h₁]
  simp only [hcopy, bind, Except.bind]
  rcases h.updateLoop_cases Obj_SixToSeven g_UuidManager d src Sixup hF (intAt src 4).toNat
      (3 + (intAt src 0).toNat) hlimits with ⟨hfits, r, hr, hdone⟩ | ⟨hfits, e, he⟩
  · refine iff_of_true ?_ hfits
    cases r with
    | inl e =>
        simp only [hr]
        exact ⟨.inl e, rfl, fun pTo heq => by cases heq⟩
    | inr b' =>
        obtain ⟨items', hplain, hlimits', hmem⟩ := hdone b' rfl
        obtain ⟨hfinish, hok, hitems⟩ := hplain.finish hlimits'
        simp only [hr, hfinish]
        refine ⟨.inr (snapOf items'), rfl, fun pTo heq => ?_⟩
        cases heq
        refine ⟨hok, fun x hx hdel hupd => ?_⟩
        rw [hitems]
        exact hmem x (hkept x hx hdel) hupd
  · refine iff_of_false ?_ hfits
    simp only [he]
    rintro ⟨r, hr, -⟩
    cases hr

end

/-- A valid snapshot and any bytes: unpacking is robust exactly where the sizes of the delta fit. -/
theorem unpack_any_delta (d : CSnapshotDelta) (Obj_SixToSeven : Int → Int)
    (g_UuidManager : CUuidManager) (src : List UInt8) (Sixup : Bool) {pFrom : CSnapshot}
    {ActualSize : Nat} (hvalid : pFrom.IsValid ActualSize = true) :
    Robust d src Sixup Obj_SixToSeven g_UuidManager pFrom ↔ DeltaFits d src Sixup pFrom := by
  obtain ⟨hreads, hkeys⟩ := reads_of_isValid hvalid
  have hcoded : (∃ e, d.UnpackDelta Obj_SixToSeven g_UuidManager pFrom src Sixup = .ok (.inl e)) →
      Robust d src Sixup Obj_SixToSeven g_UuidManager pFrom := by
    rintro ⟨e, he⟩
    exact ⟨.inl e, he, fun pTo heq => by cases heq⟩
  unfold DeltaFits
  by_cases hlen : 4 ≤ src.length
  · by_cases hhead : intAt src 0 < 0 ∨ src.length < 4 * (3 + (intAt src 0).toNat)
    · refine iff_of_true
        (hcoded (unpackDelta_rejected Obj_SixToSeven g_UuidManager pFrom hlen hhead)) ⟨hlen, ?_⟩
      intro h₀ h₁
      omega
    · have h₀ : 0 ≤ intAt src 0 := by omega
      have h₁ : 4 * (3 + (intAt src 0).toNat) ≤ src.length := by omega
      have hstart : Plain (CSnapshotBuilder.start false) [] := ⟨⟨rfl, rfl, by simp⟩, rfl⟩
      have hcopy := hreads.copyLoop_cases Obj_SixToSeven g_UuidManager hkeys (deletedOf src)
        (Nat.add_zero _) hstart limits_nil
      have hnil : shapeOf [] = [] := rfl
      rw [List.drop_zero, ← hreads.count, hnil] at hcopy
      cases hshape : copyShape (deletedOf src) pFrom.Items [] with
      | none =>
          rw [hshape] at hcopy
          obtain ⟨e, he⟩ := hcopy
          refine iff_of_true (hcoded ⟨e, ?_⟩) ⟨hlen, fun _ _ shape hmem => by cases hmem⟩
          rw [unpackDelta_eq Obj_SixToSeven g_UuidManager pFrom hlen h₀ h₁]
          simp only [he, bind, Except.bind]
          rfl
      | some shape =>
          rw [hshape] at hcopy
          obtain ⟨b, items, hrun, hb, hlimits, rfl, -, hkept⟩ := hcopy
          have hiff := hb.unpack_cases Obj_SixToSeven g_UuidManager d Sixup hreads hlen h₀ h₁
            hrun hlimits hkept
          constructor
          · intro hrobust
            exact ⟨hlen, fun _ _ shape heq => Option.some.inj heq ▸ hiff.mp hrobust⟩
          · rintro ⟨-, hall⟩
            exact hiff.mpr (hall h₀ h₁ _ rfl)
  · have hrun := unpackDelta_short Obj_SixToSeven g_UuidManager d Sixup pFrom
      (Nat.lt_of_not_le hlen)
    refine iff_of_false ?_ fun hc => hlen hc.1
    rintro ⟨r, hr, -⟩
    rw [hrun] at hr
    cases hr

/-- A snapshot of two items with an int each. -/
def exampleFrom : CSnapshot := snapOf [itemOf 1 0 (intBytes 5), itemOf 1 1 (intBytes 6)]

/-- One item is deleted, the other changes and a third is new. -/
theorem unpack_three :
    Robust exampleDelta ([1, 2, 0, 65536, 1, 1, 1, 2, 2, 0, 1, 7].flatMap intBytes) false id
      exampleUuids exampleFrom :=
  (unpack_any_delta exampleDelta id exampleUuids _ false
    (by decide : exampleFrom.IsValid 32 = true)).mpr (by decide)

/-- The delta says that an item of one int has two. -/
theorem unpack_larger :
    exampleFrom.IsValid 32 = true ∧
    ¬ Robust exampleDelta ([0, 1, 0, 1, 0, 2, 1, 2].flatMap intBytes) false id exampleUuids
      exampleFrom := by
  constructor
  · decide
  · rintro ⟨r, hr, -⟩
    have herror : (exampleDelta.UnpackDelta id exampleUuids exampleFrom
        ([0, 1, 0, 1, 0, 2, 1, 2].flatMap intBytes) false).isOk = false := by decide
    rw [hr] at herror
    cases herror

end Fex.Engine.Snapshot
