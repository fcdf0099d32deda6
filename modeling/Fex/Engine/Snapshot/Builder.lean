import Fex.Engine.Snapshot.Layout
import Fex.Lib.Run
import Mathlib.Data.List.Nodup

/-!
# Runs of the snapshot builder

`NewItem` checks for room before an extended type may add the item that
describes it.  Where there is room for both, every run stays within the limits
and the snapshot is valid.
-/

namespace Fex.Engine.Snapshot

open Fex.Lib

variable (Obj_SixToSeven : Int → Int) (g_UuidManager : CUuidManager)

/-- The limits of a snapshot. -/
structure Limits (items : List CSnapshotItem) : Prop where
  count : items.length ≤ MAX_ITEMS
  size : (snapOf items).TotalSize ≤ MAX_SIZE

/-- The type is one that the UUID manager knows. -/
def Registered (TypeId : Int) : Prop := ∃ Uuid, g_UuidManager.GetUuid TypeId = .ok Uuid

/-- The item that describes an extended type; the 0.7 protocol may have none. -/
def typeItems (Sixup : Bool) (Index : Nat) (Uuid : CUuid) : List CSnapshotItem :=
  if Sixup = true ∧ Obj_SixToSeven 0 < 0 then []
  else [{ m_TypeAndId := makeKey (if Sixup then Obj_SixToSeven 0 else 0)
            (CSnapshotBuilder.GetTypeFromIndex Index)
          Data := CSnapshot.uuidData Uuid }]

theorem totalSize_snapOf (items : List CSnapshotItem) :
    (snapOf items).TotalSize = 8 + 4 * items.length + (area items).length := by
  unfold CSnapshot.TotalSize
  rw [m_NumItems_snapOf, m_DataSize_snapOf]

theorem length_uuidData (Uuid : CUuid) : (CSnapshot.uuidData Uuid).length = 16 := by
  have hlen : Uuid.toList.length = 16 := Vector.length_toList
  have hbytes := congrArg List.length (bytesBE_intsBE (l := Uuid.toList) (by rw [hlen]))
  have hwords : (bytesBE (intsBE Uuid.toList)).length = 4 * (intsBE Uuid.toList).length := by
    unfold bytesBE
    rw [List.length_flatMap]
    simp [Nat.mul_comm]
  unfold CSnapshot.uuidData
  rw [length_flatMap_intBytes, ← hwords, hbytes, hlen]

namespace Holds

variable {b : CSnapshotBuilder} {items : List CSnapshotItem}

theorem hasRoom_iff (h : Holds b items) (Size : Nat) :
    b.HasRoom Size ↔
      items.length < MAX_ITEMS ∧ (snapOf items).TotalSize + (8 + Size) ≤ MAX_SIZE := by
  unfold CSnapshotBuilder.HasRoom
  rw [h.numItems, h.dataSize, totalSize_snapOf]
  omega

/-- An item put where there is room. -/
theorem putItem_of_room (h : Holds b items) (ItemType Id : Int) {Size : Nat}
    (hroom : b.HasRoom Size) :
    ∃ b', b.PutItem ItemType Id Size = .ok (b', .data items.length) ∧
      b'.m_aExtendedItemTypes = b.m_aExtendedItemTypes ∧ b'.m_Sixup = b.m_Sixup ∧
      Holds b' (items ++ [{ m_TypeAndId := makeKey ItemType Id, Data := List.replicate Size 0 }]) := by
  obtain ⟨hcount, hsize⟩ := hroom
  exact h.putItem ItemType Id (by omega) hcount

/-- The item of an extended type is added or there is no room. -/
theorem addExtendedItemType (h : Holds b items) {Index : Nat} {TypeId : Int} {Uuid : CUuid}
    (htype : b.m_aExtendedItemTypes[Index]? = some TypeId)
    (huuid : g_UuidManager.GetUuid TypeId = .ok Uuid) (hindex : Index < MAX_EXTENDED_ITEM_TYPES) :
    ∃ b' r, b.AddExtendedItemType Obj_SixToSeven g_UuidManager Index = .ok (b', r) ∧
      ((r = false ∧ b' = b ∧ ¬ b.HasRoom 16) ∨
       (r = true ∧ b.HasRoom 16 ∧ b'.m_aExtendedItemTypes = b.m_aExtendedItemTypes ∧
        b'.m_Sixup = b.m_Sixup ∧
        Holds b' (items ++ typeItems Obj_SixToSeven b.m_Sixup Index Uuid))) := by
  have hmax : MAX_EXTENDED_ITEM_TYPES = 64 := rfl
  have hid : CSnapshotBuilder.GetTypeFromIndex Index ≠ -1 := by
    unfold CSnapshotBuilder.GetTypeFromIndex MAX_TYPE
    omega
  have hplain : ¬ (0 : Int) ≥ OFFSET_UUID := by decide
  unfold CSnapshotBuilder.AddExtendedItemType CSnapshotBuilder.NewItemWith
  rw [if_neg hid]
  by_cases hroom : b.HasRoom 16
  · rw [if_neg (not_not.mpr hroom), if_neg hplain]
    -- an item with the bytes of the UUID
    have hput : ∀ t, ∃ b₁ b₂,
        b.PutItem t (CSnapshotBuilder.GetTypeFromIndex Index) 16 =
          .ok (b₁, .data items.length) ∧
        b₁.m_aExtendedItemTypes = b.m_aExtendedItemTypes ∧
        b₁.WriteData items.length (CSnapshot.uuidData Uuid) = .ok b₂ ∧
        b₂.m_aExtendedItemTypes = b.m_aExtendedItemTypes ∧ b₂.m_Sixup = b.m_Sixup ∧
        Holds b₂ (items ++ [{ m_TypeAndId := makeKey t (CSnapshotBuilder.GetTypeFromIndex Index)
                              Data := CSnapshot.uuidData Uuid }]) := by
      intro t
      obtain ⟨b₁, hput, hext₁, hsixup₁, h₁⟩ :=
        h.putItem_of_room t (CSnapshotBuilder.GetTypeFromIndex Index) hroom
      have hle : (CSnapshot.uuidData Uuid).length ≤ (List.replicate 16 (0 : UInt8)).length := by
        rw [length_uuidData, List.length_replicate]
      obtain ⟨b₂, hwrite, hext₂, hsixup₂, h₂⟩ := h₁.writeData hle
      refine ⟨b₁, b₂, hput, hext₁, hwrite, hext₂.trans hext₁, hsixup₂.trans hsixup₁, ?_⟩
      simpa [length_uuidData] using h₂
    by_cases hsixup : b.m_Sixup = true
    · rw [if_pos hsixup, if_pos (Int.le_refl 0)]
      by_cases hobj : Obj_SixToSeven 0 < 0
      · refine ⟨b, true, ?_, .inr ⟨rfl, hroom, rfl, rfl, ?_⟩⟩
        · simp only [hobj, if_true, bind, Except.bind, htype, huuid]
          rfl
        · rw [typeItems, if_pos ⟨hsixup, hobj⟩, List.append_nil]
          exact h
      · obtain ⟨b₁, b₂, hitem, hext₁, hwrite, hext, hsix, hb⟩ := hput (Obj_SixToSeven 0)
        refine ⟨b₂, true, ?_, .inr ⟨rfl, hroom, hext, hsix, ?_⟩⟩
        · simp only [hobj, if_false, hitem, bind, Except.bind, hext₁, htype, huuid, hwrite]
          rfl
        · rw [typeItems, if_neg (fun hc => hobj hc.2), if_pos hsixup]
          exact hb
    · rw [if_neg hsixup, if_neg (Int.lt_irrefl 0)]
      obtain ⟨b₁, b₂, hitem, hext₁, hwrite, hext, hsix, hb⟩ := hput 0
      refine ⟨b₂, true, ?_, .inr ⟨rfl, hroom, hext, hsix, ?_⟩⟩
      · simp only [hitem, bind, Except.bind, hext₁, htype, huuid, hwrite]
        rfl
      · rw [typeItems, if_neg (fun hc => hsixup hc.1), if_neg hsixup]
        exact hb
  · rw [if_pos hroom]
    refine ⟨b, false, ?_, .inl ⟨rfl, rfl, hroom⟩⟩
    simp only [bind, Except.bind, htype]
    rfl

end Holds

/-- The item that `NewItem` adds. -/
def newItem (ItemType Id : Int) (Size : Nat) : CSnapshotItem :=
  { m_TypeAndId := makeKey ItemType Id, Data := List.replicate Size 0 }

/-- The type under which an item of a plain type is stored. -/
def storedType (Sixup : Bool) (ItemType : Int) : Int :=
  if Sixup then (if ItemType ≥ 0 then Obj_SixToSeven ItemType else -ItemType) else ItemType

/-- What a call of `NewItem` on `n` items adds: the extended types afterwards, the pointer and the
new items. -/
inductive Added (b : CSnapshotBuilder) (n : Nat) (ItemType Id : Int) (Size : Nat) :
    List Int → CItemPtr → List CSnapshotItem → Prop
  | nothing (p : CItemPtr) (hp : ∀ i, p ≠ .data i) :
      Added b n ItemType Id Size b.m_aExtendedItemTypes p []
  | plain (htype : ItemType < OFFSET_UUID) (hstored : 0 ≤ storedType Obj_SixToSeven b.m_Sixup ItemType) :
      Added b n ItemType Id Size b.m_aExtendedItemTypes (.data n)
        [newItem (storedType Obj_SixToSeven b.m_Sixup ItemType) Id Size]
  | known (htype : OFFSET_UUID ≤ ItemType) (Index : Nat)
      (hindex : b.m_aExtendedItemTypes[Index]? = some ItemType) :
      Added b n ItemType Id Size b.m_aExtendedItemTypes (.data n)
        [newItem (CSnapshotBuilder.GetTypeFromIndex Index) Id Size]
  | extended (htype : OFFSET_UUID ≤ ItemType) (hnew : ItemType ∉ b.m_aExtendedItemTypes)
      (Uuid : CUuid) (huuid : g_UuidManager.GetUuid ItemType = .ok Uuid) :
      Added b n ItemType Id Size (b.m_aExtendedItemTypes ++ [ItemType])
        (.data (n + (typeItems Obj_SixToSeven b.m_Sixup b.m_NumExtendedItemTypes Uuid).length))
        (typeItems Obj_SixToSeven b.m_Sixup b.m_NumExtendedItemTypes Uuid ++
          [newItem (CSnapshotBuilder.GetTypeFromIndex b.m_NumExtendedItemTypes) Id Size])

/-- A new extended type and its item both fit. -/
def BothFit (b : CSnapshotBuilder) (ItemType Id : Int) (Size : Nat) : Prop :=
  ItemType ≥ OFFSET_UUID → ItemType ∉ b.m_aExtendedItemTypes → Id ≠ -1 → b.HasRoom Size →
  ¬ (b.m_Sixup = true ∧ Obj_SixToSeven 0 < 0) →
  b.m_NumItems + 2 ≤ MAX_ITEMS ∧
    8 + 4 * (b.m_NumItems + 2) + b.m_DataSize + (4 + 16) + (4 + Size) ≤ MAX_SIZE

namespace Holds

variable {b : CSnapshotBuilder} {items : List CSnapshotItem}

theorem limits_append (hlimits : Limits items) {added : List CSnapshotItem}
    (hcount : items.length + added.length ≤ MAX_ITEMS)
    (hsize : (snapOf items).TotalSize + 4 * added.length + (area added).length ≤ MAX_SIZE) :
    Limits (items ++ added) := by
  constructor
  · rw [List.length_append]
    exact hcount
  · rw [totalSize_snapOf] at hsize ⊢
    rw [List.length_append, area_append, List.length_append]
    omega

theorem limits_room (h : Holds b items) (hlimits : Limits items) (ItemType Id : Int) {Size : Nat}
    (hroom : b.HasRoom Size) : Limits (items ++ [newItem ItemType Id Size]) := by
  obtain ⟨hcount, hsize⟩ := (h.hasRoom_iff Size).mp hroom
  apply limits_append hlimits
  · rw [List.length_singleton]
    exact hcount
  · simp only [area_cons, area_nil, List.append_nil, CSnapshotItem.length_encode, newItem,
      List.length_replicate, List.length_singleton]
    omega

theorem length_area_typeItems (Sixup : Bool) (Index : Nat) (Uuid : CUuid) :
    (area (typeItems Obj_SixToSeven Sixup Index Uuid)).length =
      20 * (typeItems Obj_SixToSeven Sixup Index Uuid).length := by
  unfold typeItems
  split
  · rfl
  · simp [length_uuidData]

theorem limits_typeItems (h : Holds b items) (hlimits : Limits items) (hroom : b.HasRoom 16)
    (Sixup : Bool) (Index : Nat) (Uuid : CUuid) :
    Limits (items ++ typeItems Obj_SixToSeven Sixup Index Uuid) := by
  obtain ⟨hcount, hsize⟩ := (h.hasRoom_iff 16).mp hroom
  have hone : (typeItems Obj_SixToSeven Sixup Index Uuid).length ≤ 1 := by
    unfold typeItems
    split <;> simp
  apply limits_append hlimits
  · omega
  · rw [length_area_typeItems]
    omega

theorem extended_fits (h : Holds b items) {ItemType Id : Int} {Size : Nat}
    (hext : ItemType ≥ OFFSET_UUID) (hnew : ItemType ∉ b.m_aExtendedItemTypes) (hid : Id ≠ -1)
    (hroom : b.HasRoom Size) (hfit : BothFit Obj_SixToSeven b ItemType Id Size) (Index : Nat)
    (Uuid : CUuid) :
    items.length + (typeItems Obj_SixToSeven b.m_Sixup Index Uuid).length + 1 ≤ MAX_ITEMS ∧
      8 + 4 * (items.length + (typeItems Obj_SixToSeven b.m_Sixup Index Uuid).length + 1) +
        (area items).length + 20 * (typeItems Obj_SixToSeven b.m_Sixup Index Uuid).length +
          (4 + Size) ≤ MAX_SIZE := by
  unfold typeItems
  by_cases hnone : b.m_Sixup = true ∧ Obj_SixToSeven 0 < 0
  · obtain ⟨hcount, hsize⟩ := (h.hasRoom_iff Size).mp hroom
    rw [totalSize_snapOf] at hsize
    rw [if_pos hnone, List.length_nil]
    omega
  · have hboth := hfit hext hnew hid hroom hnone
    rw [h.numItems, h.dataSize] at hboth
    rw [if_neg hnone, List.length_singleton]
    omega

/-- A new extended type and its item stay within the limits. -/
theorem limits_extended (hlimits : Limits items) {Sixup : Bool} {Index Size : Nat} {Uuid : CUuid}
    {ItemType Id : Int}
    (hfits : items.length + (typeItems Obj_SixToSeven Sixup Index Uuid).length + 1 ≤ MAX_ITEMS ∧
      8 + 4 * (items.length + (typeItems Obj_SixToSeven Sixup Index Uuid).length + 1) +
        (area items).length + 20 * (typeItems Obj_SixToSeven Sixup Index Uuid).length +
          (4 + Size) ≤ MAX_SIZE) :
    Limits (items ++ (typeItems Obj_SixToSeven Sixup Index Uuid ++ [newItem ItemType Id Size])) := by
  apply limits_append hlimits
  · rw [List.length_append, List.length_singleton, ← Nat.add_assoc]
    exact hfits.1
  · simp only [totalSize_snapOf, area_append, List.length_append, length_area_typeItems,
      List.length_singleton, area_cons, area_nil, List.append_nil, CSnapshotItem.length_encode,
      newItem, List.length_replicate]
    omega

/-- A call of `NewItem` adds items within the limits. -/
theorem newItem (h : Holds b items) (hlimits : Limits items) {ItemType Id : Int} {Size : Nat}
    (hreg : ItemType ≥ OFFSET_UUID → Registered g_UuidManager ItemType)
    (hcap : ItemType ≥ OFFSET_UUID → ItemType ∈ b.m_aExtendedItemTypes ∨
      b.m_NumExtendedItemTypes < MAX_EXTENDED_ITEM_TYPES)
    (hfit : BothFit Obj_SixToSeven b ItemType Id Size) :
    ∃ b' p added, b.NewItem Obj_SixToSeven g_UuidManager ItemType Id Size = .ok (b', p) ∧
      Added Obj_SixToSeven g_UuidManager b items.length ItemType Id Size b'.m_aExtendedItemTypes p
        added ∧
      b'.m_Sixup = b.m_Sixup ∧ Holds b' (items ++ added) ∧ Limits (items ++ added) := by
  have hsame : ∀ p : CItemPtr, (∀ i, p ≠ .data i) →
      ∃ b' p' added, (.ok (b, p) : Exec (CSnapshotBuilder × CItemPtr)) = .ok (b', p') ∧
      Added Obj_SixToSeven g_UuidManager b items.length ItemType Id Size b'.m_aExtendedItemTypes p'
        added ∧
      b'.m_Sixup = b.m_Sixup ∧ Holds b' (items ++ added) ∧ Limits (items ++ added) := by
    intro p hp
    refine ⟨b, p, [], rfl, .nothing p hp, rfl, ?_, ?_⟩
    · rw [List.append_nil]
      exact h
    · rw [List.append_nil]
      exact hlimits
  unfold CSnapshotBuilder.NewItem CSnapshotBuilder.NewItemWith
  by_cases hid : Id = -1
  · rw [if_pos hid]
    exact hsame .null (by simp)
  rw [if_neg hid]
  by_cases hroom : b.HasRoom Size
  · rw [if_neg (not_not.mpr hroom)]
    by_cases hext : ItemType ≥ OFFSET_UUID
    · rw [if_pos hext]
      obtain ⟨Uuid, huuid⟩ := hreg hext
      unfold CSnapshotBuilder.GetExtendedItemTypeIndex
      cases hfind : b.m_aExtendedItemTypes.findIdx? (· == ItemType) with
      | some i =>
          obtain ⟨hi, hget, -⟩ := List.findIdx?_eq_some_iff_getElem.mp hfind
          obtain ⟨b', hput, hext', hsixup', hb'⟩ :=
            h.putItem_of_room (CSnapshotBuilder.GetTypeFromIndex i) Id hroom
          refine ⟨b', .data items.length, _, hput, ?_, hsixup', hb', h.limits_room hlimits _ Id hroom⟩
          rw [hext']
          apply Added.known hext i
          rw [List.getElem?_eq_getElem hi]
          simpa using hget
      | none =>
          have hnew : ItemType ∉ b.m_aExtendedItemTypes := by
            intro hmem
            have hall := List.findIdx?_eq_none_iff.mp hfind ItemType hmem
            simp at hall
          have hlt := (hcap hext).resolve_left hnew
          simp only
          rw [if_neg (by omega)]
          set b₁ : CSnapshotBuilder :=
            { b with m_aExtendedItemTypes := b.m_aExtendedItemTypes ++ [ItemType] } with hb₁
          have h₁ : Holds b₁ items := h.congr rfl rfl
          have htype : b₁.m_aExtendedItemTypes[b.m_NumExtendedItemTypes]? = some ItemType := by
            show (b.m_aExtendedItemTypes ++ [ItemType])[b.m_aExtendedItemTypes.length]? = _
            rw [List.getElem?_append_right (by simp), Nat.sub_self]
            rfl
          obtain ⟨b₂, r, hadd, hcases⟩ :=
            h₁.addExtendedItemType Obj_SixToSeven g_UuidManager htype huuid hlt
          rcases hcases with ⟨rfl, rfl, -⟩ | ⟨rfl, hroom₁, hext₂, hsixup₂, h₂⟩
          · have hdrop : (⟨b₁.m_aData, b₁.m_aOffsets, b₁.m_aExtendedItemTypes.dropLast,
                b₁.m_Sixup⟩ : CSnapshotBuilder) = b := by
              rw [hb₁]
              simp
            simp only [bind, Except.bind, hadd]
            show ∃ b' p' added, (.ok (_, _) : Exec (CSnapshotBuilder × CItemPtr)) = _ ∧ _
            rw [hdrop]
            exact hsame .null (by simp)
          · set ti := typeItems Obj_SixToSeven b₁.m_Sixup b.m_NumExtendedItemTypes Uuid with hti
            have hfits := h.extended_fits Obj_SixToSeven hext hnew hid hroom hfit
              b.m_NumExtendedItemTypes Uuid
            rw [show typeItems Obj_SixToSeven b.m_Sixup b.m_NumExtendedItemTypes Uuid = ti from rfl]
              at hfits
            have harea : (area (items ++ ti)).length = (area items).length + 20 * ti.length := by
              rw [area_append, List.length_append, hti, length_area_typeItems]
            have hsize₂ : b₂.m_DataSize + (4 + Size) ≤ MAX_SIZE := by
              rw [h₂.dataSize, harea]
              omega
            have hcount₂ : b₂.m_NumItems < MAX_ITEMS := by
              rw [h₂.numItems, List.length_append]
              omega
            obtain ⟨b₃, hput, hext₃, hsixup₃, h₃⟩ :=
              h₂.putItem (CSnapshotBuilder.GetTypeFromIndex b.m_NumExtendedItemTypes) Id hsize₂ hcount₂
            rw [List.append_assoc] at h₃
            rw [List.length_append] at hput
            refine ⟨b₃, .data (items.length + ti.length), _, ?_, ?_, hsixup₃.trans hsixup₂, h₃, ?_⟩
            · simp only [bind, Except.bind, hadd, if_true]
              exact hput
            · rw [hext₃, hext₂]
              exact Added.extended hext hnew Uuid huuid
            · exact limits_extended Obj_SixToSeven hlimits hfits
    · rw [if_neg hext]
      have hplain : ItemType < OFFSET_UUID := by omega
      by_cases hstored : 0 ≤ storedType Obj_SixToSeven b.m_Sixup ItemType
      · obtain ⟨b', hput, hext', hsixup', hb'⟩ :=
          h.putItem_of_room (storedType Obj_SixToSeven b.m_Sixup ItemType) Id hroom
        refine ⟨b', .data items.length, _, ?_, ?_, hsixup', hb', h.limits_room hlimits _ Id hroom⟩
        · unfold storedType at hstored hput
          by_cases hsixup : b.m_Sixup = true
          · rw [if_pos hsixup] at hstored hput ⊢
            rw [if_neg (by omega)]
            exact hput
          · rw [if_neg hsixup] at hstored hput ⊢
            rw [if_neg (by omega)]
            exact hput
        · rw [hext']
          exact Added.plain hplain hstored
      · unfold storedType at hstored
        by_cases hsixup : b.m_Sixup = true
        · rw [if_pos hsixup] at hstored ⊢
          rw [if_pos (by omega)]
          exact hsame .unused (by simp)
        · rw [if_neg hsixup] at hstored ⊢
          rw [if_pos (by omega)]
          exact hsame .null (by simp)
  · rw [if_pos hroom]
    exact hsame .null (by simp)

/-- The items of the extended types are added again, as long as there is room. -/
theorem initLoop (h : Holds b items) (hlimits : Limits items)
    (hreg : ∀ T ∈ b.m_aExtendedItemTypes, Registered g_UuidManager T)
    (hcap : b.m_NumExtendedItemTypes ≤ MAX_EXTENDED_ITEM_TYPES) {n i : Nat}
    (hn : n + i = b.m_NumExtendedItemTypes) :
    ∃ b' added, b.InitLoop Obj_SixToSeven g_UuidManager n i = .ok b' ∧
      b'.m_aExtendedItemTypes = b.m_aExtendedItemTypes ∧ b'.m_Sixup = b.m_Sixup ∧
      Holds b' (items ++ added) ∧ Limits (items ++ added) := by
  induction n generalizing b items i with
  | zero =>
      refine ⟨b, [], rfl, rfl, rfl, ?_, ?_⟩
      · rw [List.append_nil]
        exact h
      · rw [List.append_nil]
        exact hlimits
  | succ n ih =>
      have hi : i < b.m_aExtendedItemTypes.length := by
        unfold CSnapshotBuilder.m_NumExtendedItemTypes at hn
        omega
      have htype := List.getElem?_eq_getElem hi
      obtain ⟨Uuid, huuid⟩ := hreg _ (List.getElem_mem hi)
      obtain ⟨b₁, r, hadd, hcases⟩ :=
        h.addExtendedItemType Obj_SixToSeven g_UuidManager htype huuid (Nat.lt_of_lt_of_le hi hcap)
      rcases hcases with ⟨rfl, rfl, -⟩ | ⟨rfl, hroom, hext₁, hsixup₁, h₁⟩
      · obtain ⟨b', added, hrun, hrest⟩ := ih h hlimits hreg hcap (i := i + 1) (by omega)
        refine ⟨b', added, ?_, hrest⟩
        unfold CSnapshotBuilder.InitLoop
        simp only [hadd, bind, Except.bind]
        exact hrun
      · have hlimits₁ := h.limits_typeItems Obj_SixToSeven hlimits hroom b.m_Sixup i Uuid
        obtain ⟨b', added, hrun, hext', hsixup', h', hlimits'⟩ := ih h₁ hlimits₁ (by rw [hext₁]; exact hreg)
          (by unfold CSnapshotBuilder.m_NumExtendedItemTypes; rw [hext₁]; exact hcap) (i := i + 1)
          (by unfold CSnapshotBuilder.m_NumExtendedItemTypes at hn ⊢; rw [hext₁]; omega)
        rw [List.append_assoc] at h' hlimits'
        refine ⟨b', _, ?_, hext'.trans hext₁, hsixup'.trans hsixup₁, h', hlimits'⟩
        unfold CSnapshotBuilder.InitLoop
        simp only [hadd, bind, Except.bind]
        exact hrun

end Holds

/-! ## Runs -/

namespace CSnapshotBuilder

inductive Call
  | Init (Sixup : Bool)
  | NewItem (ItemType Id : Int) (Size : Nat)
  | WriteData (Index : Nat) (bytes : List UInt8)

def step (b : CSnapshotBuilder) : Call → Exec CSnapshotBuilder
  | .Init Sixup => b.Init Obj_SixToSeven g_UuidManager Sixup
  | .NewItem ItemType Id Size => do
      return (← b.NewItem Obj_SixToSeven g_UuidManager ItemType Id Size).1
  | .WriteData Index bytes => b.WriteData Index bytes

/-- Extended types are registered and not too many, and data is written within its item. -/
def Allowed (b : CSnapshotBuilder) : Call → Prop
  | .Init _ => True
  | .NewItem ItemType _ _ => ItemType ≥ OFFSET_UUID → Registered g_UuidManager ItemType ∧
      (ItemType ∈ b.m_aExtendedItemTypes ∨ b.m_NumExtendedItemTypes < MAX_EXTENDED_ITEM_TYPES)
  | .WriteData Index bytes =>
      ∃ o, b.m_aOffsets[Index]? = some o ∧ o + 4 + bytes.length ≤ b.ItemEnd Index

/-- What the calls must meet beyond this for the limits to hold. -/
def Fitting (b : CSnapshotBuilder) (c : Call) : Prop :=
  Allowed g_UuidManager b c ∧
    ∀ ItemType Id Size, c = .NewItem ItemType Id Size → BothFit Obj_SixToSeven b ItemType Id Size

/-- After the first `Init`. -/
def start (Sixup : Bool) : CSnapshotBuilder := { CSnapshotBuilder.new with m_Sixup := Sixup }

theorem init_new (Sixup : Bool) :
    CSnapshotBuilder.new.Init Obj_SixToSeven g_UuidManager Sixup = .ok (start Sixup) := rfl

/-- Items within the limits and extended types that are known. -/
structure Invariant (b : CSnapshotBuilder) : Prop where
  holds : ∃ items, Holds b items ∧ Limits items
  types : b.m_NumExtendedItemTypes ≤ MAX_EXTENDED_ITEM_TYPES
  registered : ∀ T ∈ b.m_aExtendedItemTypes, Registered g_UuidManager T
  distinct : b.m_aExtendedItemTypes.Nodup

end CSnapshotBuilder

open CSnapshotBuilder

/-- An offset belongs to an item. -/
theorem Holds.split {b : CSnapshotBuilder} {items : List CSnapshotItem} (h : Holds b items)
    {i o : Nat} (ho : b.m_aOffsets[i]? = some o) :
    ∃ is x js, items = is ++ x :: js ∧ i = is.length := by
  have hi : i < items.length := by
    rw [h.offsets] at ho
    obtain ⟨hi, -⟩ := List.getElem?_eq_some_iff.mp ho
    rw [length_offsetsFrom] at hi
    exact hi
  refine ⟨items.take i, items[i], items.drop (i + 1), ?_, ?_⟩
  · rw [List.getElem_cons_drop, List.take_append_drop]
  · rw [List.length_take_of_le (Nat.le_of_lt hi)]

theorem Added.numTypes {b : CSnapshotBuilder} {n Size : Nat} {ItemType Id : Int} {ext : List Int}
    {p : CItemPtr} {added : List CSnapshotItem}
    (h : Added Obj_SixToSeven g_UuidManager b n ItemType Id Size ext p added)
    (hcap : ItemType ≥ OFFSET_UUID → ItemType ∈ b.m_aExtendedItemTypes ∨
      b.m_NumExtendedItemTypes < MAX_EXTENDED_ITEM_TYPES)
    (hle : b.m_NumExtendedItemTypes ≤ MAX_EXTENDED_ITEM_TYPES) :
    ext.length ≤ MAX_EXTENDED_ITEM_TYPES := by
  cases h with
  | nothing => exact hle
  | plain => exact hle
  | known => exact hle
  | extended htype hnew =>
      have hlt := (hcap htype).resolve_left hnew
      rw [List.length_append, List.length_singleton]
      exact hlt

theorem Added.registered {b : CSnapshotBuilder} {n Size : Nat} {ItemType Id : Int} {ext : List Int}
    {p : CItemPtr} {added : List CSnapshotItem}
    (h : Added Obj_SixToSeven g_UuidManager b n ItemType Id Size ext p added)
    (hreg : ∀ T ∈ b.m_aExtendedItemTypes, Registered g_UuidManager T) :
    ∀ T ∈ ext, Registered g_UuidManager T := by
  cases h with
  | nothing => exact hreg
  | plain => exact hreg
  | known => exact hreg
  | extended htype hnew Uuid huuid =>
      intro T hT
      rcases List.mem_append.mp hT with hT | hT
      · exact hreg T hT
      · rw [List.mem_singleton.mp hT]
        exact ⟨Uuid, huuid⟩

theorem Added.distinct {b : CSnapshotBuilder} {n Size : Nat} {ItemType Id : Int} {ext : List Int}
    {p : CItemPtr} {added : List CSnapshotItem}
    (h : Added Obj_SixToSeven g_UuidManager b n ItemType Id Size ext p added)
    (hnodup : b.m_aExtendedItemTypes.Nodup) : ext.Nodup := by
  cases h with
  | nothing => exact hnodup
  | plain => exact hnodup
  | known => exact hnodup
  | extended htype hnew =>
      rw [List.nodup_append]
      refine ⟨hnodup, List.nodup_singleton _, fun a ha c hc => ?_⟩
      rw [List.mem_singleton.mp hc]
      exact fun heq => hnew (heq ▸ ha)

theorem limits_nil : Limits [] := ⟨by decide, by decide⟩

theorem CSnapshotBuilder.Invariant.step {b : CSnapshotBuilder} (h : Invariant g_UuidManager b) {c : Call}
    (hc : Fitting Obj_SixToSeven g_UuidManager b c) :
    ∃ t, CSnapshotBuilder.step Obj_SixToSeven g_UuidManager b c = .ok t ∧
      Invariant g_UuidManager t := by
  obtain ⟨⟨items, hholds, hlimits⟩, htypes, hreg, hdistinct⟩ := h
  obtain ⟨hallowed, hfit⟩ := hc
  cases c with
  | Init Sixup =>
      have hempty : Holds { b with m_aData := [], m_aOffsets := [], m_Sixup := Sixup } [] :=
        ⟨rfl, rfl, by simp⟩
      obtain ⟨t, added, hrun, hext, -, ht, hlimits'⟩ :=
        hempty.initLoop Obj_SixToSeven g_UuidManager limits_nil hreg htypes (Nat.add_zero _)
      refine ⟨t, hrun, ⟨added, ht, hlimits'⟩, ?_, ?_, ?_⟩
      · unfold m_NumExtendedItemTypes
        rw [hext]
        exact htypes
      · rw [hext]
        exact hreg
      · rw [hext]
        exact hdistinct
  | NewItem ItemType Id Size =>
      obtain ⟨t, p, added, hrun, hadded, -, ht, hlimits'⟩ :=
        hholds.newItem Obj_SixToSeven g_UuidManager hlimits (fun hext => (hallowed hext).1)
          (fun hext => (hallowed hext).2) (hfit ItemType Id Size rfl)
      refine ⟨t, ?_, ⟨_, ht, hlimits'⟩, ?_, ?_, ?_⟩
      · simp only [CSnapshotBuilder.step, hrun]
        rfl
      · have hlen := hadded.numTypes Obj_SixToSeven g_UuidManager (fun hext => (hallowed hext).2) htypes
        exact hlen
      · exact hadded.registered Obj_SixToSeven g_UuidManager hreg
      · exact hadded.distinct Obj_SixToSeven g_UuidManager hdistinct
  | WriteData Index bytes =>
      obtain ⟨o, ho, hend⟩ := hallowed
      obtain ⟨is, i, js, rfl, rfl⟩ := hholds.split ho
      rw [hholds.itemEnd] at hend
      have ho' := getElem?_offsetsFrom 0 is i js
      rw [← hholds.offsets, ho] at ho'
      have hle : bytes.length ≤ i.Data.length := by
        have ho'' := Option.some.inj ho'
        omega
      obtain ⟨t, hwrite, hext, -, ht⟩ := hholds.writeData hle
      have hlen : (bytes ++ i.Data.drop bytes.length).length = i.Data.length := by
        rw [List.length_append, List.length_drop]
        omega
      refine ⟨t, hwrite, ⟨_, ht, ?_⟩, ?_, ?_, ?_⟩
      · constructor
        · simpa using hlimits.count
        · have hsize := hlimits.size
          simp only [totalSize_snapOf, area_append, area_cons, List.length_append, List.length_cons,
            CSnapshotItem.length_encode, hlen] at hsize ⊢
          exact hsize
      · unfold m_NumExtendedItemTypes
        rw [hext]
        exact htypes
      · rw [hext]
        exact hreg
      · rw [hext]
        exact hdistinct

theorem CSnapshotBuilder.invariant_of_run {Sixup : Bool} {b : CSnapshotBuilder}
    (h : Reachable (CSnapshotBuilder.step Obj_SixToSeven g_UuidManager)
      (Fitting Obj_SixToSeven g_UuidManager) (start Sixup) b) : Invariant g_UuidManager b := by
  apply h.invariant
  · exact ⟨⟨[], ⟨rfl, rfl, by simp⟩, limits_nil⟩, Nat.zero_le _, by simp [start, CSnapshotBuilder.new],
      List.nodup_nil⟩
  · intro s t c hs hc hstep
    obtain ⟨t', hstep', ht'⟩ := hs.step Obj_SixToSeven g_UuidManager hc
    rw [hstep] at hstep'
    rw [Except.ok.inj hstep']
    exact ht'

/-- One registered extended type. -/
def exampleUuids : CUuidManager :=
  { m_vNames := [Vector.replicate 16 7]
    m_vNamesSorted := [{ m_Uuid := Vector.replicate 16 7, m_Id := 0 }] }

end Fex.Engine.Snapshot
