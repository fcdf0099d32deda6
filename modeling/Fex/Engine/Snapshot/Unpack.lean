import Fex.Engine.Snapshot.Create
import Fex.Engine.Snapshot.Find
import Mathlib.Algebra.BigOperators.Group.List.Basic

/-!
# Unpacking what was created

`UnpackDelta` keeps the old items that are not deleted and puts the data of
each chunk under its key.  The items it builds never outgrow those of the new
snapshot.
-/

namespace Fex.Engine.Snapshot

open Fex.Lib CSnapshotDelta

/-! ## Items of a target -/

/-- Distinct keys, each that of an item of `toItems` with data of the same size. -/
structure Within (items toItems : List CSnapshotItem) : Prop where
  keys : (items.map CSnapshotItem.Key).Nodup
  target : ∀ x ∈ items, ∃ t ∈ toItems, t.Key = x.Key ∧ t.Data.length = x.Data.length

theorem length_area (items : List CSnapshotItem) :
    (area items).length = (items.map fun x => 4 + x.Data.length).sum := by
  induction items with
  | nil => rfl
  | cons x items ih =>
      rw [area_cons, List.length_append, CSnapshotItem.length_encode, ih, List.map_cons, List.sum_cons]

/-- The keys and sizes of items within a target are some of the target's. -/
theorem Within.limits {items toItems : List CSnapshotItem} (h : Within items toItems)
    (hlimits : Limits toItems) : Limits items := by
  set shape : CSnapshotItem → Int × Nat := fun x => (x.Key, x.Data.length) with hshape
  have hnodup : (items.map shape).Nodup := by
    have hfst : (items.map shape).map Prod.fst = items.map CSnapshotItem.Key := by
      rw [List.map_map]
      rfl
    apply List.Nodup.of_map Prod.fst
    rw [hfst]
    exact h.keys
  have hsub : (items.map shape).Subperm (toItems.map shape) := by
    apply List.subperm_of_subset hnodup
    intro p hp
    obtain ⟨x, hx, rfl⟩ := List.mem_map.mp hp
    obtain ⟨t, ht, hkey, hlen⟩ := h.target x hx
    exact List.mem_map.mpr ⟨t, ht, Prod.ext hkey hlen⟩
  obtain ⟨some, hsome, hsub⟩ := hsub
  obtain ⟨rest, hperm⟩ := hsub.exists_perm_append
  replace hperm := hperm.trans (hsome.append_right rest)
  have harea : ∀ l : List CSnapshotItem,
      (area l).length = ((l.map shape).map fun p => 4 + p.2).sum := by
    intro l
    rw [length_area, List.map_map]
    rfl
  have hcount := hperm.length_eq
  have hsum := (hperm.map fun p => 4 + p.2).sum_eq
  rw [List.map_append, List.sum_append, ← harea, ← harea] at hsum
  rw [List.length_append, List.length_map, List.length_map] at hcount
  have hsize := hlimits.size
  have hcountT := hlimits.count
  rw [totalSize_snapOf] at hsize
  refine ⟨by omega, ?_⟩
  rw [totalSize_snapOf]
  omega

/-! ## The builder -/

/-- A builder of the 0.6 protocol with these items. -/
structure Plain (b : CSnapshotBuilder) (items : List CSnapshotItem) : Prop where
  holds : Holds b items
  sixup : b.m_Sixup = false

/-- The items after data was put under a key. -/
def putItem (items : List CSnapshotItem) (Key : Int) (Data : List UInt8) : List CSnapshotItem :=
  if items.any fun x => x.Key == Key then
    items.map fun x => if x.Key = Key then { x with Data := Data } else x
  else items ++ [{ m_TypeAndId := Key, Data := Data }]

section PutItem

variable {items toItems : List CSnapshotItem} {Key : Int} {Data : List UInt8}

theorem mem_putItem {x : CSnapshotItem} :
    x ∈ putItem items Key Data ↔
      (x ∈ items ∧ x.Key ≠ Key) ∨ x = { m_TypeAndId := Key, Data := Data } := by
  unfold putItem
  by_cases hany : (items.any fun x => x.Key == Key) = true
  · rw [if_pos hany, List.mem_map]
    constructor
    · rintro ⟨y, hy, rfl⟩
      by_cases hkey : y.Key = Key
      · rw [if_pos hkey]
        right
        rw [← hkey]
        rfl
      · rw [if_neg hkey]
        exact .inl ⟨hy, hkey⟩
    · rintro (⟨hx, hkey⟩ | rfl)
      · exact ⟨x, hx, if_neg hkey⟩
      · obtain ⟨y, hy, hkey⟩ := List.any_eq_true.mp hany
        have hkey' : y.Key = Key := by simpa using hkey
        refine ⟨y, hy, ?_⟩
        rw [if_pos hkey', ← hkey']
        rfl
  · rw [if_neg hany, List.mem_append, List.mem_singleton]
    have hnone : ∀ y ∈ items, y.Key ≠ Key := by
      intro y hy hkey
      exact hany (List.any_eq_true.mpr ⟨y, hy, by simpa using hkey⟩)
    constructor
    · rintro (hx | hx)
      · exact .inl ⟨hx, hnone x hx⟩
      · exact .inr hx
    · rintro (⟨hx, -⟩ | hx)
      · exact .inl hx
      · exact .inr hx

theorem Within.putItem (h : Within items toItems) {t : CSnapshotItem} (ht : t ∈ toItems)
    (hkey : t.Key = Key) (hlen : Data.length = t.Data.length) :
    Within (putItem items Key Data) toItems := by
  constructor
  · unfold Snapshot.putItem
    by_cases hany : (items.any fun x => x.Key == Key) = true
    · rw [if_pos hany, List.map_map]
      have hsame : (CSnapshotItem.Key ∘ fun x : CSnapshotItem =>
          if x.Key = Key then { x with Data := Data } else x) = CSnapshotItem.Key := by
        funext x
        by_cases hx : x.Key = Key
        · simp only [Function.comp_apply, if_pos hx]
          rfl
        · simp only [Function.comp_apply, if_neg hx]
      rw [hsame]
      exact h.keys
    · rw [if_neg hany, List.map_append, List.map_singleton, List.nodup_append]
      refine ⟨h.keys, List.nodup_singleton _, fun k hk c hc heq => ?_⟩
      obtain ⟨y, hy, rfl⟩ := List.mem_map.mp hk
      rw [List.mem_singleton.mp hc] at heq
      exact hany (List.any_eq_true.mpr ⟨y, hy, beq_iff_eq.mpr heq⟩)
  · intro x hx
    rcases mem_putItem.mp hx with ⟨hx, -⟩ | rfl
    · exact h.target x hx
    · exact ⟨t, ht, hkey, hlen.symm⟩

end PutItem

namespace Plain

variable {b : CSnapshotBuilder} {items toItems : List CSnapshotItem}
  (Obj_SixToSeven : Int → Int) (g_UuidManager : CUuidManager)

/-- An item of a plain type is added where there is room. -/
theorem newItem (h : Plain b items) {ItemType Id : Int} (Size : Nat)
    (ht : 0 ≤ ItemType ∧ ItemType ≤ MAX_TYPE) (hi : 0 ≤ Id ∧ Id ≤ MAX_ID)
    (hlimits : Limits (items ++ [{ m_TypeAndId := makeKey ItemType Id, Data := List.replicate Size 0 }])) :
    ∃ b', b.NewItem Obj_SixToSeven g_UuidManager ItemType Id Size = .ok (b', .data items.length) ∧
      Plain b' (items ++ [{ m_TypeAndId := makeKey ItemType Id, Data := List.replicate Size 0 }]) := by
  have hmax : MAX_TYPE = 32767 := rfl
  have hoff : OFFSET_UUID = 65536 := rfl
  have hroom : b.HasRoom Size := by
    rw [h.holds.hasRoom_iff]
    have hcount := hlimits.count
    have hsize := hlimits.size
    simp only [totalSize_snapOf, area_append, area_cons, area_nil, List.append_nil,
      List.length_append, List.length_singleton, CSnapshotItem.length_encode,
      List.length_replicate] at hcount hsize ⊢
    omega
  obtain ⟨b', hput, -, hsixup, hb'⟩ := h.holds.putItem_of_room ItemType Id hroom
  refine ⟨b', ?_, hb', hsixup.trans h.sixup⟩
  unfold CSnapshotBuilder.NewItem CSnapshotBuilder.NewItemWith
  rw [if_neg (by omega), if_neg (not_not.mpr hroom), if_neg (by omega), h.sixup,
    if_neg Bool.false_ne_true, if_neg (by omega)]
  exact hput

theorem write (h : Plain b (items ++ x :: js)) (bytes : List UInt8)
    (hlen : bytes.length = x.Data.length) :
    ∃ b', b.WriteData items.length bytes = .ok b' ∧
      Plain b' (items ++ { x with Data := bytes } :: js) := by
  obtain ⟨b', hwrite, -, hsixup, hb'⟩ := h.holds.writeData (Nat.le_of_eq hlen)
  rw [hlen, List.drop_length, List.append_nil] at hb'
  exact ⟨b', hwrite, hb', hsixup.trans h.sixup⟩

end Plain

/-- The search for a key in the builder. -/
theorem Holds.getItemData {b : CSnapshotBuilder} {items : List CSnapshotItem} (h : Holds b items)
    (Key : Int) : b.GetItemData Key = items.findIdx? fun x => x.Key == Key := by
  have hloop : ∀ is js, items = is ++ js →
      b.GetItemDataLoop Key (offsetsFrom (area is).length js) is.length =
        (js.findIdx? fun x => x.Key == Key).map (· + is.length) := by
    intro is js
    induction js generalizing is with
    | nil =>
        intro _
        rfl
    | cons x js ih =>
        intro hsplit
        have hkey : intAt b.m_aData (area is).length = x.Key := by
          unfold intAt
          rw [h.data, hsplit, area_append, List.drop_left, area_cons, CSnapshotItem.encode,
            List.append_assoc]
          exact readInt_intBytes_append (h.keys x (by rw [hsplit]; simp)) _
        have hnext := ih (is ++ [x]) (by rw [hsplit]; simp)
        rw [area_append, List.length_append, area_cons, area_nil, List.append_nil,
          CSnapshotItem.length_encode, List.length_append, List.length_singleton] at hnext
        rw [offsetsFrom, CSnapshotBuilder.GetItemDataLoop, hkey, List.findIdx?_cons]
        by_cases hx : x.Key = Key
        · rw [if_pos hx, beq_iff_eq.mpr hx]
          simp
        · rw [if_neg hx, hnext, beq_eq_false_iff_ne.mpr hx, if_neg Bool.false_ne_true, Option.map_map]
          congr 1
          funext k
          simp only [Function.comp_apply]
          omega
  unfold CSnapshotBuilder.GetItemData
  rw [h.offsets]
  have hall := hloop [] items rfl
  rw [area_nil] at hall
  rw [List.length_nil, List.length_nil] at hall
  rw [hall]
  simp

/-! ## Adding and updating items -/

theorem makeKey_itemType_id {x : CSnapshotItem} (ht : 0 ≤ x.ItemType ∧ x.ItemType ≤ MAX_TYPE) :
    0 ≤ x.Id ∧ x.Id ≤ MAX_ID ∧ makeKey x.ItemType x.Id = x.Key := by
  have hid : 0 ≤ x.Id ∧ x.Id ≤ MAX_ID := by
    unfold CSnapshotItem.Id MAX_ID
    omega
  refine ⟨hid.1, hid.2, ?_⟩
  rw [makeKey_eq ht hid]
  unfold CSnapshotItem.ItemType CSnapshotItem.Id CSnapshotItem.Key
  omega

/-- Limits only depend on the sizes. -/
theorem Limits.replace {is : List CSnapshotItem} {x y : CSnapshotItem} (h : Limits (is ++ [x]))
    (hlen : y.Data.length = x.Data.length) : Limits (is ++ [y]) := by
  have hcount := h.count
  have hsize := h.size
  constructor
  · simpa using hcount
  · rw [totalSize_snapOf] at hsize ⊢
    simp only [area_append, area_cons, area_nil, List.append_nil, List.length_append,
      List.length_singleton, CSnapshotItem.length_encode] at hsize ⊢
    omega

theorem putItem_of_new {items : List CSnapshotItem} {Key : Int} (Data : List UInt8)
    (hnew : ∀ x ∈ items, x.Key ≠ Key) :
    putItem items Key Data = items ++ [{ m_TypeAndId := Key, Data := Data }] := by
  unfold putItem
  apply if_neg
  intro hany
  obtain ⟨x, hx, hkey⟩ := List.any_eq_true.mp hany
  exact hnew x hx (by simpa using hkey)

theorem putItem_of_split {is js : List CSnapshotItem} {x : CSnapshotItem} (Data : List UInt8)
    (hkeys : ((is ++ x :: js).map CSnapshotItem.Key).Nodup) :
    putItem (is ++ x :: js) x.Key Data = is ++ { x with Data := Data } :: js := by
  have hany : ((is ++ x :: js).any fun y => y.Key == x.Key) = true :=
    List.any_eq_true.mpr ⟨x, by simp, by simp⟩
  rw [List.map_append, List.map_cons, List.nodup_middle, List.nodup_cons, List.mem_append] at hkeys
  have hsame : ∀ l : List CSnapshotItem, x.Key ∉ l.map CSnapshotItem.Key →
      (l.map fun y => if y.Key = x.Key then { y with Data := Data } else y) = l := by
    intro l hl
    have hid : (l.map fun y => if y.Key = x.Key then { y with Data := Data } else y) = l.map id := by
      apply List.map_congr_left
      intro y hy
      exact if_neg fun hkey => hl (List.mem_map.mpr ⟨y, hy, hkey⟩)
    rw [hid, List.map_id]
  unfold putItem
  rw [if_pos hany, List.map_append, List.map_cons, if_pos rfl,
    hsame is fun h => hkeys.1 (.inl h), hsame js fun h => hkeys.1 (.inr h)]

namespace Plain

variable {b : CSnapshotBuilder} {items toItems : List CSnapshotItem}
  (Obj_SixToSeven : Int → Int) (g_UuidManager : CUuidManager)

/-- An item is created and its data written. -/
theorem addItem (h : Plain b items) {x : CSnapshotItem}
    (ht : 0 ≤ x.ItemType ∧ x.ItemType ≤ MAX_TYPE) (hlimits : Limits (items ++ [x])) :
    ∃ b₁ b₂, b.NewItem Obj_SixToSeven g_UuidManager x.ItemType x.Id x.Data.length =
        .ok (b₁, .data items.length) ∧
      b₁.WriteData items.length x.Data = .ok b₂ ∧ Plain b₂ (items ++ [x]) := by
  obtain ⟨hid₀, hid₁, hkey⟩ := makeKey_itemType_id ht
  obtain ⟨b₁, hnew, h₁⟩ := h.newItem Obj_SixToSeven g_UuidManager x.Data.length ht ⟨hid₀, hid₁⟩
    (hlimits.replace (by simp))
  obtain ⟨b₂, hwrite, h₂⟩ := h₁.write x.Data (by simp)
  refine ⟨b₁, b₂, hnew, hwrite, ?_⟩
  rw [hkey] at h₂
  exact h₂

/-- Data is put under the key of an item of the target. -/
theorem putData (h : Plain b items) (hwithin : Within items toItems) (hlimits : Limits toItems)
    (hkeysT : (toItems.map CSnapshotItem.Key).Nodup) {t : CSnapshotItem} (hmem : t ∈ toItems)
    (ht : 0 ≤ t.ItemType ∧ t.ItemType ≤ MAX_TYPE) {bytes : List UInt8} (hlen : bytes.length = t.Data.length) :
    ∃ b₁ k b₂, FindOrCreate Obj_SixToSeven g_UuidManager b t.ItemType t.Id t.Data.length =
        .ok (b₁, .data k) ∧
      b₁.WriteData k bytes = .ok b₂ ∧ Plain b₂ (putItem items t.Key bytes) := by
  obtain ⟨-, -, hkey⟩ := makeKey_itemType_id ht
  have hwithin' := hwithin.putItem hmem rfl hlen
  unfold FindOrCreate
  rw [hkey, h.holds.getItemData]
  cases hfind : items.findIdx? fun x => x.Key == t.Key with
  | none =>
      have hnew : ∀ x ∈ items, x.Key ≠ t.Key := by
        intro x hx
        simpa using List.findIdx?_eq_none_iff.mp hfind x hx
      rw [putItem_of_new bytes hnew] at hwithin' ⊢
      obtain ⟨b₁, b₂, hcreate, hwrite, h₂⟩ := h.addItem Obj_SixToSeven g_UuidManager
        (x := { m_TypeAndId := t.Key, Data := bytes }) ht (hwithin'.limits hlimits)
      rw [← hlen]
      exact ⟨b₁, items.length, b₂, hcreate, hwrite, h₂⟩
  | some k =>
      obtain ⟨hk, hkeyk, -⟩ := List.findIdx?_eq_some_iff_getElem.mp hfind
      have hsplit : items = items.take k ++ items[k] :: items.drop (k + 1) := by
        rw [List.getElem_cons_drop, List.take_append_drop]
      have hlenk : (items.take k).length = k := List.length_take_of_le (Nat.le_of_lt hk)
      have hkeyk' : items[k].Key = t.Key := by simpa using hkeyk
      obtain ⟨t', ht', hkey', hlen'⟩ := hwithin.target items[k] (List.getElem_mem hk)
      have hsize : bytes.length = items[k].Data.length := by
        rw [hlen, ← hlen', List.inj_on_of_nodup_map hkeysT ht' hmem (hkey'.trans hkeyk')]
      have hplain := h
      rw [hsplit] at hplain
      obtain ⟨b₂, hwrite, h₂⟩ := hplain.write _ hsize
      rw [hlenk] at hwrite
      refine ⟨b, k, b₂, rfl, hwrite, ?_⟩
      have hkeys := hwithin.keys
      rw [hsplit] at hkeys
      have hput := putItem_of_split bytes hkeys
      rw [← hsplit, hkeyk'] at hput
      rw [hput]
      exact h₂

end Plain

end Fex.Engine.Snapshot
