import Fex.Engine.Snapshot

/-!
# Items in a builder and in a snapshot

The data area is the items one after the other and the offsets are the sums of
their sizes.  `Holds` says so of a builder, `snapOf` is the snapshot of a list
of items, and the accessors read the items back.
-/

namespace Fex.Engine.Snapshot

open Fex.Lib

/-- An item in the data area. -/
def CSnapshotItem.encode (i : CSnapshotItem) : List UInt8 := intBytes i.m_TypeAndId ++ i.Data

@[simp] theorem CSnapshotItem.length_encode (i : CSnapshotItem) :
    i.encode.length = 4 + i.Data.length := by
  unfold CSnapshotItem.encode
  rw [List.length_append, length_intBytes]

/-- The data area of a list of items. -/
def area (items : List CSnapshotItem) : List UInt8 := items.flatMap CSnapshotItem.encode

@[simp] theorem area_nil : area [] = [] := rfl

@[simp] theorem area_cons (i : CSnapshotItem) (is : List CSnapshotItem) :
    area (i :: is) = i.encode ++ area is := rfl

@[simp] theorem area_append (is js : List CSnapshotItem) : area (is ++ js) = area is ++ area js :=
  List.flatMap_append

/-- The offsets of items that start at `a`. -/
def offsetsFrom : Nat → List CSnapshotItem → List Nat
  | _, [] => []
  | a, i :: is => a :: offsetsFrom (a + (4 + i.Data.length)) is

@[simp] theorem length_offsetsFrom (a : Nat) (items : List CSnapshotItem) :
    (offsetsFrom a items).length = items.length := by
  induction items generalizing a with
  | nil => rfl
  | cons i is ih => rw [offsetsFrom, List.length_cons, List.length_cons, ih]

theorem offsetsFrom_append (a : Nat) (is js : List CSnapshotItem) :
    offsetsFrom a (is ++ js) = offsetsFrom a is ++ offsetsFrom (a + (area is).length) js := by
  induction is generalizing a with
  | nil => rfl
  | cons i is ih =>
      rw [List.cons_append, offsetsFrom, ih, offsetsFrom, List.cons_append, area_cons,
        List.length_append, CSnapshotItem.length_encode, ← Nat.add_assoc a (4 + i.Data.length)]

theorem getElem?_offsetsFrom (a : Nat) (is : List CSnapshotItem) (i : CSnapshotItem)
    (js : List CSnapshotItem) :
    (offsetsFrom a (is ++ i :: js))[is.length]? = some (a + (area is).length) := by
  rw [offsetsFrom_append, List.getElem?_append_right (by simp), length_offsetsFrom, Nat.sub_self]
  rfl

/-- The offset of the next item, if there is one. -/
theorem getElem?_offsetsFrom_succ (a : Nat) (is : List CSnapshotItem) (i : CSnapshotItem)
    (js : List CSnapshotItem) :
    (offsetsFrom a (is ++ i :: js))[is.length + 1]? =
      js.head?.map fun _ => a + (area is).length + (4 + i.Data.length) := by
  have hsplit : is ++ i :: js = (is ++ [i]) ++ js := by simp
  have hlen : is.length + 1 = (is ++ [i]).length := by simp
  rw [hsplit, hlen]
  cases js with
  | nil =>
      rw [List.append_nil, List.getElem?_eq_none (by simp)]
      rfl
  | cons j js =>
      rw [getElem?_offsetsFrom, area_append, List.length_append]
      simp [Nat.add_assoc]

theorem mem_offsetsFrom {a o : Nat} {items : List CSnapshotItem} (h : o ∈ offsetsFrom a items) :
    a ≤ o ∧ o + 4 ≤ a + (area items).length := by
  induction items generalizing a with
  | nil => cases h
  | cons i is ih =>
      rw [offsetsFrom] at h
      rw [area_cons, List.length_append, CSnapshotItem.length_encode]
      rcases List.mem_cons.mp h with rfl | h
      · omega
      · have hrest := ih h
        omega

/-- The snapshot of a list of items. -/
def snapOf (items : List CSnapshotItem) : CSnapshot :=
  { Offsets := (offsetsFrom 0 items).map Int.ofNat, DataStart := area items }

/-- The items of a snapshot that is read. -/
structure Reads (s : CSnapshot) (items : List CSnapshotItem) : Prop where
  count : s.m_NumItems = items.length
  item : ∀ i (h : i < items.length), s.GetItem i = .ok items[i]
  size : ∀ i (h : i < items.length), s.GetItemSize i = items[i].Data.length

@[simp] theorem m_NumItems_snapOf (items : List CSnapshotItem) :
    (snapOf items).m_NumItems = items.length := by
  simp [snapOf, CSnapshot.m_NumItems]

@[simp] theorem m_DataSize_snapOf (items : List CSnapshotItem) :
    (snapOf items).m_DataSize = (area items).length := rfl

theorem getItemSize_snapOf (is : List CSnapshotItem) (i : CSnapshotItem) (js : List CSnapshotItem) :
    (snapOf (is ++ i :: js)).GetItemSize is.length = i.Data.length := by
  have hthis : (snapOf (is ++ i :: js)).Offsets.getD is.length 0 = ((area is).length : Int) := by
    rw [snapOf, List.getD_eq_getElem?_getD, List.getElem?_map, getElem?_offsetsFrom, Nat.zero_add]
    rfl
  unfold CSnapshot.GetItemSize
  rw [hthis, m_NumItems_snapOf, m_DataSize_snapOf]
  cases js with
  | nil =>
      rw [if_pos (by simp)]
      simp only [area_append, area_cons, area_nil, List.length_append, CSnapshotItem.length_encode,
        List.length_nil]
      omega
  | cons j js =>
      have hnext : (snapOf (is ++ i :: j :: js)).Offsets.getD (is.length + 1) 0 =
          ((area is).length + (4 + i.Data.length) : Nat) := by
        rw [snapOf, List.getD_eq_getElem?_getD, List.getElem?_map, getElem?_offsetsFrom_succ,
          Nat.zero_add]
        rfl
      rw [if_neg (by simp), hnext]
      omega

theorem getItem_snapOf (is : List CSnapshotItem) {i : CSnapshotItem} (js : List CSnapshotItem)
    (hi : IsInt32 i.m_TypeAndId) : (snapOf (is ++ i :: js)).GetItem is.length = .ok i := by
  have hoffset : (snapOf (is ++ i :: js)).Offsets[is.length]? = some ((area is).length : Int) := by
    rw [snapOf, List.getElem?_map, getElem?_offsetsFrom, Nat.zero_add]
    rfl
  unfold CSnapshot.GetItem
  rw [hoffset]
  simp only
  rw [getItemSize_snapOf, m_DataSize_snapOf]
  have hlen : (area (is ++ i :: js)).length =
      (area is).length + (4 + i.Data.length + (area js).length) := by
    rw [area_append, area_cons, List.length_append, List.length_append, CSnapshotItem.length_encode]
  have hdata : (snapOf (is ++ i :: js)).DataStart = area is ++ (i.encode ++ area js) := by
    rw [← area_cons, ← area_append]
    rfl
  rw [if_pos (by rw [hlen]; omega), hdata, Int.toNat_natCast, Int.toNat_natCast, ← List.drop_drop]
  unfold intAt
  rw [List.drop_left, CSnapshotItem.encode, List.append_assoc, readInt_intBytes_append hi,
    List.drop_left' (length_intBytes _), List.take_left]

/-- Reading a snapshot gives the items it was made of. -/
theorem reads_snapOf {items : List CSnapshotItem} (h : ∀ i ∈ items, IsInt32 i.m_TypeAndId) :
    Reads (snapOf items) items := by
  have hsplit : ∀ i (hi : i < items.length), ∃ is js, items = is ++ items[i] :: js ∧ is.length = i := by
    intro i hi
    refine ⟨items.take i, items.drop (i + 1), ?_, List.length_take_of_le (Nat.le_of_lt hi)⟩
    rw [List.getElem_cons_drop, List.take_append_drop]
  constructor
  · exact m_NumItems_snapOf items
  · intro i hi
    obtain ⟨is, js, heq, hlen⟩ := hsplit i hi
    have hitem := getItem_snapOf is js (h items[i] (List.getElem_mem hi))
    rw [← heq, hlen] at hitem
    exact hitem
  · intro i hi
    obtain ⟨is, js, heq, hlen⟩ := hsplit i hi
    have hsize := getItemSize_snapOf is items[i] js
    rw [← heq, hlen] at hsize
    exact hsize

/-- A snapshot within the limits is valid. -/
theorem isValid_snapOf {items : List CSnapshotItem} (hcount : items.length ≤ MAX_ITEMS)
    (hsize : (snapOf items).TotalSize ≤ MAX_SIZE) :
    (snapOf items).IsValid (snapOf items).TotalSize = true := by
  have hcheck : ¬ ((snapOf items).TotalSize < 8 ∨ (snapOf items).TotalSize > MAX_SIZE ∨
      (snapOf items).m_NumItems > MAX_ITEMS ∨
      (snapOf items).TotalSize ≠ (snapOf items).TotalSize) := by
    have hge : 8 ≤ (snapOf items).TotalSize := by
      unfold CSnapshot.TotalSize
      omega
    rw [m_NumItems_snapOf]
    omega
  unfold CSnapshot.IsValid
  rw [if_neg hcheck, Bool.and_eq_true, List.all_eq_true, List.all_eq_true]
  constructor
  · intro o ho
    obtain ⟨n, hn, rfl⟩ := List.mem_map.mp ho
    have hle := (mem_offsetsFrom hn).2
    rw [decide_eq_true_iff, m_DataSize_snapOf]
    simp only [Int.ofNat_eq_natCast]
    omega
  · intro i hi
    rw [m_NumItems_snapOf, List.mem_range] at hi
    have heq : items = items.take i ++ items[i] :: items.drop (i + 1) := by
      rw [List.getElem_cons_drop, List.take_append_drop]
    have hitem := getItemSize_snapOf (items.take i) items[i] (items.drop (i + 1))
    rw [← heq, List.length_take_of_le (Nat.le_of_lt hi)] at hitem
    rw [decide_eq_true_iff, hitem]
    omega

/-! ## Builders -/

/-- The items of a builder. -/
structure Holds (b : CSnapshotBuilder) (items : List CSnapshotItem) : Prop where
  data : b.m_aData = area items
  offsets : b.m_aOffsets = offsetsFrom 0 items
  keys : ∀ i ∈ items, IsInt32 i.m_TypeAndId

theorem isInt32_makeKey (ItemType Id : Int) : IsInt32 (makeKey ItemType Id) := by
  have hle := BitVec.le_toInt (BitVec.ofInt 32 ItemType <<< 16 ||| BitVec.ofInt 32 Id)
  have hlt := BitVec.toInt_lt (x := BitVec.ofInt 32 ItemType <<< 16 ||| BitVec.ofInt 32 Id)
  unfold makeKey IsInt32
  omega

namespace Holds

variable {b : CSnapshotBuilder} {items : List CSnapshotItem}

theorem numItems (h : Holds b items) : b.m_NumItems = items.length := by
  unfold CSnapshotBuilder.m_NumItems
  rw [h.offsets, length_offsetsFrom]

theorem dataSize (h : Holds b items) : b.m_DataSize = (area items).length := by
  unfold CSnapshotBuilder.m_DataSize
  rw [h.data]

theorem congr {b' : CSnapshotBuilder} (h : Holds b items) (hdata : b'.m_aData = b.m_aData)
    (hoffsets : b'.m_aOffsets = b.m_aOffsets) : Holds b' items :=
  ⟨hdata.trans h.data, hoffsets.trans h.offsets, h.keys⟩

/-- The new item has zeros. -/
theorem putItem (h : Holds b items) (ItemType Id : Int) {Size : Nat}
    (hsize : b.m_DataSize + (4 + Size) ≤ MAX_SIZE) (hcount : b.m_NumItems < MAX_ITEMS) :
    ∃ b', b.PutItem ItemType Id Size = .ok (b', .data items.length) ∧
      b'.m_aExtendedItemTypes = b.m_aExtendedItemTypes ∧ b'.m_Sixup = b.m_Sixup ∧
      Holds b' (items ++ [{ m_TypeAndId := makeKey ItemType Id, Data := List.replicate Size 0 }]) := by
  unfold CSnapshotBuilder.PutItem
  rw [if_neg (by omega), h.numItems]
  refine ⟨_, rfl, rfl, rfl, ?_⟩
  constructor
  · show b.m_aData ++ _ = _
    rw [h.data, area_append, area_cons, area_nil, List.append_nil]
    rfl
  · show b.m_aOffsets ++ [b.m_DataSize] = _
    rw [h.offsets, h.dataSize, offsetsFrom_append, Nat.zero_add]
    rfl
  · intro i hi
    rcases List.mem_append.mp hi with hi | hi
    · exact h.keys i hi
    · rw [List.mem_singleton.mp hi]
      exact isInt32_makeKey ItemType Id

theorem itemEnd {is js : List CSnapshotItem} {i : CSnapshotItem} (h : Holds b (is ++ i :: js)) :
    b.ItemEnd is.length = (area is).length + (4 + i.Data.length) := by
  unfold CSnapshotBuilder.ItemEnd
  rw [h.offsets, getElem?_offsetsFrom_succ, h.dataSize]
  cases js with
  | nil => simp
  | cons j js => simp

/-- A write within an item changes its first bytes. -/
theorem writeData {is js : List CSnapshotItem} {i : CSnapshotItem} (h : Holds b (is ++ i :: js))
    {bytes : List UInt8} (hlen : bytes.length ≤ i.Data.length) :
    ∃ b', b.WriteData is.length bytes = .ok b' ∧
      b'.m_aExtendedItemTypes = b.m_aExtendedItemTypes ∧ b'.m_Sixup = b.m_Sixup ∧
      Holds b' (is ++ { i with Data := bytes ++ i.Data.drop bytes.length } :: js) := by
  unfold CSnapshotBuilder.WriteData
  rw [h.itemEnd, h.offsets, getElem?_offsetsFrom, Nat.zero_add]
  simp only
  rw [if_pos (by omega)]
  have hlen' : (bytes ++ i.Data.drop bytes.length).length = i.Data.length := by
    rw [List.length_append, List.length_drop]
    omega
  refine ⟨_, rfl, rfl, rfl, ?_⟩
  constructor
  · show b.m_aData.take _ ++ bytes ++ b.m_aData.drop _ = _
    have hdata : b.m_aData = (area is ++ intBytes i.m_TypeAndId) ++ (i.Data ++ area js) := by
      rw [h.data, area_append, area_cons, CSnapshotItem.encode]
      simp
    have hhead : (area is).length + 4 = (area is ++ intBytes i.m_TypeAndId).length := by
      rw [List.length_append, length_intBytes]
    rw [hdata, hhead, List.take_left, ← List.drop_drop, List.drop_left,
      List.drop_append_of_le_length hlen, area_append, area_cons, CSnapshotItem.encode]
    simp
  · show offsetsFrom 0 _ = _
    rw [offsetsFrom_append, offsetsFrom_append, offsetsFrom, offsetsFrom, hlen']
  · intro j hj
    rcases List.mem_append.mp hj with hj | hj
    · exact h.keys j (by simp [hj])
    · rcases List.mem_cons.mp hj with rfl | hj
      · exact h.keys i (by simp)
      · exact h.keys j (by simp [hj])

/-- A write past the end of an item leaves it. -/
theorem writeData_outOfBounds {is js : List CSnapshotItem} {i : CSnapshotItem}
    (h : Holds b (is ++ i :: js)) {bytes : List UInt8} (hlen : i.Data.length < bytes.length) :
    b.WriteData is.length bytes = .error .outOfBounds := by
  unfold CSnapshotBuilder.WriteData
  rw [h.itemEnd, h.offsets, getElem?_offsetsFrom, Nat.zero_add]
  simp only
  exact if_neg (by omega)

theorem snap_eq (h : Holds b items) :
    (⟨b.m_aOffsets.map Int.ofNat, b.m_aData⟩ : CSnapshot) = snapOf items := by
  rw [h.data, h.offsets]
  rfl

theorem finish (h : Holds b items) (hcount : items.length ≤ MAX_ITEMS)
    (hsize : (snapOf items).TotalSize ≤ MAX_SIZE) :
    b.Finish = .ok (snapOf items, (snapOf items).TotalSize) := by
  unfold CSnapshotBuilder.Finish
  rw [h.numItems, if_neg (by omega)]
  simp only [h.snap_eq]
  exact if_neg (by omega)

/-- A snapshot that is too large fails the assertion. -/
theorem finish_assertion (h : Holds b items) (hcount : items.length ≤ MAX_ITEMS)
    (hsize : MAX_SIZE < (snapOf items).TotalSize) : b.Finish = .error .assertion := by
  unfold CSnapshotBuilder.Finish
  rw [h.numItems, if_neg (by omega)]
  simp only [h.snap_eq]
  exact if_pos hsize

end Holds

end Fex.Engine.Snapshot
