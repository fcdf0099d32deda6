import Fex.Engine.Datafile.Open
import Fex.Lib.Intervals
import Fex.Lib.Loop

/-!
# What a file that is opened guarantees

`Validate` follows the tables with sums and comparisons.  From them the items tile the
item area, the types partition the items and the blocks lie one behind the other in the
file, so that no accessor leaves the memory or the file.
-/

namespace Fex.Engine.DataFile

open Fex.Lib

/-! ## The checks of `Validate` -/

/-- The intervals of items that the types have. -/
def typeIntervals (d : CDatafile) : List (Int × Int) :=
  d.m_Info.m_pItemTypes.map fun ItemType => (ItemType.m_Start, ItemType.m_Num)

theorem consecutive_of_countItems {d : CDatafile} {types : List CDatafileItemType}
    {used : List Int} {n : Int} (h : d.countItems types used n = some d.m_NumItems) :
    Consecutive n (types.map fun ItemType => (ItemType.m_Start, ItemType.m_Num)) d.m_NumItems := by
  induction types generalizing used n with
  | nil => exact Option.some.inj h
  | cons t types ih =>
      rw [CDatafile.countItems] at h
      split at h
      next => cases h
      split at h
      next => cases h
      split at h
      next => cases h
      next hnum =>
        split at h
        next => cases h
        next hstart =>
          simp only at h
          split at h
          next hgt =>
            have heq := Option.some.inj h
            omega
          next =>
            refine ⟨by_contra hstart, not_not.mp hnum, ih h⟩

theorem sorted_of_offsetsValid {size Prev : Int} {l : List Int}
    (h : CDatafile.offsetsValid size (some Prev) l = true) :
    (Prev :: l).Pairwise (· < ·) ∧ ∀ Offset ∈ l, Offset < size := by
  induction l generalizing Prev with
  | nil => exact ⟨List.pairwise_singleton _ _, fun Offset hmem => by cases hmem⟩
  | cons Offset l ih =>
      rw [CDatafile.offsetsValid] at h
      obtain ⟨hgt, hlt, hrest⟩ := of_decide_eq_true h
      obtain ⟨hsorted, hall⟩ := ih hrest
      constructor
      · refine List.pairwise_cons.mpr ⟨fun x hx => ?_, hsorted⟩
        rcases List.mem_cons.mp hx with rfl | hx
        · exact hgt
        · have hless := (List.pairwise_cons.mp hsorted).1 x hx
          omega
      · intro x hx
        rcases List.mem_cons.mp hx with rfl | hx
        · exact hlt
        · exact hall x hx

/-- Offsets that pass the check and are not empty go from zero to the size. -/
theorem consecutive_of_offsetsValid {size : Int} {l : List Int}
    (h : CDatafile.offsetsValid size none l = true) (hne : l ≠ []) :
    Consecutive 0 (between l size) size := by
  cases l with
  | nil => exact absurd rfl hne
  | cons Offset l =>
      rw [CDatafile.offsetsValid] at h
      obtain ⟨hzero, hlt, hrest⟩ := of_decide_eq_true h
      obtain ⟨hsorted, hall⟩ := sorted_of_offsetsValid hrest
      subst hzero
      apply consecutive_between hsorted
      intro x hx
      rcases List.mem_cons.mp hx with rfl | hx
      · exact hlt
      · exact hall x hx

/-- What is checked of one item. -/
structure ItemChecked (d : CDatafile) (m_Type Index : Int) : Prop where
  size : 8 ≤ d.GetFileItemSize Index
  type : d.itemType Index = m_Type
  aligned : d.m_Size Index % 4 = 0
  same : d.m_Size Index = d.GetItemSize Index

/-- A sum that ends at most at the size was never cut short. -/
theorem itemsValid_spec {d : CDatafile} {m_Type : Int} {n : Nat} {ItemIndex : Int}
    {used : List Int} {Total r : Int}
    (h : d.itemsValid m_Type n ItemIndex used Total = some r) :
    Total ≤ r ∧ (r ≤ d.m_ItemSize →
      ∀ Index, ItemIndex ≤ Index → Index < ItemIndex + n → ItemChecked d m_Type Index) := by
  induction n generalizing ItemIndex used Total with
  | zero =>
      cases h
      refine ⟨Int.le_refl _, fun _ Index hlo hhi => ?_⟩
      omega
  | succ n ih =>
      rw [CDatafile.itemsValid] at h
      simp only at h
      split at h
      next => cases h
      next hsize =>
        split at h
        next => cases h
        next htype =>
          split at h
          next => cases h
          split at h
          next => cases h
          split at h
          next => cases h
          next haligned =>
            split at h
            next => cases h
            next hsame =>
              split at h
              next hgt =>
                have heq := Option.some.inj h
                refine ⟨by omega, fun hle => ?_⟩
                omega
              next =>
                obtain ⟨hle, hrest⟩ := ih h
                refine ⟨by omega, fun hr Index hlo hhi => ?_⟩
                by_cases heq : Index = ItemIndex
                · subst heq
                  exact ⟨not_not.mp hsize, not_not.mp htype, not_not.mp haligned, not_not.mp hsame⟩
                · exact hrest hr Index (by omega) (by omega)

theorem typesValid_spec {d : CDatafile} {types : List CDatafileItemType} {Total r : Int}
    (h : d.typesValid types Total = some r) :
    Total ≤ r ∧ (r ≤ d.m_ItemSize → ∀ t ∈ types, ∀ Index, t.m_Start ≤ Index →
      Index < t.m_Start + t.m_Num.toNat → ItemChecked d t.m_Type Index) := by
  induction types generalizing Total with
  | nil =>
      cases h
      exact ⟨Int.le_refl _, fun _ t ht => by cases ht⟩
  | cons t types ih =>
      rw [CDatafile.typesValid] at h
      cases hitems : d.itemsValid t.m_Type t.m_Num.toNat t.m_Start [] Total with
      | none =>
          rw [hitems] at h
          cases h
      | some Total' =>
          rw [hitems] at h
          obtain ⟨hle, hrest⟩ := ih h
          obtain ⟨hle', hfirst⟩ := itemsValid_spec hitems
          refine ⟨by omega, fun hr t' ht' => ?_⟩
          rcases List.mem_cons.mp ht' with rfl | ht'
          · exact hfirst (by omega)
          · exact hrest hr t' ht'

/-! ## Checked files -/

/-- The item with this number has the byte with this position in the item area. -/
def InItem (d : CDatafile) (x Index : Int) : Prop :=
  0 ≤ Index ∧ Index < d.m_NumItems ∧ d.m_pItemOffsets Index ≤ x ∧
    x < d.m_pItemOffsets Index + d.GetFileItemSize Index

/-- The same for the blocks in the data area. -/
def InBlock (d : CDatafile) (x Index : Int) : Prop :=
  0 ≤ Index ∧ Index < d.m_NumRawData ∧ d.m_pDataOffsets Index ≤ x ∧
    x < d.m_pDataOffsets Index + d.GetFileDataSize Index

/-- What `Validate` leaves of the tables. -/
structure Checked (d : CDatafile) : Prop where
  types : Consecutive 0 (typeIntervals d) d.m_NumItems
  items : ∀ t ∈ d.m_Info.m_pItemTypes, ∀ Index, t.m_Start ≤ Index →
    Index < t.m_Start + t.m_Num → ItemChecked d t.m_Type Index
  offsets : d.m_Info.m_pItemOffsets ≠ [] →
    Consecutive 0 (between d.m_Info.m_pItemOffsets d.m_ItemSize) d.m_ItemSize
  empty : d.m_Info.m_pItemOffsets = [] → d.m_ItemSize = 0
  blocks : d.m_Info.m_pDataOffsets ≠ [] →
    Consecutive 0 (between d.m_Info.m_pDataOffsets d.m_DataSize) d.m_DataSize

theorem checked_of_validate {d : CDatafile} (h : d.Validate = true) : Checked d := by
  unfold CDatafile.Validate at h
  obtain ⟨hcount, hoffsets, hitems, hblocks, -⟩ := of_decide_eq_true h
  have htypes := consecutive_of_countItems hcount
  have hspec := (typesValid_spec hitems).2 (Int.le_refl _)
  refine ⟨htypes, ?_, consecutive_of_offsetsValid hoffsets, ?_, consecutive_of_offsetsValid hblocks⟩
  · intro t ht Index hlo hhi
    apply hspec t ht Index hlo
    omega
  · intro hempty
    cases htypes' : d.m_Info.m_pItemTypes with
    | nil =>
        rw [htypes'] at hitems
        exact (Option.some.inj hitems).symm
    | cons t types =>
        have hin := htypes.bounds (List.mem_map_of_mem (htypes' ▸ List.mem_cons_self))
        have hnum : d.m_NumItems = 0 := by
          unfold CDatafile.m_NumItems
          rw [hempty]
          rfl
        simp only at hin
        omega

namespace Checked

variable {d : CDatafile} (h : Checked d)

include h

/-- Each item belongs to exactly one type. -/
theorem existsUnique_type {Index : Int} (h₀ : 0 ≤ Index) (h₁ : Index < d.m_NumItems) :
    ∃! k, Covers (typeIntervals d) Index k :=
  h.types.existsUnique_covers h₀ h₁

theorem type_bounds {t : CDatafileItemType} (ht : t ∈ d.m_Info.m_pItemTypes) :
    0 ≤ t.m_Start ∧ 0 < t.m_Num ∧ t.m_Start + t.m_Num ≤ d.m_NumItems :=
  h.types.bounds (List.mem_map_of_mem ht)

theorem item {Index : Int} (h₀ : 0 ≤ Index) (h₁ : Index < d.m_NumItems) :
    ∃ t ∈ d.m_Info.m_pItemTypes, ItemChecked d t.m_Type Index := by
  obtain ⟨k, p, hp, hlo, hhi⟩ := h.types.exists_covers h₀ h₁
  obtain ⟨t, ht, rfl⟩ := List.mem_map.mp (List.mem_of_getElem? hp)
  exact ⟨t, ht, h.items t ht Index hlo hhi⟩

theorem bounds {Index : Int} (h₀ : 0 ≤ Index) (h₁ : Index < d.m_NumItems) :
    0 ≤ d.m_pItemOffsets Index ∧ 8 ≤ d.GetFileItemSize Index ∧
      d.m_pItemOffsets Index + d.GetFileItemSize Index ≤ d.m_ItemSize := by
  have hne : d.m_Info.m_pItemOffsets ≠ [] := by
    intro hnil
    unfold CDatafile.m_NumItems at h₁
    rw [hnil] at h₁
    exact absurd h₁ (by simp; omega)
  obtain ⟨t, -, hitem⟩ := h.item h₀ h₁
  have hmem := List.mem_of_getElem? (getElem?_between d.m_ItemSize h₀ h₁)
  have hin := (h.offsets hne).bounds hmem
  exact ⟨hin.1, hitem.size, hin.2.2⟩

/-- The items tile the item area. -/
theorem existsUnique_item {x : Int} (h₀ : 0 ≤ x) (h₁ : x < d.m_ItemSize) :
    ∃! Index, InItem d x Index := by
  have hne : d.m_Info.m_pItemOffsets ≠ [] := by
    intro hnil
    have hzero := h.empty hnil
    omega
  obtain ⟨k, hk, hunique⟩ := (h.offsets hne).existsUnique_covers h₀ h₁
  refine ⟨k, ⟨Int.natCast_nonneg k, ?_⟩, ?_⟩
  · exact (covers_between_iff (Int.natCast_nonneg k)).mp hk
  · rintro Index ⟨hnonneg, hin⟩
    have heq := hunique Index.toNat ((covers_between_iff hnonneg).mpr hin)
    omega

/-- By the numbers: each item has a size that is a multiple of four. -/
theorem aligned {Index : Int} (h₀ : 0 ≤ Index) (h₁ : Index < d.m_NumItems) :
    d.m_pItemOffsets Index % 4 = 0 := by
  obtain ⟨k, rfl⟩ := Int.eq_ofNat_of_zero_le h₀
  induction k with
  | zero =>
      have hzero : d.m_pItemOffsets 0 = 0 := by
        have hne : d.m_Info.m_pItemOffsets ≠ [] := by
          intro hnil
          unfold CDatafile.m_NumItems at h₁
          rw [hnil] at h₁
          exact absurd h₁ (by simp)
        have hcons := h.offsets hne
        have hget := getElem?_between d.m_ItemSize (Int.le_refl 0) h₁
        cases hbetween : between d.m_Info.m_pItemOffsets d.m_ItemSize with
        | nil =>
            rw [hbetween] at hget
            cases hget
        | cons p l =>
            rw [hbetween] at hget hcons
            have hp := Option.some.inj hget
            have hstart := hcons.1
            rw [hp] at hstart
            exact hstart
      show d.m_pItemOffsets 0 % 4 = 0
      rw [hzero]
      rfl
  | succ k ih =>
      have hprev : (k : Int) < d.m_NumItems := by omega
      obtain ⟨t, -, hitem⟩ := h.item (Int.natCast_nonneg k) hprev
      have hmod := ih (Int.natCast_nonneg k) hprev
      have hnext : d.GetFileItemSize k = d.m_pItemOffsets (k + 1) - d.m_pItemOffsets k :=
        if_neg (by omega)
      have hsize := hitem.same
      have hfour := hitem.aligned
      unfold CDatafile.GetItemSize at hsize
      show d.m_pItemOffsets (k + 1) % 4 = 0
      omega

theorem block_bounds {Index : Int} (h₀ : 0 ≤ Index) (h₁ : Index < d.m_NumRawData) :
    0 ≤ d.m_pDataOffsets Index ∧ 0 < d.GetFileDataSize Index ∧
      d.m_pDataOffsets Index + d.GetFileDataSize Index ≤ d.m_DataSize := by
  have hne : d.m_Info.m_pDataOffsets ≠ [] := by
    intro hnil
    unfold CDatafile.m_NumRawData at h₁
    rw [hnil] at h₁
    exact absurd h₁ (by simp; omega)
  have hmem := List.mem_of_getElem? (getElem?_between d.m_DataSize h₀ h₁)
  exact (h.blocks hne).bounds hmem

/-- No byte is in two blocks. -/
theorem block_unique {x i j : Int} (hi : InBlock d x i) (hj : InBlock d x j) : i = j := by
  obtain ⟨hi₀, hi⟩ := hi
  obtain ⟨hj₀, hj⟩ := hj
  have hne : d.m_Info.m_pDataOffsets ≠ [] := by
    intro hnil
    have hlt := hi.1
    unfold CDatafile.m_NumRawData at hlt
    rw [hnil] at hlt
    exact absurd hlt (by simp; omega)
  have heq := (h.blocks hne).covers_unique ((covers_between_iff hi₀).mpr hi)
    ((covers_between_iff hj₀).mpr hj)
  omega

end Checked

/-! ## Opening -/

theorem length_table {m_pData : List UInt8} {start n : Int} (h₀ : 0 ≤ start) (hn : 0 ≤ n)
    (hfits : start + 4 * n ≤ m_pData.length) :
    ((table m_pData start (4 * n)).length : Int) = n := by
  unfold table
  rw [length_ints, List.length_take, List.length_drop]
  omega

/-- A file that was accepted and what was made of it. -/
structure Accepted (file : List UInt8) (o : Opened) : Prop where
  valid : o.m_Header.Valid
  int32 : IsInt32 o.m_Header.m_DataSize
  version : o.m_Header.m_Version = 3 ∨ o.m_Header.m_Version = 4
  size : headerSize + o.m_Header.Size + o.m_Header.m_DataSize = file.length
  alloc : o.m_Header.AllocSize ≤ MaxAllocSize
  made : o.m_pDataFile =
    { m_Info := info o.m_Header ((file.drop 36).take o.m_Header.Size.toNat)
      m_DataSize := o.m_Header.m_DataSize }
  start : o.m_DataStartOffset = headerSize + o.m_Header.Size
  swapped : o.m_Header.m_Swaplen - (headerSize - SizeOffset) = o.m_Header.Size
  check : o.m_pDataFile.Validate = true

namespace Accepted

variable {file : List UInt8} {o : Opened} (h : Accepted file o)

include h

theorem checked : Checked o.m_pDataFile := checked_of_validate h.check

/-- The numbers of the header and the block that they say. -/
theorem block : 0 ≤ o.m_Header.m_NumItemTypes ∧ 0 ≤ o.m_Header.m_NumItems ∧
    0 ≤ o.m_Header.m_NumRawData ∧ 0 ≤ o.m_Header.m_ItemSize ∧ 0 ≤ o.m_Header.m_DataSize ∧
    0 ≤ o.m_Header.SizeFix ∧
    (((file.drop 36).take o.m_Header.Size.toNat).length : Int) = o.m_Header.Size := by
  obtain ⟨htypes, -, hitems, hdata, harea, -, hsize⟩ := h.valid
  have hfix : 0 ≤ o.m_Header.SizeFix := by
    unfold CDatafileHeader.SizeFix
    split <;> omega
  have hnonneg : 0 ≤ o.m_Header.Size := by
    unfold CDatafileHeader.Size
    omega
  have hfile := h.size
  unfold headerSize at hfile
  refine ⟨htypes, hitems, hdata, harea, hsize, hfix, ?_⟩
  rw [List.length_take, List.length_drop]
  omega

/-- The tables have as many entries as the header says. -/
theorem counts : o.m_pDataFile.m_NumItems = o.m_Header.m_NumItems ∧
    o.m_pDataFile.m_NumRawData = o.m_Header.m_NumRawData ∧
    o.m_pDataFile.m_ItemSize = o.m_Header.m_ItemSize ∧
    o.m_pDataFile.m_DataSize = o.m_Header.m_DataSize := by
  obtain ⟨htypes, hitems, hdata, harea, -, hfix, hblock⟩ := h.block
  have hsize : o.m_Header.Size = 12 * o.m_Header.m_NumItemTypes + 4 * o.m_Header.m_NumItems +
      4 * o.m_Header.m_NumRawData + o.m_Header.SizeFix + o.m_Header.m_ItemSize := rfl
  rw [h.made]
  refine ⟨?_, ?_, ?_, rfl⟩
  · apply length_table <;> omega
  · apply length_table <;> omega
  · show ((List.drop _ _).length : Int) = _
    rw [List.length_drop]
    omega

theorem start_bounds : headerSize ≤ o.m_DataStartOffset ∧ o.m_DataStartOffset ≤ intMax ∧
    o.m_DataStartOffset + o.m_pDataFile.m_DataSize = file.length := by
  obtain ⟨htypes, hitems, hdata, harea, -, hfix, -⟩ := h.block
  have hfile := h.size
  have hstart := h.start
  have halloc := h.alloc
  have hdatasize := h.counts.2.2.2
  unfold CDatafileHeader.AllocSize CDatafileHeader.Size datafileSize MaxAllocSize at halloc
  unfold CDatafileHeader.Size at hfile hstart
  unfold headerSize at *
  unfold intMax
  refine ⟨?_, ?_, ?_⟩ <;> omega

/-- A block is inside the file, and the position that is sought is its start if it is one. -/
theorem block_in_file {Index : Int} (h₀ : 0 ≤ Index) (h₁ : Index < o.m_pDataFile.m_NumRawData) :
    0 < o.m_pDataFile.GetFileDataSize Index ∧
      headerSize ≤ o.m_DataStartOffset + o.m_pDataFile.m_pDataOffsets Index ∧
      o.m_DataStartOffset + o.m_pDataFile.m_pDataOffsets Index +
        o.m_pDataFile.GetFileDataSize Index ≤ file.length ∧
      (0 ≤ o.seekPos Index →
        o.seekPos Index = o.m_DataStartOffset + o.m_pDataFile.m_pDataOffsets Index) := by
  obtain ⟨hlo, hpos, hhi⟩ := h.checked.block_bounds h₀ h₁
  obtain ⟨hheader, hmax, hend⟩ := h.start_bounds
  have hdata : o.m_pDataFile.m_DataSize ≤ intMax := by
    rw [h.counts.2.2.2]
    exact h.int32.2
  refine ⟨hpos, by omega, by omega, ?_⟩
  unfold Opened.seekPos intMax wrap32 at *
  omega

end Accepted

/-! ## Accessors -/

namespace Checked

variable {d : CDatafile} {Index : Int}

theorem checkIndex_eq (h₀ : 0 ≤ Index) (h₁ : Index < d.m_NumItems) :
    checkIndex d Index = .ok () :=
  if_pos ⟨h₀, h₁⟩

theorem itemOffset_eq (h₀ : 0 ≤ Index) (h₁ : Index < d.m_NumItems) :
    itemOffset d Index = .ok (d.m_pItemOffsets Index) :=
  if_pos ⟨h₀, h₁⟩

theorem itemPos_eq (h₀ : 0 ≤ Index) (h₁ : Index < d.m_NumItems) :
    itemPos d Index = .ok (d.m_pItemOffsets Index) := by
  unfold itemPos
  rw [checkIndex_eq h₀ h₁]
  exact itemOffset_eq h₀ h₁

theorem getItemSize_eq (h₀ : 0 ≤ Index) (h₁ : Index < d.m_NumItems) :
    GetItemSize d Index = .ok (d.GetItemSize Index) := by
  unfold GetItemSize CDatafile.GetItemSize CDatafile.GetFileItemSize
  rw [checkIndex_eq h₀ h₁, itemOffset_eq h₀ h₁]
  by_cases hlast : Index = d.m_NumItems - 1
  · simp only [bind, Except.bind, if_pos hlast, pure, Except.pure]
  · rw [itemOffset_eq (show 0 ≤ Index + 1 by omega) (by omega)]
    simp only [bind, Except.bind, if_neg hlast, pure, Except.pure]

theorem areaInt_eq {pos : Int} (h₀ : 0 ≤ pos) (h₁ : pos + 4 ≤ d.m_ItemSize) :
    areaInt d pos = .ok (readInt (d.m_Info.m_pItemStart.drop pos.toNat)) :=
  if_pos ⟨h₀, h₁⟩

theorem toUuid_succeeds {pos : Int} (h₀ : 0 ≤ pos) (h₁ : pos + 16 ≤ d.m_ItemSize) :
    ∃ Uuid, ToUuid d pos = .ok Uuid := by
  apply mapM_succeeds
  intro k hk
  have hlt := List.mem_range.mp hk
  exact ⟨_, areaInt_eq (by omega) (by omega)⟩

variable (h : Checked d)

include h

/-- The item that is asked for lies in the area with its header. -/
theorem itemType_eq (h₀ : 0 ≤ Index) (h₁ : Index < d.m_NumItems) :
    itemType d (d.m_pItemOffsets Index) = .ok (d.itemType Index) := by
  obtain ⟨hlo, hsize, hhi⟩ := h.bounds h₀ h₁
  unfold itemType
  rw [areaInt_eq hlo (by omega)]
  show Except.ok _ = _
  unfold CDatafile.itemType CDatafile.itemInt
  rw [show d.m_pItemOffsets Index + 4 * (0 : Nat) = d.m_pItemOffsets Index by omega]

theorem itemId_succeeds (h₀ : 0 ≤ Index) (h₁ : Index < d.m_NumItems) :
    ∃ Id, itemId d (d.m_pItemOffsets Index) = .ok Id := by
  obtain ⟨hlo, hsize, hhi⟩ := h.bounds h₀ h₁
  unfold itemId
  rw [areaInt_eq hlo (by omega)]
  exact ⟨_, rfl⟩

/-- The items of a type are items of the file with this type. -/
theorem typeRange_spec (InternalType : Int) :
    0 ≤ (typeRange d InternalType).1 ∧ 0 ≤ (typeRange d InternalType).2 ∧
      (typeRange d InternalType).1 + (typeRange d InternalType).2 ≤ d.m_NumItems ∧
      ∀ Index, (typeRange d InternalType).1 ≤ Index →
        Index < (typeRange d InternalType).1 + (typeRange d InternalType).2 →
        d.itemType Index = InternalType := by
  unfold typeRange
  cases hfind : d.m_Info.m_pItemTypes.find? fun ItemType => ItemType.m_Type = InternalType with
  | none =>
      refine ⟨Int.le_refl 0, Int.le_refl 0, Int.natCast_nonneg _, fun Index hlo hhi => ?_⟩
      simp only at hlo hhi
      omega
  | some t =>
      have hmem := List.mem_of_find?_eq_some hfind
      have htype : t.m_Type = InternalType := by simpa using List.find?_some hfind
      obtain ⟨hstart, hnum, hend⟩ := h.type_bounds hmem
      refine ⟨hstart, Int.le_of_lt hnum, hend, fun Index hlo hhi => ?_⟩
      rw [← htype]
      exact (h.items t hmem Index hlo hhi).type

theorem findId_succeeds (Id : Int) {n : Nat} (h₀ : 0 ≤ Index) (h₁ : Index + n ≤ d.m_NumItems) :
    ∃ r, findId d Id n Index = .ok r ∧ (r = -1 ∨ Index ≤ r ∧ r < Index + n) := by
  induction n generalizing Index with
  | zero => exact ⟨-1, rfl, .inl rfl⟩
  | succ n ih =>
      obtain ⟨r, hr⟩ := h.itemId_succeeds h₀ (show Index < d.m_NumItems by omega)
      obtain ⟨r', hr', hrange⟩ := ih (show 0 ≤ Index + 1 by omega) (by omega)
      unfold findId
      rw [itemPos_eq h₀ (by omega)]
      simp only [bind, Except.bind, hr]
      split
      · exact ⟨Index, rfl, .inr ⟨Int.le_refl _, by omega⟩⟩
      · refine ⟨r', hr', ?_⟩
        omega

theorem getItemWith_succeeds {f : Int → Exec Int} (hf : ∃ r, f (d.itemType Index) = .ok r)
    (h₀ : 0 ≤ Index) (h₁ : Index < d.m_NumItems) :
    ∃ r, GetItemWith d f Index = .ok r ∧ r.1 = d.m_pItemOffsets Index + 8 := by
  obtain ⟨ExternalType, hf⟩ := hf
  obtain ⟨Id, hId⟩ := h.itemId_succeeds h₀ h₁
  unfold GetItemWith
  rw [itemPos_eq h₀ h₁]
  simp only [bind, Except.bind, h.itemType_eq h₀ h₁, hf, hId]
  exact ⟨_, rfl, rfl⟩

/-- The words of a type are read from an item that has them. -/
theorem uuid_succeeds {f : Int → Exec Int} (hf : ∃ r, f (d.itemType Index) = .ok r)
    (h₀ : 0 ≤ Index) (h₁ : Index < d.m_NumItems) (hsize : 16 ≤ d.GetItemSize Index) :
    ∃ r Uuid, GetItemWith d f Index = .ok r ∧ ToUuid d r.1 = .ok Uuid := by
  obtain ⟨r, hr, hpos⟩ := h.getItemWith_succeeds hf h₀ h₁
  obtain ⟨hlo, -, hhi⟩ := h.bounds h₀ h₁
  unfold CDatafile.GetItemSize at hsize
  obtain ⟨Uuid, hUuid⟩ := @toUuid_succeeds d r.1 (by omega) (by omega)
  exact ⟨r, Uuid, hr, hUuid⟩

theorem getExternalItemTypeWith_succeeds (LookupUuid : List Int → Int) {f : Int → Exec Int}
    (hf : ∃ r, f ITEMTYPE_EX = .ok r) (InternalType : Int) :
    ∃ r, GetExternalItemTypeWith d LookupUuid (GetItemWith d f) InternalType = .ok r := by
  obtain ⟨hstart, hnum, hend, htype⟩ := h.typeRange_spec ITEMTYPE_EX
  unfold GetExternalItemTypeWith
  split
  · exact ⟨_, rfl⟩
  · obtain ⟨TypeIndex, hfind, hrange⟩ := h.findId_succeeds InternalType hstart
      (show (typeRange d ITEMTYPE_EX).1 + ((typeRange d ITEMTYPE_EX).2.toNat : Int) ≤ _ by omega)
    simp only [bind, Except.bind, hfind]
    split
    · exact ⟨_, rfl⟩
    next hfound =>
      have h₀ : 0 ≤ TypeIndex := by omega
      have h₁ : TypeIndex < d.m_NumItems := by omega
      rw [getItemSize_eq h₀ h₁]
      simp only
      split
      · exact ⟨_, rfl⟩
      next hsize =>
        rw [← htype TypeIndex (by omega) (by omega)] at hf
        obtain ⟨r, Uuid, hr, hUuid⟩ := h.uuid_succeeds hf h₀ h₁ (by omega)
        simp only [hr, hUuid]
        exact ⟨_, rfl⟩

theorem getExternalItemType_succeeds (LookupUuid : List Int → Int) (InternalType : Int) :
    ∃ r, GetExternalItemType d LookupUuid InternalType = .ok r := by
  apply h.getExternalItemTypeWith_succeeds LookupUuid
  exact ⟨ITEMTYPE_EX, if_pos (.inr rfl)⟩

theorem getItem_succeeds (LookupUuid : List Int → Int) (h₀ : 0 ≤ Index)
    (h₁ : Index < d.m_NumItems) :
    ∃ r, GetItem d LookupUuid Index = .ok r ∧ r.1 = d.m_pItemOffsets Index + 8 :=
  h.getItemWith_succeeds (h.getExternalItemType_succeeds LookupUuid _) h₀ h₁

theorem findUuid_succeeds (LookupUuid : List Int → Int) (Uuid : List Int) {n : Nat}
    (h₀ : 0 ≤ Index) (h₁ : Index + n ≤ d.m_NumItems) :
    ∃ r, findUuid d LookupUuid Uuid n Index = .ok r := by
  induction n generalizing Index with
  | zero => exact ⟨-1, rfl⟩
  | succ n ih =>
      obtain ⟨r', hr'⟩ := ih (show 0 ≤ Index + 1 by omega) (by omega)
      unfold findUuid
      rw [getItemSize_eq h₀ (by omega)]
      simp only [bind, Except.bind]
      split
      · exact ⟨r', hr'⟩
      next hsize =>
        obtain ⟨r, words, hr, hwords⟩ := h.uuid_succeeds
          (h.getExternalItemType_succeeds LookupUuid _) h₀ (by omega) (by omega)
        have hitem : GetItem d LookupUuid Index = .ok r := hr
        simp only [hitem, hwords]
        split
        · exact ⟨_, rfl⟩
        · exact ⟨r', hr'⟩

/-- A type, given as a number or as a UUID, has items of the file or none. -/
theorem getType_succeeds (LookupUuid : List Int → Int) (GetUuid : Int → List Int) (type : Int) :
    ∃ r, GetType d LookupUuid GetUuid type = .ok r ∧ 0 ≤ r.1 ∧ 0 ≤ r.2 ∧
      r.1 + r.2 ≤ d.m_NumItems := by
  have hinternal : ∃ InternalType,
      GetInternalItemType d LookupUuid GetUuid type = .ok InternalType := by
    unfold GetInternalItemType
    split
    · exact ⟨_, rfl⟩
    · obtain ⟨hstart, hnum, hend, -⟩ := h.typeRange_spec ITEMTYPE_EX
      apply h.findUuid_succeeds LookupUuid _ hstart
      omega
  obtain ⟨InternalType, hinternal⟩ := hinternal
  obtain ⟨hstart, hnum, hend, -⟩ := h.typeRange_spec InternalType
  unfold GetType
  rw [hinternal]
  exact ⟨_, rfl, hstart, hnum, hend⟩

theorem findItemIndex_succeeds (LookupUuid : List Int → Int) (GetUuid : Int → List Int)
    (type Id : Int) :
    ∃ r, FindItemIndex d LookupUuid GetUuid type Id = .ok r ∧
      (r = -1 ∨ 0 ≤ r ∧ r < d.m_NumItems) := by
  obtain ⟨range, hrange, hstart, hnum, hend⟩ := h.getType_succeeds LookupUuid GetUuid type
  obtain ⟨r, hr, hin⟩ := h.findId_succeeds Id hstart
    (show range.1 + (range.2.toNat : Int) ≤ d.m_NumItems by omega)
  unfold FindItemIndex
  rw [hrange]
  refine ⟨r, hr, ?_⟩
  omega

theorem findItem_succeeds (LookupUuid : List Int → Int) (GetUuid : Int → List Int) (type Id : Int) :
    ∃ r, FindItem d LookupUuid GetUuid type Id = .ok r := by
  obtain ⟨Index, hIndex, hin⟩ := h.findItemIndex_succeeds LookupUuid GetUuid type Id
  unfold FindItem
  rw [hIndex]
  simp only [bind, Except.bind]
  split
  · exact ⟨none, rfl⟩
  next hfound =>
    obtain ⟨r, hr, -⟩ := h.getItem_succeeds LookupUuid (show 0 ≤ Index by omega) (by omega)
    rw [hr]
    exact ⟨_, rfl⟩

end Checked

/-! ## Accepted files -/

/-- The item area, the types and the blocks of a file that was accepted. -/
structure Sound (file : List UInt8) (o : Opened) : Prop where
  counts : o.m_pDataFile.m_NumItems = o.m_Header.m_NumItems ∧
    o.m_pDataFile.m_NumRawData = o.m_Header.m_NumRawData ∧
    o.m_pDataFile.m_ItemSize = o.m_Header.m_ItemSize ∧
    o.m_pDataFile.m_DataSize = o.m_Header.m_DataSize
  items : ∀ Index, 0 ≤ Index → Index < o.m_pDataFile.m_NumItems →
    o.m_pDataFile.m_pItemOffsets Index % 4 = 0 ∧ 0 ≤ o.m_pDataFile.m_pItemOffsets Index ∧
      8 ≤ o.m_pDataFile.GetFileItemSize Index ∧
      o.m_pDataFile.m_pItemOffsets Index + o.m_pDataFile.GetFileItemSize Index ≤
        o.m_pDataFile.m_ItemSize ∧
      o.m_pDataFile.m_Size Index = o.m_pDataFile.GetItemSize Index
  tiled : ∀ x, 0 ≤ x → x < o.m_pDataFile.m_ItemSize → ∃! Index, InItem o.m_pDataFile x Index
  types : ∀ t ∈ o.m_pDataFile.m_Info.m_pItemTypes,
    0 ≤ t.m_Start ∧ 0 < t.m_Num ∧ t.m_Start + t.m_Num ≤ o.m_pDataFile.m_NumItems
  partition : ∀ Index, 0 ≤ Index → Index < o.m_pDataFile.m_NumItems →
    ∃! k, Covers (typeIntervals o.m_pDataFile) Index k
  blocks : ∀ Index, 0 ≤ Index → Index < o.m_pDataFile.m_NumRawData →
    0 < o.m_pDataFile.GetFileDataSize Index ∧
      headerSize ≤ o.m_DataStartOffset + o.m_pDataFile.m_pDataOffsets Index ∧
      o.m_DataStartOffset + o.m_pDataFile.m_pDataOffsets Index +
        o.m_pDataFile.GetFileDataSize Index ≤ file.length
  disjoint : ∀ x i j, InBlock o.m_pDataFile x i → InBlock o.m_pDataFile x j → i = j

/-- No accessor reads outside the item area or the file; `GetData` seeks to the block or to a
negative position, where nothing is read. -/
structure Safe (file : List UInt8) (o : Opened) (LookupUuid : List Int → Int)
    (GetUuid : Int → List Int) : Prop where
  getItemSize : ∀ Index, 0 ≤ Index → Index < o.m_pDataFile.m_NumItems →
    GetItemSize o.m_pDataFile Index = .ok (o.m_pDataFile.GetItemSize Index)
  getItem : ∀ Index, 0 ≤ Index → Index < o.m_pDataFile.m_NumItems →
    ∃ r, GetItem o.m_pDataFile LookupUuid Index = .ok r ∧ 0 ≤ r.1 ∧
      r.1 + o.m_pDataFile.GetItemSize Index ≤ o.m_pDataFile.m_ItemSize
  rejected : ∀ Index, ¬ (0 ≤ Index ∧ Index < o.m_pDataFile.m_NumItems) →
    GetItemSize o.m_pDataFile Index = .error .assertion ∧
      GetItem o.m_pDataFile LookupUuid Index = .error .assertion
  getType : ∀ type, ∃ r, GetType o.m_pDataFile LookupUuid GetUuid type = .ok r ∧
    0 ≤ r.1 ∧ 0 ≤ r.2 ∧ r.1 + r.2 ≤ o.m_pDataFile.m_NumItems
  findItem : ∀ type Id, ∃ r, FindItem o.m_pDataFile LookupUuid GetUuid type Id = .ok r
  getData : ∀ Index, 0 ≤ Index → Index < o.m_pDataFile.m_NumRawData → 0 ≤ o.seekPos Index →
    headerSize ≤ o.seekPos Index ∧
      o.seekPos Index + o.m_pDataFile.GetFileDataSize Index ≤ file.length

namespace Accepted

variable {file : List UInt8} {o : Opened} (h : Accepted file o)

include h

theorem sound : Sound file o := by
  have hchecked := h.checked
  refine
    { counts := h.counts, items := ?_, tiled := fun x => hchecked.existsUnique_item
      types := fun t => hchecked.type_bounds, partition := fun Index => hchecked.existsUnique_type
      blocks := ?_, disjoint := fun x i j => hchecked.block_unique }
  · intro Index h₀ h₁
    obtain ⟨t, -, hitem⟩ := hchecked.item h₀ h₁
    obtain ⟨hlo, hsize, hhi⟩ := hchecked.bounds h₀ h₁
    exact ⟨hchecked.aligned h₀ h₁, hlo, hsize, hhi, hitem.same⟩
  · intro Index h₀ h₁
    obtain ⟨hpos, hheader, hend, -⟩ := h.block_in_file h₀ h₁
    exact ⟨hpos, hheader, hend⟩

end Accepted

end Fex.Engine.DataFile
