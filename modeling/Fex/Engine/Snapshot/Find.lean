import Fex.Engine.Snapshot.Builder
import Fex.Engine.Snapshot.Uuids

/-!
# Finding items in a snapshot

Keys of plain types, of extended types and of the items that describe extended
types do not meet, so every search ends at the item that was added.
-/

namespace Fex.Engine.Snapshot

open Fex.Lib

/-! ## Keys -/

theorem makeKey_eq {ItemType Id : Int} (ht : 0 ≤ ItemType ∧ ItemType ≤ MAX_TYPE)
    (hi : 0 ≤ Id ∧ Id ≤ MAX_ID) : makeKey ItemType Id = ItemType * 65536 + Id := by
  obtain ⟨t, rfl⟩ := Int.eq_ofNat_of_zero_le ht.1
  obtain ⟨i, rfl⟩ := Int.eq_ofNat_of_zero_le hi.1
  have ht' : t < 32768 := by
    have h := ht.2
    unfold MAX_TYPE at h
    omega
  have hi' : i < 65536 := by
    have h := hi.2
    unfold MAX_ID at h
    omega
  have hor : (BitVec.ofInt 32 t <<< 16 ||| BitVec.ofInt 32 i).toNat = t * 65536 + i := by
    rw [BitVec.toNat_or, BitVec.toNat_shiftLeft, BitVec.ofInt_natCast, BitVec.ofInt_natCast,
      BitVec.toNat_ofNat, BitVec.toNat_ofNat, Nat.mod_eq_of_lt (show t < 2 ^ 32 by omega),
      Nat.mod_eq_of_lt (show i < 2 ^ 32 by omega)]
    have hshift : t <<< 16 = t * 65536 := by rw [Nat.shiftLeft_eq]
    have hlt : t <<< 16 < 2 ^ 32 := by omega
    rw [Nat.mod_eq_of_lt hlt, ← Nat.shiftLeft_add_eq_or_of_lt hi', hshift]
  unfold makeKey
  rw [BitVec.toInt_eq_toNat_of_lt (by rw [hor]; omega), hor]
  omega

/-- An item with a stored type and an id. -/
def itemOf (t Id : Int) (Data : List UInt8) : CSnapshotItem :=
  { m_TypeAndId := makeKey t Id, Data := Data }

section ItemOf

variable {t Id : Int} {Data : List UInt8}

theorem itemType_itemOf (ht : 0 ≤ t ∧ t ≤ MAX_TYPE) (hi : 0 ≤ Id ∧ Id ≤ MAX_ID) :
    (itemOf t Id Data).ItemType = t := by
  unfold CSnapshotItem.ItemType itemOf
  simp only
  rw [makeKey_eq ht hi]
  unfold MAX_ID at hi
  omega

theorem id_itemOf (ht : 0 ≤ t ∧ t ≤ MAX_TYPE) (hi : 0 ≤ Id ∧ Id ≤ MAX_ID) :
    (itemOf t Id Data).Id = Id := by
  unfold CSnapshotItem.Id itemOf
  simp only
  rw [makeKey_eq ht hi]
  unfold MAX_ID at hi
  omega

theorem makeKey_inj {t' Id' : Int} (ht : 0 ≤ t ∧ t ≤ MAX_TYPE) (hi : 0 ≤ Id ∧ Id ≤ MAX_ID)
    (ht' : 0 ≤ t' ∧ t' ≤ MAX_TYPE) (hi' : 0 ≤ Id' ∧ Id' ≤ MAX_ID)
    (h : makeKey t Id = makeKey t' Id') : t = t' ∧ Id = Id' := by
  rw [makeKey_eq ht hi, makeKey_eq ht' hi'] at h
  unfold MAX_ID at hi hi'
  omega

end ItemOf

/-! ## Searches -/

section Reads

variable {s : CSnapshot} {items : List CSnapshotItem}

/-- The search for a key ends at an item with the key or there is none. -/
theorem Reads.getItemIndex (h : Reads s items) (Key : Int) :
    ∃ r, s.GetItemIndex Key = .ok r ∧ (r = none → ∀ x ∈ items, x.Key ≠ Key) ∧
      ∀ i, r = some i → ∃ x, items[i]? = some x ∧ x.Key = Key := by
  have hloop : ∀ n i, n + i = items.length → ∃ r, s.GetItemIndexLoop Key n i = .ok r ∧
      (r = none → ∀ x ∈ items.drop i, x.Key ≠ Key) ∧
      ∀ j, r = some j → ∃ x, items[j]? = some x ∧ x.Key = Key := by
    intro n
    induction n with
    | zero =>
        intro i hi
        refine ⟨none, rfl, fun _ x hx => ?_, fun j hj => by cases hj⟩
        rw [List.drop_eq_nil_of_le (by omega)] at hx
        cases hx
    | succ n ih =>
        intro i hi
        have hlt : i < items.length := by omega
        unfold CSnapshot.GetItemIndexLoop
        rw [h.item i hlt]
        simp only [bind, Except.bind]
        by_cases hkey : items[i].Key = Key
        · rw [if_pos hkey]
          refine ⟨some i, rfl, (fun hnone => by cases hnone), fun j hj => ?_⟩
          cases hj
          exact ⟨items[i], List.getElem?_eq_getElem hlt, hkey⟩
        · rw [if_neg hkey]
          obtain ⟨r, hrun, hnone, hsome⟩ := ih (i + 1) (by omega)
          refine ⟨r, hrun, fun hr x hx => ?_, hsome⟩
          rw [← List.getElem_cons_drop hlt] at hx
          rcases List.mem_cons.mp hx with rfl | hx
          · exact hkey
          · exact hnone hr x hx
  obtain ⟨r, hrun, hnone, hsome⟩ := hloop items.length 0 (by omega)
  refine ⟨r, ?_, fun hr x hx => hnone hr x (by simpa using hx), hsome⟩
  unfold CSnapshot.GetItemIndex
  rw [h.count]
  exact hrun

/-- The item describes the extended type with these bytes. -/
def Describes (x : CSnapshotItem) (aTypeUuidItem : List UInt8) : Prop :=
  x.ItemType = 0 ∧ x.Id ≥ OFFSET_UUID_TYPE ∧ mem_comp (x.Data.take 16) aTypeUuidItem = 0

theorem Reads.findType (h : Reads s items) (aTypeUuidItem : List UInt8)
    (hlong : ∀ x ∈ items, x.ItemType = 0 → x.Id ≥ OFFSET_UUID_TYPE → 16 ≤ x.Data.length) :
    ∃ r, s.FindTypeLoop aTypeUuidItem s.m_NumItems 0 = .ok r ∧
      (r = none → ∀ x ∈ items, ¬ Describes x aTypeUuidItem) ∧
      ∀ k, r = some k → ∃ x ∈ items, Describes x aTypeUuidItem ∧ k = x.Id := by
  have hloop : ∀ n i, n + i = items.length → ∃ r, s.FindTypeLoop aTypeUuidItem n i = .ok r ∧
      (r = none → ∀ x ∈ items.drop i, ¬ Describes x aTypeUuidItem) ∧
      ∀ k, r = some k → ∃ x ∈ items, Describes x aTypeUuidItem ∧ k = x.Id := by
    intro n
    induction n with
    | zero =>
        intro i hi
        refine ⟨none, rfl, fun _ x hx => ?_, fun j hj => by cases hj⟩
        rw [List.drop_eq_nil_of_le (by omega)] at hx
        cases hx
    | succ n ih =>
        intro i hi
        have hlt : i < items.length := by omega
        have hmem := List.getElem_mem hlt
        obtain ⟨r, hrun, hnone, hsome⟩ := ih (i + 1) (by omega)
        have hskip : ¬ Describes items[i] aTypeUuidItem → r = none →
            ∀ x ∈ items.drop i, ¬ Describes x aTypeUuidItem := by
          intro hnot hr x hx
          rw [← List.getElem_cons_drop hlt] at hx
          rcases List.mem_cons.mp hx with rfl | hx
          · exact hnot
          · exact hnone hr x hx
        unfold CSnapshot.FindTypeLoop
        rw [h.item i hlt]
        simp only [bind, Except.bind]
        by_cases htype : items[i].ItemType = 0 ∧ items[i].Id ≥ OFFSET_UUID_TYPE
        · have hlen := hlong _ hmem htype.1 htype.2
          rw [if_pos htype, if_neg (by omega)]
          by_cases hcomp : mem_comp (items[i].Data.take 16) aTypeUuidItem = 0
          · rw [if_pos hcomp]
            refine ⟨some items[i].Id, rfl, (fun hnone => by cases hnone), fun k hk => ?_⟩
            exact ⟨items[i], hmem, ⟨htype.1, htype.2, hcomp⟩, (Option.some.inj hk).symm⟩
          · rw [if_neg hcomp]
            exact ⟨r, hrun, hskip fun hd => hcomp hd.2.2, hsome⟩
        · rw [if_neg htype]
          exact ⟨r, hrun, hskip fun hd => htype ⟨hd.1, hd.2.1⟩, hsome⟩
  obtain ⟨r, hrun, hnone, hsome⟩ := hloop items.length 0 (by omega)
  refine ⟨r, ?_, fun hr x hx => hnone hr x (by simpa using hx), hsome⟩
  rw [h.count]
  exact hrun

end Reads

end Fex.Engine.Snapshot
