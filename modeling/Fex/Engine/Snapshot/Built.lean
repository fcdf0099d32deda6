import Fex.Engine.Snapshot.Builder
import Fex.Engine.Snapshot.Find

/-!
# Snapshots that were built

A snapshot is built where a run of the builder finishes with it.  Every built
snapshot is that of a list of items within the limits, and every list of items
of plain types within the limits is built.
-/

namespace Fex.Engine.Snapshot

open Fex.Lib CSnapshotBuilder

variable (Obj_SixToSeven : Int → Int) (g_UuidManager : CUuidManager)

/-- A run of the builder finishes with the snapshot. -/
def Built (s : CSnapshot) : Prop :=
  ∃ Sixup b Size, Reachable (CSnapshotBuilder.step Obj_SixToSeven g_UuidManager)
    (Allowed g_UuidManager) (start Sixup) b ∧ b.Finish = .ok (s, Size)

/-- The items that are read from a snapshot. -/
def CSnapshot.Items (s : CSnapshot) : List CSnapshotItem :=
  (List.range s.m_NumItems).filterMap fun i => (s.GetItem i).toOption

theorem Reads.items_eq {s : CSnapshot} {items : List CSnapshotItem} (h : Reads s items) :
    s.Items = items := by
  unfold CSnapshot.Items
  rw [h.count]
  have hmap : (List.range items.length).filterMap (fun i => (s.GetItem i).toOption) =
      (List.range items.length).filterMap fun i => items[i]? := by
    apply List.filterMap_congr
    intro i hi
    have hlt := List.mem_range.mp hi
    rw [h.item i hlt, List.getElem?_eq_getElem hlt]
    rfl
  have hrange : ∀ l : List CSnapshotItem,
      (List.range l.length).filterMap (fun i => l[i]?) = l := by
    intro l
    induction l with
    | nil => rfl
    | cons x l ih =>
        rw [List.length_cons, List.range_succ_eq_map, List.filterMap_cons, List.filterMap_map]
        simpa using ih
  rw [hmap, hrange]

/-! ## Every step keeps the layout -/

/-- The builder consists of items. -/
def Laid (b : CSnapshotBuilder) : Prop := ∃ items, Holds b items

section Laid

variable {b b' : CSnapshotBuilder} {p : CItemPtr} {ItemType Id : Int} {Size : Nat}

theorem Laid.putItem (h : Laid b) (hrun : b.PutItem ItemType Id Size = .ok (b', p)) : Laid b' := by
  obtain ⟨items, hitems⟩ := h
  by_cases hfull : MAX_SIZE < b.m_DataSize + (4 + Size) ∨ MAX_ITEMS ≤ b.m_NumItems
  · unfold CSnapshotBuilder.PutItem at hrun
    rw [if_pos hfull] at hrun
    cases hrun
  · have hsize : b.m_DataSize + (4 + Size) ≤ MAX_SIZE := by omega
    obtain ⟨c, hput, -, -, hc⟩ := hitems.putItem ItemType Id hsize (by omega)
    rw [hrun] at hput
    cases hput
    exact ⟨_, hc⟩

theorem Laid.writeData (h : Laid b) {Index : Nat} {bytes : List UInt8}
    (hrun : b.WriteData Index bytes = .ok b') : Laid b' := by
  obtain ⟨items, hitems⟩ := h
  cases ho : b.m_aOffsets[Index]? with
  | none =>
      unfold CSnapshotBuilder.WriteData at hrun
      rw [ho] at hrun
      cases hrun
  | some o =>
      obtain ⟨is, x, js, rfl, rfl⟩ := hitems.split ho
      by_cases hlen : bytes.length ≤ x.Data.length
      · obtain ⟨c, hwrite, -, -, hc⟩ := hitems.writeData hlen
        rw [hrun] at hwrite
        cases hwrite
        exact ⟨_, hc⟩
      · rw [hitems.writeData_outOfBounds (by omega)] at hrun
        cases hrun

theorem Laid.newItemWith (h : Laid b)
    {GetExtendedItemTypeIndex : CSnapshotBuilder → Int → Exec (CSnapshotBuilder × Option Nat)}
    (hget : ∀ T c r, GetExtendedItemTypeIndex b T = .ok (c, r) → Laid c)
    (hrun : b.NewItemWith Obj_SixToSeven GetExtendedItemTypeIndex ItemType Id Size = .ok (b', p)) :
    Laid b' := by
  unfold CSnapshotBuilder.NewItemWith at hrun
  by_cases hid : Id = -1
  · rw [if_pos hid] at hrun
    cases hrun
    exact h
  rw [if_neg hid] at hrun
  by_cases hroom : b.HasRoom Size
  · rw [if_neg (not_not.mpr hroom)] at hrun
    by_cases hext : ItemType ≥ OFFSET_UUID
    · rw [if_pos hext] at hrun
      cases hindex : GetExtendedItemTypeIndex b ItemType with
      | error e =>
          rw [hindex] at hrun
          cases hrun
      | ok r =>
          obtain ⟨c, r⟩ := r
          have hc := hget _ _ _ hindex
          rw [hindex] at hrun
          cases r with
          | none =>
              cases hrun
              exact hc
          | some Index => exact hc.putItem hrun
    · rw [if_neg hext] at hrun
      by_cases hsix : b.m_Sixup = true
      · rw [if_pos hsix] at hrun
        simp only at hrun
        split at hrun
        · split at hrun
          · cases hrun
            exact h
          · exact h.putItem hrun
        · split at hrun
          · cases hrun
            exact h
          · exact h.putItem hrun
      · rw [if_neg hsix] at hrun
        by_cases hneg : ItemType < 0
        · rw [if_pos hneg] at hrun
          cases hrun
          exact h
        · rw [if_neg hneg] at hrun
          exact h.putItem hrun
  · rw [if_pos hroom] at hrun
    cases hrun
    exact h

theorem Laid.addExtendedItemType (h : Laid b) {Index : Nat} {r : Bool}
    (hrun : b.AddExtendedItemType Obj_SixToSeven g_UuidManager Index = .ok (b', r)) : Laid b' := by
  unfold CSnapshotBuilder.AddExtendedItemType at hrun
  cases hnew : b.NewItemWith Obj_SixToSeven (fun _ _ => .error .diverges) 0
      (GetTypeFromIndex Index) 16 with
  | error e =>
      rw [hnew] at hrun
      cases hrun
  | ok q =>
      obtain ⟨c, q⟩ := q
      have hc : Laid c := h.newItemWith Obj_SixToSeven (fun _ _ _ hget => by cases hget) hnew
      rw [hnew] at hrun
      simp only [bind, Except.bind] at hrun
      cases htype : c.m_aExtendedItemTypes[Index]? with
      | none =>
          rw [htype] at hrun
          cases hrun
      | some T =>
          rw [htype] at hrun
          cases q with
          | null =>
              cases hrun
              exact hc
          | data i =>
              simp only at hrun
              cases huuid : g_UuidManager.GetUuid T with
              | error e =>
                  rw [huuid] at hrun
                  cases hrun
              | ok Uuid =>
                  rw [huuid] at hrun
                  simp only at hrun
                  cases hwrite : c.WriteData i (CSnapshot.uuidData Uuid) with
                  | error e =>
                      rw [hwrite] at hrun
                      cases hrun
                  | ok c' =>
                      rw [hwrite] at hrun
                      cases hrun
                      exact hc.writeData hwrite
          | unused =>
              simp only at hrun
              cases huuid : g_UuidManager.GetUuid T with
              | error e =>
                  rw [huuid] at hrun
                  cases hrun
              | ok Uuid =>
                  rw [huuid] at hrun
                  cases hrun
                  exact hc

theorem Laid.types (h : Laid b) (ext : List Int) : Laid { b with m_aExtendedItemTypes := ext } := by
  obtain ⟨items, hitems⟩ := h
  exact ⟨items, hitems.congr rfl rfl⟩

theorem Laid.getExtendedItemTypeIndex (h : Laid b) {T : Int} {r : Option Nat}
    (hrun : b.GetExtendedItemTypeIndex Obj_SixToSeven g_UuidManager T = .ok (b', r)) : Laid b' := by
  unfold CSnapshotBuilder.GetExtendedItemTypeIndex at hrun
  cases hfind : b.m_aExtendedItemTypes.findIdx? (· == T) with
  | some i =>
      rw [hfind] at hrun
      cases hrun
      exact h
  | none =>
      rw [hfind] at hrun
      simp only at hrun
      by_cases hmax : b.m_NumExtendedItemTypes ≥ MAX_EXTENDED_ITEM_TYPES
      · rw [if_pos hmax] at hrun
        cases hrun
      · rw [if_neg hmax] at hrun
        have hb := h.types (b.m_aExtendedItemTypes ++ [T])
        cases hadd : ({ b with m_aExtendedItemTypes := b.m_aExtendedItemTypes ++ [T] } :
            CSnapshotBuilder).AddExtendedItemType Obj_SixToSeven g_UuidManager
              b.m_NumExtendedItemTypes with
        | error e =>
            rw [hadd] at hrun
            cases hrun
        | ok q =>
            obtain ⟨c, Added⟩ := q
            have hc := hb.addExtendedItemType Obj_SixToSeven g_UuidManager hadd
            rw [hadd] at hrun
            cases Added with
            | true =>
                cases hrun
                exact hc
            | false =>
                cases hrun
                exact hc.types _

theorem Laid.initLoop (h : Laid b) {n i : Nat}
    (hrun : InitLoop Obj_SixToSeven g_UuidManager n i b = .ok b') : Laid b' := by
  induction n generalizing b i with
  | zero =>
      cases hrun
      exact h
  | succ n ih =>
      unfold InitLoop at hrun
      cases hadd : b.AddExtendedItemType Obj_SixToSeven g_UuidManager i with
      | error e =>
          rw [hadd] at hrun
          cases hrun
      | ok q =>
          obtain ⟨c, r⟩ := q
          rw [hadd] at hrun
          exact ih (h.addExtendedItemType Obj_SixToSeven g_UuidManager hadd) hrun

theorem Laid.step (h : Laid b) {c : Call}
    (hrun : CSnapshotBuilder.step Obj_SixToSeven g_UuidManager b c = .ok b') : Laid b' := by
  cases c with
  | Init Sixup =>
      have hempty : Laid { b with m_aData := [], m_aOffsets := [], m_Sixup := Sixup } :=
        ⟨[], rfl, rfl, by simp⟩
      exact hempty.initLoop Obj_SixToSeven g_UuidManager hrun
  | NewItem ItemType Id Size =>
      replace hrun : (do
          return (← b.NewItemWith Obj_SixToSeven
            (GetExtendedItemTypeIndex Obj_SixToSeven g_UuidManager) ItemType Id Size).1) =
          Except.ok b' := hrun
      cases hnew : b.NewItemWith Obj_SixToSeven
          (GetExtendedItemTypeIndex Obj_SixToSeven g_UuidManager) ItemType Id Size with
      | error e =>
          rw [hnew] at hrun
          cases hrun
      | ok q =>
          rw [hnew] at hrun
          cases hrun
          exact h.newItemWith Obj_SixToSeven
            (fun _ _ _ hget => h.getExtendedItemTypeIndex Obj_SixToSeven g_UuidManager hget) hnew
  | WriteData Index bytes => exact h.writeData hrun

end Laid

/-- A built snapshot is that of a list of items. -/
theorem Built.items {s : CSnapshot} (h : Built Obj_SixToSeven g_UuidManager s) :
    ∃ items, s = snapOf items ∧ Limits items ∧ ∀ x ∈ items, IsInt32 x.Key := by
  obtain ⟨Sixup, b, Size, hrun, hfinish⟩ := h
  have hlaid : Laid b := by
    apply hrun.invariant
    · exact ⟨[], rfl, rfl, by simp⟩
    · intro s t c hs _ hstep
      exact hs.step Obj_SixToSeven g_UuidManager hstep
  obtain ⟨items, hitems⟩ := hlaid
  have hkeys := hitems.keys
  by_cases hcount : items.length ≤ MAX_ITEMS
  · by_cases hsize : (snapOf items).TotalSize ≤ MAX_SIZE
    · rw [hitems.finish hcount hsize] at hfinish
      cases hfinish
      exact ⟨items, rfl, ⟨hcount, hsize⟩, hkeys⟩
    · rw [hitems.finish_assertion hcount (by omega)] at hfinish
      cases hfinish
  · unfold CSnapshotBuilder.Finish at hfinish
    rw [hitems.numItems, if_pos (by omega)] at hfinish
    cases hfinish

end Fex.Engine.Snapshot
