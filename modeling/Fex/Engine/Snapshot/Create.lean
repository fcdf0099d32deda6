import Fex.Engine.Snapshot.Hashing
import Mathlib.Data.List.Nodup

/-!
# What `CreateDelta` writes

On the items of two snapshots the delta is a fold over the items of the new
one, with an old item for each key that the hash lists find.
-/

namespace Fex.Engine.Snapshot

open Fex.Lib CSnapshotDelta

/-- The old item that the hash lists find for the key of `t`. -/
def pastOf (fromItems : List CSnapshotItem) (t : CSnapshotItem) : Option CSnapshotItem :=
  if Hashed fromItems t.Key then fromItems.find? fun f => f.Key == t.Key else none

/-- The hash lists of the new items do not find the key of `f`. -/
def isDeleted (toItems : List CSnapshotItem) (f : CSnapshotItem) : Bool :=
  !(decide (Hashed toItems f.Key) && toItems.any fun t => t.Key == f.Key)

/-- The keys that the delta deletes. -/
def deletedKeys (fromItems toItems : List CSnapshotItem) : List Int :=
  (fromItems.filter (isDeleted toItems)).map CSnapshotItem.Key

/-- `DeltaItem` where the old item is not too short. -/
def deltaItem (d : CSnapshotDelta) (past : Option CSnapshotItem) (t : CSnapshotItem) :
    List Int × Nat :=
  let Current := ints t.Data
  let Header := [t.ItemType, t.Id] ++
    if d.IncludeSize t.ItemType then [(Current.length : Int)] else []
  match past with
  | some p =>
      let Diff := DiffItem (ints p.Data) Current
      (if Diff.any (· != 0) then Header ++ Diff else [],
        if Current.length = 0 then 0 else Header.length + Current.length)
  | none => (Header ++ Current, Header.length + Current.length)

/-- The output with one more item. -/
def addItem (d : CSnapshotDelta) (fromItems : List CSnapshotItem) (Out : Output) (t : CSnapshotItem) :
    Output :=
  let p := deltaItem d (pastOf fromItems t) t
  { Out with
    m_NumUpdateItems := if p.1.isEmpty then Out.m_NumUpdateItems else Out.m_NumUpdateItems + 1
    m_aData := Out.m_aData ++ p.1
    Written := max Out.Written (3 + Out.m_aData.length + p.2) }

/-- The output of `CreateDelta` on these items. -/
def deltaOutput (d : CSnapshotDelta) (fromItems toItems : List CSnapshotItem) : Output :=
  toItems.foldl (addItem d fromItems)
    { m_NumDeletedItems := (deletedKeys fromItems toItems).length
      m_NumUpdateItems := 0
      m_aData := deletedKeys fromItems toItems
      Written := 3 + (deletedKeys fromItems toItems).length }

/-- Items with one key have data of one size. -/
def SameSizes (fromItems toItems : List CSnapshotItem) : Prop :=
  ∀ f ∈ fromItems, ∀ t ∈ toItems, f.Key = t.Key → f.Data.length = t.Data.length

section

variable {s : CSnapshot} {items fromItems toItems : List CSnapshotItem}

/-- With distinct keys an item is found by its key. -/
theorem find?_key (hkeys : (items.map CSnapshotItem.Key).Nodup) {x : CSnapshotItem} (hx : x ∈ items) :
    (items.find? fun y => y.Key == x.Key) = some x := by
  cases hfind : items.find? fun y => y.Key == x.Key with
  | none =>
      have hnone := List.find?_eq_none.mp hfind x hx
      simp at hnone
  | some y =>
      have hy := List.mem_of_find?_eq_some hfind
      have hykey : y.Key = x.Key := by simpa using List.find?_some hfind
      rw [List.inj_on_of_nodup_map hkeys hy hx hykey]

theorem mem_of_pastOf {t f : CSnapshotItem} (h : pastOf fromItems t = some f) :
    f ∈ fromItems ∧ f.Key = t.Key ∧ Hashed fromItems t.Key := by
  unfold pastOf at h
  split at h
  · rename_i hhash
    exact ⟨List.mem_of_find?_eq_some h, by simpa using List.find?_some h, hhash⟩
  · cases h

theorem pastOf_of_mem (hkeys : (fromItems.map CSnapshotItem.Key).Nodup) {t f : CSnapshotItem}
    (hf : f ∈ fromItems) (hkey : f.Key = t.Key) (hhash : Hashed fromItems t.Key) :
    pastOf fromItems t = some f := by
  unfold pastOf
  rw [if_pos hhash, ← hkey]
  exact find?_key hkeys hf

/-- The hash lists find exactly the item of `pastOf`. -/
theorem Finds.past {Hashlist : Nat → CItemList} (h : Finds Hashlist fromItems)
    (hkeys : (fromItems.map CSnapshotItem.Key).Nodup) (t : CSnapshotItem) :
    (GetItemIndexHashed t.Key Hashlist = none ∧ pastOf fromItems t = none) ∨
      ∃ i f, GetItemIndexHashed t.Key Hashlist = some i ∧ fromItems[i]? = some f ∧
        pastOf fromItems t = some f := by
  cases hget : GetItemIndexHashed t.Key Hashlist with
  | none =>
      left
      refine ⟨rfl, ?_⟩
      cases hpast : pastOf fromItems t with
      | none => rfl
      | some f =>
          obtain ⟨hf, hkey, hhash⟩ := mem_of_pastOf hpast
          rw [← hkey] at hhash
          have hsome := (h.complete f hf).mpr hhash
          rw [hkey, hget] at hsome
          cases hsome
  | some i =>
      obtain ⟨f, hf, hkey⟩ := h.found t.Key i hget
      have hmem := List.mem_of_getElem? hf
      have hhash := (h.complete f hmem).mp (by rw [hkey, hget]; rfl)
      rw [hkey] at hhash
      exact .inr ⟨i, f, rfl, hf, pastOf_of_mem hkeys hmem hkey hhash⟩

theorem Reads.deletedLoop (h : Reads s fromItems) {Hashlist : Nat → CItemList}
    (hfinds : Finds Hashlist toItems) {n i : Nat} (hn : n + i = fromItems.length)
    (Deleted : List Int) :
    DeletedLoop s Hashlist n i Deleted =
      .ok (Deleted ++ deletedKeys (fromItems.drop i) toItems) := by
  induction n generalizing i Deleted with
  | zero =>
      rw [List.drop_eq_nil_of_le (by omega)]
      unfold DeletedLoop deletedKeys
      simp
  | succ n ih =>
      have hi : i < fromItems.length := by omega
      have hcons : fromItems.drop i = fromItems[i] :: fromItems.drop (i + 1) :=
        (List.getElem_cons_drop hi).symm
      have hfound : (GetItemIndexHashed fromItems[i].Key Hashlist).isNone =
          isDeleted toItems fromItems[i] := by
        unfold isDeleted
        by_cases hany : ∃ t ∈ toItems, t.Key = fromItems[i].Key
        · obtain ⟨t, ht, hkey⟩ := hany
          have hiff := hfinds.complete t ht
          rw [hkey] at hiff
          have hany' : (toItems.any fun t => t.Key == fromItems[i].Key) = true :=
            List.any_eq_true.mpr ⟨t, ht, by simpa using hkey⟩
          rw [hany', Bool.and_true]
          by_cases hhash : Hashed toItems fromItems[i].Key
          · have hsome := hiff.mpr hhash
            rw [Option.isNone_eq_false_iff.mpr hsome, decide_eq_true hhash]
            rfl
          · have hnone := mt hiff.mp hhash
            rw [decide_eq_false hhash]
            simpa using hnone
        · have hany' : (toItems.any fun t => t.Key == fromItems[i].Key) = false := by
            rw [Bool.eq_false_iff]
            intro htrue
            obtain ⟨t, ht, hkey⟩ := List.any_eq_true.mp htrue
            exact hany ⟨t, ht, by simpa using hkey⟩
          rw [hany', Bool.and_false]
          cases hget : GetItemIndexHashed fromItems[i].Key Hashlist with
          | none => rfl
          | some j =>
              obtain ⟨t, ht, hkey⟩ := hfinds.found _ j hget
              exact absurd ⟨t, List.mem_of_getElem? ht, hkey⟩ hany
      unfold DeletedLoop
      rw [h.item i hi]
      simp only [bind, Except.bind]
      rw [hfound, hcons]
      unfold deletedKeys at ih ⊢
      by_cases hdel : isDeleted toItems fromItems[i] = true
      · rw [if_pos hdel, ih (by omega), List.filter_cons_of_pos hdel, List.map_cons, List.append_assoc]
        rfl
      · rw [if_neg hdel, ih (by omega), List.filter_cons_of_neg hdel]

theorem length_ints_eq {x y : CSnapshotItem} (h : x.Data.length = y.Data.length) :
    (ints x.Data).length = (ints y.Data).length := by
  rw [length_ints, length_ints, h]

/-- Items of equal size have a delta. -/
theorem deltaItem_eq (d : CSnapshotDelta) {past : Option CSnapshotItem} {t : CSnapshotItem}
    (hsize : ∀ f, past = some f → f.Data.length = t.Data.length) :
    d.DeltaItem past t = .ok (deltaItem d past t) := by
  cases past with
  | none => rfl
  | some f =>
      have hlen := length_ints_eq (hsize f rfl)
      exact if_neg (by omega)

theorem Reads.updateItems {pFrom pTo : CSnapshot} (hF : Reads pFrom fromItems)
    (hT : Reads pTo toItems) (d : CSnapshotDelta) {Hashlist : Nat → CItemList}
    (hfinds : Finds Hashlist fromItems) (hkeys : (fromItems.map CSnapshotItem.Key).Nodup)
    (hsizes : SameSizes fromItems toItems) {n i : Nat} (hn : n + i = toItems.length) (Out : Output) :
    d.UpdateItems pFrom pTo Hashlist n i Out =
      .ok ((toItems.drop i).foldl (addItem d fromItems) Out) := by
  induction n generalizing i Out with
  | zero =>
      rw [List.drop_eq_nil_of_le (by omega)]
      rfl
  | succ n ih =>
      have hi : i < toItems.length := by omega
      have hcons : toItems.drop i = toItems[i] :: toItems.drop (i + 1) :=
        (List.getElem_cons_drop hi).symm
      have hdelta : d.DeltaItem (pastOf fromItems toItems[i]) toItems[i] =
          .ok (deltaItem d (pastOf fromItems toItems[i]) toItems[i]) := by
        apply deltaItem_eq
        intro f hf
        obtain ⟨hmem, hkey, -⟩ := mem_of_pastOf hf
        exact hsizes f hmem _ (List.getElem_mem hi) hkey
      unfold UpdateItems
      rw [hT.item i hi, hcons, List.foldl_cons]
      rcases hfinds.past hkeys toItems[i] with ⟨hnone, hpast⟩ | ⟨j, f, hsome, hf, hpast⟩
      · rw [hpast] at hdelta
        simp only [bind, Except.bind, hnone, hdelta]
        rw [ih (by omega)]
        unfold addItem
        rw [hpast]
      · obtain ⟨hj, hget⟩ := List.getElem?_eq_some_iff.mp hf
        have hread := hF.item j hj
        rw [hget] at hread
        rw [hpast] at hdelta
        simp only [bind, Except.bind, hsome, hread, pure, Except.pure, hdelta]
        rw [ih (by omega)]
        unfold addItem
        rw [hpast]

/-- `CreateDelta` on the items of two snapshots. -/
theorem Reads.createDelta {pFrom pTo : CSnapshot} (hF : Reads pFrom fromItems)
    (hT : Reads pTo toItems) (d : CSnapshotDelta) (hkeys : (fromItems.map CSnapshotItem.Key).Nodup)
    (hsizes : SameSizes fromItems toItems) :
    d.CreateDelta pFrom pTo = .ok (deltaOutput d fromItems toItems,
      if (deltaOutput d fromItems toItems).m_NumDeletedItems = 0 ∧
        (deltaOutput d fromItems toItems).m_NumUpdateItems = 0 then 0
      else (4 * (3 + (deltaOutput d fromItems toItems).m_aData.length) : Nat)) := by
  obtain ⟨tableT, hrunT, hfindsT⟩ := hT.generateHash
  obtain ⟨tableF, hrunF, hfindsF⟩ := hF.generateHash
  have hdeleted := hF.deletedLoop hfindsT (Nat.add_zero _) []
  have hupdate := hF.updateItems hT d hfindsF hkeys hsizes (Nat.add_zero _)
    { m_NumDeletedItems := (deletedKeys fromItems toItems).length
      m_NumUpdateItems := 0
      m_aData := deletedKeys fromItems toItems
      Written := 3 + (deletedKeys fromItems toItems).length }
  unfold CreateDelta
  rw [List.drop_zero, List.nil_append, ← hF.count] at hdeleted
  rw [List.drop_zero, ← hT.count] at hupdate
  simp only [hrunT, bind, Except.bind, hdeleted, hrunF, hupdate]
  show (if (deltaOutput d fromItems toItems).m_NumDeletedItems = 0 ∧
    (deltaOutput d fromItems toItems).m_NumUpdateItems = 0 then _ else _ : Exec _) = _
  split <;> rfl

end

/-! ## The fold -/

section Fold

variable (d : CSnapshotDelta) (fromItems : List CSnapshotItem)

/-- The ints for one item of the new snapshot. -/
def chunk (t : CSnapshotItem) : List Int := (deltaItem d (pastOf fromItems t) t).1

theorem foldl_addItem (items : List CSnapshotItem) (Out : Output) :
    (items.foldl (addItem d fromItems) Out).m_NumDeletedItems = Out.m_NumDeletedItems ∧
    (items.foldl (addItem d fromItems) Out).m_aData = Out.m_aData ++ items.flatMap (chunk d fromItems) ∧
    (items.foldl (addItem d fromItems) Out).m_NumUpdateItems = Out.m_NumUpdateItems +
      (items.filter fun t => !(chunk d fromItems t).isEmpty).length := by
  induction items generalizing Out with
  | nil => simp
  | cons t items ih =>
      obtain ⟨hdel, hdata, hnum⟩ := ih (addItem d fromItems Out t)
      rw [List.foldl_cons, hdel, hdata, hnum, List.flatMap_cons]
      refine ⟨rfl, ?_, ?_⟩
      · show Out.m_aData ++ chunk d fromItems t ++ _ = _
        rw [List.append_assoc]
      · show (if (chunk d fromItems t).isEmpty = true then Out.m_NumUpdateItems
          else Out.m_NumUpdateItems + 1) + _ = _
        by_cases hempty : (chunk d fromItems t).isEmpty = true
        · rw [if_pos hempty, List.filter_cons_of_neg (by simp [hempty])]
        · rw [if_neg hempty, List.filter_cons_of_pos (by simp [hempty]), List.length_cons]
          omega

end Fold

theorem deltaOutput_spec (d : CSnapshotDelta) (fromItems toItems : List CSnapshotItem) :
    (deltaOutput d fromItems toItems).m_NumDeletedItems = (deletedKeys fromItems toItems).length ∧
    (deltaOutput d fromItems toItems).m_aData =
      deletedKeys fromItems toItems ++ toItems.flatMap (chunk d fromItems) ∧
    (deltaOutput d fromItems toItems).m_NumUpdateItems =
      (toItems.filter fun t => !(chunk d fromItems t).isEmpty).length := by
  have hfold := foldl_addItem d fromItems toItems
    { m_NumDeletedItems := (deletedKeys fromItems toItems).length
      m_NumUpdateItems := 0
      m_aData := deletedKeys fromItems toItems
      Written := 3 + (deletedKeys fromItems toItems).length }
  rw [Nat.zero_add] at hfold
  exact hfold

end Fex.Engine.Snapshot
