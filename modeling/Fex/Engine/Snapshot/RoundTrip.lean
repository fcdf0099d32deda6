import Fex.Engine.Snapshot.Built
import Fex.Engine.Snapshot.Loops
import Mathlib.Data.List.Induction

/-!
# The round trip of a delta

The hash lists that `CreateDelta` searches hold 64 items a bucket, the searches
of `UnpackDelta` go through all items.  The delta leads to the new items
exactly if no item is lost or doubled by the difference.
-/

namespace Fex.Engine.Snapshot

open Fex.Lib CSnapshotDelta CSnapshotBuilder

variable {d : CSnapshotDelta} {fromItems toItems items : List CSnapshotItem}

/-- The snapshots have the same keys with the same data. -/
def SameItems (s₁ s₂ : CSnapshot) : Prop := ∀ x, x ∈ s₁.Items ↔ x ∈ s₂.Items

/-- An item of both snapshots survives the delta: where the hash lists of the old items have its
key, those of the new items do or its data changes, and where they do not, its old data is zero. -/
def Survives (fromItems toItems : List CSnapshotItem) : Prop :=
  ∀ f ∈ fromItems, ∀ t ∈ toItems, f.Key = t.Key →
    if Hashed fromItems f.Key then Hashed toItems f.Key ∨ f.Data ≠ t.Data
    else ∀ w ∈ ints f.Data, w = 0

instance : Decidable (Survives fromItems toItems) :=
  inferInstanceAs (Decidable (∀ f ∈ fromItems, ∀ t ∈ toItems, f.Key = t.Key →
    if Hashed fromItems f.Key then Hashed toItems f.Key ∨ f.Data ≠ t.Data
    else ∀ w ∈ ints f.Data, w = 0))

/-! ## The items after unpacking -/

theorem mem_putAll {ts : List CSnapshotItem} (hts : (ts.map CSnapshotItem.Key).Nodup)
    {x : CSnapshotItem} :
    x ∈ putAll fromItems items ts ↔ (x ∈ items ∧ ∀ t ∈ ts, t.Key ≠ x.Key) ∨
      ∃ t ∈ ts, x = { m_TypeAndId := t.Key, Data := unpackedData fromItems t } := by
  induction ts generalizing items with
  | nil => simp [putAll]
  | cons t ts ih =>
      rw [List.map_cons, List.nodup_cons] at hts
      have hlater : ∀ u ∈ ts, u.Key ≠ t.Key := by
        intro u hu hkey
        exact hts.1 (List.mem_map.mpr ⟨u, hu, hkey⟩)
      show x ∈ putAll fromItems (putItem items t.Key (unpackedData fromItems t)) ts ↔ _
      rw [ih hts.2, mem_putItem]
      constructor
      · rintro (⟨⟨hx, hkey⟩ | rfl, hnone⟩ | ⟨u, hu, rfl⟩)
        · refine .inl ⟨hx, fun u hu => ?_⟩
          rcases List.mem_cons.mp hu with rfl | hu
          · exact fun heq => hkey heq.symm
          · exact hnone u hu
        · exact .inr ⟨t, by simp, rfl⟩
        · exact .inr ⟨u, by simp [hu], rfl⟩
      · rintro (⟨hx, hnone⟩ | ⟨u, hu, rfl⟩)
        · exact .inl ⟨.inl ⟨hx, fun heq => hnone t (by simp) heq.symm⟩, fun u hu => hnone u (by simp [hu])⟩
        · rcases List.mem_cons.mp hu with rfl | hu
          · exact .inl ⟨.inr rfl, hlater⟩
          · exact .inr ⟨u, hu, rfl⟩

/-- The items that unpacking leaves. -/
def unpackedItems (d : CSnapshotDelta) (fromItems toItems : List CSnapshotItem) :
    List CSnapshotItem :=
  putAll fromItems (keptItems fromItems toItems)
    (toItems.filter fun t => !(chunk d fromItems t).isEmpty)

/-- An item of the new snapshot is left out where the hash lists find the same data. -/
theorem chunk_eq_nil (hsizes : SameSizes fromItems toItems) {t : CSnapshotItem} (ht : t ∈ toItems)
    (hreg : Regular d t) : chunk d fromItems t = [] ↔ ∃ f, pastOf fromItems t = some f ∧ f = t := by
  have hwords := hreg.words
  unfold chunk deltaItem
  cases hpast : pastOf fromItems t with
  | none => simp
  | some f =>
      obtain ⟨hf, hkey, -⟩ := mem_of_pastOf hpast
      have hlen := hsizes f hf t ht hkey
      have hdiff := any_diffItem (length_ints_eq hlen)
        (fun x hx => isInt32_of_mem_ints hx) fun y hy => isInt32_of_mem_ints hy
      have hsame : ints f.Data = ints t.Data ↔ f = t := by
        constructor
        · intro heq
          have hdata : f.Data = t.Data := by
            rw [← flatMap_ints hwords, ← heq, flatMap_ints (by rw [hlen]; exact hwords)]
          unfold CSnapshotItem.Key at hkey
          cases f
          cases t
          simp only at hkey hdata
          rw [hkey, hdata]
        · intro heq
          rw [heq]
      rw [hsame] at hdiff
      simp only [Option.some.injEq, exists_eq_left']
      rw [← hdiff]
      cases (DiffItem (ints f.Data) (ints t.Data)).any (· != 0) with
      | true => simp
      | false => simp

/-- The data is that of the new item unless the hash lists missed an old one. -/
theorem unpackedData_eq (hkeys : (fromItems.map CSnapshotItem.Key).Nodup)
    (hsizes : SameSizes fromItems toItems) {t : CSnapshotItem} (ht : t ∈ toItems)
    (hreg : Regular d t) : unpackedData fromItems t = t.Data ↔
      ∀ f ∈ fromItems, f.Key = t.Key → ¬ Hashed fromItems f.Key → ∀ w ∈ ints f.Data, w = 0 := by
  have hwords := hreg.words
  unfold unpackedData
  cases hfind : fromItems.find? fun f => f.Key == t.Key with
  | none =>
      simp only [true_iff]
      intro f hf hkey
      have hnone := List.find?_eq_none.mp hfind f hf
      simp [hkey] at hnone
  | some f =>
      have hf := List.mem_of_find?_eq_some hfind
      have hkey : f.Key = t.Key := by simpa using List.find?_some hfind
      have hlen := hsizes f hf t ht hkey
      have hundiff := undiffItem_eq_self (length_ints_eq hlen)
        (fun x hx => isInt32_of_mem_ints hx) fun y hy => isInt32_of_mem_ints hy
      have honly : ∀ g ∈ fromItems, g.Key = t.Key → g = f := by
        intro g hg hgkey
        exact List.inj_on_of_nodup_map hkeys hg hf (hgkey.trans hkey.symm)
      simp only
      by_cases hhash : Hashed fromItems t.Key
      · rw [if_pos hhash]
        simp only [true_iff]
        intro g _ hgkey hnot
        rw [hgkey] at hnot
        exact absurd hhash hnot
      · rw [if_neg hhash]
        have hbytes : (UndiffItem (ints f.Data) (ints t.Data)).flatMap intBytes = t.Data ↔
            UndiffItem (ints f.Data) (ints t.Data) = ints t.Data := by
          constructor
          · intro heq
            have hints := congrArg ints heq
            rw [ints_flatMap fun w hw => isInt32_of_mem_undiffItem hw] at hints
            exact hints
          · intro heq
            rw [heq, flatMap_ints hwords]
        rw [hbytes, hundiff]
        constructor
        · intro hall g hg hgkey _
          rw [honly g hg hgkey]
          exact hall
        · intro hall
          exact hall f hf hkey (by rw [hkey]; exact hhash)

/-- The items that a delta needs on both sides. -/
structure Pair (d : CSnapshotDelta) (fromItems toItems : List CSnapshotItem) : Prop where
  keysFrom : (fromItems.map CSnapshotItem.Key).Nodup
  keysTo : (toItems.map CSnapshotItem.Key).Nodup
  regularFrom : ∀ f ∈ fromItems, Regular d f
  regularTo : ∀ t ∈ toItems, Regular d t
  sizes : SameSizes fromItems toItems

namespace Pair

theorem mem_updated {t : CSnapshotItem} :
    t ∈ (toItems.filter fun t => !(chunk d fromItems t).isEmpty) ↔
      t ∈ toItems ∧ chunk d fromItems t ≠ [] := by
  rw [List.mem_filter]
  simp

theorem mem_unpackedItems (h : Pair d fromItems toItems) {x : CSnapshotItem} :
    x ∈ unpackedItems d fromItems toItems ↔
      (x ∈ keptItems fromItems toItems ∧
        ∀ t ∈ toItems, chunk d fromItems t ≠ [] → t.Key ≠ x.Key) ∨
      ∃ t ∈ toItems, chunk d fromItems t ≠ [] ∧
        x = { m_TypeAndId := t.Key, Data := unpackedData fromItems t } := by
  unfold unpackedItems
  rw [mem_putAll (h.keysTo.sublist (List.filter_sublist.map _))]
  constructor
  · rintro (⟨hx, hnone⟩ | ⟨t, ht, rfl⟩)
    · exact .inl ⟨hx, fun t ht hne => hnone t (mem_updated.mpr ⟨ht, hne⟩)⟩
    · obtain ⟨ht, hne⟩ := mem_updated.mp ht
      exact .inr ⟨t, ht, hne, rfl⟩
  · rintro (⟨hx, hnone⟩ | ⟨t, ht, hne, rfl⟩)
    · refine .inl ⟨hx, fun t ht => ?_⟩
      obtain ⟨ht, hne⟩ := mem_updated.mp ht
      exact hnone t ht hne
    · exact .inr ⟨t, mem_updated.mpr ⟨ht, hne⟩, rfl⟩

theorem mem_keptItems {x : CSnapshotItem} :
    x ∈ keptItems fromItems toItems ↔
      x ∈ fromItems ∧ Hashed toItems x.Key ∧ ∃ t ∈ toItems, t.Key = x.Key := by
  unfold keptItems isDeleted
  rw [List.mem_filter, Bool.not_not, Bool.and_eq_true, decide_eq_true_iff, List.any_eq_true]
  simp

/-- A new item is left out where it is an old one that the hash lists find. -/
theorem chunk_nil_iff (h : Pair d fromItems toItems) {t : CSnapshotItem} (ht : t ∈ toItems) :
    chunk d fromItems t = [] ↔ t ∈ fromItems ∧ Hashed fromItems t.Key := by
  rw [chunk_eq_nil h.sizes ht (h.regularTo t ht)]
  constructor
  · rintro ⟨f, hpast, rfl⟩
    obtain ⟨hf, -, hhash⟩ := mem_of_pastOf hpast
    exact ⟨hf, hhash⟩
  · rintro ⟨hf, hhash⟩
    exact ⟨t, pastOf_of_mem h.keysFrom hf rfl hhash, rfl⟩

theorem same_of_survives (h : Pair d fromItems toItems) (hs : Survives fromItems toItems)
    (x : CSnapshotItem) : x ∈ unpackedItems d fromItems toItems ↔ x ∈ toItems := by
  have hdata : ∀ t ∈ toItems, unpackedData fromItems t = t.Data := by
    intro t ht
    rw [unpackedData_eq h.keysFrom h.sizes ht (h.regularTo t ht)]
    intro f hf hkey hnot
    have hsurvives := hs f hf t ht hkey
    rw [if_neg hnot] at hsurvives
    exact hsurvives
  rw [h.mem_unpackedItems]
  constructor
  · rintro (⟨hx, hnone⟩ | ⟨t, ht, -, rfl⟩)
    · obtain ⟨hf, -, t, ht, hkey⟩ := mem_keptItems.mp hx
      have hnil : chunk d fromItems t = [] := by
        by_contra hne
        exact hnone t ht hne hkey
      obtain ⟨htf, -⟩ := (h.chunk_nil_iff ht).mp hnil
      rw [List.inj_on_of_nodup_map h.keysFrom hf htf hkey.symm]
      exact ht
    · rw [hdata t ht]
      exact ht
  · intro hx
    by_cases hnil : chunk d fromItems x = []
    · obtain ⟨hf, hhash⟩ := (h.chunk_nil_iff hx).mp hnil
      have hsurvives := hs x hf x hx rfl
      rw [if_pos hhash] at hsurvives
      refine .inl ⟨mem_keptItems.mpr ⟨hf, hsurvives.resolve_right (not_not.mpr rfl), x, hx, rfl⟩, ?_⟩
      intro t ht hne hkey
      rw [List.inj_on_of_nodup_map h.keysTo ht hx hkey] at hne
      exact hne hnil
    · refine .inr ⟨x, hx, hnil, ?_⟩
      rw [hdata x hx]
      rfl

theorem survives_of_same (h : Pair d fromItems toItems)
    (hsame : ∀ x, x ∈ unpackedItems d fromItems toItems ↔ x ∈ toItems) :
    Survives fromItems toItems := by
  intro f hf t ht hkey
  by_cases hhash : Hashed fromItems f.Key
  · rw [if_pos hhash]
    by_contra hlost
    obtain ⟨hnot, heq⟩ := not_or.mp hlost
    -- the item is deleted and no difference is sent
    have hft : f = t := by
      unfold CSnapshotItem.Key at hkey
      cases f
      cases t
      simp only [not_not] at hkey heq
      rw [hkey, heq]
    have hnil := (h.chunk_nil_iff ht).mpr (by rw [← hft]; exact ⟨hf, hhash⟩)
    rcases h.mem_unpackedItems.mp ((hsame t).mpr ht) with ⟨hkept, -⟩ | ⟨u, hu, hne, heq⟩
    · obtain ⟨-, hhashT, -⟩ := mem_keptItems.mp hkept
      rw [← hkey] at hhashT
      exact hnot hhashT
    · have hukey : u.Key = t.Key := (congrArg CSnapshotItem.m_TypeAndId heq).symm
      rw [List.inj_on_of_nodup_map h.keysTo hu ht hukey] at hne
      exact hne hnil
  · rw [if_neg hhash]
    have hne : chunk d fromItems t ≠ [] := by
      intro hnil
      have hhashT := ((h.chunk_nil_iff ht).mp hnil).2
      rw [← hkey] at hhashT
      exact hhash hhashT
    have hmem := (hsame _).mp (h.mem_unpackedItems.mpr (.inr ⟨t, ht, hne, rfl⟩))
    have heq : unpackedData fromItems t = t.Data :=
      congrArg CSnapshotItem.Data (List.inj_on_of_nodup_map h.keysTo hmem ht rfl)
    exact (unpackedData_eq h.keysFrom h.sizes ht (h.regularTo t ht)).mp heq f hf hkey hhash

/-- Without a delta the items are the same. -/
theorem same_of_empty (h : Pair d fromItems toItems)
    (hdel : (deltaOutput d fromItems toItems).m_NumDeletedItems = 0)
    (hupd : (deltaOutput d fromItems toItems).m_NumUpdateItems = 0) :
    (∀ x, x ∈ fromItems ↔ x ∈ toItems) ∧ Survives fromItems toItems := by
  obtain ⟨hdeleted, -, hupdated⟩ := deltaOutput_spec d fromItems toItems
  rw [hdel] at hdeleted
  rw [hupd] at hupdated
  have hkept : ∀ f ∈ fromItems, f ∈ keptItems fromItems toItems := by
    intro f hf
    have hnone := List.eq_nil_of_length_eq_zero hdeleted.symm
    unfold deletedKeys at hnone
    rw [List.map_eq_nil_iff, List.filter_eq_nil_iff] at hnone
    exact List.mem_filter.mpr ⟨hf, by simpa using hnone f hf⟩
  have hnil : ∀ t ∈ toItems, chunk d fromItems t = [] := by
    intro t ht
    have hnone := List.eq_nil_of_length_eq_zero hupdated.symm
    rw [List.filter_eq_nil_iff] at hnone
    simpa using hnone t ht
  have hsame : ∀ x, x ∈ fromItems ↔ x ∈ toItems := by
    intro x
    constructor
    · intro hx
      obtain ⟨-, -, t, ht, hkey⟩ := mem_keptItems.mp (hkept x hx)
      obtain ⟨htf, -⟩ := (h.chunk_nil_iff ht).mp (hnil t ht)
      rw [← List.inj_on_of_nodup_map h.keysFrom htf hx hkey]
      exact ht
    · intro hx
      exact ((h.chunk_nil_iff hx).mp (hnil x hx)).1
  refine ⟨hsame, fun f hf t ht hkey => ?_⟩
  obtain ⟨-, hhashT, -⟩ := mem_keptItems.mp (hkept f hf)
  have hhashF := ((h.chunk_nil_iff ht).mp (hnil t ht)).2
  rw [← hkey] at hhashF
  rw [if_pos hhashF]
  exact .inl hhashT

end Pair

/-! ## Running both functions -/

theorem isInt32_of_mem_chunk {t : CSnapshotItem} (hreg : Regular d t)
    (hsmall : t.Data.length ≤ MAX_SIZE) {w : Int} (hw : w ∈ chunk d fromItems t) : IsInt32 w := by
  have htype := hreg.type
  have hmaxT : MAX_TYPE = 32767 := rfl
  have hmax : MAX_SIZE = 65536 := rfl
  have hints := length_ints t.Data
  rcases chunk_eq d fromItems t with hnil | hchunk
  · rw [hnil] at hw
    cases hw
  · rw [hchunk, List.mem_append, List.mem_append] at hw
    rcases hw with (hw | hw) | hw
    · unfold IsInt32
      simp only [List.mem_cons, List.not_mem_nil, or_false] at hw
      rcases hw with rfl | rfl
      · omega
      · unfold CSnapshotItem.Id
        omega
    · unfold sizeWords at hw
      split at hw
      · rw [List.mem_singleton.mp hw]
        unfold IsInt32
        omega
      · cases hw
    · exact isInt32_of_mem_bodyWords hw

section Run

variable {pFrom pTo pBase : CSnapshot} {baseItems : List CSnapshotItem}
  (Obj_SixToSeven : Int → Int) (g_UuidManager : CUuidManager)

/-- Copying only asks which keys are deleted. -/
theorem copyLoop_congr (pFrom : CSnapshot) {Deleted Deleted' : List Int}
    (h : ∀ key, key ∈ Deleted ↔ key ∈ Deleted') (n i : Nat) (b : CSnapshotBuilder) :
    CopyLoop Obj_SixToSeven g_UuidManager pFrom Deleted n i b =
      CopyLoop Obj_SixToSeven g_UuidManager pFrom Deleted' n i b := by
  induction n generalizing i b with
  | zero => rfl
  | succ n ih =>
      unfold CopyLoop
      simp only [ih, h]

/-- Unpacking with other items the delta that was created, where these lead to the same delta. -/
theorem Reads.unpackDelta_of_chunk (hB : Reads pBase baseItems) (hpair : Pair d baseItems toItems)
    (h : Pair d fromItems toItems) (hchunk : chunk d fromItems = chunk d baseItems)
    (hmem : ∀ key, key ∈ deletedKeys fromItems toItems ↔ key ∈ deletedKeys baseItems toItems)
    (hlimitsF : Limits fromItems) (hlimits : Limits toItems) :
    d.UnpackDelta Obj_SixToSeven g_UuidManager pBase (deltaOutput d fromItems toItems).bytes false =
        .ok (.inr (snapOf (unpackedItems d baseItems toItems))) ∧
      Limits (unpackedItems d baseItems toItems) ∧
      ((unpackedItems d baseItems toItems).map CSnapshotItem.Key).Nodup ∧
      ∀ x ∈ unpackedItems d baseItems toItems, IsInt32 x.Key := by
  obtain ⟨hdel, hdata, hupd⟩ := deltaOutput_spec d fromItems toItems
  have hmaxI : MAX_ITEMS = 1024 := rfl
  have hcountF := hlimitsF.count
  have hcountT := hlimits.count
  have hdelle : (deletedKeys fromItems toItems).length ≤ fromItems.length := by
    unfold deletedKeys
    rw [List.length_map]
    exact List.length_filter_le _ _
  rw [hchunk] at hdata hupd
  have hupdle := List.length_filter_le (fun t => !(chunk d baseItems t).isEmpty) toItems
  set deleted := deletedKeys fromItems toItems with hdeleted
  set updates := (toItems.filter fun t => !(chunk d baseItems t).isEmpty).length with hupdates
  obtain ⟨ws, hws⟩ : ∃ ws, ws = (deleted.length : Int) :: (updates : Int) :: 0 ::
      (deleted ++ toItems.flatMap (chunk d baseItems)) := ⟨_, rfl⟩
  have hbytes : (deltaOutput d fromItems toItems).bytes = ws.flatMap intBytes := by
    unfold Output.bytes
    rw [hdel, hdata, hupd, hws]
  have hints : ∀ w ∈ deleted ++ toItems.flatMap (chunk d baseItems), IsInt32 w := by
    intro w hw
    rcases List.mem_append.mp hw with hw | hw
    · rw [hdeleted] at hw
      obtain ⟨f, hf, rfl⟩ := List.mem_map.mp hw
      exact (h.regularFrom f (List.mem_filter.mp hf).1).key
    · obtain ⟨t, ht, hwt⟩ := List.mem_flatMap.mp hw
      exact isInt32_of_mem_chunk (h.regularTo t ht) (length_le_of_limits hlimits ht) hwt
  have hread₀ : readWord (ws.flatMap intBytes) 0 = .ok (deleted.length : Int) :=
    readWord_flatMap (by rw [hws]; rfl) (by unfold IsInt32; omega)
  have hread₁ : readWord (ws.flatMap intBytes) 1 = .ok (updates : Int) :=
    readWord_flatMap (by rw [hws]; rfl) (by unfold IsInt32; omega)
  have hkeys : (ints ((ws.flatMap intBytes).drop 12)).take deleted.length = deleted := by
    have hdrop := drop_flatMap_intBytes ws 3
    rw [show 4 * 3 = 12 from rfl] at hdrop
    rw [hdrop, hws, List.drop_succ_cons, List.drop_succ_cons, List.drop_succ_cons, List.drop_zero,
      ints_flatMap hints, List.take_left]
  have hlen : 3 + deleted.length ≤ ws.length := by
    rw [hws]
    simp only [List.length_cons, List.length_append]
    omega
  have hupdates' : ws.drop (3 + deleted.length) = toItems.flatMap (chunk d baseItems) := by
    rw [hws, Nat.add_comm, List.drop_succ_cons, List.drop_succ_cons, List.drop_succ_cons,
      List.drop_left]
  have hstart : Plain (start false) (keptItems (baseItems.take 0) toItems) :=
    ⟨⟨rfl, rfl, by simp [keptItems]⟩, rfl⟩
  obtain ⟨b₁, hcopy, h₁⟩ := hB.copyLoop Obj_SixToSeven g_UuidManager hpair.keysFrom hpair.sizes
    hlimits hpair.regularFrom (Nat.add_zero _) hstart
  rw [← hB.count, ← copyLoop_congr Obj_SixToSeven g_UuidManager pBase hmem] at hcopy
  obtain ⟨b₂, hupdate, h₂, hwithin⟩ := hB.updateLoop Obj_SixToSeven g_UuidManager hpair.keysFrom
    hpair.keysTo hpair.sizes hlimits hpair.regularTo (fun t ht => ht) hupdates' h₁
    (within_keptItems hpair.keysFrom hpair.sizes)
  have hout := hwithin.limits hlimits
  refine ⟨?_, hout, hwithin.keys, h₂.holds.keys⟩
  have hfinish := h₂.holds.finish hout.count hout.size
  rw [hbytes]
  unfold UnpackDelta
  simp only [hread₀, hread₁, bind, Except.bind, Int.toNat_natCast, hkeys]
  rw [if_neg (by omega), length_flatMap_intBytes, if_neg (by omega)]
  simp only [init_new, hcopy]
  rw [← hupdates] at hupdate
  simp only [hupdate, hfinish]
  rfl

/-- Unpacking the delta that was created. -/
theorem Reads.unpackDelta (hF : Reads pFrom fromItems) (h : Pair d fromItems toItems)
    (hlimitsF : Limits fromItems) (hlimits : Limits toItems) :
    ∃ s, d.UnpackDelta Obj_SixToSeven g_UuidManager pFrom (deltaOutput d fromItems toItems).bytes false =
        .ok (.inr s) ∧ Reads s (unpackedItems d fromItems toItems) ∧
      ((unpackedItems d fromItems toItems).map CSnapshotItem.Key).Nodup := by
  obtain ⟨hrun, -, hkeys, hint⟩ := hF.unpackDelta_of_chunk Obj_SixToSeven g_UuidManager h h rfl
    (fun _ => Iff.rfl) hlimitsF hlimits
  exact ⟨_, hrun, reads_snapOf hint, hkeys⟩

theorem Reads.crc {s : CSnapshot} (h : Reads s items) :
    s.Crc = .ok ((items.map fun x => (ints x.Data).sum).sum % 4294967296) := by
  have hloop : ∀ n i Crc, n + i = items.length → 0 ≤ Crc ∧ Crc < 4294967296 → s.CrcLoop n i Crc =
      .ok ((Crc + ((items.drop i).map fun x => (ints x.Data).sum).sum) % 4294967296) := by
    intro n
    induction n with
    | zero =>
        intro i Crc hi hCrc
        rw [List.drop_eq_nil_of_le (by omega), List.map_nil, List.sum_nil, Int.add_zero,
          Int.emod_eq_of_lt hCrc.1 hCrc.2]
        rfl
    | succ n ih =>
        intro i Crc hi hCrc
        have hlt : i < items.length := by omega
        unfold CSnapshot.CrcLoop
        rw [h.item i hlt]
        simp only [bind, Except.bind]
        rw [ih (i + 1) _ (by omega) (by omega), ← List.getElem_cons_drop hlt, List.map_cons,
          List.sum_cons, Int.emod_add_emod, Int.add_assoc]
  unfold CSnapshot.Crc
  rw [h.count, hloop _ _ _ (Nat.add_zero _) (by omega), List.drop_zero, Int.zero_add]

end Run

/-! ## The round trip -/

/-- The snapshots meet what a delta needs. -/
structure Deltable (Obj_SixToSeven : Int → Int) (g_UuidManager : CUuidManager) (d : CSnapshotDelta)
    (From To : CSnapshot) : Prop where
  builtFrom : Built Obj_SixToSeven g_UuidManager From
  builtTo : Built Obj_SixToSeven g_UuidManager To
  keysFrom : (From.Items.map CSnapshotItem.Key).Nodup
  keysTo : (To.Items.map CSnapshotItem.Key).Nodup
  type : ∀ x ∈ From.Items ++ To.Items, 0 ≤ x.ItemType ∧ x.ItemType ≤ MAX_TYPE
  words : ∀ x ∈ From.Items ++ To.Items, x.Data.length % 4 = 0
  static : ∀ x ∈ From.Items ++ To.Items, x.ItemType < MAX_NETOBJSIZES →
    d.m_aItemSizes x.ItemType.toNat ≠ 0 → x.Data.length = d.m_aItemSizes x.ItemType.toNat
  sizes : SameSizes From.Items To.Items

/-- The delta leads from the one snapshot to the other. -/
def DeltaLeads (Obj_SixToSeven : Int → Int) (g_UuidManager : CUuidManager) (d : CSnapshotDelta)
    (From To : CSnapshot) : Prop :=
  ∃ Out n, d.CreateDelta From To = .ok (Out, n) ∧ 0 ≤ n ∧ (n = 0 → SameItems From To) ∧
    (0 < n → n = Out.bytes.length ∧ ∃ s,
      d.UnpackDelta Obj_SixToSeven g_UuidManager From Out.bytes false = .ok (.inr s) ∧
      SameItems s To ∧ s.Crc = To.Crc)

theorem Pair.leads_iff (Obj_SixToSeven : Int → Int) (g_UuidManager : CUuidManager)
    (h : Pair d fromItems toItems) (hlimitsF : Limits fromItems) (hlimitsT : Limits toItems) :
    DeltaLeads Obj_SixToSeven g_UuidManager d (snapOf fromItems) (snapOf toItems) ↔
      Survives fromItems toItems := by
  have hF := reads_snapOf fun f hf => (h.regularFrom f hf).key
  have hT := reads_snapOf fun t ht => (h.regularTo t ht).key
  unfold DeltaLeads SameItems
  rw [hF.items_eq, hT.items_eq]
  obtain ⟨s, hunpack, hS, hkeysS⟩ := hF.unpackDelta Obj_SixToSeven g_UuidManager h hlimitsF hlimitsT
  have hcreate := hF.createDelta hT d h.keysFrom h.sizes
  by_cases hempty : (deltaOutput d fromItems toItems).m_NumDeletedItems = 0 ∧
      (deltaOutput d fromItems toItems).m_NumUpdateItems = 0
  · obtain ⟨hsame, hsurvives⟩ := h.same_of_empty hempty.1 hempty.2
    rw [if_pos hempty] at hcreate
    exact iff_of_true ⟨_, _, hcreate, Int.le_refl 0, fun _ => hsame, fun hlt => absurd hlt (by decide)⟩
      hsurvives
  · rw [if_neg hempty] at hcreate
    constructor
    · rintro ⟨Out, n, hrun, -, -, hlead⟩
      rw [hcreate] at hrun
      cases hrun
      obtain ⟨-, s', hrun', hsame, -⟩ := hlead (by omega)
      rw [hunpack] at hrun'
      cases hrun'
      rw [hS.items_eq] at hsame
      exact h.survives_of_same hsame
    · intro hsurvives
      refine ⟨_, _, hcreate, by omega, fun hzero => by omega, fun _ => ⟨?_, s, hunpack, ?_, ?_⟩⟩
      · unfold Output.bytes
        rw [length_flatMap_intBytes]
        simp only [List.length_cons]
        omega
      · rw [hS.items_eq]
        exact h.same_of_survives hsurvives
      · have hperm : (unpackedItems d fromItems toItems).Perm toItems :=
          (List.perm_ext_iff_of_nodup hkeysS.of_map h.keysTo.of_map).mpr
            (h.same_of_survives hsurvives)
        rw [hS.crc, hT.crc, (hperm.map fun x => (ints x.Data).sum).sum_eq]

/-- The delta leads to the new items exactly if every item of both snapshots survives it. -/
theorem delta_roundtrip (Obj_SixToSeven : Int → Int) (g_UuidManager : CUuidManager)
    (d : CSnapshotDelta) (From To : CSnapshot) (h : Deltable Obj_SixToSeven g_UuidManager d From To) :
    DeltaLeads Obj_SixToSeven g_UuidManager d From To ↔ Survives From.Items To.Items := by
  obtain ⟨fromItems, rfl, hlimitsF, hintF⟩ := h.builtFrom.items
  obtain ⟨toItems, rfl, hlimitsT, hintT⟩ := h.builtTo.items
  obtain ⟨-, -, hkeysF, hkeysT, htype, hwords, hstatic, hsizes⟩ := h
  rw [(reads_snapOf hintF).items_eq, (reads_snapOf hintT).items_eq] at *
  have hpair : Pair d fromItems toItems := by
    refine ⟨hkeysF, hkeysT, fun f hf => ?_, fun t ht => ?_, hsizes⟩
    · exact ⟨htype f (by simp [hf]), hwords f (by simp [hf]), hstatic f (by simp [hf]), hintF f hf⟩
    · exact ⟨htype t (by simp [ht]), hwords t (by simp [ht]), hstatic t (by simp [ht]), hintT t ht⟩
  exact hpair.leads_iff Obj_SixToSeven g_UuidManager hlimitsF hlimitsT

/-! ## Examples -/

/-- Every list of items of plain types within the limits is built. -/
theorem built_snapOf (Obj_SixToSeven : Int → Int) (g_UuidManager : CUuidManager)
    (hlimits : Limits items) (htype : ∀ x ∈ items, 0 ≤ x.ItemType ∧ x.ItemType ≤ MAX_TYPE) :
    Built Obj_SixToSeven g_UuidManager (snapOf items) := by
  have hrun : ∃ b, Reachable (CSnapshotBuilder.step Obj_SixToSeven g_UuidManager)
      (Allowed g_UuidManager) (start false) b ∧ Plain b items := by
    induction items using List.reverseRecOn with
    | nil => exact ⟨start false, .init, ⟨rfl, rfl, by simp⟩, rfl⟩
    | append_singleton is x ih =>
        have hprefix : Limits is := by
          have hcount := hlimits.count
          have hsize := hlimits.size
          rw [totalSize_snapOf, area_append, List.length_append, List.length_append] at hsize
          rw [List.length_append] at hcount
          refine ⟨by omega, ?_⟩
          rw [totalSize_snapOf]
          omega
        obtain ⟨b, hreach, hb⟩ := ih hprefix fun y hy => htype y (by simp [hy])
        have hx := htype x (by simp)
        obtain ⟨b₁, b₂, hnew, hwrite, h₂⟩ := hb.addItem Obj_SixToSeven g_UuidManager hx hlimits
        have hmax : MAX_TYPE = 32767 := rfl
        have huuid : OFFSET_UUID = 65536 := rfl
        have hstep₁ : CSnapshotBuilder.step Obj_SixToSeven g_UuidManager b
            (.NewItem x.ItemType x.Id x.Data.length) = .ok b₁ := by
          show (do
            return (← b.NewItem Obj_SixToSeven g_UuidManager x.ItemType x.Id x.Data.length).1) = _
          rw [hnew]
          rfl
        have hallowed : Allowed g_UuidManager b₁ (.WriteData is.length x.Data) := by
          unfold CSnapshotBuilder.WriteData at hwrite
          cases ho : b₁.m_aOffsets[is.length]? with
          | none =>
              rw [ho] at hwrite
              cases hwrite
          | some o =>
              rw [ho] at hwrite
              simp only at hwrite
              split at hwrite
              · exact ⟨o, ho, by assumption⟩
              · cases hwrite
        have hreach₁ := Reachable.next _ hreach
          (show Allowed g_UuidManager b (.NewItem x.ItemType x.Id x.Data.length) from
            fun hext => by omega) hstep₁
        exact ⟨b₂, hreach₁.next _ hallowed hwrite, h₂⟩
  obtain ⟨b, hreach, hb⟩ := hrun
  exact ⟨false, b, _, hreach, hb.holds.finish hlimits.count hlimits.size⟩

/-- No static sizes. -/
def exampleDelta : CSnapshotDelta := { m_aItemSizes := fun _ => 0, m_aItemSizes7 := fun _ => 0 }

/-- An item is deleted, one changes and one is new. -/
theorem delta_roundtrip_three :
    DeltaLeads id exampleUuids exampleDelta
      (snapOf [itemOf 1 0 (intBytes 5), itemOf 1 1 (intBytes 6)])
      (snapOf [itemOf 1 1 (intBytes 7), itemOf 2 0 (intBytes 8)]) := by
  have hread : ∀ items : List CSnapshotItem, (∀ x ∈ items, IsInt32 x.m_TypeAndId) →
      (snapOf items).Items = items := fun items h => (reads_snapOf h).items_eq
  have hfrom := hread [itemOf 1 0 (intBytes 5), itemOf 1 1 (intBytes 6)] (by decide)
  have hto := hread [itemOf 1 1 (intBytes 7), itemOf 2 0 (intBytes 8)] (by decide)
  apply (delta_roundtrip id exampleUuids exampleDelta _ _ ?_).mpr
  · rw [hfrom, hto]
    decide
  · constructor
    · exact built_snapOf _ _ ⟨by decide, by decide⟩ (by decide)
    · exact built_snapOf _ _ ⟨by decide, by decide⟩ (by decide)
    · rw [hfrom]
      decide
    · rw [hto]
      decide
    · rw [hfrom, hto]
      decide
    · rw [hfrom, hto]
      decide
    · rw [hfrom, hto]
      exact fun _ _ _ h => absurd rfl h
    · rw [hfrom, hto]
      unfold SameSizes
      decide

/-- Items whose keys have one hash. -/
def collidingItems (n : Nat) : List CSnapshotItem :=
  (List.range n).map fun i => { m_TypeAndId := 65536 + 256 * i + 31 * i % 256, Data := intBytes 1 }

/-- The last of 65 items with one hash is deleted and its data added to the old data. -/
theorem delta_doubles :
    Deltable id exampleUuids exampleDelta (snapOf (collidingItems 65)) (snapOf (collidingItems 65)) ∧
    ¬ DeltaLeads id exampleUuids exampleDelta (snapOf (collidingItems 65))
      (snapOf (collidingItems 65)) := by
  have hint : ∀ x ∈ collidingItems 65, IsInt32 x.m_TypeAndId := by decide
  have htype : ∀ x ∈ collidingItems 65, 0 ≤ x.ItemType ∧ x.ItemType ≤ MAX_TYPE := by decide
  have hkeys : ((collidingItems 65).map CSnapshotItem.Key).Nodup := by decide
  have hlength : ∀ x ∈ collidingItems 65, x.Data.length = 4 := by decide
  have hlimits : Limits (collidingItems 65) := ⟨by decide, by decide +kernel⟩
  have hsizes : SameSizes (collidingItems 65) (collidingItems 65) :=
    fun f hf t ht _ => (hlength f hf).trans (hlength t ht).symm
  have hread := (reads_snapOf hint).items_eq
  have hpair : Pair exampleDelta (collidingItems 65) (collidingItems 65) := by
    have hreg : ∀ x ∈ collidingItems 65, Regular exampleDelta x := fun x hx =>
      ⟨htype x hx, by rw [hlength x hx], fun _ h => absurd rfl h, hint x hx⟩
    exact ⟨hkeys, hkeys, hreg, hreg, hsizes⟩
  constructor
  · constructor
    · exact built_snapOf _ _ hlimits htype
    · exact built_snapOf _ _ hlimits htype
    · rw [hread]
      exact hkeys
    · rw [hread]
      exact hkeys
    · rw [hread]
      intro x hx
      exact htype x ((List.mem_append.mp hx).elim id id)
    · rw [hread]
      intro x hx
      rw [hlength x ((List.mem_append.mp hx).elim id id)]
    · exact fun _ _ _ h => absurd rfl h
    · rw [hread]
      exact hsizes
  · rw [hpair.leads_iff id exampleUuids hlimits hlimits]
    intro hsurvives
    set x : CSnapshotItem := { m_TypeAndId := 82112, Data := intBytes 1 } with hx
    have hmem : x ∈ collidingItems 65 := by decide
    have hnot : ¬ Hashed (collidingItems 65) x.Key := by decide
    have hzero := hsurvives x hmem x hmem rfl
    rw [if_neg hnot] at hzero
    exact absurd (hzero 1 (by decide)) (by decide)

end Fex.Engine.Snapshot
