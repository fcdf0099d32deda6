import Fex.Engine.Snapshot.Find

/-!
# Building a snapshot and looking items up

A log names the items that were added, with the data last written.  The items
of the builder are those of the log and one for each extended type; the
accessors of the finished snapshot answer from the log.
-/

namespace Fex.Engine.Snapshot

open Fex.Lib CSnapshotBuilder

/-- An added item. -/
structure Entry where
  ItemType : Int
  Id : Int
  Index : Nat
  Data : List UInt8

def Entry.pair (e : Entry) : Int × Int := (e.ItemType, e.Id)

/-- Plain types of the 0.6 protocol and registered extended types. -/
def Usable (g_UuidManager : CUuidManager) (T : Int) : Prop :=
  (0 < T ∧ T < OFFSET_UUID_TYPE) ∨ (OFFSET_UUID ≤ T ∧ Registered g_UuidManager T)

def IdInRange (Id : Int) : Prop := 0 ≤ Id ∧ Id ≤ MAX_ID

instance (Id : Int) : Decidable (IdInRange Id) := inferInstanceAs (Decidable (_ ∧ _))

/-- A snapshot is built: `Init` after any earlier use, then successful calls of `NewItem` for
distinct pairs and writes of their data. -/
inductive Build (Obj_SixToSeven : Int → Int) (g_UuidManager : CUuidManager) :
    CSnapshotBuilder → List Entry → Prop
  | init {Sixup : Bool} {b b' : CSnapshotBuilder}
      (hrun : Reachable (CSnapshotBuilder.step Obj_SixToSeven g_UuidManager)
        (Fitting Obj_SixToSeven g_UuidManager) (start Sixup) b)
      (hinit : b.Init Obj_SixToSeven g_UuidManager false = .ok b') :
      Build Obj_SixToSeven g_UuidManager b' []
  | newItem {b b' : CSnapshotBuilder} {log : List Entry} {ItemType Id : Int} {Size i : Nat}
      (h : Build Obj_SixToSeven g_UuidManager b log) (htype : Usable g_UuidManager ItemType)
      (hid : IdInRange Id) (hnew : ∀ e ∈ log, ¬ (e.ItemType = ItemType ∧ e.Id = Id))
      (hcap : ItemType ≥ OFFSET_UUID → ItemType ∈ b.m_aExtendedItemTypes ∨
        b.m_NumExtendedItemTypes < MAX_EXTENDED_ITEM_TYPES)
      (hfit : BothFit Obj_SixToSeven b ItemType Id Size)
      (hcall : b.NewItem Obj_SixToSeven g_UuidManager ItemType Id Size = .ok (b', .data i)) :
      Build Obj_SixToSeven g_UuidManager b' (log ++ [⟨ItemType, Id, i, List.replicate Size 0⟩])
  | write {b b' : CSnapshotBuilder} {as bs : List Entry} {e : Entry} {bytes : List UInt8}
      (h : Build Obj_SixToSeven g_UuidManager b (as ++ e :: bs))
      (hlen : bytes.length = e.Data.length) (hcall : b.WriteData e.Index bytes = .ok b') :
      Build Obj_SixToSeven g_UuidManager b' (as ++ { e with Data := bytes } :: bs)

/-! ## Stored types -/

/-- The type `T` is stored as `t`. -/
def Stored (ext : List Int) (T t : Int) : Prop :=
  (T < OFFSET_UUID ∧ t = T) ∨ (OFFSET_UUID ≤ T ∧ ∃ k, ext[k]? = some T ∧ t = GetTypeFromIndex k)

theorem getTypeFromIndex_range {k : Nat} (hk : k < MAX_EXTENDED_ITEM_TYPES) :
    32704 ≤ GetTypeFromIndex k ∧ GetTypeFromIndex k ≤ MAX_TYPE := by
  have hmax : MAX_EXTENDED_ITEM_TYPES = 64 := rfl
  unfold GetTypeFromIndex MAX_TYPE
  omega

section Stored

variable {g_UuidManager : CUuidManager} {ext : List Int} {T T' t : Int}

theorem Stored.index_lt {k : Nat} (hlen : ext.length ≤ MAX_EXTENDED_ITEM_TYPES)
    (hk : ext[k]? = some T) : k < MAX_EXTENDED_ITEM_TYPES :=
  Nat.lt_of_lt_of_le (List.getElem?_eq_some_iff.mp hk).1 hlen

theorem Stored.range (h : Stored ext T t) (hT : Usable g_UuidManager T)
    (hlen : ext.length ≤ MAX_EXTENDED_ITEM_TYPES) :
    0 < t ∧ t ≤ MAX_TYPE ∧ (T < OFFSET_UUID → t < OFFSET_UUID_TYPE) ∧
      (OFFSET_UUID ≤ T → 32704 ≤ t) := by
  have hmax : MAX_TYPE = 32767 := rfl
  have hoff : OFFSET_UUID_TYPE = 16384 := rfl
  have huuid : OFFSET_UUID = 65536 := rfl
  rcases h with ⟨hplain, rfl⟩ | ⟨hext, k, hk, rfl⟩
  · rcases hT with hT | hT
    · omega
    · omega
  · have hrange := getTypeFromIndex_range (Stored.index_lt hlen hk)
    omega

theorem Stored.inj (h : Stored ext T t) (h' : Stored ext T' t) (hT : Usable g_UuidManager T)
    (hT' : Usable g_UuidManager T') (hlen : ext.length ≤ MAX_EXTENDED_ITEM_TYPES) : T = T' := by
  have hoff : OFFSET_UUID_TYPE = 16384 := rfl
  have hrange := h.range hT hlen
  have hrange' := h'.range hT' hlen
  rcases h with ⟨hplain, rfl⟩ | ⟨hext, k, hk, rfl⟩
  · rcases h' with ⟨-, rfl⟩ | ⟨hext', -⟩
    · rfl
    · omega
  · rcases h' with ⟨hplain', -⟩ | ⟨-, k', hk', heq⟩
    · omega
    · have hkk : k = k' := by
        unfold GetTypeFromIndex at heq
        omega
      rw [hkk, hk'] at hk
      exact (Option.some.inj hk).symm

theorem Stored.mono {x : Int} (h : Stored ext T t) : Stored (ext ++ [x]) T t := by
  rcases h with h | ⟨hext, k, hk, rfl⟩
  · exact .inl h
  · refine .inr ⟨hext, k, ?_, rfl⟩
    rw [List.getElem?_append_left (List.getElem?_eq_some_iff.mp hk).1]
    exact hk

end Stored

/-- The item that describes the extended type number `k`. -/
def typeItem (k : Nat) (Uuid : CUuid) : CSnapshotItem :=
  itemOf 0 (GetTypeFromIndex k) (CSnapshot.uuidData Uuid)

/-- The items are the entries of the log and one item for each extended type. -/
structure Described (g_UuidManager : CUuidManager) (ext : List Int) (items : List CSnapshotItem)
    (log : List Entry) : Prop where
  item : ∀ (i : Nat) x, items[i]? = some x →
    (∃ k T Uuid, ext[k]? = some T ∧ g_UuidManager.GetUuid T = .ok Uuid ∧ x = typeItem k Uuid) ∨
    ∃ e ∈ log, ∃ t, Stored ext e.ItemType t ∧ e.Index = i ∧ x = itemOf t e.Id e.Data
  type : ∀ (k : Nat) T, ext[k]? = some T →
    ∃ Uuid, g_UuidManager.GetUuid T = .ok Uuid ∧ typeItem k Uuid ∈ items
  entry : ∀ e ∈ log, Usable g_UuidManager e.ItemType ∧ IdInRange e.Id ∧
    ∃ t, Stored ext e.ItemType t ∧ items[e.Index]? = some (itemOf t e.Id e.Data)
  pairs : (log.map Entry.pair).Nodup

namespace Described

variable {g_UuidManager : CUuidManager} {ext : List Int} {items : List CSnapshotItem}
  {log : List Entry}

theorem addType (h : Described g_UuidManager ext items log) {T : Int} {Uuid : CUuid}
    (huuid : g_UuidManager.GetUuid T = .ok Uuid) :
    Described g_UuidManager (ext ++ [T]) (items ++ [typeItem ext.length Uuid]) log := by
  have hlast : (ext ++ [T])[ext.length]? = some T := List.getElem?_concat_length
  constructor
  · intro i x hx
    rcases Nat.lt_or_ge i items.length with hi | hi
    · rw [List.getElem?_append_left hi] at hx
      rcases h.item i x hx with ⟨k, T', Uuid', hk, huuid', rfl⟩ | ⟨e, he, t, ht, hindex, rfl⟩
      · refine .inl ⟨k, T', Uuid', ?_, huuid', rfl⟩
        rw [List.getElem?_append_left (List.getElem?_eq_some_iff.mp hk).1]
        exact hk
      · exact .inr ⟨e, he, t, ht.mono, hindex, rfl⟩
    · rw [List.getElem?_append_right hi] at hx
      have hmem := List.mem_of_getElem? hx
      rw [List.mem_singleton.mp hmem]
      exact .inl ⟨ext.length, T, Uuid, hlast, huuid, rfl⟩
  · intro k T' hk
    rcases Nat.lt_or_ge k ext.length with hlt | hge
    · rw [List.getElem?_append_left hlt] at hk
      obtain ⟨Uuid', huuid', hmem⟩ := h.type k T' hk
      exact ⟨Uuid', huuid', List.mem_append_left _ hmem⟩
    · have hlen := (List.getElem?_eq_some_iff.mp hk).1
      rw [List.length_append, List.length_singleton] at hlen
      have hkeq : k = ext.length := by omega
      rw [hkeq, hlast] at hk
      rw [← Option.some.inj hk, hkeq]
      exact ⟨Uuid, huuid, by simp⟩
  · intro e he
    obtain ⟨husable, hid, t, ht, hitem⟩ := h.entry e he
    refine ⟨husable, hid, t, ht.mono, ?_⟩
    rw [List.getElem?_append_left (List.getElem?_eq_some_iff.mp hitem).1]
    exact hitem
  · exact h.pairs

theorem addEntry (h : Described g_UuidManager ext items log) {e : Entry} {t : Int}
    (husable : Usable g_UuidManager e.ItemType) (hid : IdInRange e.Id)
    (hnew : ∀ f ∈ log, ¬ (f.ItemType = e.ItemType ∧ f.Id = e.Id)) (ht : Stored ext e.ItemType t)
    (hindex : e.Index = items.length) :
    Described g_UuidManager ext (items ++ [itemOf t e.Id e.Data]) (log ++ [e]) := by
  have hlast : (items ++ [itemOf t e.Id e.Data])[items.length]? = some (itemOf t e.Id e.Data) :=
    List.getElem?_concat_length
  constructor
  · intro i x hx
    rcases Nat.lt_or_ge i items.length with hi | hi
    · rw [List.getElem?_append_left hi] at hx
      rcases h.item i x hx with htype | ⟨f, hf, hrest⟩
      · exact .inl htype
      · exact .inr ⟨f, by simp [hf], hrest⟩
    · have hlen := (List.getElem?_eq_some_iff.mp hx).1
      rw [List.length_append, List.length_singleton] at hlen
      have hieq : i = items.length := by omega
      rw [hieq, hlast] at hx
      rw [← Option.some.inj hx]
      exact .inr ⟨e, by simp, t, ht, hindex.trans hieq.symm, rfl⟩
  · intro k T hk
    obtain ⟨Uuid, huuid, hmem⟩ := h.type k T hk
    exact ⟨Uuid, huuid, List.mem_append_left _ hmem⟩
  · intro f hf
    rcases List.mem_append.mp hf with hf | hf
    · obtain ⟨husable', hid', t', ht', hitem⟩ := h.entry f hf
      refine ⟨husable', hid', t', ht', ?_⟩
      rw [List.getElem?_append_left (List.getElem?_eq_some_iff.mp hitem).1]
      exact hitem
    · rw [List.mem_singleton.mp hf]
      refine ⟨husable, hid, t, ht, ?_⟩
      rw [hindex]
      exact hlast
  · rw [List.map_append, List.map_singleton, List.nodup_append]
    refine ⟨h.pairs, List.nodup_singleton _, fun c hc d hd heq => ?_⟩
    obtain ⟨f, hf, rfl⟩ := List.mem_map.mp hc
    rw [List.mem_singleton.mp hd] at heq
    exact hnew f hf ⟨congrArg Prod.fst heq, congrArg Prod.snd heq⟩

/-- An entry is determined by its index. -/
theorem entry_of_index (h : Described g_UuidManager ext items log)
    (hlen : ext.length ≤ MAX_EXTENDED_ITEM_TYPES) {e f : Entry} (he : e ∈ log) (hf : f ∈ log)
    (hindex : e.Index = f.Index) : e.ItemType = f.ItemType ∧ e.Id = f.Id := by
  obtain ⟨hue, hie, t, hte, hitem⟩ := h.entry e he
  obtain ⟨huf, hif, t', htf, hitem'⟩ := h.entry f hf
  rw [hindex, hitem'] at hitem
  have hkey : makeKey t' f.Id = makeKey t e.Id :=
    congrArg CSnapshotItem.m_TypeAndId (Option.some.inj hitem)
  have hre := hte.range hue hlen
  have hrf := htf.range huf hlen
  obtain ⟨htt, hid⟩ := makeKey_inj ⟨Int.le_of_lt hrf.1, hrf.2.1⟩ hif
    ⟨Int.le_of_lt hre.1, hre.2.1⟩ hie hkey
  rw [htt] at htf
  exact ⟨hte.inj htf hue huf hlen, hid.symm⟩

theorem write (h : Described g_UuidManager ext items log)
    (hlen : ext.length ≤ MAX_EXTENDED_ITEM_TYPES) {as bs : List Entry} {e : Entry} {t : Int}
    (hlog : log = as ++ e :: bs) (ht : Stored ext e.ItemType t)
    (hitem : items[e.Index]? = some (itemOf t e.Id e.Data)) (bytes : List UInt8) :
    Described g_UuidManager ext (items.set e.Index (itemOf t e.Id bytes))
      (as ++ { e with Data := bytes } :: bs) := by
  have he : e ∈ log := by
    rw [hlog]
    simp
  obtain ⟨hue, hie, -⟩ := h.entry e he
  have hrange := ht.range hue hlen
  have hlt := (List.getElem?_eq_some_iff.mp hitem).1
  have hsplit : ∀ f, f ∈ log ↔ f = e ∨ f ∈ as ∨ f ∈ bs := by
    intro f
    rw [hlog, List.mem_append, List.mem_cons]
    tauto
  have hsplit' : ∀ f, f ∈ as ++ { e with Data := bytes } :: bs ↔
      f = { e with Data := bytes } ∨ f ∈ as ∨ f ∈ bs := by
    intro f
    rw [List.mem_append, List.mem_cons]
    tauto
  constructor
  · intro i x hx
    by_cases hi : i = e.Index
    · rw [hi, List.getElem?_set_self hlt] at hx
      rw [← Option.some.inj hx]
      exact .inr ⟨{ e with Data := bytes }, (hsplit' _).mpr (.inl rfl), t, ht, hi.symm, rfl⟩
    · rw [List.getElem?_set_ne (fun heq => hi heq.symm)] at hx
      rcases h.item i x hx with htype | ⟨f, hf, t', htf, hindex, hxf⟩
      · exact .inl htype
      · refine .inr ⟨f, (hsplit' f).mpr (.inr ?_), t', htf, hindex, hxf⟩
        apply ((hsplit f).mp hf).resolve_left
        intro hfe
        rw [hfe] at hindex
        exact hi hindex.symm
  · intro k T hk
    obtain ⟨Uuid, huuid, hmem⟩ := h.type k T hk
    refine ⟨Uuid, huuid, ?_⟩
    obtain ⟨j, hj⟩ := List.mem_iff_getElem?.mp hmem
    have hje : e.Index ≠ j := by
      intro heq
      rw [heq, hj] at hitem
      have hkey : makeKey 0 (GetTypeFromIndex k) = makeKey t e.Id :=
        congrArg CSnapshotItem.m_TypeAndId (Option.some.inj hitem)
      have hk' := getTypeFromIndex_range (Stored.index_lt hlen hk)
      have hmax : MAX_TYPE = 32767 := rfl
      have hmaxid : MAX_ID = 65535 := rfl
      have htt := (makeKey_inj ⟨Int.le_refl 0, by omega⟩ ⟨by omega, by omega⟩
        ⟨Int.le_of_lt hrange.1, hrange.2.1⟩ hie hkey).1
      omega
    apply List.mem_of_getElem? (i := j)
    rw [List.getElem?_set_ne hje]
    exact hj
  · intro f hf
    rcases (hsplit' f).mp hf with rfl | hf
    · refine ⟨hue, hie, t, ht, ?_⟩
      exact List.getElem?_set_self hlt
    · have hflog := (hsplit f).mpr (.inr hf)
      obtain ⟨huf, hif, t', htf, hitemf⟩ := h.entry f hflog
      refine ⟨huf, hif, t', htf, ?_⟩
      rw [List.getElem?_set_ne]
      · exact hitemf
      · intro heq
        have hsame := h.entry_of_index hlen he hflog heq
        have hpairs := h.pairs
        rw [hlog, List.map_append, List.map_cons] at hpairs
        have hmid : (as.map Entry.pair ++ e.pair :: bs.map Entry.pair).Perm
            (e.pair :: (as.map Entry.pair ++ bs.map Entry.pair)) := List.perm_middle
        apply (List.nodup_cons.mp (hmid.nodup_iff.mp hpairs)).1
        rw [← List.map_append]
        apply List.mem_map.mpr
        exact ⟨f, List.mem_append.mpr hf, Prod.ext hsame.1.symm hsame.2.symm⟩
  · have hpairs := h.pairs
    rw [hlog, List.map_append, List.map_cons] at hpairs
    rw [List.map_append, List.map_cons]
    exact hpairs

end Described

/-! ## The invariant -/

/-- What holds while a snapshot is built. -/
structure BuildInvariant (g_UuidManager : CUuidManager) (b : CSnapshotBuilder) (log : List Entry)
    (items : List CSnapshotItem) : Prop where
  holds : Holds b items
  limits : Limits items
  described : Described g_UuidManager b.m_aExtendedItemTypes items log
  types : b.m_NumExtendedItemTypes ≤ MAX_EXTENDED_ITEM_TYPES
  distinct : b.m_aExtendedItemTypes.Nodup
  sixup : b.m_Sixup = false

variable {Obj_SixToSeven : Int → Int} {g_UuidManager : CUuidManager}

theorem typeItems_false (k : Nat) (Uuid : CUuid) :
    typeItems Obj_SixToSeven false k Uuid = [typeItem k Uuid] := by
  unfold typeItems
  exact if_neg (by simp)

/-- `Init` adds the items of all extended types. -/
theorem initLoop_described {b : CSnapshotBuilder} {items : List CSnapshotItem} {n i : Nat}
    (h : Holds b items) (hlimits : Limits items) (hsixup : b.m_Sixup = false)
    (hreg : ∀ T ∈ b.m_aExtendedItemTypes, Registered g_UuidManager T)
    (hcap : b.m_NumExtendedItemTypes ≤ MAX_EXTENDED_ITEM_TYPES)
    (hdistinct : b.m_aExtendedItemTypes.Nodup)
    (hn : n + i = b.m_NumExtendedItemTypes) (hcount : items.length = i)
    (harea : (area items).length = 20 * i)
    (hdescribed : Described g_UuidManager (b.m_aExtendedItemTypes.take i) items []) :
    ∃ b' items', b.InitLoop Obj_SixToSeven g_UuidManager n i = .ok b' ∧
      BuildInvariant g_UuidManager b' [] items' := by
  induction n generalizing b items i with
  | zero =>
      have htake : b.m_aExtendedItemTypes.take i = b.m_aExtendedItemTypes :=
        List.take_of_length_le (by unfold m_NumExtendedItemTypes at hn; omega)
      rw [htake] at hdescribed
      exact ⟨b, items, rfl, h, hlimits, hdescribed, hcap, hdistinct, hsixup⟩
  | succ n ih =>
      have hi : i < b.m_aExtendedItemTypes.length := by
        unfold m_NumExtendedItemTypes at hn
        omega
      have hi64 : i < 64 := Nat.lt_of_lt_of_le hi hcap
      have htype := List.getElem?_eq_getElem hi
      obtain ⟨Uuid, huuid⟩ := hreg _ (List.getElem_mem hi)
      have hroom : b.HasRoom 16 := by
        rw [h.hasRoom_iff, totalSize_snapOf, hcount, harea]
        have hmax : MAX_SIZE = 65536 := rfl
        have hitems : MAX_ITEMS = 1024 := rfl
        omega
      obtain ⟨b₁, r, hadd, hcases⟩ :=
        h.addExtendedItemType Obj_SixToSeven g_UuidManager htype huuid hi64
      rcases hcases with ⟨-, -, hnot⟩ | ⟨rfl, -, hext₁, hsixup₁, h₁⟩
      · exact absurd hroom hnot
      · have hlimits₁ := h.limits_typeItems Obj_SixToSeven hlimits hroom b.m_Sixup i Uuid
        have hdescribed₁ := hdescribed.addType huuid
        have hilen : (b.m_aExtendedItemTypes.take i).length = i :=
          List.length_take_of_le (Nat.le_of_lt hi)
        have htake : b.m_aExtendedItemTypes.take i ++ [b.m_aExtendedItemTypes[i]] =
            b₁.m_aExtendedItemTypes.take (i + 1) := by
          rw [hext₁, List.take_add_one, List.getElem?_eq_getElem hi]
          rfl
        rw [hsixup, typeItems_false] at h₁ hlimits₁
        rw [hilen, htake] at hdescribed₁
        have hone : (typeItem i Uuid).Data.length = 16 := length_uuidData Uuid
        obtain ⟨b', items', hrun, hinv⟩ := ih h₁ hlimits₁ (hsixup₁.trans hsixup)
          (by rw [hext₁]; exact hreg) (by unfold m_NumExtendedItemTypes; rw [hext₁]; exact hcap)
          (by rw [hext₁]; exact hdistinct) (i := i + 1) (by unfold m_NumExtendedItemTypes at hn ⊢; rw [hext₁]; omega)
          (by rw [List.length_append, List.length_singleton, hcount])
          (by
            rw [area_append, List.length_append, harea, area_cons, area_nil, List.append_nil,
              CSnapshotItem.length_encode, hone]
            omega) hdescribed₁
        refine ⟨b', items', ?_, hinv⟩
        unfold InitLoop
        simp only [hadd, bind, Except.bind]
        exact hrun

theorem described_nil : Described g_UuidManager [] [] [] := by
  constructor <;> simp

namespace BuildInvariant

variable {b b' : CSnapshotBuilder} {log : List Entry} {items : List CSnapshotItem}

theorem newItem (h : BuildInvariant g_UuidManager b log items) {ItemType Id : Int} {Size i : Nat}
    (htype : Usable g_UuidManager ItemType) (hid : IdInRange Id)
    (hnew : ∀ e ∈ log, ¬ (e.ItemType = ItemType ∧ e.Id = Id))
    (hcap : ItemType ≥ OFFSET_UUID → ItemType ∈ b.m_aExtendedItemTypes ∨
      b.m_NumExtendedItemTypes < MAX_EXTENDED_ITEM_TYPES)
    (hfit : BothFit Obj_SixToSeven b ItemType Id Size)
    (hcall : b.NewItem Obj_SixToSeven g_UuidManager ItemType Id Size = .ok (b', .data i)) :
    ∃ items', BuildInvariant g_UuidManager b'
      (log ++ [⟨ItemType, Id, i, List.replicate Size 0⟩]) items' := by
  have hreg : ItemType ≥ OFFSET_UUID → Registered g_UuidManager ItemType := by
    intro hext
    rcases htype with hplain | hext'
    · have hoff : OFFSET_UUID_TYPE = 16384 := rfl
      have huuid : OFFSET_UUID = 65536 := rfl
      omega
    · exact hext'.2
  obtain ⟨b'', p, added, hrun, hadded, hsixup, hholds, hlimits⟩ :=
    h.holds.newItem Obj_SixToSeven g_UuidManager h.limits hreg hcap hfit
  rw [hcall] at hrun
  cases hrun
  have htypes : b'.m_NumExtendedItemTypes ≤ MAX_EXTENDED_ITEM_TYPES :=
    hadded.numTypes Obj_SixToSeven g_UuidManager hcap h.types
  have hdistinct := hadded.distinct Obj_SixToSeven g_UuidManager h.distinct
  refine ⟨items ++ added, hholds, hlimits, ?_, htypes, hdistinct, hsixup.trans h.sixup⟩
  have hstored : storedType Obj_SixToSeven b.m_Sixup ItemType = ItemType := by
    unfold storedType
    rw [h.sixup]
    rfl
  have hsix := h.sixup
  generalize hb' : b'.m_aExtendedItemTypes = ext at hadded ⊢
  cases hadded with
  | nothing _ hp => exact absurd rfl (hp i)
  | plain hplain _ =>
      rw [hstored]
      exact h.described.addEntry (e := ⟨ItemType, Id, items.length, List.replicate Size 0⟩) htype hid hnew
        (.inl ⟨hplain, rfl⟩) rfl
  | known hext k hk =>
      exact h.described.addEntry (e := ⟨ItemType, Id, items.length, List.replicate Size 0⟩) htype hid hnew
        (.inr ⟨hext, k, hk, rfl⟩) rfl
  | extended hext hnot Uuid huuid =>
      have h₁ := h.described.addType huuid
      rw [hsix, typeItems_false, ← List.append_assoc, List.length_singleton]
      have hlast : (b.m_aExtendedItemTypes ++ [ItemType])[b.m_aExtendedItemTypes.length]? =
          some ItemType := List.getElem?_concat_length
      exact h₁.addEntry (e := ⟨ItemType, Id, items.length + 1, List.replicate Size 0⟩) htype hid hnew
        (.inr ⟨hext, _, hlast, rfl⟩) (by simp)

theorem write {as bs : List Entry} {e : Entry} {bytes : List UInt8}
    (h : BuildInvariant g_UuidManager b (as ++ e :: bs) items)
    (hlen : bytes.length = e.Data.length) (hcall : b.WriteData e.Index bytes = .ok b') :
    ∃ items', BuildInvariant g_UuidManager b' (as ++ { e with Data := bytes } :: bs) items' := by
  obtain ⟨-, -, t, ht, hitem⟩ := h.described.entry e (by simp)
  obtain ⟨hlt, hget⟩ := List.getElem?_eq_some_iff.mp hitem
  have hsplit : items = items.take e.Index ++ itemOf t e.Id e.Data :: items.drop (e.Index + 1) := by
    rw [← hget, List.getElem_cons_drop, List.take_append_drop]
  have htake : (items.take e.Index).length = e.Index := List.length_take_of_le (Nat.le_of_lt hlt)
  have hholds := h.holds
  rw [hsplit] at hholds
  have hle : bytes.length ≤ (itemOf t e.Id e.Data).Data.length := by
    rw [hlen]
    exact Nat.le_refl _
  obtain ⟨b'', hwrite, hext, hsixup, hb''⟩ := hholds.writeData hle
  rw [htake, hcall] at hwrite
  cases hwrite
  have hdata : bytes ++ e.Data.drop bytes.length = bytes := by
    rw [hlen, List.drop_length, List.append_nil]
  have hset : items.take e.Index ++ itemOf t e.Id bytes :: items.drop (e.Index + 1) =
      items.set e.Index (itemOf t e.Id bytes) := (List.set_eq_take_append_cons_drop.trans (if_pos hlt)).symm
  have hb' : Holds b' (items.set e.Index (itemOf t e.Id bytes)) := by
    rw [← hset, ← hdata]
    have hdata' := hb''
    unfold itemOf at hdata' ⊢
    simp only [hdata] at hdata' ⊢
    exact hdata'
  refine ⟨_, hb', ?_, ?_, ?_, ?_, hsixup.trans h.sixup⟩
  · constructor
    · rw [List.length_set]
      exact h.limits.count
    · have hsize := h.limits.size
      rw [totalSize_snapOf, hsplit] at hsize
      rw [totalSize_snapOf, ← hset]
      simp only [itemOf, area_append, area_cons, List.length_append, List.length_cons,
        CSnapshotItem.length_encode] at hsize ⊢
      omega
  · rw [hext]
    exact h.described.write h.types rfl ht hitem bytes
  · unfold m_NumExtendedItemTypes
    rw [hext]
    exact h.types
  · rw [hext]
    exact h.distinct

end BuildInvariant

theorem Build.invariant {b : CSnapshotBuilder} {log : List Entry}
    (h : Build Obj_SixToSeven g_UuidManager b log) :
    ∃ items, BuildInvariant g_UuidManager b log items := by
  induction h with
  | init hrun hinit =>
      rename_i Sixup b b'
      have hinv := invariant_of_run Obj_SixToSeven g_UuidManager hrun
      have hempty : Holds { b with m_aData := [], m_aOffsets := [], m_Sixup := false } [] :=
        ⟨rfl, rfl, by simp⟩
      obtain ⟨b'', items, hrun', hb''⟩ :=
        @initLoop_described Obj_SixToSeven g_UuidManager _ _ _ _ hempty limits_nil rfl hinv.registered
          hinv.types hinv.distinct (Nat.add_zero _) rfl rfl described_nil
      have heq : b.Init Obj_SixToSeven g_UuidManager false = .ok b'' := hrun'
      rw [hinit] at heq
      cases heq
      exact ⟨items, hb''⟩
  | newItem _ htype hid hnew hcap hfit hcall ih =>
      obtain ⟨items, hinv⟩ := ih
      exact hinv.newItem htype hid hnew hcap hfit hcall
  | write _ hlen hcall ih =>
      obtain ⟨items, hinv⟩ := ih
      exact hinv.write hlen hcall

/-! ## Lookups -/

theorem Stored.unique {ext : List Int} {T t t' : Int} (h : Stored ext T t) (h' : Stored ext T t')
    (hdistinct : ext.Nodup) : t = t' := by
  rcases h with ⟨hplain, rfl⟩ | ⟨hext, k, hk, rfl⟩
  · rcases h' with ⟨-, rfl⟩ | ⟨hext', -⟩
    · rfl
    · omega
  · rcases h' with ⟨hplain', -⟩ | ⟨-, k', hk', rfl⟩
    · omega
    · obtain ⟨hlt, hget⟩ := List.getElem?_eq_some_iff.mp hk
      obtain ⟨hlt', hget'⟩ := List.getElem?_eq_some_iff.mp hk'
      rw [(List.Nodup.getElem_inj_iff hdistinct).mp (hget.trans hget'.symm)]

theorem bytesBE_uuidData (Uuid : CUuid) : bytesBE (ints (CSnapshot.uuidData Uuid)) = Uuid.toList := by
  unfold CSnapshot.uuidData
  rw [ints_flatMap fun x hx => isInt32_of_mem_intsBE hx]
  exact bytesBE_intsBE (by rw [Vector.length_toList])

theorem uuidData_inj {a b : CUuid} (h : CSnapshot.uuidData a = CSnapshot.uuidData b) : a = b := by
  have hbytes := congrArg (fun l => bytesBE (ints l)) h
  simp only [bytesBE_uuidData] at hbytes
  exact Vector.toList_inj.mp hbytes

namespace BuildInvariant

variable {b : CSnapshotBuilder} {log : List Entry} {items : List CSnapshotItem}

theorem typeItem_range {k : Nat} {T : Int} (h : BuildInvariant g_UuidManager b log items)
    (hk : b.m_aExtendedItemTypes[k]? = some T) :
    (0 ≤ (0 : Int) ∧ (0 : Int) ≤ MAX_TYPE) ∧
      (0 ≤ GetTypeFromIndex k ∧ GetTypeFromIndex k ≤ MAX_ID) := by
  have hrange := getTypeFromIndex_range (Stored.index_lt h.types hk)
  have hmax : MAX_TYPE = 32767 := rfl
  have hmaxid : MAX_ID = 65535 := rfl
  omega

/-- The items that describe types are the only ones of type 0. -/
theorem type_zero (h : BuildInvariant g_UuidManager b log items) {x : CSnapshotItem}
    (hx : x ∈ items) (hzero : x.ItemType = 0) :
    ∃ k T Uuid, b.m_aExtendedItemTypes[k]? = some T ∧ g_UuidManager.GetUuid T = .ok Uuid ∧
      x = typeItem k Uuid := by
  obtain ⟨i, hi⟩ := List.mem_iff_getElem?.mp hx
  rcases h.described.item i x hi with htype | ⟨e, he, t, ht, -, rfl⟩
  · exact htype
  · obtain ⟨hue, hie, -⟩ := h.described.entry e he
    have hrange := ht.range hue h.types
    rw [itemType_itemOf ⟨Int.le_of_lt hrange.1, hrange.2.1⟩ hie] at hzero
    omega

/-- The stored type of a usable type is found, if it has one. -/
theorem findInternal (h : BuildInvariant g_UuidManager b log items) (hm : g_UuidManager.Indexed)
    {T : Int} (hT : Usable g_UuidManager T) {s : CSnapshot} (hs : Reads s items) :
    ∃ o, s.FindInternalType g_UuidManager T = .ok o ∧
      (o = none → ∀ t, ¬ Stored b.m_aExtendedItemTypes T t) ∧
      ∀ t, o = some t → Stored b.m_aExtendedItemTypes T t := by
  unfold CSnapshot.FindInternalType
  by_cases hext : T ≥ OFFSET_UUID
  · rw [if_pos hext]
    obtain ⟨Uuid, huuid⟩ : Registered g_UuidManager T := by
      rcases hT with hplain | hext'
      · have hoff : OFFSET_UUID_TYPE = 16384 := rfl
        have hoffuuid : OFFSET_UUID = 65536 := rfl
        omega
      · exact hext'.2
    obtain ⟨o, hrun, hnone, hsome⟩ := hs.findType (CSnapshot.uuidData Uuid) (by
      intro x hx hzero _
      obtain ⟨k, T', Uuid', -, -, rfl⟩ := h.type_zero hx hzero
      exact Nat.le_of_eq (length_uuidData Uuid').symm)
    have htake : ∀ u : CUuid, (CSnapshot.uuidData u).take 16 = CSnapshot.uuidData u := fun u =>
      List.take_of_length_le (Nat.le_of_eq (length_uuidData u))
    have hlen : ∀ u u' : CUuid, (CSnapshot.uuidData u).length = (CSnapshot.uuidData u').length :=
      fun u u' => (length_uuidData u).trans (length_uuidData u').symm
    refine ⟨o, ?_, fun ho t ht => ?_, fun t ht => ?_⟩
    · rw [huuid]
      exact hrun
    · rcases ht with ⟨hplain, -⟩ | ⟨-, k, hk, rfl⟩
      · omega
      · obtain ⟨Uuid', huuid', hmem⟩ := h.described.type k T hk
        rw [huuid] at huuid'
        cases huuid'
        have hrange := h.typeItem_range hk
        have hk' := getTypeFromIndex_range (Stored.index_lt h.types hk)
        have hoff : OFFSET_UUID_TYPE = 16384 := rfl
        apply hnone ho _ hmem
        refine ⟨itemType_itemOf hrange.1 hrange.2, ?_, ?_⟩
        · unfold typeItem
          rw [id_itemOf hrange.1 hrange.2]
          omega
        · show mem_comp ((CSnapshot.uuidData Uuid).take 16) _ = 0
          rw [htake, mem_comp_eq_zero rfl]
    · obtain ⟨x, hx, ⟨hzero, -, hcomp⟩, rfl⟩ := hsome t ht
      obtain ⟨k, T', Uuid', hk, huuid', rfl⟩ := h.type_zero hx hzero
      have hdata : mem_comp ((CSnapshot.uuidData Uuid').take 16) (CSnapshot.uuidData Uuid) = 0 := hcomp
      rw [htake, mem_comp_eq_zero (hlen _ _)] at hdata
      have hsame := uuidData_inj hdata
      rw [hsame] at huuid'
      have hTT : T' = T := (hm.lookupUuid huuid').symm.trans (hm.lookupUuid huuid)
      rw [hTT] at hk
      have hrange := h.typeItem_range hk
      refine .inr ⟨hext, k, hk, ?_⟩
      unfold typeItem
      rw [id_itemOf hrange.1 hrange.2]
  · rw [if_neg hext]
    have hplain : T < OFFSET_UUID := by omega
    refine ⟨some T, rfl, (fun ho => by cases ho), fun t ht => ?_⟩
    exact .inl ⟨hplain, (Option.some.inj ht).symm⟩

/-- The key of a pair leads to its entry. -/
theorem findKey (h : BuildInvariant g_UuidManager b log items) {T t Id : Int}
    (hT : Usable g_UuidManager T) (hId : IdInRange Id) (ht : Stored b.m_aExtendedItemTypes T t)
    {s : CSnapshot} (hs : Reads s items) :
    ∃ r, s.GetItemIndex (makeKey t Id) = .ok r ∧
      (r = none → ∀ e ∈ log, ¬ (e.ItemType = T ∧ e.Id = Id)) ∧
      ∀ i, r = some i → ∃ e ∈ log, e.ItemType = T ∧ e.Id = Id ∧
        items[i]? = some (itemOf t e.Id e.Data) := by
  have hrange := ht.range hT h.types
  obtain ⟨r, hrun, hnone, hsome⟩ := hs.getItemIndex (makeKey t Id)
  refine ⟨r, hrun, fun hr e he => ?_, fun i hi => ?_⟩
  · rintro ⟨rfl, rfl⟩
    obtain ⟨-, -, t', ht', hitem⟩ := h.described.entry e he
    rw [ht'.unique ht h.distinct] at hitem
    exact hnone hr _ (List.mem_of_getElem? hitem) rfl
  · obtain ⟨x, hx, hkey⟩ := hsome i hi
    rcases h.described.item i x hx with ⟨k, T', Uuid, hk, -, rfl⟩ | ⟨e, he, t', ht', -, rfl⟩
    · have hk' := h.typeItem_range hk
      have hzero := (makeKey_inj hk'.1 hk'.2 ⟨Int.le_of_lt hrange.1, hrange.2.1⟩ hId hkey).1
      omega
    · obtain ⟨hue, hie, -⟩ := h.described.entry e he
      have hre := ht'.range hue h.types
      obtain ⟨rfl, hid⟩ := makeKey_inj ⟨Int.le_of_lt hre.1, hre.2.1⟩ hie
        ⟨Int.le_of_lt hrange.1, hrange.2.1⟩ hId hkey
      exact ⟨e, he, ht'.inj ht hue hT h.types, hid, hx⟩

/-- An entry is determined by its pair. -/
theorem entry_unique (h : BuildInvariant g_UuidManager b log items) {e f : Entry} (he : e ∈ log)
    (hf : f ∈ log) (htype : e.ItemType = f.ItemType) (hid : e.Id = f.Id) : e = f :=
  List.inj_on_of_nodup_map h.described.pairs he hf (Prod.ext htype hid)

theorem findItem (h : BuildInvariant g_UuidManager b log items) (hm : g_UuidManager.Indexed)
    {T Id : Int} (hT : Usable g_UuidManager T) (hId : IdInRange Id) {s : CSnapshot}
    (hs : Reads s items) :
    (∀ e ∈ log, e.ItemType = T → e.Id = Id → s.FindItem g_UuidManager T Id = .ok (some e.Data)) ∧
    ((∀ e ∈ log, ¬ (e.ItemType = T ∧ e.Id = Id)) → s.FindItem g_UuidManager T Id = .ok none) := by
  obtain ⟨o, hinternal, hnone, hsome⟩ := h.findInternal hm hT hs
  unfold CSnapshot.FindItem
  simp only [hinternal, bind, Except.bind]
  cases o with
  | none =>
      refine ⟨fun e he htype hid => ?_, fun _ => rfl⟩
      obtain ⟨-, -, t, ht, -⟩ := h.described.entry e he
      rw [htype] at ht
      exact absurd ht (hnone rfl t)
  | some t =>
      obtain ⟨r, hindex, hno, hyes⟩ := h.findKey hT hId (hsome t rfl) hs
      simp only [hindex]
      cases r with
      | none =>
          refine ⟨fun e he htype hid => absurd ⟨htype, hid⟩ (hno rfl e he), fun _ => rfl⟩
      | some i =>
          obtain ⟨f, hf, hftype, hfid, hitem⟩ := hyes i rfl
          obtain ⟨hlt, hget⟩ := List.getElem?_eq_some_iff.mp hitem
          have hread := hs.item i hlt
          rw [hget] at hread
          simp only [hread]
          refine ⟨fun e he htype hid => ?_, fun hall => absurd ⟨hftype, hfid⟩ (hall f hf)⟩
          rw [h.entry_unique he hf (htype.trans hftype.symm) (hid.trans hfid.symm)]
          rfl

/-- The type of an item is the one it was added with. -/
theorem getItemType (h : BuildInvariant g_UuidManager b log items) (hm : g_UuidManager.Indexed)
    {e : Entry} (he : e ∈ log) {s : CSnapshot} (hs : Reads s items) :
    s.GetItemType g_UuidManager e.Index = .ok e.ItemType ∧
      ∃ x, s.GetItem e.Index = .ok x ∧ x.Id = e.Id ∧ x.Data = e.Data := by
  obtain ⟨hue, hie, t, ht, hitem⟩ := h.described.entry e he
  have hrange := ht.range hue h.types
  have ht0 : 0 ≤ t ∧ t ≤ MAX_TYPE := ⟨Int.le_of_lt hrange.1, hrange.2.1⟩
  obtain ⟨hlt, hget⟩ := List.getElem?_eq_some_iff.mp hitem
  have hread := hs.item e.Index hlt
  rw [hget] at hread
  refine ⟨?_, itemOf t e.Id e.Data, hread, id_itemOf ht0 hie, rfl⟩
  unfold CSnapshot.GetItemType
  rw [hread]
  simp only [bind, Except.bind]
  rw [itemType_itemOf ht0 hie]
  unfold CSnapshot.GetExternalItemType
  rcases ht with ⟨hplain, rfl⟩ | ⟨hext, k, hk, rfl⟩
  · exact if_pos (hrange.2.2.1 hplain)
  · have hk' := getTypeFromIndex_range (Stored.index_lt h.types hk)
    have hoff : OFFSET_UUID_TYPE = 16384 := rfl
    have hkr := h.typeItem_range hk
    rw [if_neg (by omega)]
    have hkey : makeKey 0 (GetTypeFromIndex k) = GetTypeFromIndex k := by
      rw [makeKey_eq hkr.1 hkr.2]
      omega
    obtain ⟨r, hrun, hnone, hsome⟩ := hs.getItemIndex (GetTypeFromIndex k)
    obtain ⟨Uuid, huuid, hmem⟩ := h.described.type k e.ItemType hk
    simp only [hrun, bind, Except.bind]
    cases r with
    | none => exact absurd hkey (hnone rfl _ hmem)
    | some i =>
        obtain ⟨x, hx, hxkey⟩ := hsome i rfl
        obtain ⟨hi, hgeti⟩ := List.getElem?_eq_some_iff.mp hx
        have hxitem : x = typeItem k Uuid := by
          rcases h.described.item i x hx with ⟨k', T', Uuid', hk'', huuid', rfl⟩ | ⟨f, hf, t', ht', -, rfl⟩
          · have hkr' := h.typeItem_range hk''
            have hxkey' : makeKey 0 (GetTypeFromIndex k') = GetTypeFromIndex k := hxkey
            rw [makeKey_eq hkr'.1 hkr'.2] at hxkey'
            have hkk : k' = k := by
              unfold GetTypeFromIndex at hxkey'
              omega
            rw [hkk, hk] at hk''
            rw [← Option.some.inj hk'', huuid] at huuid'
            rw [hkk, Except.ok.inj huuid']
          · obtain ⟨huf, hif, -⟩ := h.described.entry f hf
            have hrf := ht'.range huf h.types
            have hxkey' : makeKey t' f.Id = GetTypeFromIndex k := hxkey
            rw [makeKey_eq ⟨Int.le_of_lt hrf.1, hrf.2.1⟩ hif] at hxkey'
            have hmaxid : MAX_ID = 65535 := rfl
            have hid0 := hif.1
            omega
        have hsize : s.GetItemSize i = 16 := by
          rw [hs.size i hi, hgeti, hxitem]
          show ((CSnapshot.uuidData Uuid).length : Int) = 16
          rw [length_uuidData]
          rfl
        have hreadi := hs.item i hi
        rw [hgeti, hxitem] at hreadi
        have hbytes : bytesBE (ints ((typeItem k Uuid).Data.take 16)) = Uuid.toList := by
          show bytesBE (ints ((CSnapshot.uuidData Uuid).take 16)) = _
          rw [List.take_of_length_le (Nat.le_of_eq (length_uuidData Uuid)), bytesBE_uuidData]
        simp only [hsize, hreadi]
        rw [if_neg (by decide)]
        simp only [hbytes]
        rw [dif_pos Vector.length_toList]
        have hlookup := hm.lookupUuid huuid
        show Except.ok (g_UuidManager.LookupUuid _) = _
        rw [← hlookup]
        rfl

end BuildInvariant

/-- What is built is found again. -/
theorem build_then_look_up {b : CSnapshotBuilder} {log : List Entry}
    (h : Build Obj_SixToSeven g_UuidManager b log) (hm : g_UuidManager.Registrations) :
    ∃ Snap Size, b.Finish = .ok (Snap, Size) ∧
      (∀ e ∈ log, Snap.FindItem g_UuidManager e.ItemType e.Id = .ok (some e.Data)) ∧
      (∀ T Id, Usable g_UuidManager T → IdInRange Id →
        (∀ e ∈ log, ¬ (e.ItemType = T ∧ e.Id = Id)) →
        Snap.FindItem g_UuidManager T Id = .ok none) ∧
      ∀ e ∈ log, Snap.GetItemType g_UuidManager e.Index = .ok e.ItemType ∧
        ∃ x, Snap.GetItem e.Index = .ok x ∧ x.Id = e.Id ∧ x.Data = e.Data := by
  obtain ⟨items, hinv⟩ := h.invariant
  have hs := reads_snapOf hinv.holds.keys
  refine ⟨snapOf items, _, hinv.holds.finish hinv.limits.count hinv.limits.size, ?_, ?_, ?_⟩
  · intro e he
    obtain ⟨hue, hie, -⟩ := hinv.described.entry e he
    exact (hinv.findItem hm.indexed hue hie hs).1 e he rfl rfl
  · intro T Id hT hId hnot
    exact (hinv.findItem hm.indexed hT hId hs).2 hnot
  · intro e he
    exact hinv.getItemType hm.indexed he hs

theorem exampleUuids_registrations : exampleUuids.Registrations :=
  Reachable.next (65536, Vector.replicate 16 7) .init trivial rfl

/-- An item of an extended type and one of a plain type are written and found. -/
theorem build_then_look_up_two : ∃ (b : CSnapshotBuilder) (Snap : CSnapshot) (Size : Nat),
    b.Finish = .ok (Snap, Size) ∧
    Snap.FindItem exampleUuids 65536 1 = .ok (some [1, 2, 3, 4]) ∧
    Snap.FindItem exampleUuids 5 2 = .ok (some [0, 0]) ∧
    Snap.FindItem exampleUuids 5 3 = .ok none := by
  have hbuild : ∃ b, Build id exampleUuids b [⟨65536, 1, 1, [1, 2, 3, 4]⟩, ⟨5, 2, 2, [0, 0]⟩] := by
    have h₀ : Build id exampleUuids (start false) [] := @Build.init _ _ false (start false) _ .init rfl
    have h₁ := @Build.newItem _ _ _ _ _ 65536 1 4 _ h₀ (.inr ⟨by decide, _, rfl⟩) (by decide)
      (by simp) (fun _ => .inr (by decide)) (by intro _ _ _ _ _; decide) rfl
    have h₂ := @Build.newItem _ _ _ _ _ 5 2 2 _ h₁ (.inl (by decide)) (by decide)
      (by simp) (fun h => absurd h (by decide)) (fun h => absurd h (by decide)) rfl
    have h₃ := @Build.write _ _ _ _ [] _ _ [1, 2, 3, 4] h₂ rfl rfl
    exact ⟨_, h₃⟩
  obtain ⟨b, hb⟩ := hbuild
  obtain ⟨Snap, Size, hfinish, hfound, hnone, -⟩ :=
    build_then_look_up hb exampleUuids_registrations
  refine ⟨b, Snap, Size, hfinish, hfound ⟨65536, 1, 1, [1, 2, 3, 4]⟩ (by simp),
    hfound ⟨5, 2, 2, [0, 0]⟩ (by simp), ?_⟩
  exact hnone 5 3 (.inl (by decide)) (by decide) (by simp)

/-- The builder after the item of the extended type. -/
def exampleBuilder : CSnapshotBuilder :=
  { m_aData := area [typeItem 0 (Vector.replicate 16 7)], m_aOffsets := [0]
    m_aExtendedItemTypes := [65536], m_Sixup := false }

/-- A successful call of `NewItem` leads to a snapshot that is too large. -/
theorem build_too_large : ∃ b,
    (start false).NewItem id exampleUuids 65536 1 65512 = .ok (b, .data 1) ∧
      b.Finish = .error .assertion := by
  have hholds : Holds exampleBuilder [typeItem 0 (Vector.replicate 16 7)] := by
    refine ⟨rfl, rfl, fun i hi => ?_⟩
    rw [List.mem_singleton.mp hi]
    exact isInt32_makeKey 0 (GetTypeFromIndex 0)
  have hlen : (area [typeItem 0 (Vector.replicate 16 7)]).length = 20 := rfl
  have hcall : (start false).NewItem id exampleUuids 65536 1 65512 =
      exampleBuilder.PutItem (GetTypeFromIndex 0) 1 65512 := by
    have hroom : (start false).HasRoom 65512 := by decide
    have hget : (start false).GetExtendedItemTypeIndex id exampleUuids 65536 =
        .ok (exampleBuilder, some 0) := rfl
    unfold CSnapshotBuilder.NewItem NewItemWith
    rw [if_neg (by decide), if_neg (not_not.mpr hroom), if_pos (by decide), hget]
    simp only [bind, Except.bind]
  have hsize : exampleBuilder.m_DataSize + (4 + 65512) ≤ MAX_SIZE := by
    rw [hholds.dataSize, hlen]
    decide
  obtain ⟨b, hput, -, -, hb⟩ := hholds.putItem (GetTypeFromIndex 0) 1 hsize (by decide)
  refine ⟨b, hcall.trans hput, hb.finish_assertion (by decide) ?_⟩
  have hnew : ∀ key, (area [⟨key, List.replicate 65512 0⟩]).length = 4 + 65512 := by
    intro key
    rw [area_cons, area_nil, List.append_nil, CSnapshotItem.length_encode, List.length_replicate]
  have harea : ∀ is js, (area (is ++ js)).length = (area is).length + (area js).length := by
    intro is js
    rw [area_append, List.length_append]
  rw [totalSize_snapOf, harea, hlen, hnew, List.length_append, List.length_singleton,
    List.length_singleton]
  decide

end Fex.Engine.Snapshot
