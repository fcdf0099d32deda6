import Fex.Engine.Snapshot.Unpack

/-!
# The loops of `UnpackDelta` on a delta that was created

One turn of the first loop keeps an old item, one turn of the second consumes
the chunk of an updated item and puts its data under its key.
-/

namespace Fex.Engine.Snapshot

open Fex.Lib CSnapshotDelta

/-- What a delta needs of its items: sizes in ints, those of the static sizes where there are
any, and types that the builder stores as they are. -/
structure Regular (d : CSnapshotDelta) (x : CSnapshotItem) : Prop where
  type : 0 ≤ x.ItemType ∧ x.ItemType ≤ MAX_TYPE
  words : x.Data.length % 4 = 0
  static : x.ItemType < MAX_NETOBJSIZES → d.m_aItemSizes x.ItemType.toNat ≠ 0 →
    x.Data.length = d.m_aItemSizes x.ItemType.toNat
  key : IsInt32 x.Key

/-! ## Reading the delta -/

section Words

variable {ws : List Int}

theorem readWord_flatMap {p : Nat} {w : Int} (h : ws[p]? = some w) (hw : IsInt32 w) :
    readWord (ws.flatMap intBytes) p = .ok w := by
  obtain ⟨hp, hget⟩ := List.getElem?_eq_some_iff.mp h
  unfold readWord
  rw [length_flatMap_intBytes, if_pos (by omega)]
  unfold intAt
  rw [drop_flatMap_intBytes, ← List.getElem_cons_drop hp, hget, List.flatMap_cons,
    readInt_intBytes_append hw]

theorem getElem?_of_drop {p k : Nat} {xs rest : List Int} (h : ws.drop p = xs ++ rest)
    (hk : k < xs.length) : ws[p + k]? = some xs[k] := by
  rw [← List.getElem?_drop, h, List.getElem?_append_left hk, List.getElem?_eq_getElem hk]

theorem drop_add {p : Nat} {xs rest : List Int} (h : ws.drop p = xs ++ rest) :
    ws.drop (p + xs.length) = rest := by
  rw [← List.drop_drop, h, List.drop_left]

end Words

/-! ## Chunks -/

section Chunk

variable (d : CSnapshotDelta) (fromItems : List CSnapshotItem) (t : CSnapshotItem)

/-- The size in the header of a chunk. -/
def sizeWords : List Int :=
  if d.IncludeSize t.ItemType then [((ints t.Data).length : Int)] else []

/-- The ints behind the header. -/
def bodyWords : List Int :=
  match pastOf fromItems t with
  | some f => DiffItem (ints f.Data) (ints t.Data)
  | none => ints t.Data

theorem chunk_eq : chunk d fromItems t = [] ∨
    chunk d fromItems t = [t.ItemType, t.Id] ++ sizeWords d t ++ bodyWords fromItems t := by
  unfold chunk deltaItem bodyWords sizeWords
  cases pastOf fromItems t with
  | none => exact .inr rfl
  | some f =>
      simp only
      split
      · exact .inr rfl
      · exact .inl rfl

/-- The data that unpacking leaves for an updated item. -/
def unpackedData : List UInt8 :=
  match fromItems.find? fun f => f.Key == t.Key with
  | some f =>
      if Hashed fromItems t.Key then t.Data
      else (UndiffItem (ints f.Data) (ints t.Data)).flatMap intBytes
  | none => t.Data

end Chunk

theorem undiffItem_diffItem {xs ys : List Int} (hlen : xs.length = ys.length)
    (hys : ∀ y ∈ ys, IsInt32 y) : UndiffItem xs (DiffItem xs ys) = ys := by
  induction xs generalizing ys with
  | nil =>
      rw [List.eq_nil_of_length_eq_zero hlen.symm]
      rfl
  | cons x xs ih =>
      cases ys with
      | nil => cases hlen
      | cons y ys =>
          have hy := hys y (by simp)
          have htail := ih (Nat.succ.inj hlen) fun z hz => hys z (by simp [hz])
          have hhead : wrap32 (x + wrap32 (y - x)) = y := wrap32_add_sub hy
          unfold UndiffItem DiffItem at htail ⊢
          rw [List.zipWith_cons_cons, List.zipWith_cons_cons, hhead, htail]

theorem isInt32_of_mem_diffItem {xs ys : List Int} {w : Int} (h : w ∈ DiffItem xs ys) : IsInt32 w := by
  unfold DiffItem at h
  rw [← List.map_uncurry_zip_eq_zipWith] at h
  obtain ⟨p, -, rfl⟩ := List.mem_map.mp h
  exact isInt32_wrap32 _

theorem isInt32_of_mem_undiffItem {xs ys : List Int} {w : Int} (h : w ∈ UndiffItem xs ys) :
    IsInt32 w := by
  unfold UndiffItem at h
  rw [← List.map_uncurry_zip_eq_zipWith] at h
  obtain ⟨p, -, rfl⟩ := List.mem_map.mp h
  exact isInt32_wrap32 _

theorem any_diffItem {xs ys : List Int} (hlen : xs.length = ys.length)
    (hxs : ∀ x ∈ xs, IsInt32 x) (hys : ∀ y ∈ ys, IsInt32 y) :
    (DiffItem xs ys).any (· != 0) = false ↔ xs = ys := by
  induction xs generalizing ys with
  | nil =>
      rw [List.eq_nil_of_length_eq_zero hlen.symm]
      simp [DiffItem]
  | cons x xs ih =>
      cases ys with
      | nil => cases hlen
      | cons y ys =>
          have hrest := ih (Nat.succ.inj hlen) (fun z hz => hxs z (by simp [hz]))
            fun z hz => hys z (by simp [hz])
          have hx := hxs x (by simp)
          have hy := hys y (by simp)
          have hhead : wrap32 (y - x) = 0 ↔ x = y := (wrap32_sub_eq_zero hx hy).trans eq_comm
          unfold DiffItem at hrest ⊢
          rw [List.zipWith_cons_cons, List.any_cons, Bool.or_eq_false_iff, hrest, List.cons.injEq]
          simp [hhead]

theorem undiffItem_eq_self {xs ys : List Int} (hlen : xs.length = ys.length)
    (hxs : ∀ x ∈ xs, IsInt32 x) (hys : ∀ y ∈ ys, IsInt32 y) :
    UndiffItem xs ys = ys ↔ ∀ x ∈ xs, x = 0 := by
  induction xs generalizing ys with
  | nil =>
      rw [List.eq_nil_of_length_eq_zero hlen.symm]
      simp [UndiffItem]
  | cons x xs ih =>
      cases ys with
      | nil => cases hlen
      | cons y ys =>
          have hrest := ih (Nat.succ.inj hlen) (fun z hz => hxs z (by simp [hz]))
            fun z hz => hys z (by simp [hz])
          have hx := hxs x (by simp)
          have hy := hys y (by simp)
          have hhead : wrap32 (x + y) = y ↔ x = 0 := by
            unfold IsInt32 at hx hy
            unfold wrap32
            omega
          unfold UndiffItem at hrest ⊢
          rw [List.zipWith_cons_cons, List.cons.injEq, hrest, hhead]
          simp

theorem length_undiffItem (xs ys : List Int) :
    (UndiffItem xs ys).length = min xs.length ys.length := List.length_zipWith

theorem length_diffItem (xs ys : List Int) :
    (DiffItem xs ys).length = min xs.length ys.length := List.length_zipWith

section Body

variable {d : CSnapshotDelta} {fromItems toItems : List CSnapshotItem} {t : CSnapshotItem}

theorem length_bodyWords (hsizes : SameSizes fromItems toItems) (ht : t ∈ toItems) :
    (bodyWords fromItems t).length = (ints t.Data).length := by
  unfold bodyWords
  cases hpast : pastOf fromItems t with
  | none => rfl
  | some f =>
      obtain ⟨hf, hkey, -⟩ := mem_of_pastOf hpast
      have hlen := length_ints_eq (hsizes f hf t ht hkey)
      simp only
      rw [length_diffItem, hlen, Nat.min_self]

theorem isInt32_of_mem_bodyWords {w : Int} (h : w ∈ bodyWords fromItems t) : IsInt32 w := by
  unfold bodyWords at h
  split at h
  · exact isInt32_of_mem_diffItem h
  · exact isInt32_of_mem_ints h

theorem length_unpackedData (hsizes : SameSizes fromItems toItems) (ht : t ∈ toItems)
    (hreg : Regular d t) : (unpackedData fromItems t).length = t.Data.length := by
  unfold unpackedData
  cases hfind : fromItems.find? fun f => f.Key == t.Key with
  | none => rfl
  | some f =>
      have hlen := length_ints_eq (hsizes f (List.mem_of_find?_eq_some hfind) t ht
        (by simpa using List.find?_some hfind))
      have hwords := hreg.words
      simp only
      split
      · rfl
      · rw [length_flatMap_intBytes, length_undiffItem, hlen, Nat.min_self, length_ints]
        omega

/-- Unpacking the ints of a chunk. -/
theorem Reads.unpackData {pFrom : CSnapshot} (hF : Reads pFrom fromItems)
    (hkeys : (fromItems.map CSnapshotItem.Key).Nodup) (hsizes : SameSizes fromItems toItems)
    (ht : t ∈ toItems) (hreg : Regular d t) :
    UnpackData pFrom t.Key ((bodyWords fromItems t).flatMap intBytes) =
      .ok (unpackedData fromItems t) := by
  have hwords := hreg.words
  have hbody : ints ((bodyWords fromItems t).flatMap intBytes) = bodyWords fromItems t :=
    ints_flatMap fun w hw => isInt32_of_mem_bodyWords hw
  obtain ⟨r, hrun, hnone, hsome⟩ := hF.getItemIndex t.Key
  unfold UnpackData unpackedData
  simp only [hrun, bind, Except.bind]
  cases r with
  | none =>
      have hfind : (fromItems.find? fun f => f.Key == t.Key) = none := by
        rw [List.find?_eq_none]
        intro f hf
        simpa using hnone rfl f hf
      have hpast : pastOf fromItems t = none := by
        unfold pastOf
        rw [hfind, ite_self]
      rw [hfind]
      simp only
      unfold bodyWords
      rw [hpast]
      simp only [flatMap_ints hwords]
      rfl
  | some i =>
      obtain ⟨f, hf, hkey⟩ := hsome i rfl
      obtain ⟨hi, hget⟩ := List.getElem?_eq_some_iff.mp hf
      have hmem := List.mem_of_getElem? hf
      have hread := hF.item i hi
      rw [hget] at hread
      have hfind : (fromItems.find? fun y => y.Key == t.Key) = some f := by
        rw [← hkey]
        exact find?_key hkeys hmem
      have hlen := length_ints_eq (hsizes f hmem t ht hkey)
      have hbodylen := length_bodyWords hsizes ht
      have hroom : ¬ f.Data.length / 4 < ((bodyWords fromItems t).flatMap intBytes).length / 4 := by
        rw [length_flatMap_intBytes, hbodylen, ← hlen, length_ints]
        omega
      rw [hfind]
      simp only [hread]
      rw [if_neg hroom, hbody]
      unfold bodyWords pastOf
      rw [hfind]
      by_cases hhash : Hashed fromItems t.Key
      · rw [if_pos hhash, if_pos hhash]
        simp only
        rw [undiffItem_diffItem hlen fun y hy => isInt32_of_mem_ints hy, flatMap_ints hwords]
        rfl
      · rw [if_neg hhash, if_neg hhash]
        rfl

end Body

/-! ## The loops -/

section Loops

variable {d : CSnapshotDelta} {fromItems toItems : List CSnapshotItem} {pFrom : CSnapshot}
  (Obj_SixToSeven : Int → Int) (g_UuidManager : CUuidManager)

/-- The old items that are kept. -/
def keptItems (fromItems toItems : List CSnapshotItem) : List CSnapshotItem :=
  fromItems.filter fun f => !isDeleted toItems f

variable (toItems) in
theorem mem_deletedKeys (hkeys : (fromItems.map CSnapshotItem.Key).Nodup) {f : CSnapshotItem}
    (hf : f ∈ fromItems) : f.Key ∈ deletedKeys fromItems toItems ↔ isDeleted toItems f = true := by
  unfold deletedKeys
  rw [List.mem_map]
  constructor
  · rintro ⟨g, hg, hkey⟩
    obtain ⟨hgmem, hdel⟩ := List.mem_filter.mp hg
    rw [List.inj_on_of_nodup_map hkeys hgmem hf hkey] at hdel
    exact hdel
  · intro hdel
    exact ⟨f, List.mem_filter.mpr ⟨hf, hdel⟩, rfl⟩

theorem within_keptItems (hkeys : (fromItems.map CSnapshotItem.Key).Nodup)
    (hsizes : SameSizes fromItems toItems) : Within (keptItems fromItems toItems) toItems := by
  constructor
  · exact hkeys.sublist (List.filter_sublist.map _)
  · intro x hx
    obtain ⟨hmem, hkept⟩ := List.mem_filter.mp hx
    unfold isDeleted at hkept
    rw [Bool.not_not, Bool.and_eq_true, List.any_eq_true] at hkept
    obtain ⟨t, ht, hkey⟩ := hkept.2
    have hkey' : t.Key = x.Key := by simpa using hkey
    exact ⟨t, ht, hkey', (hsizes x hmem t ht hkey'.symm).symm⟩

theorem Within.of_append {is js toItems : List CSnapshotItem} (h : Within (is ++ js) toItems) :
    Within is toItems := by
  constructor
  · have hkeys := h.keys
    rw [List.map_append] at hkeys
    exact hkeys.of_append_left
  · intro x hx
    exact h.target x (List.mem_append_left _ hx)

theorem Reads.copyLoop (hF : Reads pFrom fromItems) (hkeys : (fromItems.map CSnapshotItem.Key).Nodup)
    (hsizes : SameSizes fromItems toItems) (hlimits : Limits toItems)
    (hreg : ∀ f ∈ fromItems, Regular d f) {n i : Nat} (hn : n + i = fromItems.length)
    {b : CSnapshotBuilder} (hb : Plain b (keptItems (fromItems.take i) toItems)) :
    ∃ b', CopyLoop Obj_SixToSeven g_UuidManager pFrom (deletedKeys fromItems toItems) n i b =
        .ok (.inr b') ∧ Plain b' (keptItems fromItems toItems) := by
  induction n generalizing i b with
  | zero =>
      rw [List.take_of_length_le (by omega)] at hb
      exact ⟨b, rfl, hb⟩
  | succ n ih =>
      have hi : i < fromItems.length := by omega
      have hmem := List.getElem_mem hi
      have htake : fromItems.take (i + 1) = fromItems.take i ++ [fromItems[i]] := by
        rw [List.take_add_one, List.getElem?_eq_getElem hi]
        rfl
      have hdel := mem_deletedKeys toItems hkeys hmem
      unfold CopyLoop
      rw [hF.item i hi]
      simp only [bind, Except.bind]
      by_cases hdeleted : isDeleted toItems fromItems[i] = true
      · rw [if_pos (hdel.mpr hdeleted)]
        apply ih (by omega)
        unfold keptItems at hb ⊢
        rw [htake, List.filter_append, List.filter_cons_of_neg (by simp [hdeleted]), List.filter_nil,
          List.append_nil]
        exact hb
      · have hkept : keptItems (fromItems.take (i + 1)) toItems =
            keptItems (fromItems.take i) toItems ++ [fromItems[i]] := by
          unfold keptItems
          rw [htake, List.filter_append, List.filter_cons_of_pos (by simp [hdeleted]), List.filter_nil]
        have hwithin : Within (keptItems (fromItems.take (i + 1)) toItems) toItems := by
          have hall := within_keptItems hkeys hsizes
          rw [← List.take_append_drop (i + 1) fromItems] at hall
          unfold keptItems at hall ⊢
          rw [List.filter_append] at hall
          exact hall.of_append
        have hroom := hwithin.limits hlimits
        rw [hkept] at hroom
        obtain ⟨b₁, b₂, hcreate, hwrite, h₂⟩ := hb.addItem Obj_SixToSeven g_UuidManager
          (hreg _ hmem).type hroom
        rw [if_neg (mt hdel.mp hdeleted)]
        simp only [hcreate, hwrite]
        rw [← hkept] at h₂
        exact ih (by omega) h₂

/-- The size of an item is read from its header or known. -/
theorem unpackSize {t : CSnapshotItem} (hreg : Regular d t) {ws rest : List Int} {p : Nat}
    (hsmall : t.Data.length ≤ MAX_SIZE) (hws : ws.drop p = sizeWords d t ++ rest) :
    d.UnpackSize (ws.flatMap intBytes) false t.ItemType p =
      .ok (.inr (t.Data.length, p + (sizeWords d t).length)) := by
  have hmax : MAX_SIZE = 65536 := rfl
  have hwords := hreg.words
  have hints := length_ints t.Data
  unfold UnpackSize
  simp only [if_neg Bool.false_ne_true]
  by_cases hstatic : t.ItemType < MAX_NETOBJSIZES ∧ d.m_aItemSizes t.ItemType.toNat ≠ 0
  · have hsize : sizeWords d t = [] := by
      unfold sizeWords IncludeSize
      apply if_neg
      simp only [Bool.or_eq_true, decide_eq_true_eq, beq_iff_eq]
      omega
    rw [if_pos hstatic, hsize, ← hreg.static hstatic.1 hstatic.2]
    rfl
  · have hsize : sizeWords d t = [((ints t.Data).length : Int)] := by
      unfold sizeWords IncludeSize
      apply if_pos
      simp only [Bool.or_eq_true, decide_eq_true_eq, beq_iff_eq]
      omega
    rw [hsize] at hws
    have hget := getElem?_of_drop (k := 0) hws (by simp)
    have hlt := (List.getElem?_eq_some_iff.mp hget).1
    have hread := readWord_flatMap hget (by
      unfold IsInt32
      simp only [List.getElem_cons_zero]
      omega)
    rw [if_neg hstatic, length_flatMap_intBytes, if_neg (by omega), hsize]
    rw [Nat.add_zero, List.getElem_cons_zero] at hread
    simp only [hread, bind, Except.bind]
    rw [if_neg (by omega)]
    have hfour : 4 * ((ints t.Data).length : Int).toNat = t.Data.length := by omega
    rw [hfour]
    rfl

theorem length_le_of_limits {items : List CSnapshotItem} (h : Limits items) {x : CSnapshotItem}
    (hx : x ∈ items) : x.Data.length ≤ MAX_SIZE := by
  have hsize := h.size
  obtain ⟨is, js, rfl⟩ := List.append_of_mem hx
  rw [totalSize_snapOf, area_append, area_cons, List.length_append, List.length_append,
    List.length_append, CSnapshotItem.length_encode] at hsize
  omega

/-- One turn of the loop over the updated items. -/
theorem Reads.updateStep (hF : Reads pFrom fromItems)
    (hkeys : (fromItems.map CSnapshotItem.Key).Nodup)
    (hkeysT : (toItems.map CSnapshotItem.Key).Nodup) (hsizes : SameSizes fromItems toItems)
    (hlimits : Limits toItems) {t : CSnapshotItem} (ht : t ∈ toItems) (hreg : Regular d t)
    {ws rest : List Int} {p n : Nat} (hne : chunk d fromItems t ≠ [])
    (hws : ws.drop p = chunk d fromItems t ++ rest) {b : CSnapshotBuilder}
    {items : List CSnapshotItem} (hb : Plain b items) (hwithin : Within items toItems) :
    ∃ b', d.UpdateLoop Obj_SixToSeven g_UuidManager pFrom (ws.flatMap intBytes) false (n + 1) p b =
        d.UpdateLoop Obj_SixToSeven g_UuidManager pFrom (ws.flatMap intBytes) false n
          (p + (chunk d fromItems t).length) b' ∧
      Plain b' (putItem items t.Key (unpackedData fromItems t)) := by
  have hchunk := (chunk_eq d fromItems t).resolve_left hne
  obtain ⟨hid₀, hid₁, hkey⟩ := makeKey_itemType_id hreg.type
  have htype := hreg.type
  have hmaxT : MAX_TYPE = 32767 := rfl
  have hmaxI : MAX_ID = 65535 := rfl
  have hwords := hreg.words
  have hints := length_ints t.Data
  have hbody := length_bodyWords hsizes ht
  have hhead : ws.drop p = [t.ItemType, t.Id] ++
      (sizeWords d t ++ (bodyWords fromItems t ++ rest)) := by
    rw [hws, hchunk]
    simp
  have hsize : ws.drop (p + 2) = sizeWords d t ++ (bodyWords fromItems t ++ rest) := drop_add hhead
  have hdata := drop_add hsize
  have hroom := congrArg List.length hhead
  simp only [List.length_drop, List.length_append, List.length_cons, List.length_nil] at hroom
  have hgetT := getElem?_of_drop (k := 0) hhead (by simp)
  have hgetI := getElem?_of_drop (k := 1) hhead (by simp)
  have hlt := (List.getElem?_eq_some_iff.mp hgetI).1
  have hreadT : readWord (ws.flatMap intBytes) p = .ok t.ItemType :=
    readWord_flatMap hgetT (by
      show IsInt32 t.ItemType
      unfold IsInt32
      omega)
  have hreadI : readWord (ws.flatMap intBytes) (p + 1) = .ok t.Id :=
    readWord_flatMap hgetI (by
      show IsInt32 t.Id
      unfold IsInt32
      omega)
  have hunpackSize := unpackSize hreg (length_le_of_limits hlimits ht) hsize
  obtain ⟨b₁, k, b₂, hcreate, hwrite, h₂⟩ := hb.putData Obj_SixToSeven g_UuidManager hwithin hlimits
    hkeysT ht hreg.type (length_unpackedData hsizes ht hreg)
  have hpayload : ((ws.flatMap intBytes).drop (4 * (p + 2 + (sizeWords d t).length))).take
      t.Data.length = (bodyWords fromItems t).flatMap intBytes := by
    have hfour : t.Data.length = 4 * (bodyWords fromItems t).length := by omega
    rw [drop_flatMap_intBytes, hdata, hfour, take_flatMap_intBytes, List.take_left]
  have hunpack := hF.unpackData hkeys hsizes ht hreg
  have hend : p + (chunk d fromItems t).length =
      p + 2 + (sizeWords d t).length + t.Data.length / 4 := by
    rw [hchunk, List.length_append, List.length_append, hbody, hints]
    simp only [List.length_cons, List.length_nil]
    omega
  refine ⟨b₂, ?_, h₂⟩
  rw [hend]
  conv_lhs => unfold UpdateLoop
  rw [length_flatMap_intBytes, if_neg (by omega)]
  simp only [hreadT, bind, Except.bind]
  rw [if_neg (by omega)]
  simp only [hreadI]
  rw [if_neg (by omega)]
  simp only [hunpackSize]
  rw [if_neg (by omega)]
  simp only [hcreate, hkey, hpayload, hunpack, hwrite]

/-- The items after all updates. -/
def putAll (fromItems items ts : List CSnapshotItem) : List CSnapshotItem :=
  ts.foldl (fun items t => putItem items t.Key (unpackedData fromItems t)) items

theorem Reads.updateLoop (hF : Reads pFrom fromItems)
    (hkeys : (fromItems.map CSnapshotItem.Key).Nodup)
    (hkeysT : (toItems.map CSnapshotItem.Key).Nodup) (hsizes : SameSizes fromItems toItems)
    (hlimits : Limits toItems) (hreg : ∀ t ∈ toItems, Regular d t) {ts : List CSnapshotItem}
    (hts : ∀ t ∈ ts, t ∈ toItems) {ws : List Int} {p : Nat}
    (hws : ws.drop p = ts.flatMap (chunk d fromItems)) {b : CSnapshotBuilder}
    {items : List CSnapshotItem} (hb : Plain b items) (hwithin : Within items toItems) :
    ∃ b', d.UpdateLoop Obj_SixToSeven g_UuidManager pFrom (ws.flatMap intBytes) false
        (ts.filter fun t => !(chunk d fromItems t).isEmpty).length p b = .ok (.inr b') ∧
      Plain b' (putAll fromItems items (ts.filter fun t => !(chunk d fromItems t).isEmpty)) ∧
      Within (putAll fromItems items (ts.filter fun t => !(chunk d fromItems t).isEmpty)) toItems := by
  induction ts generalizing p b items with
  | nil => exact ⟨b, rfl, hb, hwithin⟩
  | cons t ts ih =>
      have ht := hts t (by simp)
      have htail : ∀ u ∈ ts, u ∈ toItems := fun u hu => hts u (by simp [hu])
      rw [List.flatMap_cons] at hws
      by_cases hempty : chunk d fromItems t = []
      · rw [hempty, List.nil_append] at hws
        rw [List.filter_cons_of_neg (by simp [hempty])]
        exact ih htail hws hb hwithin
      · rw [List.filter_cons_of_pos (by simpa using hempty), List.length_cons]
        obtain ⟨b₁, hstep, h₁⟩ := hF.updateStep Obj_SixToSeven g_UuidManager hkeys hkeysT hsizes
          hlimits ht (hreg t ht) hempty hws
          (n := (ts.filter fun t => !(chunk d fromItems t).isEmpty).length) hb hwithin
        rw [hstep]
        exact ih htail (drop_add hws) h₁
          (hwithin.putItem ht rfl (length_unpackedData hsizes ht (hreg t ht)))

end Loops

end Fex.Engine.Snapshot
