import Fex.Engine.SnapshotDelta
import Fex.Engine.Snapshot.Layout

/-!
# Hash lists of a snapshot

A bucket has the first items with its hash, so a search finds a key unless too
many items with the same hash stand before it.
-/

namespace Fex.Engine.Snapshot

open Fex.Lib

/-- The entries of a bucket of unlimited size for items that start at index `n`. -/
def bucketOf (HashId n : Nat) (items : List CSnapshotItem) : CItemList :=
  ((items.zipIdx n).filter fun p => CalcHashId p.1.Key == HashId).map fun p => (p.1.Key, p.2)

/-- Fewer items than a bucket holds have the hash of `Key` and stand before it. -/
def Hashed (items : List CSnapshotItem) (Key : Int) : Prop :=
  ((items.takeWhile fun x => x.Key != Key).filter fun x => CalcHashId x.Key == CalcHashId Key).length <
    HASHLIST_BUCKET_SIZE

instance (items : List CSnapshotItem) (Key : Int) : Decidable (Hashed items Key) :=
  inferInstanceAs (Decidable (_ < _))

theorem bucketOf_append (HashId n : Nat) (is js : List CSnapshotItem) :
    bucketOf HashId n (is ++ js) = bucketOf HashId n is ++ bucketOf HashId (n + is.length) js := by
  unfold bucketOf
  rw [List.zipIdx_append, List.filter_append, List.map_append]

theorem bucketOf_singleton (HashId n : Nat) (x : CSnapshotItem) :
    bucketOf HashId n [x] = if CalcHashId x.Key = HashId then [(x.Key, n)] else [] := by
  unfold bucketOf
  by_cases h : CalcHashId x.Key = HashId
  · simp [h]
  · simp [h]

theorem length_bucketOf (HashId n : Nat) (items : List CSnapshotItem) :
    (bucketOf HashId n items).length =
      (items.filter fun x => CalcHashId x.Key == HashId).length := by
  induction items generalizing n with
  | nil => rfl
  | cons x items ih =>
      have hsplit : x :: items = [x] ++ items := rfl
      rw [hsplit, bucketOf_append, List.length_append, ih, bucketOf_singleton, List.filter_append,
        List.length_append]
      by_cases h : CalcHashId x.Key = HashId
      · simp [h]
      · simp [h]

theorem mem_bucketOf {HashId n i : Nat} {Key : Int} {items : List CSnapshotItem}
    (h : (Key, i) ∈ bucketOf HashId n items) :
    ∃ x, items[i - n]? = some x ∧ n ≤ i ∧ x.Key = Key := by
  unfold bucketOf at h
  obtain ⟨p, hp, heq⟩ := List.mem_map.mp h
  have hmem := (List.mem_filter.mp hp).1
  obtain ⟨hle, hget⟩ := List.mem_zipIdx_iff_le_and_getElem?_sub.mp hmem
  rw [Prod.mk.injEq] at heq
  rw [← heq.2]
  exact ⟨p.1, hget, hle, heq.1⟩

/-- Adding an entry while there is room keeps the first entries. -/
theorem take_concat {α : Type} (l : List α) (x : α) (n : Nat) :
    (l ++ [x]).take n = if (l.take n).length < n then l.take n ++ [x] else l.take n := by
  rw [List.length_take]
  by_cases h : l.length < n
  · rw [if_pos (by omega), List.take_of_length_le (by simp; omega), List.take_of_length_le (Nat.le_of_lt h)]
  · rw [if_neg (by omega), List.take_append_of_le_length (by omega)]

theorem Reads.generateHashLoop {s : CSnapshot} {items : List CSnapshotItem} (h : Reads s items)
    {n i : Nat} (hn : n + i = items.length) {Hashlist : Nat → CItemList}
    (hlist : ∀ k, Hashlist k = (bucketOf k 0 (items.take i)).take HASHLIST_BUCKET_SIZE) :
    ∃ Hashlist', GenerateHashLoop s n i Hashlist = .ok Hashlist' ∧
      ∀ k, Hashlist' k = (bucketOf k 0 items).take HASHLIST_BUCKET_SIZE := by
  induction n generalizing i Hashlist with
  | zero =>
      rw [List.take_of_length_le (by omega)] at hlist
      exact ⟨Hashlist, rfl, hlist⟩
  | succ n ih =>
      have hi : i < items.length := by omega
      have htake : items.take (i + 1) = items.take i ++ [items[i]] := by
        rw [List.take_add_one, List.getElem?_eq_getElem hi]
        rfl
      have hbucket : ∀ k, bucketOf k 0 (items.take (i + 1)) = bucketOf k 0 (items.take i) ++
          if CalcHashId items[i].Key = k then [(items[i].Key, i)] else [] := by
        intro k
        rw [htake, bucketOf_append, bucketOf_singleton, List.length_take_of_le (Nat.le_of_lt hi), Nat.zero_add]
      unfold GenerateHashLoop
      rw [h.item i hi]
      simp only [bind, Except.bind]
      by_cases hroom : (Hashlist (CalcHashId items[i].Key)).length < HASHLIST_BUCKET_SIZE
      · rw [if_pos hroom]
        apply ih (by omega)
        intro k
        rw [hbucket]
        by_cases hk : k = CalcHashId items[i].Key
        · rw [hk, Function.update_self, if_pos rfl, take_concat, ← hlist, if_pos hroom]
        · rw [Function.update_of_ne hk, if_neg (fun heq => hk heq.symm), List.append_nil]
          exact hlist k
      · rw [if_neg hroom]
        apply ih (by omega)
        intro k
        rw [hbucket]
        by_cases hk : k = CalcHashId items[i].Key
        · rw [hk, if_pos rfl, take_concat, ← hlist, if_neg hroom]
        · rw [if_neg (fun heq => hk heq.symm), List.append_nil]
          exact hlist k

/-- A search in the hash lists finds the items that are not crowded out. -/
structure Finds (Hashlist : Nat → CItemList) (items : List CSnapshotItem) : Prop where
  found : ∀ Key i, GetItemIndexHashed Key Hashlist = some i → ∃ x, items[i]? = some x ∧ x.Key = Key
  complete : ∀ x ∈ items, (GetItemIndexHashed x.Key Hashlist).isSome ↔ Hashed items x.Key

theorem finds_of_buckets {Hashlist : Nat → CItemList} {items : List CSnapshotItem}
    (h : ∀ k, Hashlist k = (bucketOf k 0 items).take HASHLIST_BUCKET_SIZE) :
    Finds Hashlist items := by
  constructor
  · intro Key i hi
    unfold GetItemIndexHashed at hi
    obtain ⟨e, he, rfl⟩ := Option.map_eq_some_iff.mp hi
    have hkey := List.find?_some he
    have hmem := List.mem_of_find?_eq_some he
    rw [h] at hmem
    obtain ⟨x, hx, -, hxkey⟩ := mem_bucketOf (List.mem_of_mem_take hmem)
    exact ⟨x, hx, hxkey.trans (beq_iff_eq.mp hkey)⟩
  · intro x hx
    set k := CalcHashId x.Key with hk
    set as := items.takeWhile fun y => y.Key != x.Key with has
    have hsplit : items = as ++ items.dropWhile fun y => y.Key != x.Key :=
      List.takeWhile_append_dropWhile.symm
    have hasne : ∀ y ∈ as, y.Key ≠ x.Key := by
      intro y hy
      have hall := List.all_eq_true.mp (List.all_takeWhile (p := fun y : CSnapshotItem => y.Key != x.Key)
        (l := items)) y hy
      simpa using hall
    have hbefore : ∀ e ∈ bucketOf k 0 as, e.1 ≠ x.Key := by
      rintro ⟨Key, i⟩ he
      obtain ⟨y, hy, -, hykey⟩ := mem_bucketOf he
      rw [← hykey]
      exact hasne y (List.mem_of_getElem? hy)
    have hcount : (bucketOf k 0 as).length < HASHLIST_BUCKET_SIZE ↔ Hashed items x.Key := by
      unfold Hashed
      rw [length_bucketOf]
    rw [← hcount]
    unfold GetItemIndexHashed
    rw [← hk, h, Option.isSome_map, List.find?_isSome]
    cases hdrop : items.dropWhile fun y => y.Key != x.Key with
    | nil =>
        rw [hdrop, List.append_nil] at hsplit
        rw [hsplit] at hx
        exact absurd rfl (hasne x hx)
    | cons y bs =>
        have hykey : y.Key = x.Key := by
          have hhead := List.head?_dropWhile_not (fun y : CSnapshotItem => y.Key != x.Key) items
          rw [hdrop] at hhead
          simpa using hhead
        have hyhash : CalcHashId y.Key = k := by
          rw [hykey]
        have hbucket : bucketOf k 0 items =
            bucketOf k 0 as ++ (y.Key, as.length) :: bucketOf k (as.length + 1) bs := by
          have hcons : y :: bs = [y] ++ bs := rfl
          rw [hsplit, hdrop, bucketOf_append, hcons, bucketOf_append, bucketOf_singleton,
            if_pos hyhash, Nat.zero_add]
          rfl
        rw [hbucket]
        constructor
        · rintro ⟨e, he, hekey⟩
          by_contra hlen
          rw [List.take_append_of_le_length (by omega)] at he
          exact hbefore e (List.mem_of_mem_take he) (by simpa using hekey)
        · intro hlen
          refine ⟨(y.Key, as.length), ?_, by simpa using hykey⟩
          rw [List.take_append]
          apply List.mem_append_right
          obtain ⟨m, hm⟩ : ∃ m, HASHLIST_BUCKET_SIZE - (bucketOf k 0 as).length = m + 1 :=
            ⟨HASHLIST_BUCKET_SIZE - (bucketOf k 0 as).length - 1, by omega⟩
          rw [hm, List.take_succ_cons]
          simp

theorem Reads.generateHash {s : CSnapshot} {items : List CSnapshotItem} (h : Reads s items) :
    ∃ Hashlist, GenerateHash s = .ok Hashlist ∧ Finds Hashlist items := by
  have hstart : ∀ k, ((fun _ => []) : Nat → CItemList) k =
      (bucketOf k 0 (items.take 0)).take HASHLIST_BUCKET_SIZE := by
    intro k
    rfl
  obtain ⟨Hashlist, hrun, hlist⟩ := h.generateHashLoop (Nat.add_zero _) hstart
  refine ⟨Hashlist, ?_, finds_of_buckets hlist⟩
  unfold GenerateHash
  rw [h.count]
  exact hrun

end Fex.Engine.Snapshot
