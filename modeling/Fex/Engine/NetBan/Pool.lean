import Fex.Engine.NetBan
import Fex.Lib.Run
import Mathlib.Data.List.Perm.Basic
import Mathlib.Order.Basic

/-!
# The pools of bans

Used and free slots are two doubly linked lists that share their fields, and
every used slot is in one hash list as well.  `Layout` names the lists; each
operation moves a slot between them, and every run keeps the layout.
-/

namespace Fex.Engine.NetBan

open Fex.Lib CBanPool

/-- A ban with the first expiry may stand before one with the second. -/
def Sooner (a b : Int) : Prop := b = EXPIRES_NEVER ∨ (a ≠ EXPIRES_NEVER ∧ a ≤ b)

theorem Sooner.trans {a b c : Int} (hab : Sooner a b) (hbc : Sooner b c) : Sooner a c := by
  unfold Sooner at *
  omega

theorem sooner_of_not {a b : Int} (h : ¬ Sooner a b) : Sooner b a := by
  unfold Sooner at *
  omega

variable {T : Type} {HashCount : Nat}

/-- The used slots, the free slots and the slots of every hash. -/
structure Layout (s : CBanPool T HashCount) (used free : List Nat)
    (bucket : CNetHash → List Nat) : Prop where
  usedHolds : s.usedList.Holds used
  freeHolds : s.freeList.Holds free
  partition : (used ++ free).Perm (List.range MAX_BANS)
  hashed : ∀ h, (s.hashList h).Holds (bucket h)
  mem_bucket : ∀ h i, i ∈ bucket h ↔ i ∈ used ∧ (s.m_aBans i).m_NetHash = h
  inRange : ∀ i ∈ used, InRange HashCount (s.m_aBans i).m_NetHash
  count : s.m_CountUsed = used.length
  sorted : used.Pairwise fun i j => Sooner (s.Expires i) (s.Expires j)

/-! ## Inserting by expiry -/

theorem sorted_insert {R : Nat → Nat → Prop} {as bs : List Nat} {x : Nat}
    (h : (as ++ bs).Pairwise R) (has : ∀ a ∈ as, R a x) (hbs : ∀ b ∈ bs, R x b) :
    (as ++ x :: bs).Pairwise R := by
  rw [List.pairwise_append] at h ⊢
  obtain ⟨has', hbs', hcross⟩ := h
  refine ⟨has', List.pairwise_cons.mpr ⟨hbs, hbs'⟩, fun a ha b hb => ?_⟩
  rcases List.mem_cons.mp hb with rfl | hb
  · exact has a ha
  · exact hcross a ha b hb

theorem sorted_congr {s s' : CBanPool T HashCount} {l : List Nat}
    (h : l.Pairwise fun i j => Sooner (s.Expires i) (s.Expires j))
    (heq : ∀ i ∈ l, s'.Expires i = s.Expires i) :
    l.Pairwise fun i j => Sooner (s'.Expires i) (s'.Expires j) := by
  apply h.imp_of_mem
  intro i j hi hj hij
  rw [heq i hi, heq j hj]
  exact hij

/-- The new place is behind all bans that expire sooner. -/
theorem insertLoop_spec {s : CBanPool T HashCount} {x p : Nat} {as bs : List Nat} {n : Nat}
    (hu : s.usedList.Holds (as ++ p :: bs)) (hx : x ∉ as ++ p :: bs)
    (hsorted : (as ++ p :: bs).Pairwise fun i j => Sooner (s.Expires i) (s.Expires j))
    (has : ∀ a ∈ as, Sooner (s.Expires a) (s.Expires x)) (hn : bs.length < n) :
    ∃ d as' bs', InsertLoop x n s p = .ok (s.setUsed d) ∧ as ++ p :: bs = as' ++ bs' ∧
      d.Holds (as' ++ x :: bs') ∧ DList.SameOutside s.usedList d (as' ++ x :: bs') ∧
      (as' ++ x :: bs').Pairwise fun i j => Sooner (s.Expires i) (s.Expires j) := by
  induction bs generalizing as p n with
  | nil =>
      obtain ⟨n, rfl⟩ : ∃ m, n = m + 1 := ⟨n - 1, by omega⟩
      unfold InsertLoop
      by_cases hstop : Sooner (s.Expires x) (s.Expires p)
      · refine ⟨_, as, [p], if_pos hstop, rfl, hu.insertBefore hx, hu.insertBefore_same, ?_⟩
        apply sorted_insert hsorted has
        intro b hb
        rw [List.mem_singleton.mp hb]
        exact hstop
      · have hnext : s.m_pNext p = none := hu.neighbours.1
        refine ⟨_, as ++ [p], [], ?_, (List.append_nil _).symm, hu.insertLast hx,
          DList.insertLast_same, ?_⟩
        · have hstop' : ¬ (s.Expires p = EXPIRES_NEVER ∨
              (s.Expires x ≠ EXPIRES_NEVER ∧ s.Expires x ≤ s.Expires p)) := hstop
          rw [if_neg hstop', hnext]
        · apply sorted_insert (by rw [List.append_nil]; exact hsorted) _ (by simp)
          intro a ha
          rcases List.mem_append.mp ha with ha | ha
          · exact has a ha
          · rw [List.mem_singleton.mp ha]
            exact sooner_of_not hstop
  | cons q bs ih =>
      obtain ⟨n, rfl⟩ : ∃ m, n = m + 1 := ⟨n - 1, by omega⟩
      unfold InsertLoop
      by_cases hstop : Sooner (s.Expires x) (s.Expires p)
      · refine ⟨_, as, p :: q :: bs, if_pos hstop, rfl, hu.insertBefore hx,
          hu.insertBefore_same, ?_⟩
        apply sorted_insert hsorted has
        intro b hb
        rcases List.mem_cons.mp hb with rfl | hb
        · exact hstop
        · have hpb := (List.pairwise_cons.mp (List.pairwise_append.mp hsorted).2.1).1 b hb
          exact hstop.trans hpb
      · have hnext : s.m_pNext p = some q := hu.neighbours.1
        have hstop' : ¬ (s.Expires p = EXPIRES_NEVER ∨
            (s.Expires x ≠ EXPIRES_NEVER ∧ s.Expires x ≤ s.Expires p)) := hstop
        have hsplit : as ++ p :: q :: bs = as ++ [p] ++ q :: bs := by simp
        rw [hsplit] at hu hx hsorted ⊢
        have has' : ∀ a ∈ as ++ [p], Sooner (s.Expires a) (s.Expires x) := by
          intro a ha
          rcases List.mem_append.mp ha with ha | ha
          · exact has a ha
          · rw [List.mem_singleton.mp ha]
            exact sooner_of_not hstop
        obtain ⟨d, as', bs', hloop, hrest⟩ := ih hu hx hsorted has' (by simpa using hn)
        refine ⟨d, as', bs', ?_, hrest⟩
        rw [if_neg hstop', hnext]
        exact hloop

theorem insertUsed_spec {s : CBanPool T HashCount} {x : Nat} {used : List Nat}
    (hu : s.usedList.Holds used) (hx : x ∉ used)
    (hsorted : used.Pairwise fun i j => Sooner (s.Expires i) (s.Expires j))
    (hlen : used.length ≤ MAX_BANS) :
    ∃ d as bs, s.InsertUsed x = .ok (s.setUsed d) ∧ used = as ++ bs ∧
      d.Holds (as ++ x :: bs) ∧ DList.SameOutside s.usedList d (as ++ x :: bs) ∧
      (as ++ x :: bs).Pairwise fun i j => Sooner (s.Expires i) (s.Expires j) := by
  have hhead : s.m_pFirstUsed = used.head? := hu.head
  unfold InsertUsed
  rw [hhead]
  cases used with
  | nil =>
      refine ⟨{ next := Function.update s.m_pNext x none
                prev := Function.update s.m_pPrev x none, head := some x }, [], [], rfl, rfl, ?_, ?_,
        List.pairwise_singleton _ _⟩
      · refine ⟨rfl, ⟨?_, trivial⟩, ⟨?_, trivial⟩, List.nodup_singleton x⟩
        · exact Function.update_self _ _ _
        · exact Function.update_self _ _ _
      · intro y hy
        have hyx : y ≠ x := fun heq => hy (by simp [heq])
        exact ⟨Function.update_of_ne hyx _ _, Function.update_of_ne hyx _ _⟩
  | cons p bs =>
      simp only [List.head?_cons]
      obtain ⟨d, as', bs', hloop, hrest⟩ := @insertLoop_spec _ _ s x p [] bs (MAX_BANS + 1) hu hx
        hsorted (by simp) (by rw [List.length_cons] at hlen; omega)
      exact ⟨d, as', bs', hloop, hrest⟩

/-! ## Hash lists -/

theorem hash_ext {h k : CNetHash} (hne : k ≠ h) :
    ¬ (k.m_HashIndex = h.m_HashIndex ∧ k.m_Hash = h.m_Hash) := by
  rintro ⟨hindex, hhash⟩
  apply hne
  cases h
  cases k
  simp_all

/-- One hash list is replaced and the others keep their nodes. -/
theorem hashed_setHash {s : CBanPool T HashCount} {bucket : CNetHash → List Nat} {h : CNetHash}
    {d : DList Nat} {xs : List Nat} (hd : d.Holds xs)
    (hold : ∀ k, k ≠ h → (s.hashList k).Holds (bucket k))
    (hsame : ∀ k, k ≠ h → ∀ y ∈ bucket k, d.next y = s.m_pHashNext y ∧ d.prev y = s.m_pHashPrev y)
    (k : CNetHash) : ((s.setHash h d).hashList k).Holds (Function.update bucket h xs k) := by
  by_cases hk : k = h
  · rw [hk, Function.update_self]
    apply hd.congr
    · exact if_pos ⟨rfl, rfl⟩
    · exact fun y _ => ⟨rfl, rfl⟩
  · rw [Function.update_of_ne hk]
    apply (hold k hk).congr
    · exact if_neg (hash_ext hk)
    · exact fun y hy => hsame k hk y hy

namespace Layout

variable {s : CBanPool T HashCount} {used free : List Nat} {bucket : CNetHash → List Nat}

theorem nodup (h : Layout s used free bucket) : (used ++ free).Nodup :=
  h.partition.nodup_iff.mpr List.nodup_range

theorem length_used (h : Layout s used free bucket) : used.length ≤ MAX_BANS := by
  have hlen := h.partition.length_eq
  rw [List.length_append, List.length_range] at hlen
  omega

theorem length_bucket (h : Layout s used free bucket) (k : CNetHash) :
    (bucket k).length ≤ MAX_BANS := by
  have hsub : (bucket k).Subperm used :=
    List.subperm_of_subset (h.hashed k).nodup fun i hi => ((h.mem_bucket k i).mp hi).1
  exact hsub.length_le.trans h.length_used

/-- The new ban is in front of the list of its hash. -/
theorem mem_bucket_add (h : Layout s used free bucket) {x : Nat} (hx : x ∉ used) (ban : CBan T)
    (j : CNetHash) (i : Nat) :
    i ∈ Function.update bucket ban.m_NetHash (x :: bucket ban.m_NetHash) j ↔
      (i = x ∨ i ∈ used) ∧ (Function.update s.m_aBans x ban i).m_NetHash = j := by
  by_cases hi : i = x
  · rw [hi, Function.update_self]
    by_cases hj : j = ban.m_NetHash
    · rw [hj, Function.update_self]
      simp
    · rw [Function.update_of_ne hj]
      constructor
      · exact fun hxj => absurd ((h.mem_bucket j x).mp hxj).1 hx
      · exact fun hxj => absurd hxj.2.symm hj
  · rw [Function.update_of_ne hi]
    by_cases hj : j = ban.m_NetHash
    · rw [hj, Function.update_self, List.mem_cons, h.mem_bucket]
      simp [hi]
    · rw [Function.update_of_ne hj, h.mem_bucket]
      simp [hi]

/-- A ban that is removed leaves the list of its hash only. -/
theorem mem_bucket_remove (h : Layout s used free bucket) {x i : Nat} {k j : CNetHash}
    {used' left : List Nat} (hmem : i ∈ used ↔ i = x ∨ i ∈ used')
    (hleft : i ∈ bucket k ↔ i = x ∨ i ∈ left) (hx : x ∉ used')
    (hnot : x ∉ Function.update bucket k left j) :
    i ∈ Function.update bucket k left j ↔ i ∈ used' ∧ (s.m_aBans i).m_NetHash = j := by
  have hbucket := h.mem_bucket j i
  by_cases hi : i = x
  · rw [hi]
    constructor
    · exact fun hxj => absurd hxj hnot
    · exact fun hxj => absurd hxj.1 hx
  · by_cases hj : j = k
    · rw [hj, hleft, hmem] at hbucket
      rw [hj, Function.update_self]
      simpa [hi] using hbucket
    · rw [hmem] at hbucket
      rw [Function.update_of_ne hj]
      simpa [hi] using hbucket

/-- The new ban takes the first free slot. -/
theorem add {x : Nat} (h : Layout s used (x :: free) bucket) {k : CNetHash}
    (hk : InRange HashCount k) (pData : T) (pInfo : CBanInfo) :
    ∃ s' as bs, s.Add pData pInfo k = .ok (s', some x) ∧ used = as ++ bs ∧
      s'.m_aBans = Function.update s.m_aBans x
        { m_Data := pData, m_Info := pInfo, m_NetHash := k } ∧
      Layout s' (as ++ x :: bs) free (Function.update bucket k (x :: bucket k)) := by
  have hnodup := h.nodup
  rw [List.nodup_append] at hnodup
  obtain ⟨hused, hfree, hdisj⟩ := hnodup
  have hxused : x ∉ used := fun hx => hdisj x hx x (by simp) rfl
  have hxfree := (List.nodup_cons.mp hfree).1
  have hne : ∀ i ∈ used, i ≠ x := fun i hi heq => hxused (heq ▸ hi)
  have hbucket : ∀ j, ∀ i ∈ bucket j, i ≠ x := fun j i hi => hne i ((h.mem_bucket j i).mp hi).1
  have hfirst : s.m_pFirstFree = some x := h.freeHolds.head
  set ban : CBan T := { m_Data := pData, m_Info := pInfo, m_NetHash := k } with hban
  set s₁ : CBanPool T HashCount := { s with m_aBans := Function.update s.m_aBans x ban } with hs₁
  have hfree₁ : s₁.freeList.Holds ([] ++ x :: free) := h.freeHolds
  set s₂ := s₁.setFree (s₁.freeList.unlink x) with hs₂
  have hfree₂ : s₂.freeList.Holds ([] ++ free) := hfree₁.unlink
  have hsame₂ := hfree₁.unlink_same
  set s₃ := s₂.setHash k ((s₂.hashList k).pushFront x) with hs₃
  have hhash₂ : ∀ j, (s₂.hashList j).Holds (bucket j) := h.hashed
  have hpush := (hhash₂ k).pushFront (fun hx => hbucket k x hx rfl)
  have hsame₃ := @DList.Holds.pushFront_same _ _ _ _ x (hhash₂ k)
  have hhash₃ : ∀ j, (s₃.hashList j).Holds (Function.update bucket k (x :: bucket k) j) := by
    apply hashed_setHash hpush fun j _ => hhash₂ j
    intro j hj y hy
    apply hsame₃ y
    rw [List.mem_cons, not_or]
    refine ⟨hbucket j y hy, fun hy' => hj ?_⟩
    rw [← ((h.mem_bucket j y).mp hy).2, ((h.mem_bucket k y).mp hy').2]
  have hexp : ∀ i ∈ used, s₃.Expires i = s.Expires i := by
    intro i hi
    show (Function.update s.m_aBans x ban i).m_Info.m_Expires = _
    rw [Function.update_of_ne (hne i hi)]
    rfl
  have hused₃ : s₃.usedList.Holds used := by
    refine h.usedHolds.congr ?_ fun y hy => ?_
    · rfl
    apply hsame₂ y
    rw [List.nil_append]
    exact fun hyf => hdisj y hy y (by simp [hyf]) rfl
  obtain ⟨d, as, bs, hinsert, hsplit, hd, hsame, hsorted⟩ :=
    insertUsed_spec hused₃ hxused (sorted_congr h.sorted hexp) h.length_used
  have hmem : ∀ i, i ∈ as ++ x :: bs ↔ i = x ∨ i ∈ used := by
    intro i
    rw [hsplit, List.mem_append, List.mem_cons, List.mem_append]
    tauto
  refine ⟨{ s₃.setUsed d with m_CountUsed := s₃.m_CountUsed + 1 }, as, bs, ?_, hsplit, rfl, ?_⟩
  · unfold CBanPool.Add
    nth_rewrite 1 [hfirst]
    have hrun : (do
        let s ← s₃.InsertUsed x
        return ({ s with m_CountUsed := s.m_CountUsed + 1 }, some x) :
          Exec (CBanPool T HashCount × Option Nat)) =
        .ok ({ s₃.setUsed d with m_CountUsed := s₃.m_CountUsed + 1 }, some x) := by
      rw [hinsert]
      rfl
    rw [← hrun]
    exact if_neg (not_not.mpr hk)
  · constructor
    · exact hd
    · rw [List.nil_append] at hfree₂
      refine hfree₂.congr ?_ fun y hy => ?_
      · rfl
      apply hsame y
      rw [hmem]
      rintro (rfl | hy')
      · exact hxfree hy
      · exact hdisj y hy' y (by simp [hy]) rfl
    · refine List.Perm.trans ?_ h.partition
      rw [hsplit, List.append_assoc, List.append_assoc, List.cons_append]
      apply List.Perm.append_left
      exact List.perm_middle.symm
    · exact hhash₃
    · intro j i
      rw [hmem]
      exact h.mem_bucket_add hxused ban j i
    · intro i hi
      show InRange HashCount (Function.update s.m_aBans x ban i).m_NetHash
      rcases (hmem i).mp hi with rfl | hi
      · rw [Function.update_self]
        exact hk
      · rw [Function.update_of_ne (hne i hi)]
        exact h.inRange i hi
    · show s.m_CountUsed + 1 = _
      rw [h.count, hsplit]
      simp only [List.length_append, List.length_cons]
      omega
    · exact hsorted

/-- The slot of a used ban becomes the first free slot. -/
theorem remove {as bs cs ds : List Nat} {x : Nat} (h : Layout s (as ++ x :: bs) free bucket)
    (hcd : bucket (s.m_aBans x).m_NetHash = cs ++ x :: ds) :
    ∃ s', s.Remove (some x) = .ok (s', 0) ∧ s'.m_aBans = s.m_aBans ∧
      Layout s' (as ++ bs) (x :: free)
        (Function.update bucket (s.m_aBans x).m_NetHash (cs ++ ds)) := by
  set k := (s.m_aBans x).m_NetHash with hk
  have hxmem : x ∈ as ++ x :: bs := by simp
  have hnodup := h.nodup
  rw [List.nodup_append] at hnodup
  obtain ⟨hused, hfree, hdisj⟩ := hnodup
  have hmid : (as ++ x :: bs).Perm (x :: (as ++ bs)) := List.perm_middle
  have hxrest := (List.nodup_cons.mp (hmid.nodup_iff.mp hused)).1
  have hrest : ∀ i ∈ as ++ bs, i ∈ as ++ x :: bs := fun i hi =>
    hmid.mem_iff.mpr (List.mem_cons_of_mem _ hi)
  have hxfree : x ∉ free := fun hx => hdisj x hxmem x hx rfl
  have hbucketk := h.hashed k
  rw [hcd] at hbucketk
  have hmidk : (cs ++ x :: ds).Perm (x :: (cs ++ ds)) := List.perm_middle
  have hxcd := (List.nodup_cons.mp (hmidk.nodup_iff.mp hbucketk.nodup)).1
  have hcdk : ∀ i ∈ cs ++ ds, i ∈ bucket k := by
    intro i hi
    rw [hcd]
    exact hmidk.mem_iff.mpr (List.mem_cons_of_mem _ hi)
  have hsamek := hbucketk.unlink_same
  -- out of the hash list
  set s₁ := s.setHash k ((s.hashList k).unlink x) with hs₁
  have hhash₁ : ∀ j, (s₁.hashList j).Holds (Function.update bucket k (cs ++ ds) j) := by
    apply hashed_setHash hbucketk.unlink fun j _ => h.hashed j
    intro j hj y hy
    apply hsamek y
    intro hy'
    apply hj
    rw [← ((h.mem_bucket j y).mp hy).2, ((h.mem_bucket k y).mp (hcdk y hy')).2]
  have hnot : ∀ j, x ∉ Function.update bucket k (cs ++ ds) j := by
    intro j hx
    by_cases hj : j = k
    · rw [hj, Function.update_self] at hx
      exact hxcd hx
    · rw [Function.update_of_ne hj] at hx
      exact hj ((h.mem_bucket j x).mp hx).2.symm
  set s₂ : CBanPool T HashCount := { s₁ with
    m_pHashNext := Function.update s₁.m_pHashNext x none
    m_pHashPrev := Function.update s₁.m_pHashPrev x none } with hs₂
  have hhash₂ : ∀ j, (s₂.hashList j).Holds (Function.update bucket k (cs ++ ds) j) := by
    intro j
    refine (hhash₁ j).congr ?_ fun y hy => ?_
    · rfl
    · have hyx : y ≠ x := fun heq => hnot j (heq ▸ hy)
      exact ⟨Function.update_of_ne hyx _ _, Function.update_of_ne hyx _ _⟩
  -- out of the used list
  have hused₂ : s₂.usedList.Holds (as ++ x :: bs) := h.usedHolds
  have hsame₂ := hused₂.unlink_same
  set s₃ := s₂.setUsed (s₂.usedList.unlink x) with hs₃
  have hused₃ : s₃.usedList.Holds (as ++ bs) := hused₂.unlink
  have hfree₃ : s₃.freeList.Holds free := by
    refine h.freeHolds.congr ?_ fun y hy => ?_
    · rfl
    · exact hsame₂ y fun hy' => hdisj y (hrest y hy') y hy rfl
  -- into the free list
  have hsame₃ := @DList.Holds.pushFront_same _ _ _ _ x hfree₃
  set s₄ := s₃.setFree (s₃.freeList.pushFront x) with hs₄
  refine ⟨{ s₄ with m_CountUsed := s₄.m_CountUsed - 1 }, ?_, rfl, ?_⟩
  · exact if_neg (not_not.mpr (h.inRange x hxmem))
  · constructor
    · refine hused₃.congr ?_ fun y hy => ?_
      · rfl
      · apply hsame₃ y
        rw [List.mem_cons, not_or]
        exact ⟨fun heq => hxrest (heq ▸ hy), fun hy' => hdisj y (hrest y hy) y hy' rfl⟩
    · exact hfree₃.pushFront hxfree
    · refine List.Perm.trans ?_ h.partition
      rw [List.append_assoc, List.append_assoc, List.cons_append]
      apply List.Perm.append_left
      exact List.perm_middle
    · exact hhash₂
    · intro j i
      have hmem : i ∈ as ++ x :: bs ↔ i = x ∨ i ∈ as ++ bs := by
        rw [hmid.mem_iff, List.mem_cons]
      have hmemk : i ∈ bucket k ↔ i = x ∨ i ∈ cs ++ ds := by
        rw [hcd, hmidk.mem_iff, List.mem_cons]
      exact h.mem_bucket_remove hmem hmemk hxrest (hnot j)
    · exact fun i hi => h.inRange i (hrest i hi)
    · show s.m_CountUsed - 1 = _
      rw [h.count]
      simp only [List.length_append, List.length_cons]
      omega
    · apply sorted_congr (s := s) (h.sorted.sublist _) fun i _ => rfl
      exact List.Sublist.append_left (List.sublist_cons_self x bs) as

/-- The ban moves to the place of its new expiry. -/
theorem update {as bs : List Nat} {x : Nat} (h : Layout s (as ++ x :: bs) free bucket)
    (pInfo : CBanInfo) :
    ∃ s' as' bs', s.Update x pInfo = .ok s' ∧ as ++ bs = as' ++ bs' ∧
      s'.m_aBans = Function.update s.m_aBans x { s.m_aBans x with m_Info := pInfo } ∧
      Layout s' (as' ++ x :: bs') free bucket := by
  have hxmem : x ∈ as ++ x :: bs := by simp
  have hnodup := h.nodup
  rw [List.nodup_append] at hnodup
  obtain ⟨hused, hfree, hdisj⟩ := hnodup
  have hmid : (as ++ x :: bs).Perm (x :: (as ++ bs)) := List.perm_middle
  have hxrest := (List.nodup_cons.mp (hmid.nodup_iff.mp hused)).1
  set ban : CBan T := { s.m_aBans x with m_Info := pInfo } with hban
  set s₁ : CBanPool T HashCount := { s with m_aBans := Function.update s.m_aBans x ban } with hs₁
  have hused₁ : s₁.usedList.Holds (as ++ x :: bs) := h.usedHolds
  have hsame₁ := hused₁.unlink_same
  set s₂ := s₁.setUsed (s₁.usedList.unlink x) with hs₂
  have hused₂ : s₂.usedList.Holds (as ++ bs) := hused₁.unlink
  have hexp : ∀ i ∈ as ++ bs, s₂.Expires i = s.Expires i := by
    intro i hi
    have hix : i ≠ x := fun heq => hxrest (heq ▸ hi)
    show (Function.update s.m_aBans x ban i).m_Info.m_Expires = _
    rw [Function.update_of_ne hix]
    rfl
  have hsub : (as ++ bs).Sublist (as ++ x :: bs) :=
    List.Sublist.append_left (List.sublist_cons_self x bs) as
  obtain ⟨d, as', bs', hinsert, hsplit, hd, hsame, hsorted⟩ :=
    insertUsed_spec hused₂ hxrest (sorted_congr (h.sorted.sublist hsub) hexp)
      (hsub.length_le.trans h.length_used)
  have hmid' : (as ++ x :: bs).Perm (as' ++ x :: bs') := by
    apply hmid.trans
    rw [hsplit]
    exact List.perm_middle.symm
  have hhash : ∀ i, (Function.update s.m_aBans x ban i).m_NetHash = (s.m_aBans i).m_NetHash := by
    intro i
    by_cases hi : i = x
    · rw [hi, Function.update_self]
    · rw [Function.update_of_ne hi]
  refine ⟨s₂.setUsed d, as', bs', hinsert, hsplit, rfl, ?_⟩
  constructor
  · exact hd
  · refine h.freeHolds.congr ?_ fun y hy => ?_
    · rfl
    · have hy' : y ∉ as ++ x :: bs := fun hy' => hdisj y hy' y hy rfl
      have hbefore := hsame₁ y fun hy'' => hy' (hsub.subset hy'')
      have hafter := hsame y fun hy'' => hy' (hmid'.mem_iff.mpr hy'')
      exact ⟨hafter.1.trans hbefore.1, hafter.2.trans hbefore.2⟩
  · exact (hmid'.symm.append_right free).trans h.partition
  · exact h.hashed
  · intro j i
    show _ ↔ _ ∧ (Function.update s.m_aBans x ban i).m_NetHash = j
    rw [hhash, ← hmid'.mem_iff]
    exact h.mem_bucket j i
  · intro i hi
    show InRange HashCount (Function.update s.m_aBans x ban i).m_NetHash
    rw [hhash]
    exact h.inRange i (hmid'.mem_iff.mpr hi)
  · rw [← hmid'.length_eq]
    exact h.count
  · exact hsorted

end Layout

end Fex.Engine.NetBan
