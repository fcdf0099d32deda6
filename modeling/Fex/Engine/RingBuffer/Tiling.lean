import Fex.Engine.RingBuffer

/-!
# The blocks of the buffer

`Tiles s bs` says that the headers reachable from `m_pFirst` are exactly the
blocks `bs`, that they fill the buffer and that every extent is a positive
multiple of the header size.  Each operation on one or two blocks is a rewrite
of the list `bs`.
-/

namespace Fex.Engine.RingBuffer

open Fex.Lib Fex.Lib.BlockList

/-- What a header says about its own block. -/
structure Block where
  free : Bool
  size : Nat

def Block.header (p n : Option Nat) (b : Block) : CItem :=
  { m_pPrev := p, m_pNext := n, m_Free := b.free, m_Size := b.size }

/-- Extent of a run of blocks. -/
def extent (bs : List Block) : Nat := total Block.size bs

@[simp] theorem total_size (bs : List Block) : total Block.size bs = extent bs := rfl

@[simp] theorem extent_nil : extent [] = 0 := rfl

@[simp] theorem extent_cons (b : Block) (bs : List Block) :
    extent (b :: bs) = b.size + extent bs := rfl

@[simp] theorem extent_append (xs ys : List Block) :
    extent (xs ++ ys) = extent xs + extent ys := total_append Block.size xs ys

structure Tiles (s : CRingBufferBase) (bs : List Block) : Prop where
  seg : Seg Block.header Block.size s.m_aItems none 0 bs none
  first : s.m_pFirst = 0
  last : lastAddr Block.size none 0 bs = some s.m_pLast
  extent : extent bs = s.m_Size
  sizes : ∀ b ∈ bs, 0 < b.size ∧ ITEM_SIZE ∣ b.size

namespace Tiles

variable {s : CRingBufferBase} (xs : List Block) {ys : List Block} (b : Block)

theorem pos {bs : List Block} (h : Tiles s bs) : ∀ c ∈ bs, 0 < c.size :=
  fun c hc => (h.sizes c hc).1

theorem header (h : Tiles s (xs ++ b :: ys)) :
    s.m_aItems (RingBuffer.extent xs) =
      b.header (lastAddr Block.size none 0 xs)
        (link (RingBuffer.extent xs + b.size) ys none) := by
  simpa using seg_header Block.header Block.size h.seg

theorem nextBlock_last (h : Tiles s (xs ++ [b])) :
    s.NextBlock (RingBuffer.extent xs) = 0 := by
  unfold CRingBufferBase.NextBlock
  rw [header xs b h]
  exact h.first

theorem nextBlock {y : Block} (h : Tiles s (xs ++ b :: y :: ys)) :
    s.NextBlock (RingBuffer.extent xs) = RingBuffer.extent xs + b.size := by
  unfold CRingBufferBase.NextBlock
  rw [header xs b h]
  rfl

/-- Only the headers and the pointers of the list itself matter. -/
theorem congr {t : CRingBufferBase} {bs : List Block} (h : Tiles s bs)
    (hitems : t.m_aItems = s.m_aItems) (hfirst : t.m_pFirst = s.m_pFirst)
    (hlast : t.m_pLast = s.m_pLast) (hsize : t.m_Size = s.m_Size) : Tiles t bs where
  seg := hitems ▸ h.seg
  first := hfirst.trans h.first
  last := hlast ▸ h.last
  extent := hsize ▸ h.extent
  sizes := h.sizes

theorem withConsume {bs : List Block} (h : Tiles s bs) (p : Nat) :
    Tiles { s with m_pConsume := p } bs := h.congr rfl rfl rfl rfl

theorem withProduce {bs : List Block} (h : Tiles s bs) (p : Nat) :
    Tiles { s with m_pProduce := p } bs := h.congr rfl rfl rfl rfl

end Tiles

theorem lastAddr_append_cons (p : Option Nat) (a : Nat) (xs ys : List Block) (b : Block) :
    lastAddr Block.size p a (xs ++ b :: ys) =
      lastAddr Block.size (some (a + extent xs)) (a + extent xs + b.size) ys := by
  rw [lastAddr_append]
  rfl

theorem lastAddr_cons_ne (p q : Option Nat) (a : Nat) (ys : List Block) (hys : ys ≠ []) :
    lastAddr Block.size p a ys = lastAddr Block.size q a ys := by
  cases ys with
  | nil => exact absurd rfl hys
  | cons y ys => rfl

/-- Rewrite the stretch `ms` of the blocks into `ms'`.  Headers before it stay, the one
after it points back to the new last block, and `m_pLast` moves if the stretch is last. -/
theorem Tiles.replace {s : CRingBufferBase} (t : CRingBufferBase) {xs ms : List Block}
    (ms' : List Block) {ys : List Block} (h : Tiles s (xs ++ ms ++ ys)) (hms : ms ≠ []) (hms' : ms' ≠ [])
    (hextent : RingBuffer.extent ms' = RingBuffer.extent ms)
    (hsizes : ∀ c ∈ ms', 0 < c.size ∧ ITEM_SIZE ∣ c.size)
    (hbefore : ∀ x, x < RingBuffer.extent xs → t.m_aItems x = s.m_aItems x)
    (hmid : Seg Block.header Block.size t.m_aItems (lastAddr Block.size none 0 xs)
      (RingBuffer.extent xs) ms' (link (RingBuffer.extent xs + RingBuffer.extent ms) ys none))
    (hafter : ∀ y ys', ys = y :: ys' →
      t.m_aItems (RingBuffer.extent xs + RingBuffer.extent ms) =
        y.header (lastAddr Block.size none (RingBuffer.extent xs) ms')
          (link (RingBuffer.extent xs + RingBuffer.extent ms + y.size) ys' none) ∧
      ∀ x, RingBuffer.extent xs + RingBuffer.extent ms + y.size ≤ x →
        t.m_aItems x = s.m_aItems x)
    (hfirst : t.m_pFirst = s.m_pFirst) (hsize : t.m_Size = s.m_Size)
    (hlast : ys = [] → lastAddr Block.size none (RingBuffer.extent xs) ms' = some t.m_pLast)
    (hlast' : ys ≠ [] → t.m_pLast = s.m_pLast) : Tiles t (xs ++ ms' ++ ys) where
  seg := by
    refine seg_replace Block.header Block.size h.pos hms hms' hextent
      (fun x hx => hbefore x (by simpa using hx)) (by simpa using hmid)
      (fun y ys' hys => ?_) h.seg
    obtain ⟨hhead, hrest⟩ := hafter y ys' hys
    rw [lastAddr_cons_ne _ none _ _ hms']
    exact ⟨by simpa using hhead, fun x hx => hrest x (by simpa using hx)⟩
  first := hfirst.trans h.first
  last := by
    have hold := h.last
    rw [lastAddr_append, lastAddr_append] at hold ⊢
    cases ys with
    | nil =>
        rw [lastAddr_cons_ne _ none _ _ hms']
        simpa [lastAddr] using hlast rfl
    | cons y ys =>
        rw [hlast' (by simp), ← hold, total_append, total_append]
        have : total Block.size ms' = total Block.size ms := hextent
        rw [this]
        rfl
  extent := by
    have hold := h.extent
    simp only [RingBuffer.extent_append] at hold ⊢
    omega
  sizes := by
    intro c hc
    rcases List.mem_append.mp hc with hc | hc
    · rcases List.mem_append.mp hc with hc | hc
      · exact h.sizes c (by simp [hc])
      · exact hsizes c hc
    · exact h.sizes c (by simp [hc])

/-- Setting or clearing the free flag of one block. -/
theorem Tiles.setFree {s : CRingBufferBase} {xs ys : List Block} {f : Bool} {n : Nat} (g : Bool)
    (h : Tiles s (xs ++ ⟨f, n⟩ :: ys)) :
    Tiles (s.setItem (RingBuffer.extent xs) fun c => { c with m_Free := g })
      (xs ++ ⟨g, n⟩ :: ys) := by
  have hn : 0 < n ∧ ITEM_SIZE ∣ n := h.sizes ⟨f, n⟩ (by simp)
  have hhead := h.header
  have h' : Tiles s (xs ++ [⟨f, n⟩] ++ ys) := by simpa using h
  have := Tiles.replace (s.setItem (RingBuffer.extent xs) fun c => { c with m_Free := g })
    [⟨g, n⟩] h' (by simp) (by simp) rfl (by simpa using hn)
    (fun x hx => Function.update_of_ne (by omega) _ _) ?_ (fun y ys' hys => ⟨?_, fun x hx => ?_⟩)
    rfl rfl (fun hys => ?_) (fun _ => rfl)
  · simpa using this
  · refine ⟨?_, trivial⟩
    simp [CRingBufferBase.setItem, hhead, Block.header, link]
  · subst hys
    have hy := Tiles.header (xs ++ [⟨f, n⟩]) y (by simpa using h)
    simpa [CRingBufferBase.setItem, lastAddr, Nat.ne_of_gt hn.1] using hy
  · exact Function.update_of_ne (by simp at hx; omega) _ _
  · subst hys
    have := h.last
    rwa [lastAddr_append_cons, Nat.zero_add] at this

/-- `MergeBack` on two free neighbours joins them; the pointers follow. -/
theorem Tiles.mergeBack {s : CRingBufferBase} (xs : List Block) {ys : List Block} (m n : Nat)
    (h : Tiles s (xs ++ ⟨true, m⟩ :: ⟨true, n⟩ :: ys)) :
    ∃ t, s.MergeBack (RingBuffer.extent xs + m) = (t, RingBuffer.extent xs) ∧
      Tiles t (xs ++ ⟨true, m + n⟩ :: ys) ∧
      t.m_pProduce = (if s.m_pProduce = RingBuffer.extent xs + m then RingBuffer.extent xs
        else s.m_pProduce) ∧
      t.m_pConsume = (if s.m_pConsume = RingBuffer.extent xs + m then RingBuffer.extent xs
        else s.m_pConsume) ∧
      t.m_Flags = s.m_Flags ∧ t.m_PopCallback = s.m_PopCallback := by
  have hm : 0 < m ∧ ITEM_SIZE ∣ m := h.sizes ⟨true, m⟩ (by simp)
  have hn : 0 < n ∧ ITEM_SIZE ∣ n := h.sizes ⟨true, n⟩ (by simp)
  have hprev := h.header xs ⟨true, m⟩
  have hitem := Tiles.header (xs ++ [⟨true, m⟩]) ⟨true, n⟩
    (by simpa using h)
  have haddr : RingBuffer.extent (xs ++ [⟨true, m⟩]) = RingBuffer.extent xs + m := by
    simp
  rw [haddr, lastAddr_append_cons] at hitem
  simp only [lastAddr, Nat.zero_add] at hitem
  set a := RingBuffer.extent xs with ha
  have h' : Tiles s (xs ++ [⟨true, m⟩, ⟨true, n⟩] ++ ys) := by simpa using h
  have key : ∀ t : CRingBufferBase, t.m_pFirst = s.m_pFirst → t.m_Size = s.m_Size →
      (∀ x, x < a → t.m_aItems x = s.m_aItems x) →
      t.m_aItems a = Block.header (lastAddr Block.size none 0 xs)
        (link (a + (m + n)) ys none) ⟨true, m + n⟩ →
      (∀ y ys', ys = y :: ys' → t.m_aItems (a + (m + n)) =
          y.header (some a) (link (a + (m + n) + y.size) ys' none) ∧
        ∀ x, a + (m + n) + y.size ≤ x → t.m_aItems x = s.m_aItems x) →
      (ys = [] → t.m_pLast = a) → (ys ≠ [] → t.m_pLast = s.m_pLast) →
      Tiles t (xs ++ ⟨true, m + n⟩ :: ys) := by
    intro t hfirst hsize hbefore hhead hafter hlast hlast'
    have := Tiles.replace t [⟨true, m + n⟩] h' (by simp) (by simp)
      (by simp) (by simpa using ⟨by omega, Nat.dvd_add hm.2 hn.2⟩)
      hbefore ?_ (fun y ys' hys => ?_) hfirst hsize (fun hys => ?_) hlast'
    · simpa using this
    · simpa [Seg, link, ← ha] using hhead
    · simpa [← ha, lastAddr] using hafter y ys' hys
    · simp [lastAddr, hlast hys, ← ha]
  have hane : a ≠ a + (m + n) := by omega
  cases ys with
  | nil =>
      refine ⟨_, ?_, key
        { s with
          m_aItems := Function.update s.m_aItems a
            { s.m_aItems a with m_Size := m + n, m_pNext := none }
          m_pLast := a
          m_pProduce := if a + m = s.m_pProduce then a else s.m_pProduce
          m_pConsume := if a + m = s.m_pConsume then a else s.m_pConsume }
        rfl rfl (fun x hx => Function.update_of_ne (by omega) _ _) ?_ (by simp)
        (fun _ => rfl) (by simp), ?_, ?_, rfl, rfl⟩
      · simp [CRingBufferBase.MergeBack, CRingBufferBase.setItem, hitem, hprev, Block.header, link]
      · simp [hprev, Block.header, link]
      · simp [eq_comm]
      · simp [eq_comm]
  | cons y ys =>
      have hy := Tiles.header (xs ++ [⟨true, m⟩, ⟨true, n⟩]) y
        (by simpa using h)
      have haddr' : RingBuffer.extent (xs ++ [⟨true, m⟩, ⟨true, n⟩]) = a + (m + n) := by
        simp [ha]
      rw [haddr', lastAddr_append_cons] at hy
      refine ⟨_, ?_, key
        { s with
          m_aItems := Function.update (Function.update s.m_aItems a
            { s.m_aItems a with m_Size := m + n, m_pNext := some (a + (m + n)) })
            (a + (m + n)) { s.m_aItems (a + (m + n)) with m_pPrev := some a }
          m_pProduce := if a + m = s.m_pProduce then a else s.m_pProduce
          m_pConsume := if a + m = s.m_pConsume then a else s.m_pConsume }
        rfl rfl (fun x hx => ?_) ?_ (fun y' ys' hys => ⟨?_, fun x hx => ?_⟩)
        (by simp) (fun _ => rfl), ?_, ?_, rfl, rfl⟩
      · simp [CRingBufferBase.MergeBack, CRingBufferBase.setItem, hitem, hprev, Block.header,
          link, Nat.ne_of_gt hm.1, Nat.add_assoc]
      · simp only
        rw [Function.update_of_ne (by omega), Function.update_of_ne (by omega)]
      · simp only
        rw [Function.update_of_ne hane, Function.update_self, hprev]
        rfl
      · obtain ⟨rfl, rfl⟩ := List.cons.inj hys
        simp [hy, Block.header]
      · obtain ⟨rfl, rfl⟩ := List.cons.inj hys
        have hpos := h.pos y (by simp)
        simp only
        rw [Function.update_of_ne (by omega), Function.update_of_ne (by omega)]
      · simp [eq_comm]
      · simp [eq_comm]

/-- `MergeBack` leaves a used block alone. -/
theorem mergeBack_used {s : CRingBufferBase} {p : Nat} (h : (s.m_aItems p).m_Free = false) :
    s.MergeBack p = (s, p) := by
  unfold CRingBufferBase.MergeBack
  cases (s.m_aItems p).m_pPrev <;> simp [h]

/-- `MergeBack` leaves the first block alone. -/
theorem Tiles.mergeBack_first {s : CRingBufferBase} {b : Block} {ys : List Block}
    (h : Tiles s (b :: ys)) : s.MergeBack 0 = (s, 0) := by
  have hb := Tiles.header [] b h
  simp only [extent_nil, lastAddr] at hb
  unfold CRingBufferBase.MergeBack
  simp [hb, Block.header]

/-- `MergeBack` leaves a block behind a used one alone. -/
theorem Tiles.mergeBack_behind {s : CRingBufferBase} (xs : List Block) {ys : List Block} (m : Nat)
    {b : Block}
    (h : Tiles s (xs ++ ⟨false, m⟩ :: b :: ys)) :
    s.MergeBack (RingBuffer.extent xs + m) = (s, RingBuffer.extent xs + m) := by
  have hprev := h.header
  have hb := Tiles.header (xs ++ [⟨false, m⟩]) b (by simpa using h)
  have haddr : RingBuffer.extent (xs ++ [⟨false, m⟩]) = RingBuffer.extent xs + m := by
    simp
  rw [haddr, lastAddr_append_cons, Nat.zero_add] at hb
  unfold CRingBufferBase.MergeBack
  simp [hb, hprev, Block.header, lastAddr]

/-- `SplitBlock` on a free block that is larger than wanted cuts off the rest. -/
theorem Tiles.splitBlock {s : CRingBufferBase} {xs ys : List Block} {n w : Nat}
    (h : Tiles s (xs ++ ⟨true, n⟩ :: ys)) (hw : 0 < w ∧ ITEM_SIZE ∣ w)
    (hlt : w + ITEM_SIZE < n) (hmax : (w : Int) + ITEM_SIZE ≤ intMax) :
    ∃ t, s.SplitBlock (RingBuffer.extent xs) w = .ok t ∧
      Tiles t (xs ++ ⟨true, w⟩ :: ⟨true, n - w⟩ :: ys) ∧
      t.m_pConsume = s.m_pConsume ∧ t.m_Flags = s.m_Flags ∧
      t.m_PopCallback = s.m_PopCallback := by
  have hn : 0 < n ∧ ITEM_SIZE ∣ n := h.sizes ⟨true, n⟩ (by simp)
  have hrest : 0 < n - w ∧ ITEM_SIZE ∣ n - w := ⟨by omega, Nat.dvd_sub hn.2 hw.2⟩
  have hhead := h.header
  have hsize := h.extent
  simp only [RingBuffer.extent_append, extent_cons] at hsize
  have h' : Tiles s (xs ++ [⟨true, n⟩] ++ ys) := by simpa using h
  set a := RingBuffer.extent xs with ha
  have hbounds : ¬((a : Int) + w < 0 ∨ (s.m_Size : Int) < (a : Int) + w + ITEM_SIZE) := by
    omega
  have htoNat : ((a : Int) + w).toNat = a + w := by omega
  have hwn : w + (n - w) = n := by omega
  have key : ∀ t : CRingBufferBase, t.m_pFirst = s.m_pFirst → t.m_Size = s.m_Size →
      (∀ x, x < a → t.m_aItems x = s.m_aItems x) →
      t.m_aItems a = Block.header (lastAddr Block.size none 0 xs) (some (a + w)) ⟨true, w⟩ →
      t.m_aItems (a + w) = Block.header (some a) (link (a + n) ys none) ⟨true, n - w⟩ →
      (∀ y ys', ys = y :: ys' → t.m_aItems (a + n) =
          y.header (some (a + w)) (link (a + n + y.size) ys' none) ∧
        ∀ x, a + n + y.size ≤ x → t.m_aItems x = s.m_aItems x) →
      (ys = [] → t.m_pLast = a + w) → (ys ≠ [] → t.m_pLast = s.m_pLast) →
      Tiles t (xs ++ ⟨true, w⟩ :: ⟨true, n - w⟩ :: ys) := by
    intro t hfirst hsize hbefore hhead hnew hafter hlast hlast'
    have := Tiles.replace t [⟨true, w⟩, ⟨true, n - w⟩] h' (by simp) (by simp)
      (by simp [hwn]) (List.forall_mem_cons.mpr ⟨hw, List.forall_mem_singleton.mpr hrest⟩)
      hbefore ?_ (fun y ys' hys => ?_) hfirst hsize (fun hys => ?_) hlast'
    · simpa using this
    · refine ⟨by simpa [link, ← ha] using hhead, ?_, trivial⟩
      simpa [link, ← ha] using hnew
    · simpa [← ha, lastAddr] using hafter y ys' hys
    · simp [lastAddr, hlast hys, ← ha]
  unfold CRingBufferBase.SplitBlock
  rw [if_neg (by omega), hhead, if_pos (by simp only [Block.header]; omega)]
  simp only [if_neg hbounds, htoNat, Int.toNat_natCast]
  cases ys with
  | nil =>
      refine ⟨_, ?_, key
        { s with
          m_aItems := Function.update (Function.update s.m_aItems (a + w)
            ⟨some a, none, true, n - w⟩) a
            ⟨lastAddr Block.size none 0 xs, some (a + w), true, w⟩
          m_pLast := a + w }
        rfl rfl (fun x hx => ?_) ?_ ?_ (by simp) (fun _ => rfl) (by simp), rfl, rfl, rfl⟩
      · simp [CRingBufferBase.setItem, hhead, Block.header, link, Nat.ne_of_gt hw.1]
      · simp only
        rw [Function.update_of_ne (by omega), Function.update_of_ne (by omega)]
      · simp [Block.header]
      · simp only
        rw [Function.update_of_ne (by omega), Function.update_self]
        rfl
  | cons y ys =>
      have hy := Tiles.header (xs ++ [⟨true, n⟩]) y (by simpa using h)
      have haddr : RingBuffer.extent (xs ++ [⟨true, n⟩]) = a + n := by
        simp [ha]
      rw [haddr, lastAddr_append_cons] at hy
      have hya := h.pos y (by simp)
      refine ⟨_, ?_, key
        { s with
          m_aItems := Function.update (Function.update (Function.update s.m_aItems (a + w)
            ⟨some a, some (a + n), true, n - w⟩) (a + n)
            { s.m_aItems (a + n) with m_pPrev := some (a + w) }) a
            ⟨lastAddr Block.size none 0 xs, some (a + w), true, w⟩ }
        rfl rfl (fun x hx => ?_) ?_ ?_ (fun y' ys' hys => ⟨?_, fun x hx => ?_⟩) (by simp)
        (fun _ => rfl), rfl, rfl, rfl⟩
      · simp [CRingBufferBase.setItem, hhead, Block.header, link, Nat.ne_of_gt hw.1,
          Nat.ne_of_gt hn.1, Nat.ne_of_gt (show w < n by omega)]
      · simp only
        rw [Function.update_of_ne (by omega), Function.update_of_ne (by omega),
          Function.update_of_ne (by omega)]
      · simp [Block.header]
      · simp only
        rw [Function.update_of_ne (by omega), Function.update_of_ne (by omega),
          Function.update_self]
        rfl
      · obtain ⟨rfl, rfl⟩ := List.cons.inj hys
        simp only
        rw [Function.update_of_ne (by omega), Function.update_self, hy]
        rfl
      · obtain ⟨rfl, rfl⟩ := List.cons.inj hys
        simp only
        rw [Function.update_of_ne (by omega), Function.update_of_ne (by omega),
          Function.update_of_ne (by omega)]

/-- `TakeBlock` on a free block that is large enough: either the rest stays behind as a
free block, or the whole block is handed out. -/
theorem Tiles.takeBlock {s : CRingBufferBase} {xs ys : List Block} {n w : Nat}
    (h : Tiles s (xs ++ ⟨true, n⟩ :: ys)) (hw : 0 < w ∧ ITEM_SIZE ∣ w)
    (hmax : (w : Int) + ITEM_SIZE ≤ intMax) :
    ∃ t, s.TakeBlock (RingBuffer.extent xs) w = .ok t ∧
      t.m_pConsume = s.m_pConsume ∧ t.m_Flags = s.m_Flags ∧
      t.m_PopCallback = s.m_PopCallback ∧
      ((w + ITEM_SIZE < n ∧ Tiles t (xs ++ ⟨false, w⟩ :: ⟨true, n - w⟩ :: ys) ∧
          t.m_pProduce = RingBuffer.extent xs + w) ∨
        (n ≤ w + ITEM_SIZE ∧ Tiles t (xs ++ ⟨false, n⟩ :: ys) ∧
          t.m_pProduce = s.NextBlock (RingBuffer.extent xs))) := by
  unfold CRingBufferBase.TakeBlock
  by_cases hlt : w + ITEM_SIZE < n
  · obtain ⟨t, hsplit, htiles, hconsume, hflags, hpop⟩ := h.splitBlock hw hlt hmax
    have hnext := htiles.nextBlock
    rw [hsplit]
    exact ⟨_, rfl, hconsume, hflags, hpop,
      .inl ⟨hlt, (htiles.withProduce _).setFree false, hnext⟩⟩
  · have hskip : s.SplitBlock (RingBuffer.extent xs) w = .ok s := by
      unfold CRingBufferBase.SplitBlock
      rw [if_neg (by omega), h.header, if_neg (by simp only [Block.header]; omega)]
    rw [hskip]
    exact ⟨_, rfl, rfl, rfl, rfl, .inr ⟨by omega, (h.withProduce _).setFree false, rfl⟩⟩

end Fex.Engine.RingBuffer
