import Fex.Engine.RingBuffer.Runs
import Fex.Engine.RingBuffer.Walk
import Mathlib.Data.List.Induction

/-!
# Walking in both directions

`Last` and `Prev` go from the produce block backwards around the buffer until
they are back at it.  They meet every block but the produce block itself, which
is a live one when the buffer is full to the last byte.
-/

namespace Fex.Engine.RingBuffer

open Fex.Lib Fex.Lib.BlockList CRingBufferBase

/-! ## Paths -/

/-- `step` leads from `p` over `xs` to `q`. -/
def Path (step : Nat → Nat) : Nat → List Nat → Nat → Prop
  | p, [], q => step p = q
  | p, x :: xs, q => step p = x ∧ Path step x xs q

theorem path_append {step : Nat → Nat} {p q r : Nat} {xs ys : List Nat} :
    Path step p (xs ++ q :: ys) r ↔ Path step p xs q ∧ Path step q ys r := by
  induction xs generalizing p with
  | nil => rfl
  | cons x xs ih => simp only [List.cons_append, Path, ih, and_assoc]

section Walk

variable {s : CRingBufferBase} {step : Nat → Nat}

/-- The used blocks among some addresses. -/
def CRingBufferBase.UsedAmong (s : CRingBufferBase) (xs : List Nat) : List Nat :=
  xs.filter fun p => !(s.m_aItems p).m_Free

theorem walk_path {p n : Nat} {xs : List Nat} (hpath : Path step p xs s.m_pProduce)
    (hxs : s.m_pProduce ∉ xs) (hn : xs.length < n) :
    Walk step s n p = .ok (s.UsedAmong xs).head? := by
  induction xs generalizing p n with
  | nil =>
      obtain ⟨n, rfl⟩ := Nat.exists_eq_add_of_lt hn
      have hp : step p = s.m_pProduce := hpath
      simp [Walk, hp, UsedAmong]
  | cons x xs ih =>
      obtain ⟨n, rfl⟩ : ∃ m, n = m + 1 := ⟨n - 1, by rw [List.length_cons] at hn; omega⟩
      rw [List.mem_cons, not_or] at hxs
      rw [List.length_cons] at hn
      have hrest := ih hpath.2 hxs.2 (show xs.length < n by omega)
      unfold Walk
      rw [hpath.1]
      simp only [if_neg (Ne.symm hxs.1), hrest]
      cases hfree : (s.m_aItems x).m_Free <;> simp [UsedAmong, hfree]

/-- Every used block of a path is followed by the next one. -/
theorem linked_path {p : Nat} {xs : List Nat} (hpath : Path step p xs s.m_pProduce)
    (hxs : s.m_pProduce ∉ xs) (hn : xs.length < s.fuel) :
    Linked (Walk step s s.fuel) (s.UsedAmong xs) none := by
  induction xs generalizing p with
  | nil => trivial
  | cons x xs ih =>
      rw [List.mem_cons, not_or] at hxs
      rw [List.length_cons] at hn
      have hrest := ih hpath.2 hxs.2 (by omega)
      unfold UsedAmong
      rw [List.filter_cons]
      split
      · refine ⟨?_, hrest⟩
        rw [Option.or_none]
        exact walk_path hpath.2 hxs.2 (by omega)
      · exact hrest

end Walk

/-! ## The blocks backwards -/

section Backwards

variable {s : CRingBufferBase}

theorem Tiles.prevBlock {ws ys : List Block} {b y : Block} (h : Tiles s (ws ++ b :: y :: ys)) :
    s.PrevBlock (RingBuffer.extent ws + b.size) = RingBuffer.extent ws := by
  have hy := Tiles.header (ws ++ [b]) y (by simpa using h)
  have hext : RingBuffer.extent (ws ++ [b]) = RingBuffer.extent ws + b.size := by simp
  unfold CRingBufferBase.PrevBlock
  rw [← hext, hy, lastAddr_append_cons]
  simp [Block.header, lastAddr]

theorem Tiles.prevBlock_first {y : Block} {ys : List Block} (h : Tiles s (y :: ys)) :
    s.PrevBlock 0 = s.m_pLast := by
  have hy := Tiles.header [] y h
  rw [extent_nil] at hy
  unfold CRingBufferBase.PrevBlock
  rw [hy]
  rfl

theorem Tiles.last_eq {ws : List Block} {b : Block} (h : Tiles s (ws ++ [b])) :
    s.m_pLast = RingBuffer.extent ws := by
  have hlast := h.last
  rw [lastAddr_append_cons] at hlast
  simpa [lastAddr] using hlast.symm

/-- From a block down to an earlier one. -/
theorem Tiles.path_back {ws ms rest : List Block} {b c : Block}
    (h : Tiles s (ws ++ b :: ms ++ c :: rest)) :
    Path s.PrevBlock (RingBuffer.extent (ws ++ b :: ms))
      (addrs Block.size (RingBuffer.extent ws + b.size) ms).reverse (RingBuffer.extent ws) := by
  induction ms using List.reverseRecOn generalizing c rest with
  | nil =>
      have hprev := @Tiles.prevBlock _ ws rest b c (by simpa using h)
      simpa [Path, addrs] using hprev
  | append_singleton ms m ih =>
      have hprev := @Tiles.prevBlock _ (ws ++ b :: ms) rest m c (by simpa using h)
      have hhead : RingBuffer.extent (ws ++ b :: (ms ++ [m])) = RingBuffer.extent (ws ++ b :: ms) + m.size := by
        simp [Nat.add_assoc]
      have haddrs : (addrs Block.size (RingBuffer.extent ws + b.size) (ms ++ [m])).reverse =
          RingBuffer.extent (ws ++ b :: ms) :: (addrs Block.size (RingBuffer.extent ws + b.size) ms).reverse := by
        rw [addrs_append]
        simp [addrs, Nat.add_assoc]
      rw [haddrs, hhead]
      exact ⟨hprev, @ih (c :: rest) m (by simpa using h)⟩

/-- Backwards around the whole buffer. -/
theorem Tiles.path_around {xs ys : List Block} {b : Block} (h : Tiles s (xs ++ b :: ys)) :
    Path s.PrevBlock (RingBuffer.extent xs) ((addrs Block.size 0 xs).reverse ++
      (addrs Block.size (RingBuffer.extent xs + b.size) ys).reverse) (RingBuffer.extent xs) := by
  -- down to the first block and on to the last one
  have hdown : Path s.PrevBlock (RingBuffer.extent xs) (addrs Block.size 0 xs).reverse s.m_pLast := by
    cases xs with
    | nil => exact h.prevBlock_first
    | cons x xs =>
        have hpath := @Tiles.path_back _ [] xs ys x b (by simpa using h)
        have haddrs : (addrs Block.size 0 (x :: xs)).reverse =
            (addrs Block.size (RingBuffer.extent [] + x.size) xs).reverse ++ 0 :: [] := by
          simp [addrs]
        rw [haddrs, path_append]
        exact ⟨by simpa using hpath, h.prevBlock_first⟩
  cases ys using List.reverseRecOn with
  | nil =>
      rw [h.last_eq] at hdown
      simpa [addrs] using hdown
  | append_singleton ys y =>
      have hlast := @Tiles.last_eq _ (xs ++ b :: ys) y (by simpa using h)
      have haddrs : (addrs Block.size (RingBuffer.extent xs + b.size) (ys ++ [y])).reverse =
          s.m_pLast :: (addrs Block.size (RingBuffer.extent xs + b.size) ys).reverse := by
        rw [hlast, addrs_append]
        simp [addrs, Nat.add_assoc]
      rw [haddrs, path_append]
      refine ⟨hdown, ?_⟩
      rw [hlast]
      exact @Tiles.path_back _ xs ys [] b y (by simpa using h)

end Backwards

/-! ## Both directions -/

namespace CRingBufferBase

/-- The items met from `p` on until `next` gives null. -/
def Visit (next : Nat → Exec (Option Nat)) : Nat → Option Nat → Exec (List Nat)
  | _, none => .ok []
  | 0, some _ => .error .diverges
  | n + 1, some p => do
      let q ← next p
      let ps ← Visit next n q
      return p :: ps

/-- `First()`, `Next(First())`, and so on. -/
def Forwards (s : CRingBufferBase) : Exec (List Nat) := Visit s.Next s.fuel s.First

/-- `Last()`, `Prev(Last())`, and so on. -/
def Backwards (s : CRingBufferBase) : Exec (List Nat) := do
  Visit s.Prev s.fuel (← s.Last)

end CRingBufferBase

theorem visit_linked {next : Nat → Exec (Option Nat)} {ps : List Nat} {n : Nat}
    (h : Linked next ps none) (hn : ps.length ≤ n) : Visit next n ps.head? = .ok ps := by
  induction ps generalizing n with
  | nil => cases n <;> rfl
  | cons p ps ih =>
      obtain ⟨n, rfl⟩ : ∃ m, n = m + 1 := ⟨n - 1, by rw [List.length_cons] at hn; omega⟩
      rw [List.length_cons] at hn
      have hrest := @ih n h.2 (by omega)
      have hnext : next p = .ok ps.head? := by rw [h.1, Option.or_none]
      show (do return p :: (← Visit next n (← next p))) = _
      rw [hnext]
      show (do return p :: (← Visit next n ps.head?)) = _
      rw [hrest]
      rfl

section Directions

variable {s : CRingBufferBase} {L : Layout}

theorem Represents.forwards (h : Represents s L) : s.Forwards = .ok L.live := by
  unfold Forwards
  rw [h.first]
  exact visit_linked h.linked (Nat.le_of_lt h.live_lt_fuel)

/-- The blocks before and behind the produce block. -/
theorem Represents.split (h : Represents s L) : ∃ xs b ys, L.blocks = xs ++ b :: ys ∧
    s.m_pProduce = extent xs ∧
    usedAddrs (extent xs + b.size) ys ++ usedAddrs 0 xs = if b.free then L.live else L.live.tail := by
  rw [h.produce]
  cases L with
  | linear before us after =>
      refine ⟨gap before ++ used us, ⟨true, after⟩, [], ?_, rfl, ?_⟩
      · simp [Layout.blocks, Layout.below, Layout.above]
      · simp [Layout.live, Layout.below, Layout.above]
  | wrapped new mid old after =>
      cases mid with
      | some m =>
          refine ⟨used new, ⟨true, m⟩, used old ++ gap after, ?_, rfl, ?_⟩
          · simp [Layout.blocks, Layout.below, Layout.above]
          · simp [Layout.live, Layout.below, Layout.above]
      | none =>
          obtain ⟨o, old, rfl⟩ := List.exists_cons_of_ne_nil h.valid
          refine ⟨used new, ⟨false, o⟩, used old ++ gap after, ?_, rfl, ?_⟩
          · simp [Layout.blocks, Layout.below, Layout.above]
          · simp [Layout.live, Layout.below, Layout.above]

/-- The walk backwards meets every live block, but not the produce block. -/
theorem Represents.backwards (h : Represents s L) : s.Backwards =
    .ok (if (s.m_aItems s.m_pProduce).m_Free then L.live else L.live.tail).reverse := by
  obtain ⟨xs, b, ys, hblocks, hproduce, hlive⟩ := h.split
  have htiles := h.tiles
  rw [hblocks] at htiles
  obtain ⟨back, hback⟩ : ∃ back, back = (addrs Block.size 0 xs).reverse ++
      (addrs Block.size (extent xs + b.size) ys).reverse := ⟨_, rfl⟩
  have hpath := htiles.path_around
  rw [← hback, ← hproduce] at hpath
  have hfree : (s.m_aItems s.m_pProduce).m_Free = b.free := by
    rw [hproduce, Tiles.header xs b htiles]
    rfl
  -- the used blocks on the way are those of the layout
  have hseg := (seg_append _ _ _ _ _ _ _ _).mp htiles.seg
  have hused : s.UsedAmong back = (if b.free then L.live else L.live.tail).reverse := by
    have hys := filter_addrs hseg.2.2
    rw [total_size, Nat.zero_add] at hys
    rw [hback, UsedAmong, List.filter_append, List.filter_reverse, List.filter_reverse,
      filter_addrs hseg.1, hys, ← hlive, List.reverse_append]
  have hmem : s.m_pProduce ∉ back := by
    have hpos := htiles.pos
    have hb := hpos b (by simp)
    rw [hback, List.mem_append, List.mem_reverse, List.mem_reverse, hproduce, not_or]
    constructor
    · intro hmem
      have hlt := (addrs_bounds Block.size (fun c hc => hpos c (by simp [hc])) hmem).2
      rw [total_size] at hlt
      omega
    · intro hmem
      have hle := (addrs_bounds Block.size (fun c hc => hpos c (by simp [hc])) hmem).1
      omega
  have hlen : back.length < s.fuel := by
    have hle := htiles.length_le
    rw [List.length_append, List.length_cons] at hle
    rw [hback, List.length_append, List.length_reverse, List.length_reverse, length_addrs,
      length_addrs]
    unfold fuel
    omega
  have hlast : s.Last = .ok (s.UsedAmong back).head? := walk_path hpath hmem hlen
  have hlinked : Linked s.Prev (s.UsedAmong back) none := linked_path hpath hmem hlen
  unfold Backwards
  rw [hlast, hfree, ← hused]
  apply visit_linked hlinked
  exact Nat.le_of_lt (Nat.lt_of_le_of_lt (List.length_filter_le _ _) hlen)

end Directions

/-- Both walks list the live items, the first from the oldest to the newest and the second in
the opposite order. -/
structure WalksAgree (s : Session) : Prop where
  forwards : s.ring.Forwards = .ok s.unpopped
  once : s.unpopped.Nodup
  backwards : s.ring.Backwards = .ok s.unpopped.reverse

/-- In every state of a run in range the walks agree exactly if the produce block is free. -/
theorem walks_agree_iff {mem : Nat → CItem} {Size Flags : Nat} (hSize : ITEM_SIZE ≤ Size)
    {s : Session} (h : Reachable step InRange (start mem Size Flags) s) :
    WalksAgree s ↔ (s.ring.m_aItems s.ring.m_pProduce).m_Free = true := by
  obtain ⟨L, hL⟩ := tracks_reachable hSize h
  have hforwards := hL.represents.forwards
  have hbackwards := hL.represents.backwards
  have hnodup := hL.represents.nodup
  rw [← hL.unpopped] at hforwards hbackwards hnodup
  constructor
  · intro hagree
    by_contra hused
    rw [if_neg hused, hagree.backwards] at hbackwards
    have hlen := congrArg List.length (Except.ok.inj hbackwards)
    rw [List.length_reverse, List.length_reverse, List.length_tail] at hlen
    have hnil : L.live = [] := by
      apply List.eq_nil_of_length_eq_zero
      rw [← hL.unpopped]
      omega
    apply checkForSpace_empty (w := 0) hL.represents hnil (Int.natCast_nonneg _)
    unfold CheckForSpace
    rw [if_neg hused]
  · intro hfree
    rw [if_pos hfree] at hbackwards
    exact ⟨hforwards, hnodup, hbackwards⟩

/-- After one allocation in a buffer of four headers. -/
theorem walks_agree_small :
    ∃ s, Reachable step InRange (start zeroed 96 0) s ∧ s.unpopped = [0] ∧ WalksAgree s := by
  have h₁ : Reachable step InRange (start zeroed 96 0) (start zeroed 96 0) := .init
  have h₂ := Reachable.next (Call.Allocate 24) h₁ (Or.inl (by decide)) rfl
  exact ⟨_, h₂, rfl, (walks_agree_iff (by decide) h₂).mpr rfl⟩

/-- Two allocations fill the same buffer: the walk backwards misses the older item. -/
theorem walks_disagree_full :
    ∃ s, Reachable step InRange (start zeroed 96 0) s ∧ s.ring.Forwards = .ok [0, 48] ∧
      s.ring.Backwards = .ok [48] ∧ ¬ WalksAgree s := by
  have h₁ : Reachable step InRange (start zeroed 96 0) (start zeroed 96 0) := .init
  have h₂ := Reachable.next (Call.Allocate 24) h₁ (Or.inl (by decide)) rfl
  have h₃ := Reachable.next (Call.Allocate 24) h₂ (Or.inl (by decide)) rfl
  refine ⟨_, h₃, rfl, rfl, fun hagree => ?_⟩
  have hlist : [48] = [48, 0] := Except.ok.inj hagree.backwards
  cases hlist

end Fex.Engine.RingBuffer
