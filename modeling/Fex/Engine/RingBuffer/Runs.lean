import Fex.Engine.RingBuffer.Queue
import Fex.Lib.Run

/-!
# Runs of the ring buffer

Every run of `Allocate`, `PopFirst` and `Clear` in which no `Allocate` leaves
`int` keeps the tiling, keeps both pointers on it, and keeps the used blocks
equal to what was allocated and not yet popped, in order.
-/

namespace Fex.Engine.RingBuffer

open Fex.Lib Fex.Lib.BlockList CRingBufferBase

namespace CRingBufferBase

/-- Headers met by following `m_pNext`. -/
def Chain (s : CRingBufferBase) : Nat → Option Nat → List Nat
  | 0, _ => []
  | _, none => []
  | n + 1, some p => p :: Chain s n (s.m_aItems p).m_pNext

/-- The blocks linked from `m_pFirst`. -/
def Blocks (s : CRingBufferBase) : List Nat := s.Chain s.fuel (some s.m_pFirst)

/-- `n` blocks read circularly from `p`. -/
def Circle (s : CRingBufferBase) : Nat → Nat → List Nat
  | 0, _ => []
  | n + 1, p => p :: Circle s n (s.NextBlock p)

/-- The used blocks read circularly from `m_pConsume`. -/
def LiveItems (s : CRingBufferBase) : List Nat :=
  (s.Circle s.Blocks.length s.m_pConsume).filter fun p => !(s.m_aItems p).m_Free

end CRingBufferBase

theorem chain_eq {s : CRingBufferBase} {p : Option Nat} {a : Nat} {bs : List Block} {n : Nat}
    (h : Seg Block.header Block.size s.m_aItems p a bs none) (hn : bs.length < n) :
    s.Chain n (link a bs none) = addrs Block.size a bs := by
  induction bs generalizing p a n with
  | nil =>
      obtain ⟨n, rfl⟩ := Nat.exists_eq_add_of_lt hn
      rfl
  | cons b bs ih =>
      rw [List.length_cons] at hn
      cases n with
      | zero => omega
      | succ n =>
          have htail := ih h.2 (show bs.length < n by omega)
          show a :: s.Chain n (s.m_aItems a).m_pNext = a :: addrs Block.size (a + b.size) bs
          rw [h.1, ← htail]
          rfl

theorem Tiles.blocks_eq {s : CRingBufferBase} {bs : List Block} (h : Tiles s bs) :
    s.Blocks = addrs Block.size 0 bs := by
  have hlen := h.length_le
  cases bs with
  | nil => simpa [lastAddr] using h.last
  | cons b bs =>
      have := chain_eq (n := s.fuel) h.seg (by unfold fuel; omega)
      unfold Blocks
      rw [h.first]
      exact this

theorem circle_run {s : CRingBufferBase} {ws xs ys : List Block} (hys : ys ≠ [])
    (h : Tiles s (ws ++ (xs ++ ys))) :
    s.Circle xs.length (extent ws) = addrs Block.size (extent ws) xs := by
  induction xs generalizing ws with
  | nil => rfl
  | cons x xs ih =>
      have hstep : s.NextBlock (extent ws) = extent (ws ++ [x]) := by
        cases hxy : xs ++ ys with
        | nil => simp [hys] at hxy
        | cons y rest =>
            have h' : Tiles s (ws ++ x :: y :: rest) := by simpa [hxy] using h
            simpa using h'.nextBlock
      have := @ih (ws ++ [x]) (by simpa using h)
      simp only [List.length_cons, CRingBufferBase.Circle, addrs, hstep, this]
      simp

theorem circle_wrap {s : CRingBufferBase} {xs ys : List Block} (hys : ys ≠ [])
    (h : Tiles s (xs ++ ys)) (k : Nat) :
    s.Circle (ys.length + k) (extent xs) =
      addrs Block.size (extent xs) ys ++ s.Circle k 0 := by
  induction ys generalizing xs with
  | nil => exact absurd rfl hys
  | cons y ys ih =>
      have hlen : (y :: ys).length + k = ys.length + k + 1 := by
        rw [List.length_cons]
        omega
      rw [hlen]
      cases ys with
      | nil =>
          have hstep : s.NextBlock (extent xs) = 0 := h.nextBlock_last
          simp [CRingBufferBase.Circle, addrs, hstep]
      | cons z ys =>
          have hstep : s.NextBlock (extent xs) = extent (xs ++ [y]) := by simpa using h.nextBlock
          have := @ih (xs ++ [y]) (by simp) (by simpa using h)
          simp only [CRingBufferBase.Circle, hstep, this]
          simp [addrs]

theorem filter_addrs {s : CRingBufferBase} {p n : Option Nat} {a : Nat} {bs : List Block}
    (h : Seg Block.header Block.size s.m_aItems p a bs n) :
    (addrs Block.size a bs).filter (fun q => !(s.m_aItems q).m_Free) = usedAddrs a bs := by
  induction bs generalizing p a with
  | nil => rfl
  | cons b bs ih =>
      have hb : (s.m_aItems a).m_Free = b.free := by rw [h.1]; rfl
      by_cases hfree : b.free <;>
        simp [addrs, usedAddrs, hb, hfree, ih h.2]

theorem Represents.liveItems {s : CRingBufferBase} {L : Layout} (h : Represents s L) :
    s.LiveItems = L.live := by
  have habove : L.above ≠ [] := by
    cases L with
    | linear before us after => simp [Layout.above]
    | wrapped new mid old after =>
        obtain ⟨o, old, rfl⟩ := List.exists_cons_of_ne_nil h.valid
        simp [Layout.above]
  have htiles : Tiles s (L.below ++ L.above) := h.tiles
  have hseg := (seg_append _ _ _ _ _ _ _ _).mp htiles.seg
  have hlen : s.Blocks.length = L.above.length + L.below.length := by
    rw [htiles.blocks_eq]
    simp [Nat.add_comm]
  have hrun := @circle_run s [] _ _ habove (by simpa using htiles)
  rw [extent_nil] at hrun
  unfold LiveItems
  rw [hlen, h.consume, Layout.consume, circle_wrap habove htiles, hrun, List.filter_append,
    filter_addrs hseg.1]
  have := filter_addrs hseg.2
  rw [total_size, Nat.zero_add] at this
  rw [this]
  rfl

theorem Represents.produce_mem {s : CRingBufferBase} {L : Layout} (h : Represents s L) :
    s.m_pProduce ∈ s.Blocks := by
  rw [h.tiles.blocks_eq, h.produce]
  cases L with
  | linear before us after =>
      simp [Layout.blocks, Layout.below, Layout.above, Layout.produce, addrs]
  | wrapped new mid old after =>
      obtain ⟨o, old, rfl⟩ := List.exists_cons_of_ne_nil h.valid
      cases mid <;> simp [Layout.blocks, Layout.below, Layout.above, Layout.produce, addrs]

theorem Represents.consume_mem {s : CRingBufferBase} {L : Layout} (h : Represents s L) :
    s.m_pConsume ∈ s.Blocks := by
  rw [h.tiles.blocks_eq, h.consume, Layout.consume]
  cases L with
  | linear before us after =>
      cases us <;> simp [Layout.blocks, Layout.below, Layout.above, addrs]
  | wrapped new mid old after =>
      obtain ⟨o, old, rfl⟩ := List.exists_cons_of_ne_nil h.valid
      simp [Layout.blocks, Layout.below, Layout.above, addrs]

/-! ## Runs -/

/-- A ring buffer in use: `allocated` are the blocks handed out since the last `Clear`, oldest
first, and `cleared` is how often the callback had been called by then. -/
structure Session where
  ring : CRingBufferBase
  allocated : List Nat
  cleared : Nat

inductive Call
  | Allocate (Size : Nat)
  | PopFirst
  | Clear

def start (mem : Nat → CItem) (Size Flags : Nat) : Session :=
  { ring := Init mem Size Flags, allocated := [], cleared := 0 }

def step (s : Session) : Call → Exec Session
  | .Allocate Size => do
      let (ring, pBlock?) ← s.ring.Allocate Size
      return { s with ring := ring, allocated := s.allocated ++ pBlock?.toList }
  | .PopFirst => do
      let (ring, _) ← s.ring.PopFirst
      return { s with ring := ring }
  | .Clear =>
      .ok { ring := s.ring.Clear, allocated := [], cleared := s.ring.m_PopCallback.length }

/-- No `Allocate` leaves the range of `int`. -/
def InRange (s : Session) : Call → Prop
  | .Allocate Size => FitsInt s.ring Size
  | .PopFirst => True
  | .Clear => True

/-- Blocks allocated since the last `Clear` and not popped yet, oldest first. -/
def Session.unpopped (s : Session) : List Nat :=
  s.allocated.drop (s.ring.m_PopCallback.length - s.cleared)

/-- What every state of a run satisfies. -/
structure RingInvariant (s : Session) : Prop where
  tiles : ∃ bs, Tiles s.ring bs
  produce : s.ring.m_pProduce ∈ s.ring.Blocks
  consume : s.ring.m_pConsume ∈ s.ring.Blocks
  /-- Items leave in the order in which they were allocated. -/
  popped : s.ring.m_PopCallback.drop s.cleared ++ s.unpopped = s.allocated
  live : s.ring.LiveItems = s.unpopped

/-- The layout behind a state of a run, and the history that led to it. -/
structure Tracks (s : Session) (L : Layout) : Prop where
  represents : Represents s.ring L
  cleared : s.cleared ≤ s.ring.m_PopCallback.length
  history : s.allocated = s.ring.m_PopCallback.drop s.cleared ++ L.live

theorem Tracks.unpopped {s : Session} {L : Layout} (h : Tracks s L) : s.unpopped = L.live := by
  unfold Session.unpopped
  rw [h.history, List.drop_left' (by simp)]

theorem Tracks.invariant {s : Session} {L : Layout} (h : Tracks s L) : RingInvariant s where
  tiles := ⟨L.blocks, h.represents.tiles⟩
  produce := h.represents.produce_mem
  consume := h.represents.consume_mem
  popped := by rw [h.unpopped, h.history]
  live := by rw [h.unpopped, h.represents.liveItems]

theorem tracks_start {mem : Nat → CItem} {Size Flags : Nat} (hSize : ITEM_SIZE ≤ Size) :
    ∃ L, Tracks (start mem Size Flags) L := by
  have hpos : 0 < Size / ITEM_SIZE := Nat.div_pos hSize (by decide)
  exact ⟨_, represents_clear (Nat.mul_pos hpos (by decide)) (Nat.dvd_mul_left _ _),
    Nat.le_refl _, rfl⟩

theorem Tracks.size {s : Session} {L : Layout} (h : Tracks s L) :
    0 < s.ring.m_Size ∧ ITEM_SIZE ∣ s.ring.m_Size := by
  have hsum : ∀ bs : List Block, bs ≠ [] → (∀ b ∈ bs, 0 < b.size ∧ ITEM_SIZE ∣ b.size) →
      0 < extent bs ∧ ITEM_SIZE ∣ extent bs := by
    intro bs hbs
    induction bs with
    | nil => exact absurd rfl hbs
    | cons b bs ih =>
        intro hsizes
        have hb := hsizes b (by simp)
        cases bs with
        | nil => simpa using hb
        | cons c bs =>
            have := ih (by simp) (fun d hd => hsizes d (by simp [List.mem_cons.mp hd]))
            rw [extent_cons]
            exact ⟨by omega, Nat.dvd_add hb.2 this.2⟩
  rw [← h.represents.tiles.extent]
  refine hsum _ ?_ h.represents.tiles.sizes
  cases L with
  | linear before us after => simp [Layout.blocks, Layout.above]
  | wrapped new mid old after =>
      obtain ⟨o, old, rfl⟩ := List.exists_cons_of_ne_nil h.represents.valid
      simp [Layout.blocks, Layout.above]

/-- One call in range does not fault and keeps the invariant. -/
theorem Tracks.step {s : Session} {L : Layout} (h : Tracks s L) {op : Call}
    (hop : InRange s op) : ∃ t L', step s op = .ok t ∧ Tracks t L' := by
  cases op with
  | Allocate Size =>
      obtain ⟨t, L', r, popped, rest, halloc, hrep, hlive, hlive', hcall, -⟩ :=
        allocate_spec h.represents hop
      have hle := h.cleared
      refine ⟨{ s with ring := t, allocated := s.allocated ++ r.toList }, L', ?_, hrep, ?_, ?_⟩
      · simp only [RingBuffer.step, halloc]
        rfl
      · show s.cleared ≤ t.m_PopCallback.length
        rw [hcall, List.length_append]
        omega
      · show s.allocated ++ r.toList = t.m_PopCallback.drop s.cleared ++ L'.live
        rw [hcall, List.drop_append_of_le_length hle, h.history, hlive, hlive']
        simp
  | PopFirst =>
      rcases h.represents.popFirst with ⟨-, hpop⟩ | ⟨t, L', p, hpop, hrep, hlive, -, hcall, -⟩
      · refine ⟨s, L, ?_, h⟩
        simp only [RingBuffer.step, hpop]
        rfl
      · have hle := h.cleared
        refine ⟨{ s with ring := t }, L', ?_, hrep, ?_, ?_⟩
        · simp only [RingBuffer.step, hpop]
          rfl
        · show s.cleared ≤ t.m_PopCallback.length
          rw [hcall, List.length_append]
          omega
        · show s.allocated = t.m_PopCallback.drop s.cleared ++ L'.live
          rw [hcall, List.drop_append_of_le_length hle, h.history, hlive]
          simp
  | Clear =>
      obtain ⟨hpos, hdvd⟩ := h.size
      refine ⟨_, _, rfl, represents_clear hpos hdvd, Nat.le_refl _, ?_⟩
      simp [Layout.live, Layout.above, Layout.below, Clear]

theorem tracks_reachable {mem : Nat → CItem} {Size Flags : Nat} (hSize : ITEM_SIZE ≤ Size)
    {s : Session} (h : Reachable step InRange (start mem Size Flags) s) : ∃ L, Tracks s L := by
  apply @Reachable.invariant _ _ _ _ _ _ (fun s => ∃ L, Tracks s L) h (tracks_start hSize)
  intro s t op hs hop hstep
  obtain ⟨L, hL⟩ := hs
  obtain ⟨t', L', hstep', hL'⟩ := hL.step hop
  rw [hstep] at hstep'
  cases hstep'
  exact ⟨L', hL'⟩

/-- `PopFirst` removes the oldest used block, if there is one. -/
def PopsOldest (s : CRingBufferBase) : Prop :=
  (s.LiveItems = [] ∧ s.PopFirst = .ok (s, false)) ∨
    ∃ t p, s.PopFirst = .ok (t, true) ∧ s.LiveItems = p :: t.LiveItems ∧
      t.m_PopCallback = s.m_PopCallback ++ [p]

/-- `Allocate` pops oldest blocks only, none without the flag, and appends the new block; with
the flag it succeeds whenever the rounded size fits. -/
def AllocatesNewest (s : CRingBufferBase) (Size : Nat) : Prop :=
  ∃ t r popped rest, s.Allocate Size = .ok (t, r) ∧ s.LiveItems = popped ++ rest ∧
    t.LiveItems = rest ++ r.toList ∧ t.m_PopCallback = s.m_PopCallback ++ popped ∧
    (¬ s.Recycles → popped = []) ∧ (s.Recycles → RoundedSize Size ≤ s.m_Size → r ≠ none)

/-- Every state of a run in range satisfies the invariant, the next call in range does not
fault, and the calls act as those of a queue. -/
theorem ring_buffer_runs {mem : Nat → CItem} {Size Flags : Nat} (hSize : ITEM_SIZE ≤ Size)
    {s : Session} (h : Reachable step InRange (start mem Size Flags) s) :
    RingInvariant s ∧ (∀ op, InRange s op → ∃ t, step s op = .ok t) ∧
      PopsOldest s.ring ∧ ∀ n, FitsInt s.ring n → AllocatesNewest s.ring n := by
  obtain ⟨L, hL⟩ := tracks_reachable hSize h
  have hlive := hL.represents.liveItems
  refine ⟨hL.invariant, ?_, ?_, ?_⟩
  · intro op hop
    obtain ⟨t, _, hstep, _⟩ := hL.step hop
    exact ⟨t, hstep⟩
  · rcases hL.represents.popFirst with ⟨hnil, hpop⟩ | ⟨t, L', p, hpop, hrep, hcons, -, hcall, -⟩
    · exact .inl ⟨hlive.trans hnil, hpop⟩
    · exact .inr ⟨t, p, hpop, by rw [hlive, hrep.liveItems, hcons], hcall⟩
  · intro n hn
    obtain ⟨t, L', r, popped, rest, halloc, hrep, hsplit, hlive', hcall, -, -, hno, hyes⟩ :=
      allocate_spec hL.represents hn
    exact ⟨t, r, popped, rest, halloc, hlive.trans hsplit, hrep.liveItems.trans hlive', hcall,
      hno, hyes⟩

/-- Memory whose headers hold zeros. -/
def zeroed : Nat → CItem := fun _ => { m_pPrev := none, m_pNext := none, m_Free := false, m_Size := 0 }

/-- Two allocations and a pop in a buffer of four headers. -/
theorem ring_buffer_runs_small :
    ∃ s, Reachable step InRange (start zeroed 96 0) s ∧ s.unpopped = [48] ∧
      RingInvariant s ∧ (∀ op, InRange s op → ∃ t, step s op = .ok t) ∧
      PopsOldest s.ring ∧ ∀ n, FitsInt s.ring n → AllocatesNewest s.ring n := by
  have h₁ : Reachable step InRange (start zeroed 96 0) (start zeroed 96 0) := .init
  have h₂ := Reachable.next (Call.Allocate 24) h₁ (Or.inl (by decide)) rfl
  have h₃ := Reachable.next (Call.Allocate 24) h₂ (Or.inl (by decide)) rfl
  have h₄ := Reachable.next Call.PopFirst h₃ trivial rfl
  exact ⟨_, h₄, rfl, ring_buffer_runs (by decide) h₄⟩

/-- The size of the largest `int` is rounded up past it: the block is taken to fit, and its end
lies two gigabytes before the buffer. -/
theorem ring_buffer_overflow :
    step (start zeroed 32768 0) (.Allocate 2147483647) = .error .outOfBounds := by
  rfl

end Fex.Engine.RingBuffer
