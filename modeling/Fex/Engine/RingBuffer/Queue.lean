import Fex.Engine.RingBuffer.Invariant

/-!
# The ring buffer is a queue

`Allocate` appends to the used blocks, `PopFirst` removes the oldest, and a
recycling `Allocate` pops oldest items until the block fits.
-/

namespace Fex.Engine.RingBuffer

open Fex.Lib Fex.Lib.BlockList CRingBufferBase

/-! ## Fields the operations leave alone -/

@[simp] theorem setItem_size (s : CRingBufferBase) (p : Nat) (f : CItem → CItem) :
    (s.setItem p f).m_Size = s.m_Size := rfl

@[simp] theorem mergeBack_size (s : CRingBufferBase) (p : Nat) :
    (s.MergeBack p).1.m_Size = s.m_Size := by
  unfold MergeBack
  cases (s.m_aItems p).m_pPrev with
  | none => rfl
  | some q =>
      dsimp only
      split
      · rfl
      · cases (s.m_aItems p).m_pNext <;> rfl

theorem catchUp_size {n : Nat} {s t : CRingBufferBase} (h : CatchUp n s = .ok t) :
    t.m_Size = s.m_Size := by
  induction n generalizing s with
  | zero => cases h
  | succ n ih =>
      unfold CatchUp at h
      split at h
      · exact (ih h).trans (mergeBack_size s _)
      · cases h
        rfl

theorem popFirst_size {s t : CRingBufferBase} {b : Bool} (h : s.PopFirst = .ok (t, b)) :
    t.m_Size = s.m_Size := by
  by_cases hfree : (s.m_aItems s.m_pConsume).m_Free
  · simp only [PopFirst, hfree, if_true, Except.ok.injEq, Prod.mk.injEq] at h
    rw [← h.1]
  · rw [popFirst_eq s (by simpa using hfree)] at h
    cases hcatch : CatchUp (Freed s).1.fuel
        { (Freed s).1 with m_pConsume := (Freed s).1.NextBlock (Freed s).2 } with
    | error e =>
        rw [hcatch] at h
        cases h
    | ok v =>
        rw [hcatch] at h
        cases h
        rw [mergeBack_size, catchUp_size hcatch]
        exact mergeBack_size _ _

theorem takeBlock_size {s t : CRingBufferBase} {p : Nat} {w : Int} (h : s.TakeBlock p w = .ok t) :
    t.m_Size = s.m_Size := by
  unfold TakeBlock at h
  cases hsplit : s.SplitBlock p w with
  | error e =>
      rw [hsplit] at h
      cases h
  | ok u =>
      rw [hsplit] at h
      cases h
      show u.m_Size = s.m_Size
      unfold SplitBlock at hsplit
      split at hsplit
      · cases hsplit
      · split at hsplit
        · dsimp only at hsplit
          split at hsplit
          · cases hsplit
          · cases hsplit
            cases (s.m_aItems p).m_pNext <;> rfl
        · cases hsplit
          rfl

/-! ## The two ends of a layout -/

/-- With no used block the buffer is one free block. -/
theorem live_eq_nil {L : Layout} (hv : L.Valid) (h : L.live = []) :
    ∃ after, L = .linear none [] after := by
  cases L with
  | linear before us after =>
      cases us with
      | nil => exact ⟨after, by rw [hv rfl]⟩
      | cons u us => simp [Layout.live, Layout.above] at h
  | wrapped new mid old after =>
      cases old with
      | nil => exact absurd rfl hv
      | cons u old => simp [Layout.live, Layout.above] at h

/-- `PopFirst` removes the oldest used block; there is nothing to pop exactly when no block
is used. -/
theorem Represents.popFirst {s : CRingBufferBase} {L : Layout} (h : Represents s L) :
    (L.live = [] ∧ s.PopFirst = .ok (s, false)) ∨
    ∃ t L' p, s.PopFirst = .ok (t, true) ∧ Represents t L' ∧ L.live = p :: L'.live ∧
      t.m_Flags = s.m_Flags ∧ t.m_PopCallback = s.m_PopCallback ++ [p] ∧
      t.m_Size = s.m_Size := by
  have hpop : ∀ {L : Layout}, (∃ t L', s.PopFirst = .ok (t, true) ∧ Represents t L' ∧
      L.live = s.m_pConsume :: L'.live ∧ t.m_Flags = s.m_Flags ∧
      t.m_PopCallback = s.m_PopCallback ++ [s.m_pConsume]) →
      ∃ t L' p, s.PopFirst = .ok (t, true) ∧ Represents t L' ∧ L.live = p :: L'.live ∧
      t.m_Flags = s.m_Flags ∧ t.m_PopCallback = s.m_PopCallback ++ [p] ∧
      t.m_Size = s.m_Size := by
    rintro L ⟨t, L', hpop, hrep, hlive, hflags, hcall⟩
    exact ⟨t, L', s.m_pConsume, hpop, hrep, hlive, hflags, hcall, popFirst_size hpop⟩
  cases L with
  | linear before us after =>
      cases us with
      | nil =>
          refine .inl ⟨by simp [Layout.live, Layout.above, Layout.below], ?_⟩
          have hbefore : before = none := h.valid rfl
          subst hbefore
          have hfree := Tiles.header [] ⟨true, after⟩ h.tiles
          have hconsume : s.m_pConsume = 0 := h.consume
          rw [extent_nil] at hfree
          simp [PopFirst, hconsume, hfree, Block.header]
      | cons u us => exact .inr (hpop (popFirst_linear h))
  | wrapped new mid old after =>
      cases old with
      | nil => exact absurd rfl h.valid
      | cons u old => exact .inr (hpop (popFirst_wrapped h))

theorem length_usedAddrs_le (a : Nat) (bs : List Block) :
    (usedAddrs a bs).length ≤ bs.length := by
  induction bs generalizing a with
  | nil => simp
  | cons b bs ih =>
      have := ih (a + b.size)
      by_cases hb : b.free <;> simp [usedAddrs, hb] <;> omega

theorem Tiles.length_le {s : CRingBufferBase} {bs : List Block} (h : Tiles s bs) :
    bs.length ≤ s.m_Size / ITEM_SIZE := by
  have key : ∀ cs : List Block, (∀ c ∈ cs, 0 < c.size ∧ ITEM_SIZE ∣ c.size) →
      cs.length * ITEM_SIZE ≤ RingBuffer.extent cs := by
    intro cs
    induction cs with
    | nil => simp
    | cons c cs ih =>
        intro hcs
        have hc := hcs c (by simp)
        have := Nat.le_of_dvd hc.1 hc.2
        have := ih (fun d hd => hcs d (by simp [hd]))
        simp only [List.length_cons, extent_cons, Nat.succ_mul]
        omega
  have := key bs h.sizes
  rw [h.extent] at this
  exact (Nat.le_div_iff_mul_le (by decide)).mpr this

theorem Represents.live_lt_fuel {s : CRingBufferBase} {L : Layout} (h : Represents s L) :
    L.live.length < s.fuel := by
  have h₁ := length_usedAddrs_le (extent L.below) L.above
  have h₂ := length_usedAddrs_le 0 L.below
  have h₃ := h.tiles.length_le
  simp only [Layout.blocks, List.length_append] at h₃
  simp only [Layout.live, List.length_append, fuel]
  omega

/-! ## Allocating -/

/-- An empty buffer has room for everything up to its size. -/
theorem checkForSpace_empty {s : CRingBufferBase} {L : Layout} (h : Represents s L)
    (hlive : L.live = []) {w : Int} (hw : w ≤ s.m_Size) : s.CheckForSpace w ≠ none := by
  obtain ⟨after, rfl⟩ := live_eq_nil h.valid hlive
  have hfree := Tiles.header [] ⟨true, after⟩ h.tiles
  have hproduce : s.m_pProduce = 0 := h.produce
  have hextent : after = s.m_Size := by
    simpa [Layout.blocks, Layout.below, Layout.above] using h.tiles.extent
  rw [extent_nil] at hfree
  simp [CheckForSpace, hproduce, hfree, Block.header, hextent, hw]

/-- The loop of `Allocate` pops oldest items only, none without the flag, and with the flag
it finds a block. -/
theorem findBlock_spec {n : Nat} {s : CRingBufferBase} {L : Layout} {w : Int}
    (h : Represents s L) (hw : w ≤ s.m_Size) (hn : L.live.length < n) :
    ∃ t L' r popped, FindBlock n s w = .ok (t, r) ∧ Represents t L' ∧
      L.live = popped ++ L'.live ∧ t.m_PopCallback = s.m_PopCallback ++ popped ∧
      t.m_Flags = s.m_Flags ∧ t.m_Size = s.m_Size ∧ t.CheckForSpace w = r ∧
      (¬ s.Recycles → t = s ∧ popped = []) ∧ (s.Recycles → r ≠ none) := by
  induction n generalizing s L with
  | zero => omega
  | succ n ih =>
      unfold FindBlock
      cases hspace : s.CheckForSpace w with
      | some p =>
          exact ⟨s, L, some p, [], rfl, h, rfl, by simp, rfl, rfl, hspace, fun _ => ⟨rfl, rfl⟩,
            by simp⟩
      | none =>
          by_cases hrec : s.Recycles
          · rcases h.popFirst with ⟨hnil, -⟩ | ⟨t, L', p, hpop, hrep, hlive, hflags, hcall, hsize⟩
            · exact absurd hspace (checkForSpace_empty h hnil hw)
            · have hrec' : t.Recycles := by rwa [Recycles, hflags]
              obtain ⟨u, L'', r, popped, hfind, hrep', hlive', hcall', hflags', hsize', hspace',
                -, hsome⟩ := ih hrep (by rw [hsize]; exact hw) (by
                  rw [hlive, List.length_cons] at hn
                  omega)
              refine ⟨u, L'', r, p :: popped, ?_, hrep', by rw [hlive, hlive']; rfl,
                by rw [hcall', hcall]; simp, hflags'.trans hflags, hsize'.trans hsize, hspace',
                fun hno => absurd hrec hno, fun _ => hsome hrec'⟩
              simp only
              rw [if_pos hrec, hpop]
              exact hfind
          · refine ⟨s, L, none, [], ?_, h, rfl, by simp, rfl, rfl, hspace, fun _ => ⟨rfl, rfl⟩,
              fun hyes => absurd hyes hrec⟩
            simp only
            rw [if_neg hrec]

theorem checkForSpace_linear {s : CRingBufferBase} {before : Option Nat} {us : List Nat}
    {after w p : Nat} (h : Represents s (.linear before us after))
    (hspace : s.CheckForSpace w = some p) :
    (w ≤ after ∧ p = s.m_pProduce) ∨
      ∃ b, before = some b ∧ us ≠ [] ∧ after < w ∧ w ≤ b ∧ p = 0 := by
  have htiles : Tiles s (gap before ++ used us ++ [⟨true, after⟩]) := by
    simpa [Layout.blocks, Layout.below, Layout.above] using h.tiles
  have hprod := htiles.header
  rw [show extent (gap before ++ used us) = s.m_pProduce from h.produce.symm] at hprod
  have hfirst := h.tiles.first
  simp only [CheckForSpace, hprod, Block.header, if_true, hfirst] at hspace
  by_cases hle : w ≤ after
  · rw [if_pos (by omega)] at hspace
    exact .inl ⟨hle, (Option.some.inj hspace).symm⟩
  · rw [if_neg (by omega)] at hspace
    right
    split at hspace
    · rename_i hfree
      simp only [Bool.and_eq_true, decide_eq_true_eq] at hfree
      obtain ⟨hfree, hsize⟩ := hfree
      have hp : p = 0 := (Option.some.inj hspace).symm
      cases before with
      | some b =>
          have h0 := Tiles.header [] ⟨true, b⟩ (by simpa using htiles)
          rw [extent_nil] at h0
          simp only [h0, Block.header] at hsize
          refine ⟨b, rfl, fun hus => ?_, by omega, by omega, hp⟩
          cases h.valid hus
      | none =>
          cases us with
          | nil =>
              have h0 := Tiles.header [] ⟨true, after⟩ (by simpa using htiles)
              rw [extent_nil] at h0
              simp only [h0, Block.header] at hsize
              omega
          | cons u us =>
              have h0 := Tiles.header [] ⟨false, u⟩ (by simpa using htiles)
              rw [extent_nil] at h0
              simp [h0, Block.header] at hfree
    · cases hspace

theorem checkForSpace_wrapped {s : CRingBufferBase} {new : List Nat} {mid : Option Nat}
    {old : List Nat} {after : Option Nat} {w p : Nat}
    (h : Represents s (.wrapped new mid old after)) (hspace : s.CheckForSpace w = some p) :
    ∃ m, mid = some m ∧ w ≤ m ∧ p = s.m_pProduce := by
  have htiles : Tiles s (used new ++ (gap mid ++ (used old ++ gap after))) := by
    simpa [Layout.blocks, Layout.below, Layout.above] using h.tiles
  have hproduce : s.m_pProduce = extent (used new) := h.produce
  have hfirst := h.tiles.first
  cases mid with
  | none =>
      cases old with
      | nil => exact absurd rfl h.valid
      | cons o old =>
          have hprod := Tiles.header (used new) ⟨false, o⟩ (by simpa using htiles)
          rw [← hproduce] at hprod
          simp [CheckForSpace, hprod, Block.header] at hspace
  | some m =>
      have hprod := Tiles.header (used new) ⟨true, m⟩ (by simpa using htiles)
      rw [← hproduce] at hprod
      simp only [CheckForSpace, hprod, Block.header, if_true, hfirst] at hspace
      by_cases hle : w ≤ m
      · rw [if_pos (by omega)] at hspace
        exact ⟨m, rfl, hle, (Option.some.inj hspace).symm⟩
      · rw [if_neg (by omega)] at hspace
        cases new with
        | nil =>
            have h0 := Tiles.header [] ⟨true, m⟩ (by simpa using htiles)
            rw [extent_nil] at h0
            simp [h0, Block.header] at hspace
            omega
        | cons u new =>
            have h0 := Tiles.header [] ⟨false, u⟩ (by simpa using htiles)
            rw [extent_nil] at h0
            simp [h0, Block.header] at hspace

/-- Taking the block that was found appends it to the used blocks. -/
theorem takeBlock_spec {s : CRingBufferBase} {L : Layout} {w p : Nat} (h : Represents s L)
    (hspace : s.CheckForSpace w = some p) (hw : 0 < w ∧ ITEM_SIZE ∣ w)
    (hmax : (w : Int) + ITEM_SIZE ≤ intMax) :
    ∃ t L', s.TakeBlock p w = .ok t ∧ Represents t L' ∧ L'.live = L.live ++ [p] ∧
      t.m_Flags = s.m_Flags ∧ t.m_PopCallback = s.m_PopCallback := by
  cases L with
  | linear before us after =>
      have hconsume : s.m_pConsume = extent (gap before) := h.consume
      have hproduce : s.m_pProduce = extent (gap before ++ used us) := h.produce
      rcases checkForSpace_linear h hspace with ⟨hle, rfl⟩ | ⟨b, rfl, hus, hlt, hle, rfl⟩
      · -- the block behind the run
        have htiles : Tiles s (gap before ++ used us ++ ⟨true, after⟩ :: []) := by
          simpa [Layout.blocks, Layout.below, Layout.above] using h.tiles
        obtain ⟨t, htake, hcons, hflags, hcall, ⟨-, ht, hprod⟩ | ⟨hge, ht, hprod⟩⟩ :=
          htiles.takeBlock hw hmax
        · rw [hproduce]
          refine ⟨t, .linear before (us ++ [w]) (after - w), htake, ⟨?_, ?_, ?_, ?_⟩, ?_,
            hflags, hcall⟩
          · simpa [Layout.blocks, Layout.below, Layout.above] using ht
          · simp [hprod, Layout.produce, Nat.add_assoc]
          · simp [hcons, hconsume, Layout.consume, Layout.below]
          · simp [Layout.Valid]
          · simp [Layout.live, Layout.above, Layout.below]
        · rw [hproduce]
          refine ⟨t, .wrapped [] before (us ++ [after]) none, htake, ⟨?_, ?_, ?_, ?_⟩, ?_,
            hflags, hcall⟩
          · simpa [Layout.blocks, Layout.below, Layout.above] using ht
          · rw [hprod]
            exact htiles.nextBlock_last
          · simp [hcons, hconsume, Layout.consume, Layout.below]
          · simp [Layout.Valid]
          · simp [Layout.live, Layout.above, Layout.below]
      · -- wrap around to the free block in front of the run
        have htiles : Tiles s ([] ++ ⟨true, b⟩ :: (used us ++ [⟨true, after⟩])) := by
          simpa [Layout.blocks, Layout.below, Layout.above] using h.tiles
        obtain ⟨t, htake, hcons, hflags, hcall, ⟨hgt, ht, hprod⟩ | ⟨hge, ht, hprod⟩⟩ :=
          htiles.takeBlock hw hmax
        · refine ⟨t, .wrapped [w] (some (b - w)) us (some after), htake, ⟨?_, ?_, ?_, hus⟩, ?_,
            hflags, hcall⟩
          · simpa [Layout.blocks, Layout.below, Layout.above] using ht
          · simpa [Layout.produce] using hprod
          · simp only [hcons, hconsume, Layout.consume, Layout.below, gap_some, used_cons, used_nil,
              extent_append, extent_cons, extent_nil]
            omega
          · have hwb : w + (b - w) = b := by omega
            simp [Layout.live, Layout.above, Layout.below, hwb]
        · refine ⟨t, .wrapped [b] none us (some after), htake, ⟨?_, ?_, ?_, hus⟩, ?_,
            hflags, hcall⟩
          · simpa [Layout.blocks, Layout.below, Layout.above] using ht
          · rw [hprod]
            obtain ⟨u, us, rfl⟩ := List.exists_cons_of_ne_nil hus
            simpa [Layout.produce] using Tiles.nextBlock [] ⟨true, b⟩ htiles
          · simp [hcons, hconsume, Layout.consume, Layout.below]
          · simp [Layout.live, Layout.above, Layout.below]
  | wrapped new mid old after =>
      obtain ⟨m, rfl, hle, rfl⟩ := checkForSpace_wrapped h hspace
      have hconsume : s.m_pConsume = extent (used new) + m := by
        simpa [Layout.consume, Layout.below] using h.consume
      have hproduce : s.m_pProduce = extent (used new) := h.produce
      have htiles : Tiles s (used new ++ ⟨true, m⟩ :: (used old ++ gap after)) := by
        simpa [Layout.blocks, Layout.below, Layout.above] using h.tiles
      obtain ⟨t, htake, hcons, hflags, hcall, ⟨hgt, ht, hprod⟩ | ⟨hge, ht, hprod⟩⟩ :=
        htiles.takeBlock hw hmax
      · rw [hproduce]
        refine ⟨t, .wrapped (new ++ [w]) (some (m - w)) old after, htake, ⟨?_, ?_, ?_, h.valid⟩,
          ?_, hflags, hcall⟩
        · simpa [Layout.blocks, Layout.below, Layout.above] using ht
        · simpa [Layout.produce] using hprod
        · simp only [hcons, hconsume, Layout.consume, Layout.below, gap_some, used_append,
            used_cons, used_nil, extent_append, extent_cons, extent_nil]
          omega
        · have hwm : w + (m - w) = m := by omega
          simp [Layout.live, Layout.above, Layout.below, hwm, Nat.add_assoc]
      · rw [hproduce]
        refine ⟨t, .wrapped (new ++ [m]) none old after, htake, ⟨?_, ?_, ?_, h.valid⟩,
          ?_, hflags, hcall⟩
        · simpa [Layout.blocks, Layout.below, Layout.above] using ht
        · rw [hprod]
          obtain ⟨o, old, rfl⟩ := List.exists_cons_of_ne_nil h.valid
          have := Tiles.nextBlock (used new) ⟨true, m⟩ htiles
          simpa [Layout.produce] using this
        · simp [hcons, hconsume, Layout.consume, Layout.below]
        · simp [Layout.live, Layout.above, Layout.below]

theorem roundedSize_spec (Size : Nat) :
    0 < RoundedSize Size ∧ ITEM_SIZE ∣ RoundedSize Size := by
  refine ⟨Nat.mul_pos (Nat.div_pos ?_ (by decide)) (by decide), Nat.dvd_mul_left _ _⟩
  show 24 ≤ Size + 24 + 24 - 1
  omega

theorem wantedSize_eq {Size : Nat} (h : (RoundedSize Size : Int) ≤ intMax) :
    WantedSize Size = RoundedSize Size :=
  wrap32_of_isInt32 ⟨by omega, h⟩

/-- `Allocate(Size)` stays within `int`: the size it wants can be compared, and when a block
is split the sum with the header size does not overflow either. -/
def FitsInt (s : CRingBufferBase) (Size : Nat) : Prop :=
  (RoundedSize Size : Int) + ITEM_SIZE ≤ intMax ∨
    ((RoundedSize Size : Int) ≤ intMax ∧ s.m_Size < RoundedSize Size) ∨
    (¬ s.Recycles ∧ s.CheckForSpace (WantedSize Size) = none)

instance (s : CRingBufferBase) (Size : Nat) : Decidable (FitsInt s Size) :=
  inferInstanceAs (Decidable (_ ∨ _ ∨ _))

/-- `Allocate` drops oldest items, none without the flag, and appends the new one. -/
theorem allocate_spec {s : CRingBufferBase} {L : Layout} {Size : Nat} (h : Represents s L)
    (hfit : FitsInt s Size) :
    ∃ t L' r popped rest, s.Allocate Size = .ok (t, r) ∧ Represents t L' ∧
      L.live = popped ++ rest ∧ L'.live = rest ++ r.toList ∧
      t.m_PopCallback = s.m_PopCallback ++ popped ∧
      t.m_Flags = s.m_Flags ∧ t.m_Size = s.m_Size ∧
      (¬ s.Recycles → popped = []) ∧
      (s.Recycles → RoundedSize Size ≤ s.m_Size → r ≠ none) := by
  by_cases hbig : WantedSize Size > s.m_Size
  · refine ⟨s, L, none, [], L.live, ?_, h, rfl, by simp, by simp, rfl, rfl, fun _ => rfl, ?_⟩
    · simp only [Allocate]
      rw [if_pos hbig]
      rfl
    · intro hrec hle
      have hint : (RoundedSize Size : Int) ≤ intMax := by
        rcases hfit with hmax | ⟨hmax, -⟩ | ⟨hno, -⟩
        · omega
        · exact hmax
        · exact absurd hrec hno
      rw [wantedSize_eq hint] at hbig
      omega
  · obtain ⟨t, L', r, popped, hfind, hrep, hlive, hcall, hflags, hsize, hspace, hplain, hrec⟩ :=
      findBlock_spec (w := WantedSize Size) h (by omega) h.live_lt_fuel
    cases r with
    | none =>
        refine ⟨t, L', none, popped, L'.live, ?_, hrep, hlive, by simp, hcall, hflags, hsize,
          fun hno => (hplain hno).2, fun hyes => absurd rfl (hrec hyes)⟩
        simp only [Allocate]
        rw [if_neg hbig, hfind]
        rfl
    | some p =>
        have hmax : (RoundedSize Size : Int) + ITEM_SIZE ≤ intMax := by
          rcases hfit with hmax | ⟨hmax, hlt⟩ | ⟨hno, hnone⟩
          · exact hmax
          · rw [wantedSize_eq hmax] at hbig
            omega
          · rw [(hplain hno).1, hnone] at hspace
            cases hspace
        have hwanted := wantedSize_eq (show (RoundedSize Size : Int) ≤ intMax by omega)
        rw [hwanted] at hspace
        obtain ⟨u, L'', htake, hrep', hlive', hflags', hcall'⟩ :=
          takeBlock_spec hrep hspace (roundedSize_spec Size) hmax
        refine ⟨u, L'', some p, popped, L'.live, ?_, hrep', hlive, hlive',
          hcall'.trans hcall, hflags'.trans hflags, (takeBlock_size htake).trans hsize,
          fun hno => (hplain hno).2, by simp⟩
        simp only [Allocate]
        rw [if_neg hbig, hfind]
        simp only [hwanted]
        show (do return (← t.TakeBlock p (RoundedSize Size), some p) : Exec _) = _
        rw [htake]
        rfl

/-- A cleared buffer is one free block. -/
theorem represents_clear {s : CRingBufferBase} (hpos : 0 < s.m_Size) (hdvd : ITEM_SIZE ∣ s.m_Size) :
    Represents s.Clear (.linear none [] s.m_Size) where
  tiles :=
    { seg := by simp [Layout.blocks, Layout.below, Layout.above, Clear, Seg, link, Block.header]
      first := rfl
      last := rfl
      extent := by simp [Layout.blocks, Layout.below, Layout.above, Clear]
      sizes := by simpa [Layout.blocks, Layout.below, Layout.above] using ⟨hpos, hdvd⟩ }
  produce := rfl
  consume := rfl
  valid := fun _ => rfl

end Fex.Engine.RingBuffer
