import Fex.Engine.RingBuffer.Tiling

/-!
# The layouts a ring buffer goes through

The used blocks are either one run with the produce block behind it, or two
runs with the produce block between them, the older run last.  Around the runs
there is at most one free block in each place.  `Represents` ties a buffer to
such a layout; `live` lists the used blocks from the oldest to the newest.
-/

namespace Fex.Engine.RingBuffer

open Fex.Lib Fex.Lib.BlockList

/-- A run of used blocks. -/
def used (us : List Nat) : List Block := us.map (Block.mk false)

/-- A free block, if there is one. -/
def gap : Option Nat → List Block
  | none => []
  | some n => [⟨true, n⟩]

inductive Layout
  | linear (before : Option Nat) (us : List Nat) (after : Nat)
  | wrapped (new : List Nat) (mid : Option Nat) (old : List Nat) (after : Option Nat)

namespace Layout

/-- Blocks below the consume pointer. -/
def below : Layout → List Block
  | linear before _ _ => gap before
  | wrapped new mid _ _ => used new ++ gap mid

/-- Blocks from the consume pointer on. -/
def above : Layout → List Block
  | linear _ us after => used us ++ [⟨true, after⟩]
  | wrapped _ _ old after => used old ++ gap after

def blocks (L : Layout) : List Block := L.below ++ L.above

def consume (L : Layout) : Nat := extent L.below

def produce : Layout → Nat
  | linear before us _ => extent (gap before ++ used us)
  | wrapped new _ _ _ => extent (used new)

def Valid : Layout → Prop
  | linear before us _ => us = [] → before = none
  | wrapped _ _ old _ => old ≠ []

end Layout

/-- Addresses of the used blocks among `bs`, laid out from `a`. -/
def usedAddrs : Nat → List Block → List Nat
  | _, [] => []
  | a, b :: bs => if b.free then usedAddrs (a + b.size) bs else a :: usedAddrs (a + b.size) bs

/-- The used blocks read circularly from the consume pointer. -/
def Layout.live (L : Layout) : List Nat :=
  usedAddrs (extent L.below) L.above ++ usedAddrs 0 L.below

structure Represents (s : CRingBufferBase) (L : Layout) : Prop where
  tiles : Tiles s L.blocks
  produce : s.m_pProduce = L.produce
  consume : s.m_pConsume = L.consume
  valid : L.Valid

@[simp] theorem used_nil : used [] = [] := rfl

@[simp] theorem used_cons (u : Nat) (us : List Nat) : used (u :: us) = ⟨false, u⟩ :: used us := rfl

@[simp] theorem used_append (us vs : List Nat) : used (us ++ vs) = used us ++ used vs := by
  simp [used]

@[simp] theorem gap_none : gap none = [] := rfl

@[simp] theorem gap_some (n : Nat) : gap (some n) = [⟨true, n⟩] := rfl

@[simp] theorem usedAddrs_append (a : Nat) (xs ys : List Block) :
    usedAddrs a (xs ++ ys) = usedAddrs a xs ++ usedAddrs (a + extent xs) ys := by
  induction xs generalizing a with
  | nil => simp [usedAddrs]
  | cons x xs ih =>
      by_cases hx : x.free <;> simp [usedAddrs, ih, hx, Nat.add_assoc]

@[simp] theorem usedAddrs_gap (a : Nat) (g : Option Nat) : usedAddrs a (gap g) = [] := by
  cases g <;> rfl

@[simp] theorem usedAddrs_free (a n : Nat) (bs : List Block) :
    usedAddrs a (⟨true, n⟩ :: bs) = usedAddrs (a + n) bs := rfl

@[simp] theorem usedAddrs_used (a n : Nat) (bs : List Block) :
    usedAddrs a (⟨false, n⟩ :: bs) = a :: usedAddrs (a + n) bs := rfl

@[simp] theorem usedAddrs_nil (a : Nat) : usedAddrs a [] = [] := rfl

/-! ## Popping -/

section CatchUp

variable {s : CRingBufferBase} {n : Nat}

theorem catchUp_used (h : (s.m_aItems s.m_pConsume).m_Free = false) :
    CRingBufferBase.CatchUp (n + 1) s = .ok s := by
  simp [CRingBufferBase.CatchUp, h]

theorem catchUp_produce (h : s.m_pConsume = s.m_pProduce) :
    CRingBufferBase.CatchUp (n + 1) s = .ok s := by
  simp [CRingBufferBase.CatchUp, h]

theorem catchUp_free (h : (s.m_aItems s.m_pConsume).m_Free = true)
    (hne : s.m_pConsume ≠ s.m_pProduce) {t : CRingBufferBase} {p : Nat}
    (hmerge : s.MergeBack s.m_pConsume = (t, p)) :
    CRingBufferBase.CatchUp (n + 1) s =
      CRingBufferBase.CatchUp n { t with m_pConsume := t.NextBlock p } := by
  simp [CRingBufferBase.CatchUp, h, hne, hmerge]

end CatchUp

theorem two_le_fuel {s : CRingBufferBase} {b : Block} {bs : List Block} (h : Tiles s (b :: bs)) :
    ∃ n, s.fuel = n + 2 := by
  obtain ⟨hpos, hdvd⟩ := h.sizes b (by simp)
  have hle : ITEM_SIZE ≤ s.m_Size := by
    have := h.extent
    have := Nat.le_of_dvd hpos hdvd
    simp only [extent_cons] at *
    omega
  have : 1 ≤ s.m_Size / ITEM_SIZE := (Nat.one_le_div_iff (by decide)).mpr hle
  exact ⟨s.m_Size / ITEM_SIZE - 1, by unfold CRingBufferBase.fuel; omega⟩

/-- The part of `PopFirst` before the loop: the consume block joins the gap before it. -/
def Freed (s : CRingBufferBase) : CRingBufferBase × Nat :=
  let s := { s with m_PopCallback := s.m_PopCallback ++ [s.m_pConsume] }
  (s.setItem s.m_pConsume fun b => { b with m_Free := true }).MergeBack s.m_pConsume

theorem popFirst_eq (s : CRingBufferBase) (h : (s.m_aItems s.m_pConsume).m_Free = false) :
    s.PopFirst = (do
      let t ← CRingBufferBase.CatchUp (Freed s).1.fuel
        { (Freed s).1 with m_pConsume := (Freed s).1.NextBlock (Freed s).2 }
      return ((t.MergeBack t.m_pConsume).1, true)) := by
  unfold CRingBufferBase.PopFirst
  rw [if_neg (by simp [h])]
  rfl

theorem freed_spec {s : CRingBufferBase} {new : List Nat} {g : Option Nat} {u : Nat}
    {ys : List Block} (h : Tiles s (used new ++ gap g ++ ⟨false, u⟩ :: ys))
    (hconsume : s.m_pConsume = extent (used new ++ gap g))
    (hproduce : s.m_pProduce ≠ s.m_pConsume ∨ g = none) :
    ∃ t, Freed s = (t, extent (used new)) ∧
      Tiles t (used new ++ ⟨true, extent (gap g) + u⟩ :: ys) ∧
      t.m_pProduce = s.m_pProduce ∧ t.m_Flags = s.m_Flags ∧
      t.m_PopCallback = s.m_PopCallback ++ [s.m_pConsume] := by
  have hfree := Tiles.setFree true
    (h.congr (t := { s with m_PopCallback := s.m_PopCallback ++ [s.m_pConsume] }) rfl rfl rfl rfl)
  rw [← hconsume] at hfree
  unfold Freed
  cases g with
  | some m =>
      have haddr : extent (used new) + m = s.m_pConsume := by simpa using hconsume.symm
      obtain ⟨t, hmerge, htiles, hprod, -, hflags, hpop⟩ :=
        Tiles.mergeBack (used new) m u (by simpa using hfree)
      rw [haddr] at hmerge hprod
      refine ⟨t, hmerge, by simpa using htiles, ?_, hflags, hpop⟩
      rw [hprod, if_neg (by simpa using hproduce)]
      rfl
  | none =>
      have haddr : extent (used new) = s.m_pConsume := by simpa using hconsume.symm
      refine ⟨{ s with m_PopCallback := s.m_PopCallback ++ [s.m_pConsume] }.setItem s.m_pConsume
        fun b => { b with m_Free := true }, ?_, by simpa using hfree, rfl, rfl, rfl⟩
      rcases List.eq_nil_or_concat new with rfl | ⟨us, m, rfl⟩
      · have := Tiles.mergeBack_first (b := ⟨true, u⟩) (by simpa using hfree)
        simp only [← haddr]
        simpa [← haddr] using this
      · have := Tiles.mergeBack_behind (used us) m (b := ⟨true, u⟩)
          (by simpa using hfree)
        simp only [List.concat_eq_append, used_append, extent_append, used_cons, used_nil,
          extent_cons, extent_nil, Nat.add_zero] at haddr ⊢
        rw [haddr] at this ⊢
        exact this

/-- Popping from the linear layout. -/
theorem popFirst_linear {s : CRingBufferBase} {before : Option Nat} {u : Nat} {us : List Nat}
    {after : Nat} (h : Represents s (.linear before (u :: us) after)) :
    ∃ t L', s.PopFirst = .ok (t, true) ∧ Represents t L' ∧
      (Layout.linear before (u :: us) after).live = s.m_pConsume :: L'.live ∧
      t.m_Flags = s.m_Flags ∧ t.m_PopCallback = s.m_PopCallback ++ [s.m_pConsume] := by
  have htiles : Tiles s (used [] ++ gap before ++ ⟨false, u⟩ :: (used us ++ [⟨true, after⟩])) := by
    simpa [Layout.blocks, Layout.below, Layout.above] using h.tiles
  have hconsume : s.m_pConsume = extent (used [] ++ gap before) := by
    simpa [Layout.consume, Layout.below] using h.consume
  have hproduce : s.m_pProduce = extent (gap before) + u + extent (used us) := by
    simpa [Layout.produce, Nat.add_assoc] using h.produce
  have hu : 0 < u := htiles.pos ⟨false, u⟩ (by simp)
  have hused : (s.m_aItems s.m_pConsume).m_Free = false := by
    rw [hconsume, htiles.header]
    rfl
  obtain ⟨t, hfreed, ht, hprod, hflags, hpop⟩ :=
    freed_spec htiles hconsume (.inl (by rw [hproduce, hconsume]; simp; omega))
  rw [popFirst_eq s hused, hfreed]
  obtain ⟨n, hfuel⟩ := two_le_fuel (b := ⟨true, extent (gap before) + u⟩) (by simpa using ht)
  set g := extent (gap before) + u with hg
  have hlive : (Layout.linear before (u :: us) after).live =
      s.m_pConsume :: usedAddrs g (used us) := by
    simp [Layout.live, Layout.above, Layout.below, hconsume, hg]
  simp only [hfuel, used_nil, extent_nil, List.nil_append] at ht ⊢
  cases us with
  | nil =>
      -- the last item: the consume pointer catches up and everything becomes one block
      have hnext : t.NextBlock 0 = g := by
        simpa using Tiles.nextBlock [] ⟨true, g⟩ (by simpa using ht)
      rw [hnext, catchUp_produce (by simp [hprod, hproduce, hg])]
      obtain ⟨t', hmerge, ht', hprod', hcons', hflags', hpop'⟩ :=
        Tiles.mergeBack [] g after (by simpa using ht.withConsume g)
      simp only [extent_nil, Nat.zero_add, List.nil_append] at hmerge ht' hprod' hcons'
      have hpg : t.m_pProduce = g := by simp [hprod, hproduce, hg]
      refine ⟨t', .linear none [] (g + after), ?_, ⟨ht', ?_, ?_, fun _ => rfl⟩, ?_, ?_, ?_⟩
      · show Except.ok (CRingBufferBase.MergeBack _ g |>.1, true) = _
        rw [hmerge]
      · simp [hprod', hpg, Layout.produce]
      · simp [hcons', Layout.consume, Layout.below]
      · rw [hlive]
        rfl
      · rw [hflags', hflags]
      · rw [hpop', hpop]
  | cons u' us =>
      have hnext : t.NextBlock 0 = g := by
        simpa using Tiles.nextBlock [] ⟨true, g⟩ (by simpa using ht)
      have husedg : (t.m_aItems g).m_Free = false := by
        have := Tiles.header [⟨true, g⟩] ⟨false, u'⟩ (by simpa using ht)
        simp only [extent_cons, extent_nil, Nat.add_zero] at this
        rw [this]
        rfl
      rw [hnext, catchUp_used husedg]
      refine ⟨{ t with m_pConsume := g }, .linear (some g) (u' :: us) after, ?_,
        ⟨?_, ?_, ?_, by simp [Layout.Valid]⟩, ?_, hflags, hpop⟩
      · show Except.ok (CRingBufferBase.MergeBack _ g |>.1, true) = _
        rw [mergeBack_used (s := { t with m_pConsume := g }) husedg]
      · simpa [Layout.blocks, Layout.below, Layout.above] using ht.withConsume g
      · simp [hprod, hproduce, hg, Layout.produce, Nat.add_assoc]
      · simp [Layout.consume, Layout.below]
      · rw [hlive]
        simp [Layout.live, Layout.above, Layout.below]

/-- Once the older run is gone, the walk wraps to the first block and stops there. -/
theorem catchUp_wrap {t : CRingBufferBase} {new : List Nat} {g n : Nat}
    (ht : Tiles t (used new ++ [⟨true, g⟩])) (hprod : t.m_pProduce = extent (used new)) :
    CRingBufferBase.CatchUp (n + 1) { t with m_pConsume := 0 } = .ok { t with m_pConsume := 0 } ∧
      ({ t with m_pConsume := 0 }.MergeBack 0).1 = { t with m_pConsume := 0 } ∧
      Represents { t with m_pConsume := 0 } (.linear none new g) := by
  have hrep : Represents { t with m_pConsume := 0 } (.linear none new g) :=
    ⟨ht.withConsume 0, hprod, rfl, fun _ => rfl⟩
  cases new with
  | nil =>
      refine ⟨catchUp_produce (by simp [hprod]), ?_, hrep⟩
      rw [Tiles.mergeBack_first (b := ⟨true, g⟩) (ht.withConsume 0)]
  | cons u us =>
      have hused : (t.m_aItems 0).m_Free = false := by
        have := Tiles.header [] ⟨false, u⟩ ht
        rw [extent_nil] at this
        rw [this]
        rfl
      refine ⟨catchUp_used hused, ?_, hrep⟩
      rw [mergeBack_used (s := { t with m_pConsume := 0 }) hused]

/-- Popping from the wrapped layout. -/
theorem popFirst_wrapped {s : CRingBufferBase} {new : List Nat} {mid : Option Nat} {u : Nat}
    {old : List Nat} {after : Option Nat} (h : Represents s (.wrapped new mid (u :: old) after)) :
    ∃ t L', s.PopFirst = .ok (t, true) ∧ Represents t L' ∧
      (Layout.wrapped new mid (u :: old) after).live = s.m_pConsume :: L'.live ∧
      t.m_Flags = s.m_Flags ∧ t.m_PopCallback = s.m_PopCallback ++ [s.m_pConsume] := by
  have htiles : Tiles s (used new ++ gap mid ++ ⟨false, u⟩ :: (used old ++ gap after)) := by
    simpa [Layout.blocks, Layout.below, Layout.above] using h.tiles
  have hconsume : s.m_pConsume = extent (used new ++ gap mid) := h.consume
  have hproduce : s.m_pProduce = extent (used new) := h.produce
  have hused : (s.m_aItems s.m_pConsume).m_Free = false := by
    rw [hconsume, htiles.header]
    rfl
  have hgap : s.m_pProduce ≠ s.m_pConsume ∨ mid = none := by
    cases mid with
    | none => exact .inr rfl
    | some m =>
        have : 0 < m := htiles.pos ⟨true, m⟩ (by simp)
        exact .inl (by rw [hproduce, hconsume]; simp; omega)
  obtain ⟨t, hfreed, ht, hprod, hflags, hpop⟩ := freed_spec htiles hconsume hgap
  rw [popFirst_eq s hused, hfreed]
  obtain ⟨n, hfuel⟩ : ∃ n, t.fuel = n + 2 := by
    rcases hblocks : used new ++ ⟨true, extent (gap mid) + u⟩ :: (used old ++ gap after) with _ | ⟨b, bs⟩
    · simp at hblocks
    · exact two_le_fuel (hblocks ▸ ht)
  set g := extent (gap mid) + u with hg
  rw [hproduce] at hprod
  have hlive : (Layout.wrapped new mid (u :: old) after).live =
      s.m_pConsume :: (usedAddrs (extent (used new) + g) (used old) ++ usedAddrs 0 (used new)) := by
    simp [Layout.live, Layout.above, Layout.below, hconsume, hg, Nat.add_assoc]
  simp only [hfuel]
  cases old with
  | cons o old =>
      have hnext : t.NextBlock (extent (used new)) = extent (used new) + g :=
        Tiles.nextBlock _ ⟨true, g⟩ ht
      have husedg : (t.m_aItems (extent (used new) + g)).m_Free = false := by
        have := Tiles.header (used new ++ [⟨true, g⟩]) ⟨false, o⟩ (by simpa using ht)
        simp only [extent_append, extent_cons, extent_nil, Nat.add_zero] at this
        rw [this]
        rfl
      rw [hnext, catchUp_used husedg]
      refine ⟨{ t with m_pConsume := extent (used new) + g },
        .wrapped new (some g) (o :: old) after, ?_, ⟨?_, hprod, ?_, by simp [Layout.Valid]⟩,
        ?_, hflags, hpop⟩
      · show Except.ok (CRingBufferBase.MergeBack _ _ |>.1, true) = _
        rw [mergeBack_used (s := { t with m_pConsume := extent (used new) + g }) husedg]
      · simpa [Layout.blocks, Layout.below, Layout.above] using ht.withConsume _
      · simp [Layout.consume, Layout.below]
      · rw [hlive]
        simp [Layout.live, Layout.above, Layout.below]
  | nil =>
      cases after with
      | none =>
          have hnext : t.NextBlock (extent (used new)) = 0 := Tiles.nextBlock_last _ _ ht
          obtain ⟨hcatch, hmerge, hrep⟩ := catchUp_wrap (n := n + 1) ht hprod
          rw [hnext, hcatch]
          refine ⟨{ t with m_pConsume := 0 }, _, ?_, hrep, ?_, hflags, hpop⟩
          · show Except.ok (CRingBufferBase.MergeBack _ 0 |>.1, true) = _
            rw [hmerge]
          · rw [hlive]
            simp [Layout.live, Layout.above, Layout.below]
      | some a =>
          -- one free block is left behind the freed one: the loop joins the two
          have hnext : t.NextBlock (extent (used new)) = extent (used new) + g :=
            Tiles.nextBlock _ ⟨true, g⟩ ht
          have hfree : (t.m_aItems (extent (used new) + g)).m_Free = true := by
            have := Tiles.header (used new ++ [⟨true, g⟩]) ⟨true, a⟩ (by simpa using ht)
            simp only [extent_append, extent_cons, extent_nil, Nat.add_zero] at this
            rw [this]
            rfl
          have hgpos : 0 < g := ht.pos ⟨true, g⟩ (by simp)
          obtain ⟨t', hmerge', ht', hprod', -, hflags', hpop'⟩ :=
            Tiles.mergeBack (used new) g a
              (by simpa using ht.withConsume (extent (used new) + g))
          have hnext' : t'.NextBlock (extent (used new)) = 0 := Tiles.nextBlock_last _ _ ht'
          have hprod'' : t'.m_pProduce = extent (used new) := by
            rw [hprod']
            simp only [hprod]
            rw [if_neg (by omega)]
          obtain ⟨hcatch, hmerge, hrep⟩ := catchUp_wrap (n := n) ht' hprod''
          have hloop : CRingBufferBase.CatchUp (n + 2)
              { t with m_pConsume := extent (used new) + g } = .ok { t' with m_pConsume := 0 } := by
            rw [catchUp_free (s := { t with m_pConsume := extent (used new) + g }) hfree
              (by simp only [hprod]; omega) hmerge', hnext', hcatch]
          rw [hnext, hloop]
          refine ⟨{ t' with m_pConsume := 0 }, _, ?_, hrep, ?_, hflags'.trans hflags,
            hpop'.trans hpop⟩
          · show Except.ok (CRingBufferBase.MergeBack _ 0 |>.1, true) = _
            rw [hmerge]
          · rw [hlive]
            simp [Layout.live, Layout.above, Layout.below]

end Fex.Engine.RingBuffer
