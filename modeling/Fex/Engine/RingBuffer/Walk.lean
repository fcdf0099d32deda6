import Fex.Engine.RingBuffer.Queue

/-!
# Walking over the items

`First` finds the oldest used block and `Next` goes from each used block to the
one allocated after it.
-/

namespace Fex.Engine.RingBuffer

open Fex.Lib Fex.Lib.BlockList CRingBufferBase

/-- `next` goes along the list and from its last element to `e`. -/
def Linked (next : Nat → Exec (Option Nat)) : List Nat → Option Nat → Prop
  | [], _ => True
  | p :: ps, e => next p = .ok (ps.head?.or e) ∧ Linked next ps e

theorem linked_append {next : Nat → Exec (Option Nat)} {xs ys : List Nat} {e : Option Nat} :
    Linked next (xs ++ ys) e ↔ Linked next xs (ys.head?.or e) ∧ Linked next ys e := by
  induction xs with
  | nil => simp [Linked]
  | cons x xs ih =>
      have hhead : (xs ++ ys).head?.or e = xs.head?.or (ys.head?.or e) := by
        cases xs <;> simp
      simp only [List.cons_append, Linked, ih, hhead, and_assoc]

/-! ## Addresses -/

theorem usedAddrs_bounds {a x : Nat} {bs : List Block} (hpos : ∀ b ∈ bs, 0 < b.size)
    (hx : x ∈ usedAddrs a bs) : a ≤ x ∧ x < a + extent bs := by
  induction bs generalizing a with
  | nil => simp at hx
  | cons b bs ih =>
      have hb : 0 < b.size := hpos b (by simp)
      have htail : x ∈ usedAddrs (a + b.size) bs → a ≤ x ∧ x < a + extent (b :: bs) := by
        intro hx
        have := ih (fun c hc => hpos c (by simp [hc])) hx
        rw [extent_cons]
        omega
      unfold usedAddrs at hx
      split at hx
      · exact htail hx
      · rcases List.mem_cons.mp hx with rfl | hx
        · rw [extent_cons]
          omega
        · exact htail hx

theorem nodup_usedAddrs {a : Nat} {bs : List Block} (hpos : ∀ b ∈ bs, 0 < b.size) :
    (usedAddrs a bs).Nodup := by
  induction bs generalizing a with
  | nil => exact List.nodup_nil
  | cons b bs ih =>
      have hpos' : ∀ c ∈ bs, 0 < c.size := fun c hc => hpos c (by simp [hc])
      unfold usedAddrs
      split
      · exact ih hpos'
      · rw [List.nodup_cons]
        refine ⟨fun hmem => ?_, ih hpos'⟩
        have := (usedAddrs_bounds hpos' hmem).1
        have := hpos b (by simp)
        omega

theorem Represents.nodup {s : CRingBufferBase} {L : Layout} (h : Represents s L) :
    L.live.Nodup := by
  have hpos := h.tiles.pos
  have hbelow : ∀ b ∈ L.below, 0 < b.size := fun b hb => hpos b (by simp [Layout.blocks, hb])
  have habove : ∀ b ∈ L.above, 0 < b.size := fun b hb => hpos b (by simp [Layout.blocks, hb])
  unfold Layout.live
  rw [List.nodup_append]
  refine ⟨nodup_usedAddrs habove, nodup_usedAddrs hbelow, fun x hx y hy => ?_⟩
  have h₁ := usedAddrs_bounds habove hx
  have h₂ := usedAddrs_bounds hbelow hy
  omega

/-! ## Steps -/

section Step

variable {s : CRingBufferBase} {p q : Nat}

theorem next_produce (hfuel : 2 ≤ s.fuel) (h : s.NextBlock p = s.m_pProduce) :
    s.Next p = .ok none := by
  obtain ⟨n, hn⟩ : ∃ n, s.fuel = n + 1 := ⟨s.fuel - 1, by omega⟩
  unfold CRingBufferBase.Next
  rw [hn]
  simp [Walk, h]

theorem next_used (hfuel : 2 ≤ s.fuel) (h : s.NextBlock p = q) (hne : q ≠ s.m_pProduce)
    (hused : (s.m_aItems q).m_Free = false) : s.Next p = .ok (some q) := by
  obtain ⟨n, hn⟩ : ∃ n, s.fuel = n + 1 := ⟨s.fuel - 1, by omega⟩
  unfold CRingBufferBase.Next
  rw [hn]
  simp [Walk, h, hne, hused]

/-- Over a free block. -/
theorem next_free (hfuel : 2 ≤ s.fuel) (h : s.NextBlock p = q) (hne : q ≠ s.m_pProduce)
    (hfree : (s.m_aItems q).m_Free = true) :
    s.Next p = if s.NextBlock q = s.m_pProduce then .ok none
      else if (s.m_aItems (s.NextBlock q)).m_Free then
        Walk s.NextBlock s (s.fuel - 2) (s.NextBlock q)
      else .ok (some (s.NextBlock q)) := by
  obtain ⟨n, hn⟩ : ∃ n, s.fuel = n + 2 := ⟨s.fuel - 2, by omega⟩
  unfold CRingBufferBase.Next
  rw [hn]
  simp [Walk, h, hne, hfree]

end Step

/-- Within a run of used blocks `Next` goes from each to the one behind it. -/
theorem linked_run {s : CRingBufferBase} {ws rest : List Block} {us : List Nat} {e : Option Nat}
    (h : Tiles s (ws ++ (used us ++ rest))) (hfuel : 2 ≤ s.fuel)
    (hprod : s.m_pProduce ≤ extent ws ∨ extent (ws ++ used us) ≤ s.m_pProduce)
    (hlast : ∀ vs u, us = vs ++ [u] → s.Next (extent (ws ++ used vs)) = .ok e) :
    Linked s.Next (usedAddrs (extent ws) (used us)) e := by
  induction us generalizing ws with
  | nil => trivial
  | cons u us ih =>
      have hws : extent (ws ++ [⟨false, u⟩]) = extent ws + u := by simp
      have hpos : 0 < u := h.pos ⟨false, u⟩ (by simp)
      have htail := @ih (ws ++ [⟨false, u⟩]) (by simpa using h)
        (by simpa [Nat.add_assoc] using hprod.imp (by omega) id) (by
          intro vs v hv
          have := hlast (u :: vs) v (by rw [hv]; rfl)
          simpa using this)
      rw [hws] at htail
      rw [used_cons, usedAddrs_used]
      refine ⟨?_, htail⟩
      cases us with
      | nil => simpa using hlast [] u rfl
      | cons v us =>
          have hnext : s.NextBlock (extent ws) = extent ws + u :=
            @Tiles.nextBlock _ ws (used us ++ rest) ⟨false, u⟩ ⟨false, v⟩ (by simpa using h)
          have hhead := @Tiles.header _ (ws ++ [⟨false, u⟩]) (used us ++ rest) ⟨false, v⟩
            (by simpa using h)
          rw [hws] at hhead
          have hvpos : 0 < v := h.pos ⟨false, v⟩ (by simp)
          have hne : extent ws + u ≠ s.m_pProduce := by
            simp only [used_cons, extent_append, extent_cons] at hprod
            omega
          exact next_used hfuel hnext hne (by rw [hhead]; rfl)

theorem Represents.two_le_fuel {s : CRingBufferBase} {L : Layout} (h : Represents s L) :
    2 ≤ s.fuel := by
  have hlen := h.tiles.length_le
  have hne : 0 < L.blocks.length := by
    cases L with
    | linear before us after =>
        simp only [Layout.blocks, Layout.above, List.length_append, List.length_singleton]
        omega
    | wrapped new mid old after =>
        obtain ⟨o, old, rfl⟩ := List.exists_cons_of_ne_nil h.valid
        simp only [Layout.blocks, Layout.above, used_cons, List.length_append, List.length_cons]
        omega
  unfold fuel
  omega

/-- From the last block of the buffer the walk starts over at the first one. -/
theorem next_wrap {s : CRingBufferBase} {new old : List Nat} {mid after : Option Nat}
    (h : Represents s (.wrapped new mid old after)) {p : Nat}
    (hp : s.NextBlock p = 0 ∨ ∃ q, s.NextBlock p = q ∧ q ≠ s.m_pProduce ∧
      (s.m_aItems q).m_Free = true ∧ s.NextBlock q = 0) :
    s.Next p = .ok (usedAddrs 0 (used new)).head? := by
  have hfuel := h.two_le_fuel
  have hproduce : s.m_pProduce = extent (used new) := h.produce
  cases new with
  | nil =>
      have hzero : s.m_pProduce = 0 := hproduce
      rcases hp with hp | ⟨q, hp, hne, hfree, hq⟩
      · exact next_produce hfuel (hp.trans hzero.symm)
      · rw [next_free hfuel hp hne hfree]
        exact if_pos (hq.trans hzero.symm)
  | cons n new =>
      have hn : 0 < n :=
        h.tiles.pos ⟨false, n⟩ (by simp [Layout.blocks, Layout.below])
      have hne : 0 ≠ s.m_pProduce := by
        simp only [hproduce, used_cons, extent_cons]
        omega
      have hhead := @Tiles.header _ [] (used new ++ gap mid ++ (used old ++ gap after)) ⟨false, n⟩
        (by simpa [Layout.blocks, Layout.below, Layout.above] using h.tiles)
      have hused : (s.m_aItems 0).m_Free = false := by
        rw [extent_nil] at hhead
        rw [hhead]
        rfl
      rcases hp with hp | ⟨q, hp, hneq, hfree, hq⟩
      · exact next_used hfuel hp hne hused
      · rw [next_free hfuel hp hneq hfree, hq, if_neg hne, hused]
        rfl

theorem Represents.linked {s : CRingBufferBase} {L : Layout} (h : Represents s L) :
    Linked s.Next L.live none := by
  have hfuel := h.two_le_fuel
  cases L with
  | linear before us after =>
      have htiles : Tiles s (gap before ++ (used us ++ [⟨true, after⟩])) := h.tiles
      have hproduce : s.m_pProduce = extent (gap before ++ used us) := h.produce
      have hlive : (Layout.linear before us after).live =
          usedAddrs (extent (gap before)) (used us) := by
        simp [Layout.live, Layout.above, Layout.below]
      rw [hlive]
      apply linked_run htiles hfuel (.inr (Nat.le_of_eq hproduce.symm))
      rintro vs u rfl
      apply next_produce hfuel
      have hnext := @Tiles.nextBlock _ (gap before ++ used vs) [] ⟨false, u⟩ ⟨true, after⟩ (by simpa using htiles)
      rw [hnext, hproduce]
      simp [Nat.add_assoc]
  | wrapped new mid old after =>
      have htiles : Tiles s ((used new ++ gap mid) ++ (used old ++ gap after)) := h.tiles
      have hproduce : s.m_pProduce = extent (used new) := h.produce
      have hlive : (Layout.wrapped new mid old after).live =
          usedAddrs (extent (used new ++ gap mid)) (used old) ++ usedAddrs 0 (used new) := by
        simp [Layout.live, Layout.above, Layout.below]
      rw [hlive, linked_append]
      constructor
      · apply linked_run htiles hfuel
        · left
          rw [hproduce, extent_append]
          omega
        rintro vs u rfl
        rw [Option.or_none]
        apply next_wrap h
        cases after with
        | none =>
            left
            exact Tiles.nextBlock_last (used new ++ gap mid ++ used vs) ⟨false, u⟩
              (by simpa using htiles)
        | some n =>
            right
            have hu : 0 < u := htiles.pos ⟨false, u⟩ (by simp)
            have hnext := @Tiles.nextBlock _ (used new ++ gap mid ++ used vs)
              [] ⟨false, u⟩ ⟨true, n⟩ (by simpa using htiles)
            have hq := Tiles.nextBlock_last (used new ++ gap mid ++ used vs ++ [⟨false, u⟩]) ⟨true, n⟩
              (by simpa using htiles)
            have hhead := @Tiles.header _ (used new ++ gap mid ++ used vs ++ [⟨false, u⟩])
              [] ⟨true, n⟩ (by simpa using htiles)
            have hend : extent (used new ++ gap mid ++ used vs ++ [⟨false, u⟩]) =
                extent (used new ++ gap mid ++ used vs) + u := by simp [Nat.add_assoc]
            rw [hend] at hq hhead
            refine ⟨_, hnext, ?_, by rw [hhead]; rfl, hq⟩
            simp only [hproduce, extent_append]
            omega
      · have hrun : Tiles s ([] ++ (used new ++ (gap mid ++ (used old ++ gap after)))) := by
          simpa using htiles
        apply linked_run hrun hfuel (.inr (Nat.le_of_eq hproduce.symm))
        rintro vs u rfl
        apply next_produce hfuel
        rw [List.nil_append, hproduce]
        -- whatever follows the newest block, the produce pointer stands there
        obtain ⟨o, old, rfl⟩ := List.exists_cons_of_ne_nil h.valid
        cases mid with
        | none =>
            have hnext := @Tiles.nextBlock _ (used vs) (used old ++ gap after) ⟨false, u⟩ ⟨false, o⟩ (by simpa using hrun)
            rw [hnext]
            simp
        | some n =>
            have hnext := @Tiles.nextBlock _ (used vs)
              (used (o :: old) ++ gap after) ⟨false, u⟩ ⟨true, n⟩ (by simpa using hrun)
            rw [hnext]
            simp

theorem Represents.first {s : CRingBufferBase} {L : Layout} (h : Represents s L) :
    s.First = L.live.head? := by
  have hconsume := h.consume
  unfold CRingBufferBase.First
  rw [hconsume]
  cases L with
  | linear before us after =>
      cases us with
      | nil =>
          have hbefore : before = none := h.valid rfl
          subst hbefore
          have hhead := @Tiles.header _ [] [] ⟨true, after⟩ h.tiles
          have hfree : (s.m_aItems (Layout.linear none [] after).consume).m_Free = true := by
            rw [show (Layout.linear none [] after).consume = extent [] from rfl, hhead]
            rfl
          exact if_pos hfree
      | cons u us =>
          have hhead := @Tiles.header _ (gap before) (used us ++ [⟨true, after⟩]) ⟨false, u⟩
            h.tiles
          have hused : (s.m_aItems (Layout.linear before (u :: us) after).consume).m_Free = false := by
            rw [show (Layout.linear before (u :: us) after).consume = extent (gap before) from rfl,
              hhead]
            rfl
          rw [hused]
          rfl
  | wrapped new mid old after =>
      obtain ⟨o, old, rfl⟩ := List.exists_cons_of_ne_nil h.valid
      have hhead := @Tiles.header _ (used new ++ gap mid) (used old ++ gap after) ⟨false, o⟩
        h.tiles
      have hused : (s.m_aItems (Layout.wrapped new mid (o :: old) after).consume).m_Free = false := by
        rw [show (Layout.wrapped new mid (o :: old) after).consume =
          extent (used new ++ gap mid) from rfl, hhead]
        rfl
      rw [hused]
      rfl

end Fex.Engine.RingBuffer
