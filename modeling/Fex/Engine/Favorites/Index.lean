import Fex.Engine.Favorites
import Mathlib.Algebra.BigOperators.Group.List.Basic

/-!
# The index of the entries

`m_ByAddr` locates every address.  While a group is added, the addresses taken
from their entries are stale: the index still maps them.
-/

namespace Fex.Engine.Favorites

open Fex.Lib Fex.Engine.NetBan

namespace CFavorites

/-- The entry at an index has an address. -/
def HasAt (f : CFavorites) (k : Nat) (x : NETADDR) : Prop :=
  ∃ e, f.m_vEntries[k]? = some e ∧ x ∈ e.m_aAddrs

theorem HasAt.lt {f : CFavorites} {k : Nat} {x : NETADDR} (h : f.HasAt k x) :
    k < f.m_vEntries.length := by
  obtain ⟨e, he, -⟩ := h
  exact (List.getElem?_eq_some_iff.mp he).1

end CFavorites

/-- The index is right for all but the stale addresses, which are in no entry. -/
structure Indexed (stale : NETADDR → Prop) (f : CFavorites) : Prop where
  located : ∀ x k, ¬ stale x → (f.m_ByAddr x = some k ↔ f.HasAt k x)
  gone : ∀ x k, stale x → ¬ f.HasAt k x
  nonempty : ∀ e ∈ f.m_vEntries, e.m_aAddrs ≠ []

/-- The index is right but for the entry that is removed next. -/
structure Vacated (stale : NETADDR → Prop) (f : CFavorites) (i : Nat) : Prop where
  located : ∀ x k, ¬ stale x → (f.m_ByAddr x = some k ↔ k ≠ i ∧ f.HasAt k x)
  gone : ∀ x k, stale x → k ≠ i → ¬ f.HasAt k x
  nonempty : ∀ k e, k ≠ i → f.m_vEntries[k]? = some e → e.m_aAddrs ≠ []

section

variable {stale : NETADDR → Prop} {f : CFavorites}

theorem Indexed.unique (h : Indexed stale f) {i j : Nat} {x : NETADDR} (hi : f.HasAt i x)
    (hj : f.HasAt j x) : i = j := by
  have hx : ¬ stale x := fun hx => h.gone x i hx hi
  have hboth := ((h.located x i hx).mpr hi).symm.trans ((h.located x j hx).mpr hj)
  exact Option.some.inj hboth

/-- Looking up an address that is not stale. -/
theorem Indexed.entry (h : Indexed stale f) {x : NETADDR} (hx : ¬ stale x) :
    (f.Entry x = .ok none ∧ ∀ k, ¬ f.HasAt k x) ∨
      ∃ i e, f.Entry x = .ok (some (i, e)) ∧ f.m_vEntries[i]? = some e ∧ x ∈ e.m_aAddrs := by
  unfold CFavorites.Entry
  cases hfind : f.m_ByAddr x with
  | none =>
      refine .inl ⟨rfl, fun k hk => ?_⟩
      rw [(h.located x k hx).mpr hk] at hfind
      cases hfind
  | some i =>
      obtain ⟨e, he, hmem⟩ := (h.located x i hx).mp hfind
      refine .inr ⟨i, e, ?_, he, hmem⟩
      simp only [he]

/-! ## Removing an entry -/

theorem relocate_spec {i : Nat} {byAddr : NETADDR → Option Nat} {addrs : List NETADDR}
    (h : ∀ x ∈ addrs, (byAddr x).isSome = true) :
    ∃ byAddr', CFavorites.relocate i byAddr addrs = .ok byAddr' ∧
      ∀ x, byAddr' x = if x ∈ addrs then some i else byAddr x := by
  induction addrs generalizing byAddr with
  | nil => exact ⟨byAddr, rfl, fun x => (if_neg List.not_mem_nil).symm⟩
  | cons y addrs ih =>
      have hy := h y List.mem_cons_self
      have hrest : ∀ x ∈ addrs, (Function.update byAddr y (some i) x).isSome = true := by
        intro x hx
        rw [Function.update_apply]
        split
        · rfl
        · exact h x (List.mem_cons_of_mem y hx)
      obtain ⟨byAddr', hrun, hby⟩ := ih hrest
      refine ⟨byAddr', ?_, fun x => ?_⟩
      · unfold CFavorites.relocate
        rw [if_neg (by rw [← Option.not_isSome, hy]; decide)]
        exact hrun
      · rw [hby, Function.update_apply]
        by_cases hx : x = y
        · rw [if_pos hx, ite_self, hx, if_pos List.mem_cons_self]
        · rw [if_neg hx]
          simp only [List.mem_cons, hx, false_or]

theorem hasAt_swapRemove {f' : CFavorites} {i : Nat} (hi : i < f.m_vEntries.length)
    (h : f'.m_vEntries = swapRemove f.m_vEntries i) (k : Nat) (x : NETADDR) :
    f'.HasAt k x ↔ k < f.m_vEntries.length - 1 ∧
      f.HasAt (if k = i then f.m_vEntries.length - 1 else k) x := by
  unfold CFavorites.HasAt
  rw [h, getElem?_swapRemove hi]
  by_cases hlt : k < f.m_vEntries.length - 1
  · by_cases heq : k = i
    · simp only [if_true, if_pos heq, hlt, true_and]
    · simp only [if_true, if_neg heq, hlt, true_and]
  · simp only [hlt, false_and, iff_false]
    rintro ⟨e, he, -⟩
    cases he

/-- What an entry holds that is not the removed one. -/
theorem Vacated.hasAt_iff {i : Nat} (h : Vacated stale f i) {x : NETADDR} (hx : ¬ stale x)
    {k : Nat} (hk : k ≠ i) : f.HasAt k x ↔ f.m_ByAddr x = some k := by
  rw [h.located x k hx]
  exact ⟨fun hhas => ⟨hk, hhas⟩, And.right⟩

/-- The last entry moves to the place of the removed one, and the index follows it. -/
theorem Vacated.removeEntry {i : Nat} (h : Vacated stale f i) (hi : i < f.m_vEntries.length) :
    ∃ f', f.RemoveEntry i = .ok f' ∧ f'.m_vEntries = swapRemove f.m_vEntries i ∧
      Indexed stale f' := by
  obtain ⟨last, hlast⟩ : ∃ last, f.m_vEntries[f.m_vEntries.length - 1]? = some last :=
    ⟨_, List.getElem?_eq_getElem (by omega)⟩
  have hget : f.m_vEntries.getLast? = some last := by
    rw [List.getLast?_eq_getElem?]
    exact hlast
  have hlength := length_swapRemove hi
  have hgone : ∀ x k, stale x → k < f.m_vEntries.length - 1 →
      ¬ f.HasAt (if k = i then f.m_vEntries.length - 1 else k) x := by
    intro x k hx hk
    apply h.gone x _ hx
    split <;> omega
  have hnonempty : ∀ e ∈ swapRemove f.m_vEntries i, e.m_aAddrs ≠ [] := by
    intro e he
    obtain ⟨k, hk⟩ := List.mem_iff_getElem?.mp he
    rw [getElem?_swapRemove hi] at hk
    split at hk
    next hlt =>
      split at hk
      next heq => exact h.nonempty _ e (by omega) hk
      next hne => exact h.nonempty k e hne hk
    next => cases hk
  unfold CFavorites.RemoveEntry
  rw [hget]
  simp only [hlength]
  by_cases hend : i = f.m_vEntries.length - 1
  · rw [if_neg (by simpa using hend)]
    refine ⟨_, rfl, rfl, ⟨fun x k hx => ?_, fun x k hx hhas => ?_, hnonempty⟩⟩
    · rw [hasAt_swapRemove hi rfl]
      refine (h.located x k hx).trans ⟨fun hk => ?_, fun hk => ?_⟩
      · have hlt := hk.2.lt
        rw [if_neg hk.1]
        exact ⟨by omega, hk.2⟩
      · have hne : k ≠ i := by omega
        rw [if_neg hne] at hk
        exact ⟨hne, hk.2⟩
    · rw [hasAt_swapRemove hi rfl] at hhas
      exact hgone x k hx hhas.1 hhas.2
  · rw [if_pos hend]
    have hmoved : ∀ x, x ∈ last.m_aAddrs ↔ f.HasAt (f.m_vEntries.length - 1) x := by
      intro x
      refine ⟨fun hx => ⟨last, hlast, hx⟩, ?_⟩
      rintro ⟨e, he, hmem⟩
      rw [hlast] at he
      rw [Option.some.inj he]
      exact hmem
    have hfound : ∀ x ∈ last.m_aAddrs, (f.m_ByAddr x).isSome = true := by
      intro x hx
      have hhas := (hmoved x).mp hx
      have hne : f.m_vEntries.length - 1 ≠ i := Ne.symm hend
      have hfresh : ¬ stale x := fun hstale => h.gone x _ hstale hne hhas
      rw [(h.hasAt_iff hfresh hne).mp hhas]
      rfl
    obtain ⟨byAddr, hrun, hby⟩ := @relocate_spec i _ _ hfound
    rw [hrun]
    refine ⟨_, rfl, rfl, ⟨fun x k hx => ?_, fun x k hx hhas => ?_, hnonempty⟩⟩
    · rw [hasAt_swapRemove hi rfl]
      refine (Eq.congr_left (hby x)).trans ?_
      by_cases hmem : x ∈ last.m_aAddrs
      · have hhas := (hmoved x).mp hmem
        have hne : f.m_vEntries.length - 1 ≠ i := Ne.symm hend
        have hat := (h.hasAt_iff hx hne).mp hhas
        rw [if_pos hmem]
        constructor
        · intro hk
          rw [← Option.some.inj hk, if_pos rfl]
          exact ⟨by omega, hhas⟩
        · rintro ⟨hlt, hk⟩
          by_cases heq : k = i
          · rw [heq]
          · rw [if_neg heq, h.hasAt_iff hx heq, hat] at hk
            have hlast := Option.some.inj hk
            omega
      · rw [if_neg hmem, h.located x k hx]
        rw [hmoved] at hmem
        constructor
        · rintro ⟨hne, hk⟩
          have hlt := hk.lt
          have hlast : k ≠ f.m_vEntries.length - 1 := by
            rintro rfl
            exact hmem hk
          rw [if_neg hne]
          exact ⟨by omega, hk⟩
        · rintro ⟨hlt, hk⟩
          by_cases heq : k = i
          · rw [if_pos heq] at hk
            exact absurd hk hmem
          · rw [if_neg heq] at hk
            exact ⟨heq, hk⟩
    · rw [hasAt_swapRemove hi rfl] at hhas
      exact hgone x k hx hhas.1 hhas.2

/-! ## How often an address is held -/

/-- How often an address is in an entry. -/
def CFavorites.held (f : CFavorites) (x : NETADDR) : Nat :=
  (f.m_vEntries.map fun e => e.m_aAddrs.count x).sum

theorem held_eq_zero {f : CFavorites} {x : NETADDR} : f.held x = 0 ↔ ∀ k, ¬ f.HasAt k x := by
  unfold CFavorites.held CFavorites.HasAt
  rw [List.sum_eq_zero_iff_forall_eq_nat]
  constructor
  · rintro h k ⟨e, he, hx⟩
    have hzero := h _ (List.mem_map.mpr ⟨e, List.mem_of_getElem? he, rfl⟩)
    exact absurd hx (List.count_eq_zero.mp hzero)
  · intro h n hn
    obtain ⟨e, he, rfl⟩ := List.mem_map.mp hn
    obtain ⟨k, hk⟩ := List.mem_iff_getElem?.mp he
    exact List.count_eq_zero.mpr fun hx => h k ⟨e, hk, hx⟩

theorem held_split {f : CFavorites} {i : Nat} {e : CEntry} (he : f.m_vEntries[i]? = some e)
    (x : NETADDR) :
    f.held x = e.m_aAddrs.count x +
      ((f.m_vEntries.eraseIdx i).map fun e => e.m_aAddrs.count x).sum := by
  obtain ⟨hi, rfl⟩ := List.getElem?_eq_some_iff.mp he
  unfold CFavorites.held
  rw [← List.sum_cons]
  exact ((List.getElem_cons_eraseIdx_perm hi).symm.map _).sum_eq

theorem held_set {f : CFavorites} {i : Nat} (hi : i < f.m_vEntries.length) (e : CEntry)
    (x : NETADDR) :
    { f with m_vEntries := f.m_vEntries.set i e }.held x = e.m_aAddrs.count x +
      ((f.m_vEntries.eraseIdx i).map fun e => e.m_aAddrs.count x).sum := by
  unfold CFavorites.held
  rw [← List.sum_cons]
  exact ((List.set_perm_cons_eraseIdx hi e).map _).sum_eq

theorem held_of_perm {f f' : CFavorites} {i : Nat}
    (h : f'.m_vEntries.Perm (f.m_vEntries.eraseIdx i)) (x : NETADDR) :
    f'.held x = ((f.m_vEntries.eraseIdx i).map fun e => e.m_aAddrs.count x).sum :=
  (h.map _).sum_eq

theorem hasAt_set {i : Nat} (hi : i < f.m_vEntries.length) (e : CEntry) (k : Nat) (x : NETADDR) :
    { f with m_vEntries := f.m_vEntries.set i e }.HasAt k x ↔
      k = i ∧ x ∈ e.m_aAddrs ∨ k ≠ i ∧ f.HasAt k x := by
  unfold CFavorites.HasAt
  by_cases hk : k = i
  · rw [hk, List.getElem?_set_self hi]
    simp
  · rw [List.getElem?_set_ne (Ne.symm hk)]
    simp [hk]

/-! ## Taking an address from its entry -/

/-- Entries without an address of a list are still there. -/
def Keeps (L : List NETADDR) (f f' : CFavorites) : Prop :=
  ∀ e ∈ f.m_vEntries, (∀ x ∈ L, x ∉ e.m_aAddrs) → e ∈ f'.m_vEntries

/-- One address is taken from its entry, an entry that is left empty is removed. -/
structure Cleaned (stale : NETADDR → Prop) (f f' : CFavorites) (x : NETADDR) : Prop where
  indexed : Indexed (fun y => stale y ∨ y = x ∧ f'.held y = 0) f'
  held : ∀ y, f'.held y + (if x = y then 1 else 0) = f.held y
  keeps : Keeps [x] f f'

theorem mem_of_ne {i k : Nat} {e : CEntry} (hk : f.m_vEntries[k]? = some e) (hne : k ≠ i) :
    e ∈ f.m_vEntries.eraseIdx i := by
  rw [List.mem_eraseIdx_iff_getElem?]
  exact ⟨k, hne, hk⟩

theorem mem_iff_hasAt {i : Nat} {e : CEntry} (he : f.m_vEntries[i]? = some e) (y : NETADDR) :
    y ∈ e.m_aAddrs ↔ f.HasAt i y := by
  refine ⟨fun hy => ⟨e, he, hy⟩, ?_⟩
  rintro ⟨e', he', hy⟩
  rw [he] at he'
  rw [Option.some.inj he']
  exact hy

theorem count_taken {e : CEntry} {x : NETADDR} (hx : x ∈ e.m_aAddrs) (y : NETADDR) :
    (swapErase e.m_aAddrs x).count y + (if x = y then 1 else 0) = e.m_aAddrs.count y := by
  rw [count_swapErase]
  by_cases hy : x = y
  · have hpos := List.count_pos_iff.mpr hx
    rw [if_pos hy, ← hy]
    omega
  · rw [if_neg hy]
    rfl

/-- The entry at an index without one address. -/
def CFavorites.taken (f : CFavorites) (i : Nat) (e : CEntry) (x : NETADDR) : CFavorites :=
  { f with m_vEntries := f.m_vEntries.set i { e with m_aAddrs := swapErase e.m_aAddrs x } }

/-- An address that is taken or stale is in no other entry. -/
theorem Indexed.notElsewhere (h : Indexed stale f) {x y : NETADDR} {i k : Nat} (hx : f.HasAt i x)
    (hy : stale y ∨ y = x) (hk : k ≠ i) : ¬ f.HasAt k y := by
  intro hhas
  rcases hy with hy | rfl
  · exact h.gone y k hy hhas
  · exact hk (h.unique hhas hx)

section

variable {x : NETADDR} {i : Nat} {e : CEntry}

theorem hasAt_taken (he : f.m_vEntries[i]? = some e) (k : Nat) (y : NETADDR) :
    (f.taken i e x).HasAt k y ↔
      k = i ∧ y ∈ swapErase e.m_aAddrs x ∨ k ≠ i ∧ f.HasAt k y :=
  hasAt_set (List.getElem?_eq_some_iff.mp he).1 _ k y

theorem Indexed.nonempty_taken (h : Indexed stale f) {k : Nat} {e' : CEntry} (hk : k ≠ i)
    (he' : (f.taken i e x).m_vEntries[k]? = some e') : e'.m_aAddrs ≠ [] := by
  unfold CFavorites.taken at he'
  rw [List.getElem?_set_ne (Ne.symm hk)] at he'
  exact h.nonempty e' (List.mem_of_getElem? he')

/-- The entry had this address only. -/
theorem Indexed.taken_vacated (h : Indexed stale f) (he : f.m_vEntries[i]? = some e)
    (hx : x ∈ e.m_aAddrs) (hempty : swapErase e.m_aAddrs x = []) :
    Vacated (fun y => stale y ∨ y = x) (f.taken i e x) i := by
  have hsame : ∀ y ∈ e.m_aAddrs, y = x := by
    intro y hy
    have hpos := List.count_pos_iff.mpr hy
    rw [← count_taken hx, hempty] at hpos
    by_contra hne
    rw [if_neg (Ne.symm hne)] at hpos
    exact absurd hpos (Nat.lt_irrefl 0)
  refine ⟨fun y k hy => ?_, fun y k hy hk hhas => ?_, fun k e' hk he' => h.nonempty_taken hk he'⟩
  · rw [hasAt_taken he]
    refine (h.located y k fun hstale => hy (.inl hstale)).trans ⟨fun hhas => ?_, ?_⟩
    · have hk : k ≠ i := by
        rintro rfl
        exact hy (.inr (hsame y ((mem_iff_hasAt he y).mpr hhas)))
      exact ⟨hk, .inr ⟨hk, hhas⟩⟩
    · rintro ⟨hk, ⟨heq, -⟩ | ⟨-, hhas⟩⟩
      · exact absurd heq hk
      · exact hhas
  · rcases (hasAt_taken he k y).mp hhas with ⟨heq, -⟩ | ⟨-, hhas⟩
    · exact hk heq
    · exact h.notElsewhere ⟨e, he, hx⟩ hy hk hhas

/-- The entry keeps other addresses, or more of the same. -/
theorem Indexed.taken_indexed (h : Indexed stale f) (he : f.m_vEntries[i]? = some e)
    (hx : x ∈ e.m_aAddrs) (hempty : swapErase e.m_aAddrs x ≠ []) :
    Indexed (fun y => stale y ∨ y = x ∧ (f.taken i e x).held y = 0) (f.taken i e x) := by
  refine ⟨fun y k hy => ?_, fun y k hy hhas => ?_, fun e' he' => ?_⟩
  · have hstill : f.HasAt i y ↔ y ∈ swapErase e.m_aAddrs x := by
      rw [← mem_iff_hasAt he, ← List.count_pos_iff, ← List.count_pos_iff, ← count_taken hx]
      by_cases heq : x = y
      · have hpos : 0 < (swapErase e.m_aAddrs x).count y := by
          by_contra hzero
          apply hy
          refine .inr ⟨heq.symm, held_eq_zero.mpr fun k hhas => ?_⟩
          rcases (hasAt_taken he k y).mp hhas with ⟨-, hmem⟩ | ⟨hk, hhas⟩
          · exact hzero (List.count_pos_iff.mpr hmem)
          · exact h.notElsewhere ⟨e, he, hx⟩ (.inr heq.symm) hk hhas
        rw [if_pos heq]
        omega
      · rw [if_neg heq, Nat.add_zero]
    rw [hasAt_taken he]
    refine (h.located y k fun hstale => hy (.inl hstale)).trans ?_
    by_cases hk : k = i
    · simp [hk, hstill]
    · simp [hk]
  · rcases hy with hstale | ⟨-, hzero⟩
    · rcases (hasAt_taken he k y).mp hhas with ⟨-, hmem⟩ | ⟨-, hhas⟩
      · refine h.gone y i hstale ⟨e, he, List.count_pos_iff.mp ?_⟩
        have hpos := List.count_pos_iff.mpr hmem
        rw [← count_taken hx]
        omega
      · exact h.gone y k hstale hhas
    · exact held_eq_zero.mp hzero k hhas
  · obtain ⟨k, hk⟩ := List.mem_iff_getElem?.mp he'
    by_cases heq : k = i
    · unfold CFavorites.taken at hk
      rw [heq, List.getElem?_set_self (List.getElem?_eq_some_iff.mp he).1] at hk
      rw [← Option.some.inj hk]
      exact hempty
    · exact h.nonempty_taken heq hk

theorem Indexed.clean_known (h : Indexed stale f) (he : f.m_vEntries[i]? = some e)
    (hx : x ∈ e.m_aAddrs) (hfind : f.Entry x = .ok (some (i, e))) :
    ∃ f', f.clean x = .ok f' ∧ Cleaned stale f f' x := by
  have hi : i < f.m_vEntries.length := (List.getElem?_eq_some_iff.mp he).1
  have hkeeps : ∀ e' ∈ f.m_vEntries, (∀ y ∈ [x], y ∉ e'.m_aAddrs) →
      e' ∈ f.m_vEntries.eraseIdx i := by
    intro e' he' hnot
    obtain ⟨k, hk⟩ := List.mem_iff_getElem?.mp he'
    refine mem_of_ne hk ?_
    rintro rfl
    rw [he] at hk
    rw [← Option.some.inj hk] at hnot
    exact hnot x List.mem_cons_self hx
  have hrun : f.clean x = if swapErase e.m_aAddrs x = [] then (f.taken i e x).RemoveEntry i
      else .ok (f.taken i e x) := by
    unfold CFavorites.clean
    rw [hfind]
    rfl
  rw [hrun]
  by_cases hempty : swapErase e.m_aAddrs x = []
  · rw [if_pos hempty]
    have hlength : i < (f.taken i e x).m_vEntries.length := by
      unfold CFavorites.taken
      rw [List.length_set]
      exact hi
    obtain ⟨f', hremove, hentries, hindexed⟩ := (h.taken_vacated he hx hempty).removeEntry hlength
    have hperm : f'.m_vEntries.Perm (f.m_vEntries.eraseIdx i) := by
      have hswap := swapRemove_perm hlength
      rw [← hentries] at hswap
      unfold CFavorites.taken at hswap
      rw [List.eraseIdx_set_eq] at hswap
      exact hswap
    refine ⟨f', hremove, ⟨⟨fun y k hy => ?_, fun y k hy => ?_, hindexed.nonempty⟩, fun y => ?_,
      fun e' he' hnot => hperm.mem_iff.mpr (hkeeps e' he' hnot)⟩⟩
    · apply hindexed.located y k
      rintro (hstale | hy')
      · exact hy (.inl hstale)
      · exact hy (.inr ⟨hy', held_eq_zero.mpr fun k => hindexed.gone y k (.inr hy')⟩)
    · exact hindexed.gone y k (hy.imp id And.left)
    · rw [held_of_perm hperm, held_split he, ← count_taken hx, hempty, List.count_nil]
      omega
  · rw [if_neg hempty]
    refine ⟨_, rfl, ⟨h.taken_indexed he hx hempty, fun y => ?_, fun e' he' hnot => ?_⟩⟩
    · unfold CFavorites.taken
      rw [held_set hi, held_split he, ← count_taken hx]
      simp only
      omega
    · exact (List.set_perm_cons_eraseIdx hi _).mem_iff.mpr
        (List.mem_cons_of_mem _ (hkeeps e' he' hnot))

end

end

end Fex.Engine.Favorites
