import Fex.Engine.Favorites.Index

/-!
# Runs of the favorites

In runs whose added groups name a known address as often as its entry does, and within
the addresses an entry holds, the index is right after every call.
-/

namespace Fex.Engine.Favorites

open Fex.Lib Fex.Engine.NetBan

variable {stale : NETADDR → Prop} {f : CFavorites}

/-! ## Adding -/

theorem Indexed.clean_spec (h : Indexed stale f) {x : NETADDR} (hx : ¬ stale x) :
    (f.held x = 0 ∧ f.clean x = .ok f) ∨
      0 < f.held x ∧ ∃ f', f.clean x = .ok f' ∧ Cleaned stale f f' x := by
  rcases h.entry hx with ⟨hfind, hnone⟩ | ⟨i, e, hfind, he, hmem⟩
  · refine .inl ⟨held_eq_zero.mpr hnone, ?_⟩
    unfold CFavorites.clean
    rw [hfind]
    rfl
  · refine .inr ⟨?_, h.clean_known he hmem hfind⟩
    rw [held_split he]
    exact Nat.add_pos_left (List.count_pos_iff.mpr hmem) _

theorem Keeps.trans {L : List NETADDR} {x : NETADDR} {f' f'' : CFavorites} (h : Keeps [x] f f')
    (h' : Keeps L f' f'') : Keeps (x :: L) f f'' := by
  intro e he hnot
  apply h' e
  · apply h e he
    intro y hy
    rw [List.mem_singleton.mp hy]
    exact hnot x List.mem_cons_self
  · exact fun y hy => hnot y (List.mem_cons_of_mem x hy)

/-- The addresses of a group that names each known one as often as its entry does. -/
theorem Indexed.cleanAll (h : Indexed stale f) {L : List NETADDR}
    (hL : ∀ x ∈ L, ¬ stale x ∧ (0 < f.held x → L.count x = f.held x)) :
    ∃ f' stale', L.foldlM CFavorites.clean f = .ok f' ∧ Indexed stale' f' ∧
      (∀ x, stale' x → stale x ∨ x ∈ L ∧ 0 < f.held x) ∧
      (∀ x, f'.held x ≤ f.held x ∧ (x ∈ L → f'.held x = 0)) ∧ Keeps L f f' := by
  induction L generalizing f stale with
  | nil =>
      exact ⟨f, stale, rfl, h, fun x hx => .inl hx,
        fun x => ⟨Nat.le_refl _, fun hx => absurd hx List.not_mem_nil⟩, fun e he _ => he⟩
  | cons x L ih =>
      rw [List.foldlM_cons]
      obtain ⟨hfresh, hcount⟩ := hL x List.mem_cons_self
      rcases h.clean_spec hfresh with ⟨hzero, hrun⟩ | ⟨hpos, f₁, hrun, hcleaned⟩
      · rw [hrun]
        obtain ⟨f', stale', hrun', hindexed, hstale, hheld, hkeeps⟩ := ih h (by
          intro y hy
          obtain ⟨hy', hcount'⟩ := hL y (List.mem_cons_of_mem x hy)
          refine ⟨hy', fun hpos => ?_⟩
          rw [← hcount' hpos, List.count_cons_of_ne]
          rintro rfl
          omega)
        refine ⟨f', stale', hrun', hindexed, fun y hy => ?_, fun y => ⟨(hheld y).1, fun hy => ?_⟩,
          Keeps.trans (fun e he _ => he) hkeeps⟩
        · exact (hstale y hy).imp id fun hy => ⟨List.mem_cons_of_mem x hy.1, hy.2⟩
        · rcases List.mem_cons.mp hy with rfl | hy
          · have hle := (hheld y).1
            omega
          · exact (hheld y).2 hy
      · rw [hrun]
        have hself := hcleaned.held x
        rw [if_pos rfl] at hself
        have htail : L.count x = f₁.held x := by
          have hall := hcount hpos
          rw [List.count_cons_self] at hall
          omega
        obtain ⟨f', stale', hrun', hindexed, hstale, hheld, hkeeps⟩ := ih hcleaned.indexed (by
          intro y hy
          obtain ⟨hy', hcount'⟩ := hL y (List.mem_cons_of_mem x hy)
          by_cases heq : x = y
          · rw [← heq] at hy ⊢
            have hmore := List.count_pos_iff.mpr hy
            refine ⟨?_, fun _ => htail⟩
            rintro (hs | ⟨-, hzero⟩)
            · exact hfresh hs
            · omega
          · have hsame := hcleaned.held y
            rw [if_neg heq, Nat.add_zero] at hsame
            rw [List.count_cons_of_ne heq] at hcount'
            rw [hsame]
            refine ⟨?_, hcount'⟩
            rintro (hs | ⟨hs, -⟩)
            · exact hy' hs
            · exact heq hs.symm)
        refine ⟨f', stale', hrun', hindexed, fun y hy => ?_, fun y => ?_,
          Keeps.trans hcleaned.keeps hkeeps⟩
        · rcases hstale y hy with (hs | ⟨rfl, -⟩) | ⟨hs, hheld'⟩
          · exact .inl hs
          · exact .inr ⟨List.mem_cons_self, hpos⟩
          · refine .inr ⟨List.mem_cons_of_mem x hs, ?_⟩
            have hle := hcleaned.held y
            omega
        · have hle := hcleaned.held y
          have hle' := (hheld y).1
          refine ⟨by omega, fun hy => ?_⟩
          by_cases hmem : y ∈ L
          · exact (hheld y).2 hmem
          · have heq : y = x := (List.mem_cons.mp hy).resolve_right hmem
            rw [heq] at hmem hle' ⊢
            rw [List.count_eq_zero.mpr hmem] at htail
            omega

theorem foldl_update (addrs : List NETADDR) (value : Option Nat) (byAddr : NETADDR → Option Nat)
    (x : NETADDR) :
    addrs.foldl (fun by' Addr => Function.update by' Addr value) byAddr x =
      if x ∈ addrs then value else byAddr x := by
  induction addrs generalizing byAddr with
  | nil => rfl
  | cons y addrs ih =>
      rw [List.foldl_cons, ih, Function.update_apply]
      by_cases heq : x = y
      · rw [if_pos heq, ite_self, heq, if_pos List.mem_cons_self]
      · rw [if_neg heq]
        simp only [List.mem_cons, heq, false_or]

theorem hasAt_concat {g : CFavorites} {e : CEntry} (h : g.m_vEntries = f.m_vEntries ++ [e])
    (k : Nat) (x : NETADDR) :
    g.HasAt k x ↔ f.HasAt k x ∨ k = f.m_vEntries.length ∧ x ∈ e.m_aAddrs := by
  unfold CFavorites.HasAt
  rw [h]
  rcases Nat.lt_trichotomy k f.m_vEntries.length with hlt | heq | hgt
  · rw [List.getElem?_append_left hlt]
    have hne : k ≠ f.m_vEntries.length := Nat.ne_of_lt hlt
    simp [hne]
  · rw [heq, List.getElem?_concat_length, List.getElem?_eq_none (Nat.le_refl _)]
    simp
  · rw [List.getElem?_eq_none (by rw [List.length_append]; exact hgt),
      List.getElem?_eq_none (Nat.le_of_lt hgt)]
    have hne : k ≠ f.m_vEntries.length := Nat.ne_of_gt hgt
    simp [hne]

/-- Every address is located. -/
abbrev Located (f : CFavorites) : Prop := Indexed (fun _ => False) f

/-- The known addresses of an added group are among those an entry holds, and the group names
each as often as the entry that has it. -/
def Tracked (f : CFavorites) : Call → Prop
  | .Add pAddrs => ∀ x ∈ pAddrs, 0 < f.held x →
      x ∈ pAddrs.take MAX_SERVER_ADDRESSES ∧ pAddrs.count x = f.held x
  | _ => True

instance (f : CFavorites) : (call : Call) → Decidable (Tracked f call)
  | .Add pAddrs => inferInstanceAs (Decidable (∀ x ∈ pAddrs, 0 < f.held x →
      x ∈ pAddrs.take MAX_SERVER_ADDRESSES ∧ pAddrs.count x = f.held x))
  | .AllowPing _ _ => .isTrue trivial
  | .Remove _ => .isTrue trivial

theorem Indexed.push (h : Indexed stale f) {addrs : List NETADDR} (hne : addrs ≠ [])
    (hnew : ∀ x ∈ addrs, f.held x = 0) (hstale : ∀ x, stale x → x ∈ addrs) :
    Located {
      m_vEntries := f.m_vEntries ++ [{ m_aAddrs := addrs, m_AllowPing := false }]
      m_ByAddr := addrs.foldl (fun by' Addr => Function.update by' Addr (some f.m_vEntries.length))
        f.m_ByAddr } := by
  refine ⟨fun x k _ => ?_, fun x k hx => absurd hx id, fun e he => ?_⟩
  · rw [hasAt_concat rfl]
    simp only [foldl_update]
    by_cases hx : x ∈ addrs
    · have hnone := held_eq_zero.mp (hnew x hx) k
      rw [if_pos hx, Option.some_inj]
      simp only [hx, hnone, false_or, and_true, eq_comm]
    · rw [if_neg hx, h.located x k fun hs => hx (hstale x hs)]
      simp only [hx, and_false, or_false]
  · rcases List.mem_append.mp he with he | he
    · exact h.nonempty e he
    · rw [List.mem_singleton.mp he]
      exact hne

theorem Located.add_spec (h : Located f) {L : List NETADDR} (hne : L ≠ [])
    (hL : Tracked f (.Add L)) :
    ∃ f', f.Add L = .ok f' ∧ Located f' ∧ Keeps L f f' ∧
      { m_aAddrs := L.take MAX_SERVER_ADDRESSES, m_AllowPing := false } ∈ f'.m_vEntries ∧
      ∀ x ∈ L, x ∉ L.take MAX_SERVER_ADDRESSES → ∀ e ∈ f'.m_vEntries, x ∉ e.m_aAddrs := by
  obtain ⟨f₁, stale, hrun, hindexed, hstale, hheld, hkeeps⟩ :=
    Indexed.cleanAll (L := L) h fun x hx => ⟨id, fun hpos => (hL x hx hpos).2⟩
  have htake : L.take MAX_SERVER_ADDRESSES ≠ [] := by
    cases L with
    | nil => exact hne
    | cons x L => exact List.cons_ne_nil _ _
  have hadd := hindexed.push htake (fun x hx => (hheld x).2 (List.mem_of_mem_take hx)) (by
    intro x hx
    rcases hstale x hx with hx | ⟨hx, hpos⟩
    · exact absurd hx id
    · exact (hL x hx hpos).1)
  unfold CFavorites.Add
  rw [if_neg hne, hrun]
  refine ⟨_, rfl, hadd, fun e he hnot => ?_, ?_, fun x hx hnot e he => ?_⟩
  · exact List.mem_append_left _ (hkeeps e he hnot)
  · exact List.mem_append_right _ (List.mem_singleton.mpr rfl)
  · rcases List.mem_append.mp he with he | he
    · obtain ⟨k, hk⟩ := List.mem_iff_getElem?.mp he
      exact fun hmem => held_eq_zero.mp ((hheld x).2 hx) k ⟨e, hk, hmem⟩
    · rw [List.mem_singleton.mp he]
      exact hnot

/-! ## Removing -/

theorem Located.drop_spec (h : Located f) (x : NETADDR) :
    ∃ f', f.drop x = .ok f' ∧ Located f' ∧ (∀ y k, f'.HasAt k y → y ≠ x ∧ ∃ k, f.HasAt k y) ∧
      Keeps [x] f f' := by
  unfold CFavorites.drop
  rcases h.entry (x := x) id with ⟨hfind, hnone⟩ | ⟨i, e, hfind, he, hmem⟩
  · rw [hfind]
    refine ⟨f, rfl, h, fun y k hhas => ⟨?_, k, hhas⟩, fun e he _ => he⟩
    rintro rfl
    exact hnone k hhas
  · rw [hfind]
    have hi : i < f.m_vEntries.length := (List.getElem?_eq_some_iff.mp he).1
    obtain ⟨g, hg⟩ : ∃ g : CFavorites, g = { f with
        m_ByAddr := (e.m_aAddrs.foldl (fun by' Addr => Function.update by' Addr none) f.m_ByAddr) } :=
      ⟨_, rfl⟩
    have hentries : g.m_vEntries = f.m_vEntries := by rw [hg]
    have hhas : ∀ k y, g.HasAt k y ↔ f.HasAt k y := by
      intro k y
      rw [hg]
      exact Iff.rfl
    have hvacated : Vacated (fun _ => False) g i := by
      refine ⟨fun y k _ => ?_, fun y k hy => absurd hy id, fun k e' _ he' => ?_⟩
      · rw [hhas, hg]
        simp only [foldl_update]
        by_cases hy : y ∈ e.m_aAddrs
        · rw [if_pos hy]
          constructor
          · intro hnone
            cases hnone
          · rintro ⟨hk, hat⟩
            exact absurd (h.unique hat ⟨e, he, hy⟩) hk
        · rw [if_neg hy, h.located y k id]
          refine ⟨fun hat => ⟨?_, hat⟩, And.right⟩
          rintro rfl
          obtain ⟨e', he', hmem'⟩ := hat
          rw [he] at he'
          rw [← Option.some.inj he'] at hmem'
          exact hy hmem'
      · rw [hentries] at he'
        exact h.nonempty e' (List.mem_of_getElem? he')
    rw [← hentries] at hi
    obtain ⟨f', hrun, hswap, hlocated⟩ := hvacated.removeEntry hi
    refine ⟨f', ?_, hlocated, fun y k hat => ?_, fun e' he' hnot => ?_⟩
    · rw [← hrun, hg]
      rfl
    · obtain ⟨hlt, hat⟩ := (hasAt_swapRemove hi hswap k y).mp hat
      rw [hhas] at hat
      refine ⟨?_, _, hat⟩
      rintro rfl
      have hplace := h.unique hat ⟨e, he, hmem⟩
      split at hplace
      · omega
      · omega
    · rw [hswap]
      refine (swapRemove_perm hi).mem_iff.mpr ?_
      obtain ⟨k, hk⟩ := List.mem_iff_getElem?.mp he'
      rw [hentries]
      refine mem_of_ne hk ?_
      rintro rfl
      rw [he] at hk
      rw [← Option.some.inj hk] at hnot
      exact hnot x List.mem_cons_self hmem

theorem Located.remove_spec (h : Located f) (L : List NETADDR) :
    ∃ f', f.Remove L = .ok f' ∧ Located f' ∧
      (∀ y k, f'.HasAt k y → y ∉ L ∧ ∃ k, f.HasAt k y) ∧ Keeps L f f' := by
  unfold CFavorites.Remove
  induction L generalizing f with
  | nil => exact ⟨f, rfl, h, fun y k hat => ⟨List.not_mem_nil, k, hat⟩, fun e he _ => he⟩
  | cons x L ih =>
      obtain ⟨f₁, hrun, hlocated, hfrom, hkeeps⟩ := h.drop_spec x
      obtain ⟨f', hrun', hlocated', hfrom', hkeeps'⟩ := ih hlocated
      rw [List.foldlM_cons, hrun]
      refine ⟨f', hrun', hlocated', fun y k hat => ?_, hkeeps.trans hkeeps'⟩
      obtain ⟨hy, k', hat'⟩ := hfrom' y k hat
      obtain ⟨hy', hat''⟩ := hfrom y k' hat'
      exact ⟨List.not_mem_cons_of_ne_of_not_mem hy' hy, hat''⟩

/-! ## Allowing pings -/

theorem Located.allow_spec (h : Located f) (x : NETADDR) (b : Bool) :
    ∃ f', f.allow b x = .ok f' ∧ Located f' ∧
      (∀ e ∈ f'.m_vEntries, e.m_AllowPing = b ∨ e ∈ f.m_vEntries ∧ x ∉ e.m_aAddrs) ∧
      Keeps [x] f f' := by
  unfold CFavorites.allow
  rcases h.entry (x := x) id with ⟨hfind, hnone⟩ | ⟨i, e, hfind, he, hmem⟩
  · rw [hfind]
    refine ⟨f, rfl, h, fun e he => .inr ⟨he, fun hx => ?_⟩, fun e he _ => he⟩
    obtain ⟨k, hk⟩ := List.mem_iff_getElem?.mp he
    exact hnone k ⟨e, hk, hx⟩
  · rw [hfind]
    have hi : i < f.m_vEntries.length := (List.getElem?_eq_some_iff.mp he).1
    have hat : ∀ k y, { f with
        m_vEntries := f.m_vEntries.set i { e with m_AllowPing := b } }.HasAt k y ↔ f.HasAt k y := by
      intro k y
      rw [hasAt_set hi]
      by_cases hk : k = i
      · rw [hk]
        simp [CFavorites.HasAt, he]
      · simp [hk]
    have hset : ∀ e' ∈ f.m_vEntries.set i { e with m_AllowPing := b },
        e' = { e with m_AllowPing := b } ∨ e' ∈ f.m_vEntries ∧ x ∉ e'.m_aAddrs := by
      intro e' he'
      obtain ⟨k, hk⟩ := List.mem_iff_getElem?.mp he'
      by_cases hki : k = i
      · rw [hki, List.getElem?_set_self hi] at hk
        exact .inl (Option.some.inj hk).symm
      · rw [List.getElem?_set_ne (Ne.symm hki)] at hk
        exact .inr ⟨List.mem_of_getElem? hk, fun hx =>
          hki (h.unique ⟨e', hk, hx⟩ ⟨e, he, hmem⟩)⟩
    refine ⟨_, rfl, ⟨fun y k hy => ?_, fun y k hy => absurd hy id, fun e' he' => ?_⟩,
      fun e' he' => ?_, fun e' he' hnot => ?_⟩
    · rw [hat]
      exact h.located y k hy
    · rcases hset e' he' with rfl | ⟨hold, -⟩
      · exact h.nonempty e (List.mem_of_getElem? he)
      · exact h.nonempty e' hold
    · rcases hset e' he' with rfl | hold
      · exact .inl rfl
      · exact .inr hold
    · obtain ⟨k, hk⟩ := List.mem_iff_getElem?.mp he'
      have hki : k ≠ i := by
        rintro rfl
        rw [he] at hk
        rw [← Option.some.inj hk] at hnot
        exact hnot x List.mem_cons_self hmem
      apply List.mem_of_getElem? (i := k)
      rw [List.getElem?_set_ne (Ne.symm hki)]
      exact hk

theorem Located.allowPing_spec (h : Located f) (L : List NETADDR) (b : Bool) :
    ∃ f', f.AllowPing L b = .ok f' ∧ Located f' ∧
      (∀ e ∈ f'.m_vEntries, e.m_AllowPing = b ∨ ∀ x ∈ L, x ∉ e.m_aAddrs) ∧ Keeps L f f' := by
  have hloop : ∃ f', f.AllowPing L b = .ok f' ∧ Located f' ∧
      (∀ e ∈ f'.m_vEntries, e.m_AllowPing = b ∨ e ∈ f.m_vEntries ∧ ∀ x ∈ L, x ∉ e.m_aAddrs) ∧
      Keeps L f f' := by
    unfold CFavorites.AllowPing
    induction L generalizing f with
    | nil =>
        exact ⟨f, rfl, h, fun e he => .inr ⟨he, fun x hx => absurd hx List.not_mem_nil⟩,
          fun e he _ => he⟩
    | cons x L ih =>
        obtain ⟨f₁, hrun, hlocated, hallowed, hkeeps⟩ := h.allow_spec x b
        obtain ⟨f', hrun', hlocated', hallowed', hkeeps'⟩ := ih hlocated
        rw [List.foldlM_cons, hrun]
        refine ⟨f', hrun', hlocated', fun e he => ?_, hkeeps.trans hkeeps'⟩
        rcases hallowed' e he with heq | ⟨hold, hnot⟩
        · exact .inl heq
        · rcases hallowed e hold with heq | ⟨hold', hx⟩
          · exact .inl heq
          · refine .inr ⟨hold', fun y hy => ?_⟩
            rcases List.mem_cons.mp hy with rfl | hy
            · exact hx
            · exact hnot y hy
  obtain ⟨f', hrun, hlocated, hallowed, hkeeps⟩ := hloop
  exact ⟨f', hrun, hlocated, fun e he => (hallowed e he).imp id And.right, hkeeps⟩

/-! ## Runs -/

/-- The index maps an address to the entry that contains it, addresses are in one entry only
and no entry is empty. -/
structure Consistent (f : CFavorites) : Prop where
  located : ∀ x i, f.m_ByAddr x = some i ↔ ∃ e, f.m_vEntries[i]? = some e ∧ x ∈ e.m_aAddrs
  inRange : ∀ x i, f.m_ByAddr x = some i → i < f.m_vEntries.length
  disjoint : ∀ (i j : Nat) (e e' : CEntry) (x : NETADDR), f.m_vEntries[i]? = some e → f.m_vEntries[j]? = some e' →
    x ∈ e.m_aAddrs → x ∈ e'.m_aAddrs → i = j
  nonempty : ∀ e ∈ f.m_vEntries, e.m_aAddrs ≠ []

/-- What a call leaves behind. -/
def Effect (f' : CFavorites) : Call → Prop
  | .Add L => L ≠ [] →
      { m_aAddrs := L.take MAX_SERVER_ADDRESSES, m_AllowPing := false } ∈ f'.m_vEntries ∧
        ∀ x ∈ L, x ∉ L.take MAX_SERVER_ADDRESSES → ∀ e ∈ f'.m_vEntries, x ∉ e.m_aAddrs
  | .AllowPing L b => ∀ e ∈ f'.m_vEntries, e.m_AllowPing = b ∨ ∀ x ∈ L, x ∉ e.m_aAddrs
  | .Remove L => ∀ x ∈ L, f'.m_ByAddr x = none

def Call.addrs : Call → List NETADDR
  | .Add L => L
  | .AllowPing L _ => L
  | .Remove L => L

theorem located_empty : Located CFavorites.empty := by
  refine ⟨fun x k _ => ?_, fun x k hx => absurd hx id, fun e he => absurd he List.not_mem_nil⟩
  constructor
  · intro hnone
    cases hnone
  · rintro ⟨e, he, -⟩
    cases he

theorem Located.consistent (h : Located f) : Consistent f where
  located := fun x i => h.located x i id
  inRange := fun x i hx => ((h.located x i id).mp hx).lt
  disjoint := fun _ _ e e' _ he he' hx hx' => h.unique ⟨e, he, hx⟩ ⟨e', he', hx'⟩
  nonempty := h.nonempty

theorem Located.step (h : Located f) {call : Call} (hcall : Tracked f call) :
    ∃ f', step f call = .ok f' ∧ Located f' ∧ Effect f' call ∧ Keeps call.addrs f f' := by
  cases call with
  | Add L =>
      by_cases hne : L = []
      · refine ⟨f, if_pos hne, h, fun hL => absurd hne hL, fun e he _ => he⟩
      · obtain ⟨f', hrun, hlocated, hkeeps, hgroup⟩ := h.add_spec hne hcall
        exact ⟨f', hrun, hlocated, fun _ => hgroup, hkeeps⟩
  | AllowPing L b =>
      obtain ⟨f', hrun, hlocated, hallowed, hkeeps⟩ := h.allowPing_spec L b
      exact ⟨f', hrun, hlocated, hallowed, hkeeps⟩
  | Remove L =>
      obtain ⟨f', hrun, hlocated, hfrom, hkeeps⟩ := h.remove_spec L
      refine ⟨f', hrun, hlocated, fun x hx => ?_, hkeeps⟩
      cases hby : f'.m_ByAddr x with
      | none => rfl
      | some k => exact absurd hx (hfrom x k ((hlocated.located x k id).mp hby)).1

/-- After every call of a run the index is consistent, and the next call finds every address
it looks up, does what it says and keeps the entries it does not name. -/
theorem favorites_runs (h : Reachable step Tracked CFavorites.empty f) :
    Consistent f ∧ ∀ call, Tracked f call →
      ∃ f', step f call = .ok f' ∧ Effect f' call ∧ Keeps call.addrs f f' := by
  have hlocated : Located f := by
    apply Reachable.invariant h located_empty
    intro f f' call hf hcall hstep
    obtain ⟨f'', hstep', hf'', -⟩ := hf.step hcall
    rw [hstep] at hstep'
    rw [Except.ok.inj hstep']
    exact hf''
  refine ⟨hlocated.consistent, fun call hcall => ?_⟩
  obtain ⟨f', hstep, -, hrest⟩ := hlocated.step hcall
  exact ⟨f', hstep, hrest⟩

def address (n : UInt8) : NETADDR := { type := 1, ip := .replicate 16 n, port := 8303 }

/-- A group is added that takes an address from another one. -/
theorem favorites_runs_taken :
    ∃ f, Reachable step Tracked CFavorites.empty f ∧ f.m_ByAddr (address 2) = some 1 ∧
      Consistent f ∧ ∀ call, Tracked f call →
        ∃ f', step f call = .ok f' ∧ Effect f' call ∧ Keeps call.addrs f f' := by
  have h₀ : Reachable step Tracked CFavorites.empty CFavorites.empty := .init
  have h₁ := Reachable.next (Call.Add [address 1, address 2]) h₀
    (fun x _ hpos => absurd hpos (Nat.lt_irrefl 0)) rfl
  have h₂ := Reachable.next (Call.Add [address 2, address 3]) h₁ (by decide) rfl
  refine ⟨_, h₂, ?_, favorites_runs h₂⟩
  decide

/-- A known address behind the sixteen of an entry keeps its place in the index, one that is
named twice is looked up after its entry is gone, and one that its entry holds twice ends up in
two entries. -/
theorem stale_addresses :
    (∃ f e, [Call.Add [address 0], .Add ((List.range 17).reverse.map fun n => address (.ofNat n))].foldlM
        step CFavorites.empty = .ok f ∧ f.m_ByAddr (address 0) = some 0 ∧
        f.m_vEntries[0]? = some e ∧ address 0 ∉ e.m_aAddrs) ∧
      [Call.Add [address 0], .Add [address 0, address 0]].foldlM step CFavorites.empty =
        .error .outOfBounds ∧
      ∃ f e e', [Call.Add [address 0, address 0], .Add [address 0]].foldlM step CFavorites.empty =
          .ok f ∧ f.m_vEntries[0]? = some e ∧ f.m_vEntries[1]? = some e' ∧
          address 0 ∈ e.m_aAddrs ∧ address 0 ∈ e'.m_aAddrs := by
  refine ⟨⟨_, _, rfl, ?_, rfl, ?_⟩, rfl, ⟨_, _, _, rfl, rfl, rfl, ?_, ?_⟩⟩
  · decide
  · decide
  · decide
  · decide

end Fex.Engine.Favorites
