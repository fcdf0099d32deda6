import Fex.Mastersrv.Servers.Dumps

/-!
# Merging dumps

For one address a merge keeps the old entry or takes the new one, so merging
dumps is a fold over the entries of each address.
-/

namespace Fex.Mastersrv

open Fex.Lib Function

namespace Servers

variable {s : Servers}

/-- The loops over the other dumps. -/
def mergeAll (s : Servers) (other_dumps : List Dump) : Exec Servers := other_dumps.foldlM merge s

/-! ## One address -/

/-- The entry that stays when another one arrives. -/
def keep (o : Option AddrInfo) (a_info : AddrInfo) : Option AddrInfo :=
  match o with
  | none => some a_info
  | some o => if Rejects o a_info then some o else some a_info

/-- An entry that beats all others stays. -/
theorem foldl_keep_stays {g : AddrInfo} {xs : List AddrInfo} (h : ∀ y ∈ xs, y = g ∨ Rejects g y) :
    xs.foldl keep (some g) = some g := by
  induction xs with
  | nil => rfl
  | cons y xs ih =>
      have hstay : keep (some g) y = some g := by
        unfold keep
        simp only
        rcases h y (by simp) with rfl | hreject
        · exact ite_self _
        · exact if_pos hreject
      rw [List.foldl_cons, hstay]
      exact ih fun z hz => h z (by simp [hz])

/-- An entry that no earlier one keeps out wins, `P` holds of the entries before it. -/
theorem foldl_keep_wins {g : AddrInfo} (P : AddrInfo → Prop) (hP : ∀ c, P c → ¬ Rejects c g)
    {xs : List AddrInfo} {o : Option AddrInfo} (ho : ∀ c, o = some c → P c)
    (hstep : ∀ y ∈ xs, P y ∨ ((∃ c, o = some c) ∧ ∀ c, P c → Rejects c y))
    (hbeats : ∀ y ∈ xs, y = g ∨ Rejects g y) (hg : g ∈ xs) : xs.foldl keep o = some g := by
  induction xs generalizing o with
  | nil => cases hg
  | cons y xs ih =>
      rw [List.foldl_cons]
      have hbeats' : ∀ z ∈ xs, z = g ∨ Rejects g z := fun z hz => hbeats z (by simp [hz])
      by_cases hyg : y = g
      · have hwin : keep o y = some g := by
          rw [hyg]
          cases o with
          | none => rfl
          | some c => exact if_neg (hP c (ho c rfl))
        rw [hwin]
        exact foldl_keep_stays hbeats'
      · have hg' : g ∈ xs := (List.mem_cons.mp hg).resolve_left fun heq => hyg heq.symm
        have hsome : ∃ c, keep o y = some c := by
          unfold keep
          cases o with
          | none => exact ⟨y, rfl⟩
          | some c => simp only; split <;> exact ⟨_, rfl⟩
        have hnext : ∀ c, keep o y = some c → P c := by
          intro c hc
          cases o with
          | none =>
              cases hc
              rcases hstep y (by simp) with hPy | ⟨⟨c', hc'⟩, -⟩
              · exact hPy
              · cases hc'
          | some c' =>
              unfold keep at hc
              simp only at hc
              split at hc
              · cases hc
                exact ho c rfl
              · rename_i hnot
                cases hc
                rcases hstep y (by simp) with hPy | ⟨-, hall⟩
                · exact hPy
                · exact absurd (hall c' (ho c' rfl)) hnot
        refine ih hnext (fun z hz => ?_) hbeats' hg'
        rcases hstep z (by simp [hz]) with hPz | ⟨-, hall⟩
        · exact .inl hPz
        · exact .inr ⟨hsome, hall⟩

/-- A backcompat entry keeps out older entries of the masterserver. -/
theorem foldl_keep_backcompat {b : AddrInfo} {xs : List AddrInfo} {o : AddrInfo}
    (ho : o.kind = .Backcompat ∧ b.ping_time ≤ o.ping_time)
    (hxs : ∀ y ∈ xs, y.kind = .Mastersrv → y.ping_time < b.ping_time) :
    ∃ c, xs.foldl keep (some o) = some c ∧ c.kind = .Backcompat := by
  induction xs generalizing o with
  | nil => exact ⟨o, rfl, ho.1⟩
  | cons y xs ih =>
      have hxs' : ∀ z ∈ xs, z.kind = .Mastersrv → z.ping_time < b.ping_time :=
        fun z hz => hxs z (by simp [hz])
      rw [List.foldl_cons]
      unfold keep
      simp only
      by_cases hreject : Rejects o y
      · rw [if_pos hreject]
        exact ih ho hxs'
      · rw [if_neg hreject]
        have hping : b.ping_time ≤ y.ping_time :=
          Int.le_trans ho.2 (Int.not_lt.mp (not_or.mp hreject).2)
        refine ih ⟨?_, hping⟩ hxs'
        cases hkind : y.kind with
        | Backcompat => rfl
        | Mastersrv => exact absurd (hxs y (by simp) hkind) (Int.not_lt.mpr hping)

/-! ## All addresses -/

theorem Adding.lookup {t : Servers} {addr : Addr} {a_info : AddrInfo} {info_serial : Int}
    {info : RawValue} {r : AddResult} (h : Adding s addr a_info info_serial (some info) t r)
    (a : Addr) : t.addresses.lookup a =
      if a = addr then keep (s.addresses.lookup a) a_info else s.addresses.lookup a := by
  cases h with
  | needInfo hneed hinfo => cases hinfo
  | obsolete o ho hreject =>
      by_cases ha : a = addr
      · rw [if_pos ha, ha, ho]
        exact (if_pos hreject).symm
      · rw [if_neg ha]
  | stored t r hr hinfo hnot hA server hS hserver =>
      have hpoint := congrFun hA a
      rw [hpoint]
      by_cases ha : a = addr
      · rw [if_pos ha, ha, update_self]
        unfold keep
        cases ho : s.addresses.lookup addr with
        | none => rfl
        | some o => exact (if_neg (hnot o ho)).symm
      · rw [if_neg ha, update_of_ne ha]

theorem Consistent.mergeLoop_lookup (h : s.Consistent) {other : Dump}
    {entries : List (Sigma fun _ : Addr => AddrInfo)} (hnodup : entries.NodupKeys)
    (hdump : ∀ e ∈ entries, ∃ server, other.servers.lookup e.2.secret = some server) {t : Servers}
    (hrun : Servers.mergeLoop other entries s = .ok t) (a : Addr) :
    t.addresses.lookup a =
      match entries.dlookup a with
      | some x => keep (s.addresses.lookup a) x
      | none => s.addresses.lookup a := by
  induction entries generalizing s with
  | nil =>
      cases hrun
      rfl
  | cons e entries ih =>
      obtain ⟨addr, a_info⟩ := e
      obtain ⟨server, hserver⟩ := hdump ⟨addr, a_info⟩ (by simp)
      obtain ⟨s₁, r, hadd, h₁, hadding⟩ := h.add addr a_info server.info_serial (some server.info)
      rw [List.nodupKeys_cons] at hnodup
      unfold Servers.mergeLoop at hrun
      simp only at hserver
      rw [hserver] at hrun
      simp only [hadd, bind, Except.bind] at hrun
      rw [ih h₁ hnodup.2 (fun e he => hdump e (by simp [he])) hrun, hadding.lookup a]
      by_cases ha : a = addr
      · have hnone : entries.dlookup a = none := by
          rw [List.dlookup_eq_none, ha]
          exact hnodup.1
        rw [hnone, ha, List.dlookup_cons_eq]
        exact if_pos rfl
      · rw [List.dlookup_cons_ne _ _ ha, if_neg ha]

/-- A merge for one address. -/
theorem Consistent.merge_lookup (h : s.Consistent) {other : Dump} (hdump : Dumped other) :
    ∃ t, s.merge other = .ok t ∧ t.Consistent ∧ ∀ a, t.addresses.lookup a =
      ((other.addresses.lookup a).toList).foldl keep (s.addresses.lookup a) := by
  obtain ⟨t, hrun, ht⟩ := h.merge hdump
  refine ⟨t, hrun, ht, fun a => ?_⟩
  have hlookup := h.mergeLoop_lookup other.addresses.nodupKeys
    (fun e he => hdump e.1 e.2 (lookup_eq_some.mpr he)) hrun a
  rw [hlookup]
  show (match other.addresses.lookup a with
    | some x => keep (s.addresses.lookup a) x
    | none => s.addresses.lookup a) = _
  cases other.addresses.lookup a with
  | none => rfl
  | some x => rfl

theorem Consistent.mergeAll (h : s.Consistent) {dumps : List Dump}
    (hdumps : ∀ other ∈ dumps, Dumped other) :
    ∃ t, s.mergeAll dumps = .ok t ∧ t.Consistent ∧ ∀ a, t.addresses.lookup a =
      (dumps.filterMap fun other => other.addresses.lookup a).foldl keep (s.addresses.lookup a) := by
  induction dumps generalizing s with
  | nil => exact ⟨s, rfl, h, fun a => rfl⟩
  | cons other dumps ih =>
      obtain ⟨s₁, hrun₁, h₁, hlookup₁⟩ := h.merge_lookup (hdumps other (by simp))
      obtain ⟨t, hrun, ht, hlookup⟩ := ih h₁ fun d hd => hdumps d (by simp [hd])
      refine ⟨t, ?_, ht, fun a => ?_⟩
      · unfold Servers.mergeAll at hrun ⊢
        rw [List.foldlM_cons, hrun₁]
        exact hrun
      · rw [hlookup, hlookup₁, List.filterMap_cons]
        cases other.addresses.lookup a with
        | none => rfl
        | some x => rfl

/-! ## The greatest entry -/

/-- Entries are compared first by kind and then by ping time. -/
def rank (a_info : AddrInfo) : Nat ×ₗ Int := toLex (a_info.kind.index, a_info.ping_time)

/-- All entries of an address in the registry and the dumps. -/
def entriesOf (s : Servers) (dumps : List Dump) (addr : Addr) : List AddrInfo :=
  (s.addresses.lookup addr).toList ++ dumps.filterMap fun other => other.addresses.lookup addr

/-- The entry is the greatest of the list, there is none for the empty list. -/
def Greatest (l : List AddrInfo) : Option AddrInfo → Prop
  | none => l = []
  | some x => x ∈ l ∧ ∀ y ∈ l, rank y ≤ rank x

/-- No two entries of an address have the same kind and the same ping time. -/
def Distinct (s : Servers) (dumps : List Dump) : Prop :=
  ∀ addr, (entriesOf s dumps addr).Pairwise fun x y =>
    ¬ (x.kind = y.kind ∧ x.ping_time = y.ping_time)

/-- Merging in any order gives the same addresses, the greatest entry of each, and merging a dump
once more changes nothing. -/
def OrderFree (s : Servers) (dumps : List Dump) : Prop :=
  (∃ A : Addr → Option AddrInfo, (∀ addr, Greatest (entriesOf s dumps addr) (A addr)) ∧
    ∀ p : List Dump, p.Perm dumps →
      ∃ t, s.mergeAll p = .ok t ∧ ∀ addr, t.addresses.lookup addr = A addr) ∧
  ∀ other ∈ dumps, ∃ t u, s.merge other = .ok t ∧ t.merge other = .ok u ∧ Same u t

/-- Where an address has an entry of the masterserver, the registry has one for it or the newest one
is at least as new as every backcompat entry. -/
def MastersrvNewest (s : Servers) (dumps : List Dump) : Prop :=
  ∀ addr, (∃ o, s.addresses.lookup addr = some o ∧ o.kind = .Mastersrv) ∨
    ∀ b ∈ entriesOf s dumps addr, b.kind = .Backcompat →
      (∃ m ∈ entriesOf s dumps addr, m.kind = .Mastersrv) →
      ∃ m ∈ entriesOf s dumps addr, m.kind = .Mastersrv ∧ b.ping_time ≤ m.ping_time

theorem rank_le {x y : AddrInfo} :
    rank x ≤ rank y ↔ x.kind < y.kind ∨ x.kind = y.kind ∧ x.ping_time ≤ y.ping_time := by
  unfold rank
  rw [Prod.Lex.toLex_le_toLex]
  have hinj : x.kind.index = y.kind.index ↔ x.kind = y.kind := by
    constructor
    · intro h
      cases hx : x.kind <;> cases hy : y.kind <;> simp_all [EntryKind.index]
    · exact congrArg _
  rw [hinj]
  rfl

theorem kind_cases (k : EntryKind) : k = .Backcompat ∨ k = .Mastersrv := by
  cases k with
  | Backcompat => exact .inl rfl
  | Mastersrv => exact .inr rfl

/-- The greatest entry keeps out every other one. -/
theorem rejects_of_rank {g y : AddrInfo} (h : rank y ≤ rank g)
    (hne : ¬ (y.kind = g.kind ∧ y.ping_time = g.ping_time)) : Rejects g y := by
  rcases rank_le.mp h with hkind | ⟨hkind, hping⟩
  · exact .inl hkind
  · exact .inr (lt_of_le_of_ne hping fun heq => hne ⟨hkind, heq⟩)

theorem exists_greatest {l : List AddrInfo} (hl : l ≠ []) : ∃ g ∈ l, ∀ y ∈ l, rank y ≤ rank g := by
  induction l with
  | nil => exact absurd rfl hl
  | cons x l ih =>
      by_cases hnil : l = []
      · refine ⟨x, by simp, fun y hy => ?_⟩
        rw [hnil] at hy
        rw [List.mem_singleton.mp hy]
      · obtain ⟨g, hg, hall⟩ := ih hnil
        rcases le_total (rank x) (rank g) with hle | hle
        · refine ⟨g, by simp [hg], fun y hy => ?_⟩
          rcases List.mem_cons.mp hy with rfl | hy
          · exact hle
          · exact hall y hy
        · refine ⟨x, by simp, fun y hy => ?_⟩
          rcases List.mem_cons.mp hy with rfl | hy
          · exact le_refl _
          · exact le_trans (hall y hy) hle

/-- The fold gives the greatest entry where no backcompat entry is in the way. -/
theorem greatest_foldl {o : Option AddrInfo} {xs l : List AddrInfo}
    (hl : ∀ y, y ∈ l ↔ y ∈ o.toList ∨ y ∈ xs)
    (hinj : ∀ x ∈ l, ∀ y ∈ l, x.kind = y.kind ∧ x.ping_time = y.ping_time → x = y)
    (hcond : (∃ c, o = some c ∧ c.kind = .Mastersrv) ∨ ∀ b ∈ l, b.kind = .Backcompat →
      (∃ m ∈ l, m.kind = .Mastersrv) → ∃ m ∈ l, m.kind = .Mastersrv ∧ b.ping_time ≤ m.ping_time) :
    Greatest l (xs.foldl keep o) := by
  by_cases hnil : l = []
  · have hnone : ∀ y, y ∉ o.toList ∧ y ∉ xs := by
      intro y
      have hy := (hl y).not.mp (by rw [hnil]; exact List.not_mem_nil)
      exact not_or.mp hy
    have hxs : xs = [] := List.eq_nil_iff_forall_not_mem.mpr fun y => (hnone y).2
    have ho : o = none := by
      cases o with
      | none => rfl
      | some c => exact absurd (List.mem_singleton.mpr rfl) (hnone c).1
    rw [hxs, ho]
    exact hnil
  obtain ⟨g, hg, hmax⟩ := exists_greatest hnil
  have hbeats : ∀ y ∈ l, y = g ∨ Rejects g y := by
    intro y hy
    by_cases heq : y.kind = g.kind ∧ y.ping_time = g.ping_time
    · exact .inl (hinj y hy g hg heq)
    · exact .inr (rejects_of_rank (hmax y hy) heq)
  have hmem : ∀ y ∈ xs, y ∈ l := fun y hy => (hl y).mpr (.inr hy)
  have hold : ∀ c, o = some c → c ∈ l := fun c hc => (hl c).mpr (.inl (by simp [hc]))
  have hping : ∀ c ∈ l, c.kind = g.kind → c.ping_time ≤ g.ping_time := by
    intro c hc hkind
    rcases rank_le.mp (hmax c hc) with hlt | ⟨-, hle⟩
    · rw [hkind] at hlt
      exact absurd hlt (Nat.lt_irrefl _)
    · exact hle
  have hgreat : xs.foldl keep o = some g := by
    rcases (hl g).mp hg with hin | hin
    · cases o with
      | none => cases hin
      | some c =>
          rw [List.mem_singleton.mp hin]
          exact foldl_keep_stays fun y hy => by
            rw [← List.mem_singleton.mp hin]
            exact hbeats y (hmem y hy)
    · rcases hcond with ⟨m, hm, hmkind⟩ | hcond
      · -- once the registry has an entry of the masterserver, backcompat entries are kept out
        have hgkind : g.kind = .Mastersrv := by
          rcases kind_cases g.kind with hkind | hkind
          · rcases rank_le.mp (hmax m (hold m hm)) with hlt | ⟨heq, -⟩
            · rw [hmkind, hkind] at hlt
              exact absurd hlt (by decide)
            · rw [← heq, hmkind]
          · exact hkind
        refine foldl_keep_wins (fun c => c ∈ l ∧ c.kind = .Mastersrv) ?_ ?_ ?_
          (fun y hy => hbeats y (hmem y hy)) hin
        · rintro c ⟨hc, hckind⟩ (hlt | hlt)
          · rw [hgkind, hckind] at hlt
            exact absurd hlt (by decide)
          · exact absurd hlt (Int.not_lt.mpr (hping c hc (hckind.trans hgkind.symm)))
        · intro c hc
          rw [hm] at hc
          cases hc
          exact ⟨hold m hm, hmkind⟩
        · intro y hy
          rcases kind_cases y.kind with hkind | hkind
          · refine .inr ⟨⟨m, hm⟩, fun c hc => .inl ?_⟩
            rw [hkind, hc.2]
            decide
          · exact .inl ⟨hmem y hy, hkind⟩
      · refine foldl_keep_wins (· ∈ l) ?_ hold (fun y hy => .inl (hmem y hy))
          (fun y hy => hbeats y (hmem y hy)) hin
        rintro c hc (hlt | hlt)
        · rcases rank_le.mp (hmax c hc) with hle | ⟨heq, -⟩
          · exact absurd hle (Nat.lt_asymm hlt)
          · rw [heq] at hlt
            exact absurd hlt (Nat.lt_irrefl _)
        · rcases rank_le.mp (hmax c hc) with hkind | ⟨-, hle⟩
          · -- an older entry of the masterserver against a backcompat entry
            have hckind : c.kind = .Backcompat := by
              rcases kind_cases c.kind with hk | hk
              · exact hk
              · rw [hk] at hkind
                rcases kind_cases g.kind with hg' | hg' <;> rw [hg'] at hkind <;>
                  exact absurd hkind (by decide)
            have hgkind : g.kind = .Mastersrv := by
              rcases kind_cases g.kind with hk | hk
              · rw [hk, hckind] at hkind
                exact absurd hkind (by decide)
              · exact hk
            obtain ⟨m, hm, hmkind, hle⟩ := hcond c hc hckind ⟨g, hg, hgkind⟩
            exact absurd hlt (Int.not_lt.mpr
              (Int.le_trans hle (hping m hm (hmkind.trans hgkind.symm))))
          · exact absurd hlt (Int.not_lt.mpr hle)
  rw [hgreat]
  exact ⟨hg, hmax⟩

/-! ## Merging a dump once more -/

theorem Mirror.addresses_eq {A : Addr → Option AddrInfo} {S S' : ShortString → Option Server}
    (h : Mirror A S) (h' : Mirror A S') {secret : ShortString} {u v : Server}
    (hu : S secret = some u) (hv : S' secret = some v) : u.addresses = v.addresses := by
  have hmem : ∀ {S : ShortString → Option Server}, Mirror A S → ∀ {u}, S secret = some u →
      ∀ a, a ∈ u.addresses ↔ ∃ x, A a = some x ∧ x.secret = secret := by
    intro S h u hu a
    constructor
    · exact h.owned secret u hu a
    · rintro ⟨x, hx, rfl⟩
      obtain ⟨w, hw, ha⟩ := h.mem hx
      rw [hu] at hw
      rw [Option.some.inj hw]
      exact ha
  have hsu := h.sorted secret u hu
  have hsv := h'.sorted secret v hv
  have hperm : u.addresses.Perm v.addresses :=
    (List.perm_ext_iff_of_nodup (hsu.imp fun hlt => ne_of_lt hlt) (hsv.imp fun hlt => ne_of_lt hlt)).mpr
      fun a => (hmem h hu a).trans (hmem h' hv a).symm
  exact hperm.eq_of_pairwise' (hsu.imp fun hlt => le_of_lt hlt) (hsv.imp fun hlt => le_of_lt hlt)

theorem Same.trans {t u : Servers} (h : Same s t) (h' : Same t u) : Same s u :=
  ⟨fun a => (h.addresses a).trans (h'.addresses a), fun k => (h.servers k).trans (h'.servers k)⟩

/-- The registry has the entry of the dump or one that keeps it out. -/
def Settled (s : Servers) (other : Dump) (e : Sigma fun _ : Addr => AddrInfo) : Prop :=
  ∃ c, s.addresses.lookup e.1 = some c ∧ (Rejects c e.2 ∨ c = e.2 ∧
    ∃ d server, other.servers.lookup e.2.secret = some d ∧
      s.servers.lookup e.2.secret = some server ∧ d.info_serial ≤ server.info_serial)

/-- Serials of servers that stay do not decrease. -/
theorem Adding.serial_le {t : Servers} {addr : Addr} {a_info : AddrInfo} {info_serial : Int}
    {info : Option RawValue} {r : AddResult} (h : Adding s addr a_info info_serial info t r)
    {secret : ShortString} {u v : Server} (hu : s.servers.lookup secret = some u)
    (hv : t.servers.lookup secret = some v) : u.info_serial ≤ v.info_serial := by
  cases h with
  | needInfo => rw [hu] at hv; rw [Option.some.inj hv]
  | obsolete => rw [hu] at hv; rw [Option.some.inj hv]
  | stored t r hr hinfo hnot hA server hS hserver =>
      have hpoint := congrFun hS secret
      rw [hv] at hpoint
      by_cases hsecret : secret = a_info.secret
      · rw [hsecret, update_self] at hpoint
        have hserial := hserver.serial
        rw [← hsecret, hu] at hserial
        rw [Option.some.inj hpoint, hserial]
        exact le_max_left _ _
      · rw [update_of_ne hsecret] at hpoint
        unfold afterMove at hpoint
        cases ho : s.addresses.lookup addr with
        | none =>
            rw [ho] at hpoint
            simp only [hu] at hpoint
            rw [Option.some.inj hpoint]
        | some o =>
            rw [ho] at hpoint
            simp only at hpoint
            by_cases hne : o.secret ≠ a_info.secret
            · rw [if_pos hne] at hpoint
              by_cases hold : secret = o.secret
              · rw [hold, update_self, ← hold, hu, Option.bind_some] at hpoint
                unfold Mirror.remaining at hpoint
                split at hpoint
                · cases hpoint
                · rw [Option.some.inj hpoint]
              · rw [update_of_ne hold, hu] at hpoint
                rw [Option.some.inj hpoint]
            · rw [if_neg hne, hu] at hpoint
              rw [Option.some.inj hpoint]

theorem Adding.settled_other {t : Servers} (ht : t.Consistent) {addr : Addr}
    {a_info : AddrInfo} {info_serial : Int} {info : RawValue} {r : AddResult}
    (h : Adding s addr a_info info_serial (some info) t r) {other : Dump}
    {e : Sigma fun _ : Addr => AddrInfo} (he : Settled s other e) (hne : e.1 ≠ addr) :
    Settled t other e := by
  obtain ⟨c, hc, hcase⟩ := he
  have hlookup := h.lookup e.1
  rw [if_neg hne, hc] at hlookup
  refine ⟨c, hlookup, ?_⟩
  rcases hcase with hreject | ⟨rfl, d, server, hd, hserver, hle⟩
  · exact .inl hreject
  · obtain ⟨v, hv, -⟩ := ht.listed e.1 e.2 hlookup
    exact .inr ⟨rfl, d, v, hd, hv, Int.le_trans hle (h.serial_le hserver hv)⟩

theorem Adding.settled_self {t : Servers} {addr : Addr} {a_info : AddrInfo} {other : Dump}
    {d : DumpServer} {r : AddResult} (hd : other.servers.lookup a_info.secret = some d)
    (h : Adding s addr a_info d.info_serial (some d.info) t r) : Settled t other ⟨addr, a_info⟩ := by
  cases h with
  | needInfo hneed hinfo => cases hinfo
  | obsolete o ho hreject => exact ⟨o, ho, .inl hreject⟩
  | stored t r hr hinfo hnot hA server hS hserver =>
      have hA' : t.addresses.lookup addr = some a_info := (congrFun hA addr).trans (update_self ..)
      have hS' : t.servers.lookup a_info.secret = some server :=
        (congrFun hS a_info.secret).trans (update_self ..)
      refine ⟨a_info, hA', .inr ⟨rfl, d, server, hd, hS', ?_⟩⟩
      rw [hserver.serial]
      cases s.servers.lookup a_info.secret with
      | none => exact le_refl _
      | some u => exact le_max_right _ _

theorem Consistent.mergeLoop_settled (h : s.Consistent) {other : Dump}
    (done : List (Sigma fun _ : Addr => AddrInfo)) {entries : List (Sigma fun _ : Addr => AddrInfo)}
    (hnodup : (done ++ entries).NodupKeys) (hdone : ∀ e ∈ done, Settled s other e)
    (hdump : ∀ e ∈ entries, ∃ server, other.servers.lookup e.2.secret = some server) {t : Servers}
    (hrun : Servers.mergeLoop other entries s = .ok t) : ∀ e ∈ done ++ entries, Settled t other e := by
  induction entries generalizing s done with
  | nil =>
      cases hrun
      simpa using hdone
  | cons e entries ih =>
      obtain ⟨addr, a_info⟩ := e
      obtain ⟨server, hserver⟩ := hdump ⟨addr, a_info⟩ (by simp)
      obtain ⟨s₁, r, hadd, h₁, hadding⟩ := h.add addr a_info server.info_serial (some server.info)
      unfold Servers.mergeLoop at hrun
      simp only at hserver
      rw [hserver] at hrun
      simp only [hadd, bind, Except.bind] at hrun
      have hsplit : done ++ ⟨addr, a_info⟩ :: entries = (done ++ [⟨addr, a_info⟩]) ++ entries := by simp
      rw [hsplit] at hnodup ⊢
      apply ih h₁ _ hnodup ?_ (fun e he => hdump e (by simp [he])) hrun
      intro e he
      rcases List.mem_append.mp he with he | he
      · have hne : e.1 ≠ addr := by
          intro heq
          have hkeys : (done.map Sigma.fst ++ addr :: entries.map Sigma.fst).Nodup := by
            simpa [List.NodupKeys, List.keys] using hnodup
          rw [List.nodup_append] at hkeys
          have hmem : e.1 ∈ done.map Sigma.fst := List.mem_map_of_mem he
          exact hkeys.2.2 e.1 hmem addr (by simp) heq
        exact hadding.settled_other h₁ (hdone e he) hne
      · rw [List.mem_singleton.mp he]
        exact hadding.settled_self hserver

/-- Adding an entry that is settled changes nothing. -/
theorem Settled.add_same {t : Servers} {other : Dump} {addr : Addr} {a_info : AddrInfo}
    (he : Settled s other ⟨addr, a_info⟩) (hs : s.Consistent) {d : DumpServer}
    (hd : other.servers.lookup a_info.secret = some d) {r : AddResult} (ht : t.Consistent)
    (h : Adding s addr a_info d.info_serial (some d.info) t r) : Same t s := by
  cases h with
  | needInfo => exact ⟨fun _ => rfl, fun _ => rfl⟩
  | obsolete => exact ⟨fun _ => rfl, fun _ => rfl⟩
  | stored t r hr hinfo hnot hA server hS hserver =>
      obtain ⟨c, hc, hcase⟩ := he
      obtain ⟨rfl, d', u, hd', hu, hle⟩ := hcase.resolve_left (hnot c hc)
      rw [show other.servers.lookup c.secret = some d from hd] at hd'
      rw [← Option.some.inj hd'] at hle
      have haddresses : (fun a => t.addresses.lookup a) = fun a => s.addresses.lookup a := by
        rw [hA]
        exact update_eq_self_iff.mpr hc.symm
      have hmove : s.afterMove addr c = fun k => s.servers.lookup k := by
        unfold afterMove
        simp only at hc
        rw [hc]
        exact if_neg (not_not.mpr rfl)
      have hnew : t.servers.lookup c.secret = some server :=
        (congrFun hS c.secret).trans (update_self ..)
      have hmirror : Mirror (fun a => s.addresses.lookup a) fun k => t.servers.lookup k := by
        rw [← haddresses]
        exact ht
      have haddrs := Mirror.addresses_eq hmirror hs hnew hu
      have hkeep : server = u := by
        have hserial := hserver.serial
        have hinfo' := hserver.info
        simp only at hu
        rw [hu] at hserial hinfo'
        simp only [Option.elim_some] at hserial hinfo'
        rw [max_eq_left hle] at hserial
        rw [if_neg (Int.not_lt.mpr hle)] at hinfo'
        cases server
        cases u
        simp only at haddrs hserial hinfo'
        rw [haddrs, hserial, Option.some.inj hinfo']
      refine ⟨congrFun haddresses, fun k => ?_⟩
      have hpoint := congrFun hS k
      rw [hmove] at hpoint
      rw [show t.servers.lookup k = _ from hpoint]
      by_cases hk : k = c.secret
      · rw [hk, update_self, hkeep]
        exact hu.symm
      · rw [update_of_ne hk]

theorem Settled.same {t : Servers} {other : Dump} {e : Sigma fun _ : Addr => AddrInfo}
    (he : Settled s other e) (h : Same t s) : Settled t other e := by
  obtain ⟨c, hc, hcase⟩ := he
  refine ⟨c, (h.addresses e.1).trans hc, hcase.imp id ?_⟩
  rintro ⟨hce, d, server, hd, hserver, hle⟩
  exact ⟨hce, d, server, hd, (h.servers _).trans hserver, hle⟩

theorem mergeLoop_same {other : Dump} {entries : List (Sigma fun _ : Addr => AddrInfo)}
    (hs : s.Consistent) (hsettled : ∀ e ∈ entries, Settled s other e)
    (hdump : ∀ e ∈ entries, ∃ server, other.servers.lookup e.2.secret = some server) :
    ∃ t, Servers.mergeLoop other entries s = .ok t ∧ Same t s := by
  induction entries generalizing s with
  | nil => exact ⟨s, rfl, fun _ => rfl, fun _ => rfl⟩
  | cons e entries ih =>
      obtain ⟨addr, a_info⟩ := e
      obtain ⟨server, hserver⟩ := hdump ⟨addr, a_info⟩ (by simp)
      obtain ⟨s₁, r, hadd, h₁, hadding⟩ := hs.add addr a_info server.info_serial (some server.info)
      have hsame := (hsettled ⟨addr, a_info⟩ (by simp)).add_same hs hserver h₁ hadding
      obtain ⟨t, hrun, ht⟩ := ih h₁ (fun e he => (hsettled e (by simp [he])).same hsame)
        fun e he => hdump e (by simp [he])
      refine ⟨t, ?_, ht.trans hsame⟩
      unfold Servers.mergeLoop
      simp only at hserver
      rw [hserver]
      simp only [hadd, bind, Except.bind]
      exact hrun

theorem Consistent.merge_twice (h : s.Consistent) {other : Dump} (hdump : Dumped other) :
    ∃ t u, s.merge other = .ok t ∧ t.merge other = .ok u ∧ Same u t := by
  obtain ⟨t, hrun, ht⟩ := h.merge hdump
  have hentries : ∀ e ∈ other.addresses.entries, ∃ server,
      other.servers.lookup e.2.secret = some server :=
    fun e he => hdump e.1 e.2 (lookup_eq_some.mpr he)
  have hsettled := h.mergeLoop_settled [] other.addresses.nodupKeys (by simp) hentries hrun
  obtain ⟨u, hagain, hu⟩ := mergeLoop_same ht hsettled hentries
  exact ⟨t, u, hrun, hagain, hu⟩

/-! ## The order of the dumps -/

theorem Distinct.inj {dumps : List Dump} (h : Distinct s dumps) (addr : Addr) :
    ∀ x ∈ entriesOf s dumps addr, ∀ y ∈ entriesOf s dumps addr,
      x.kind = y.kind ∧ x.ping_time = y.ping_time → x = y := by
  intro x hx y hy heq
  by_contra hne
  have hsymm : Std.Symm fun a b : AddrInfo =>
      ¬ (a.kind = b.kind ∧ a.ping_time = b.ping_time) :=
    ⟨fun a b hab hba => hab ⟨hba.1.symm, hba.2.symm⟩⟩
  exact (h addr).forall hx hy hne heq

theorem Greatest.unique {l : List AddrInfo}
    (hinj : ∀ x ∈ l, ∀ y ∈ l, x.kind = y.kind ∧ x.ping_time = y.ping_time → x = y)
    {o o' : Option AddrInfo} (h : Greatest l o) (h' : Greatest l o') : o = o' := by
  cases o with
  | none =>
      cases o' with
      | none => rfl
      | some y =>
          rw [show l = [] from h] at h'
          cases h'.1
  | some x =>
      cases o' with
      | none =>
          rw [show l = [] from h'] at h
          cases h.1
      | some y =>
          have heq := le_antisymm (h'.2 x h.1) (h.2 y h'.1)
          have hle := rank_le.mp heq.le
          have hge := rank_le.mp heq.ge
          rw [hinj x h.1 y h'.1]
          rcases hle with hlt | ⟨hkind, hping⟩
          · rcases hge with hgt | ⟨hkind', -⟩
            · exact absurd hgt (Nat.lt_asymm hlt)
            · rw [hkind'] at hlt
              exact absurd hlt (Nat.lt_irrefl _)
          · rcases hge with hgt | ⟨-, hping'⟩
            · rw [hkind] at hgt
              exact absurd hgt (Nat.lt_irrefl _)
            · exact ⟨hkind, Int.le_antisymm hping hping'⟩

theorem mem_entriesOf {dumps p : List Dump} (hp : p.Perm dumps) {addr : Addr} {y : AddrInfo} :
    y ∈ entriesOf s dumps addr ↔ y ∈ (s.addresses.lookup addr).toList ∨
      y ∈ p.filterMap fun other => other.addresses.lookup addr := by
  unfold entriesOf
  rw [List.mem_append, (hp.filterMap fun other : Dump => other.addresses.lookup addr).mem_iff]

theorem orderFree_of_newest {dumps : List Dump} (hs : s.Consistent)
    (hdumps : ∀ other ∈ dumps, Dumped other) (hdistinct : Distinct s dumps)
    (hnewest : MastersrvNewest s dumps) : OrderFree s dumps := by
  have hgreatest : ∀ p : List Dump, p.Perm dumps → ∀ addr, Greatest (entriesOf s dumps addr)
      ((p.filterMap fun other => other.addresses.lookup addr).foldl keep (s.addresses.lookup addr)) :=
    fun p hp addr => greatest_foldl (fun y => mem_entriesOf hp) (hdistinct.inj addr) (hnewest addr)
  refine ⟨⟨_, hgreatest dumps (List.Perm.refl _), fun p hp => ?_⟩,
    fun other hother => hs.merge_twice (hdumps other hother)⟩
  obtain ⟨t, hrun, -, hlookup⟩ := hs.mergeAll fun other hother => hdumps other (hp.mem_iff.mp hother)
  refine ⟨t, hrun, fun addr => ?_⟩
  rw [hlookup]
  exact (hgreatest p hp addr).unique (hdistinct.inj addr) (hgreatest dumps (List.Perm.refl _) addr)

/-- A newer backcompat entry keeps out the masterserver where it comes first. -/
theorem newest_of_orderFree {dumps : List Dump} (hs : s.Consistent)
    (hdumps : ∀ other ∈ dumps, Dumped other) (h : OrderFree s dumps) : MastersrvNewest s dumps := by
  obtain ⟨⟨A, hA, hall⟩, -⟩ := h
  intro addr
  by_contra hnot
  obtain ⟨hregistry, hnot⟩ := not_or.mp hnot
  push Not at hnot
  obtain ⟨b, hb, hbkind, ⟨m, hm, hmkind⟩, hold⟩ := hnot
  have hregkind : ∀ o, s.addresses.lookup addr = some o → o.kind = .Backcompat := by
    intro o ho
    exact (kind_cases o.kind).resolve_right fun hkind => hregistry ⟨o, ho, hkind⟩
  -- some order ends with a backcompat entry
  have hlast : ∃ p : List Dump, p.Perm dumps ∧ ∃ c,
      (p.filterMap fun other => other.addresses.lookup addr).foldl keep (s.addresses.lookup addr) =
        some c ∧ c.kind = .Backcompat := by
    have hlate : ∀ p : List Dump, p.Perm dumps →
        ∀ y ∈ p.filterMap (fun other => other.addresses.lookup addr), y.kind = .Mastersrv →
          y.ping_time < b.ping_time :=
      fun p hp y hy hkind => hold y ((mem_entriesOf hp).mpr (.inr hy)) hkind
    rcases List.mem_append.mp hb with hin | hin
    · have ho : s.addresses.lookup addr = some b := by simpa using hin
      refine ⟨dumps, List.Perm.refl _, ?_⟩
      rw [ho]
      exact foldl_keep_backcompat ⟨hbkind, Int.le_refl _⟩ (hlate dumps (List.Perm.refl _))
    · obtain ⟨other, hother, hlookup⟩ := List.mem_filterMap.mp hin
      obtain ⟨as, bs, rfl⟩ := List.append_of_mem hother
      have hperm : (other :: (as ++ bs)).Perm (as ++ other :: bs) := List.perm_middle.symm
      refine ⟨other :: (as ++ bs), hperm, ?_⟩
      have hfirst : ∃ c, keep (s.addresses.lookup addr) b = some c ∧
          c.kind = .Backcompat ∧ b.ping_time ≤ c.ping_time := by
        unfold keep
        cases ho : s.addresses.lookup addr with
        | none => exact ⟨b, rfl, hbkind, Int.le_refl _⟩
        | some o =>
            simp only
            by_cases hreject : Rejects o b
            · rw [if_pos hreject]
              refine ⟨o, rfl, hregkind o ho, ?_⟩
              rcases hreject with hlt | hlt
              · rw [hbkind, hregkind o ho] at hlt
                exact absurd hlt (by decide)
              · exact Int.le_of_lt hlt
            · rw [if_neg hreject]
              exact ⟨b, rfl, hbkind, Int.le_refl _⟩
      obtain ⟨c, hc, hckind, hcping⟩ := hfirst
      have hrest : ∀ y ∈ (as ++ bs).filterMap (fun other => other.addresses.lookup addr),
          y.kind = .Mastersrv → y.ping_time < b.ping_time := by
        intro y hy
        obtain ⟨d, hd, hyd⟩ := List.mem_filterMap.mp hy
        exact hlate _ hperm y (List.mem_filterMap.mpr ⟨d, List.mem_cons_of_mem _ hd, hyd⟩)
      rw [List.filterMap_cons, hlookup]
      simp only
      rw [List.foldl_cons, hc]
      exact foldl_keep_backcompat ⟨hckind, hcping⟩ hrest
  obtain ⟨p, hp, c, hfold, hckind⟩ := hlast
  obtain ⟨t, hrun, -, hlookup⟩ := hs.mergeAll fun other hother => hdumps other (hp.mem_iff.mp hother)
  obtain ⟨t', hrun', hlookup'⟩ := hall p hp
  rw [hrun] at hrun'
  cases hrun'
  have hgreatest := hA addr
  rw [← hlookup' addr, hlookup addr, hfold] at hgreatest
  rcases rank_le.mp (hgreatest.2 m hm) with hlt | ⟨heq, -⟩
  · rw [hmkind, hckind] at hlt
    exact absurd hlt (by decide)
  · rw [hmkind, hckind] at heq
    cases heq

/-- Merging dumps does not depend on their order exactly if no address has a backcompat entry that
is newer than all its entries of the masterserver and could come before them. -/
theorem merging_order (s : Servers) (dumps : List Dump) (hs : s.Consistent)
    (hdumps : ∀ other ∈ dumps, ∃ now r, Consistent r ∧ other = Dump.new now r)
    (hdistinct : Distinct s dumps) : OrderFree s dumps ↔ MastersrvNewest s dumps := by
  have hdumped : ∀ other ∈ dumps, Dumped other := by
    intro other hother
    obtain ⟨now, r, hr, rfl⟩ := hdumps other hother
    exact hr.dumped now
  exact ⟨newest_of_orderFree hs hdumped, orderFree_of_newest hs hdumped hdistinct⟩

/-! ## Examples -/

def exampleEntry (kind : EntryKind) (ping_time : Timestamp) : AddrInfo :=
  { kind := kind, ping_time := ping_time, location := none, secret := "a" }

/-- A registry with one address. -/
def exampleRegistry (kind : EntryKind) (ping_time : Timestamp) : Servers :=
  { addresses := AList.singleton exampleAddr (exampleEntry kind ping_time)
    servers := AList.singleton "a" { addresses := [exampleAddr], info_serial := 1, info := "[]" } }

theorem consistent_exampleRegistry (kind : EntryKind) (ping_time : Timestamp) :
    Consistent (exampleRegistry kind ping_time) := by
  obtain ⟨s, r, hrun, hs, -⟩ :=
    consistent_new.add exampleAddr (exampleEntry kind ping_time) 1 (some "[]")
  have heq : s = exampleRegistry kind ping_time := by
    cases hrun
    rfl
  rw [← heq]
  exact hs

def exampleDump (kind : EntryKind) (ping_time : Timestamp) : Dump :=
  Dump.new 0 (exampleRegistry kind ping_time)

theorem lookup_exampleDump (kind : EntryKind) (ping_time : Timestamp) (addr : Addr) :
    (exampleDump kind ping_time).addresses.lookup addr =
      if addr = exampleAddr then some (exampleEntry kind ping_time) else none := by
  show (BTreeMap.collect (AList.singleton exampleAddr (exampleEntry kind ping_time))).lookup addr = _
  rw [lookup_collect, ← AList.insert_empty]
  by_cases h : addr = exampleAddr
  · rw [if_pos h, h, AList.lookup_insert]
  · rw [if_neg h, AList.lookup_insert_ne h, AList.lookup_empty]

theorem entriesOf_exampleDump (k₁ k₂ : EntryKind) (t₁ t₂ : Timestamp) (addr : Addr) :
    entriesOf new [exampleDump k₁ t₁, exampleDump k₂ t₂] addr =
      if addr = exampleAddr then [exampleEntry k₁ t₁, exampleEntry k₂ t₂] else [] := by
  have hnew : new.addresses.lookup addr = none := AList.lookup_empty addr
  unfold entriesOf
  rw [hnew]
  simp only [List.filterMap_cons, List.filterMap_nil, lookup_exampleDump]
  by_cases h : addr = exampleAddr
  · rw [if_pos h, if_pos h, if_pos h]
    rfl
  · rw [if_neg h, if_neg h, if_neg h]
    rfl

theorem distinct_exampleDump {k₁ k₂ : EntryKind} {t₁ t₂ : Timestamp} (h : t₁ ≠ t₂) :
    Distinct new [exampleDump k₁ t₁, exampleDump k₂ t₂] := by
  intro addr
  rw [entriesOf_exampleDump]
  by_cases haddr : addr = exampleAddr
  · rw [if_pos haddr]
    refine List.pairwise_pair.mpr fun heq => h heq.2
  · rw [if_neg haddr]
    exact List.Pairwise.nil

theorem dumped_exampleDump {k₁ k₂ : EntryKind} {t₁ t₂ : Timestamp} :
    ∀ other ∈ [exampleDump k₁ t₁, exampleDump k₂ t₂],
      ∃ now r, Consistent r ∧ other = Dump.new now r := by
  intro other hother
  rcases List.mem_cons.mp hother with rfl | hother
  · exact ⟨0, _, consistent_exampleRegistry k₁ t₁, rfl⟩
  · rw [List.mem_singleton.mp hother]
    exact ⟨0, _, consistent_exampleRegistry k₂ t₂, rfl⟩

/-- A newer entry of the masterserver wins in every order. -/
theorem merging_order_newer :
    OrderFree new [exampleDump .Backcompat 5, exampleDump .Mastersrv 10] := by
  apply (merging_order new _ consistent_new dumped_exampleDump
    (distinct_exampleDump (by decide))).mpr
  intro addr
  right
  rw [entriesOf_exampleDump]
  by_cases haddr : addr = exampleAddr
  · rw [if_pos haddr]
    decide
  · rw [if_neg haddr]
    intro b hb
    cases hb

/-- An older entry of the masterserver loses against the backcompat entry that comes first. -/
theorem merging_order_older :
    Consistent new ∧
    (∀ other ∈ [exampleDump .Backcompat 10, exampleDump .Mastersrv 5],
      ∃ now r, Consistent r ∧ other = Dump.new now r) ∧
    Distinct new [exampleDump .Backcompat 10, exampleDump .Mastersrv 5] ∧
    ¬ OrderFree new [exampleDump .Backcompat 10, exampleDump .Mastersrv 5] := by
  refine ⟨consistent_new, dumped_exampleDump, distinct_exampleDump (by decide), fun h => ?_⟩
  have hnewest := newest_of_orderFree consistent_new (fun other hother => by
    obtain ⟨now, r, hr, rfl⟩ := dumped_exampleDump other hother
    exact hr.dumped now) h exampleAddr
  rw [entriesOf_exampleDump, if_pos rfl] at hnewest
  rcases hnewest with ⟨o, ho, -⟩ | hnewest
  · cases ho
  · revert hnewest
    decide

end Servers

end Fex.Mastersrv
