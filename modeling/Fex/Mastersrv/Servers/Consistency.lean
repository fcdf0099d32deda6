import Fex.Lib.Run
import Fex.Mastersrv.Servers
import Mathlib.Logic.Function.Basic

/-!
# Consistency of the registry

The two maps mirror each other: the address list of a server is the sorted list
of the addresses that have its secret.  `Mirror` says so of the lookups alone,
each of its lemmas is one update of both maps.
-/

namespace Fex.Mastersrv

open Fex.Lib Function

theorem pairwise_lt_insertionSort {α : Type} [LinearOrder α] {l : List α} (h : l.Nodup) :
    (l.insertionSort (· ≤ ·)).Pairwise (· < ·) := by
  have hle := List.pairwise_insertionSort (· ≤ ·) l
  have hnodup : (l.insertionSort (· ≤ ·)).Nodup := (List.perm_insertionSort _ l).nodup_iff.mpr h
  exact (hle.and hnodup).imp fun hboth => lt_of_le_of_ne hboth.1 hboth.2

/-- The lookups of addresses and servers mirror each other. -/
structure Mirror (A : Addr → Option AddrInfo) (S : ShortString → Option Server) : Prop where
  listed : ∀ addr a_info, A addr = some a_info →
    ∃ server, S a_info.secret = some server ∧ server.addresses.count addr = 1
  nonempty : ∀ secret server, S secret = some server → server.addresses ≠ []
  sorted : ∀ secret server, S secret = some server → server.addresses.Pairwise (· < ·)
  owned : ∀ secret server, S secret = some server → ∀ addr ∈ server.addresses,
    ∃ a_info, A addr = some a_info ∧ a_info.secret = secret

namespace Mirror

variable {A : Addr → Option AddrInfo} {S : ShortString → Option Server} {addr : Addr}

theorem mem (h : Mirror A S) {a_info : AddrInfo} (ha : A addr = some a_info) :
    ∃ server, S a_info.secret = some server ∧ addr ∈ server.addresses := by
  obtain ⟨server, hserver, hcount⟩ := h.listed addr a_info ha
  exact ⟨server, hserver, List.count_pos_iff.mp (by omega)⟩

/-- A mirror from membership, with the lists strictly sorted. -/
theorem of_mem
    (hmem : ∀ addr a_info, A addr = some a_info →
      ∃ server, S a_info.secret = some server ∧ addr ∈ server.addresses)
    (hnonempty : ∀ secret server, S secret = some server → server.addresses ≠ [])
    (hsorted : ∀ secret server, S secret = some server → server.addresses.Pairwise (· < ·))
    (howned : ∀ secret server, S secret = some server → ∀ addr ∈ server.addresses,
      ∃ a_info, A addr = some a_info ∧ a_info.secret = secret) : Mirror A S := by
  refine ⟨fun addr a_info ha => ?_, hnonempty, hsorted, howned⟩
  obtain ⟨server, hserver, haddr⟩ := hmem addr a_info ha
  have hnodup : server.addresses.Nodup :=
    (hsorted _ server hserver).imp fun hlt => ne_of_lt hlt
  exact ⟨server, hserver, List.count_eq_one_of_mem hnodup haddr⟩

theorem empty : Mirror (fun _ => none) fun _ => none :=
  ⟨by simp, by simp, by simp, by simp⟩

/-- The server without the address, `none` if that was its last one. -/
def remaining (server : Server) (addr : Addr) : Option Server :=
  if (server.addresses.filter (· ≠ addr)).isEmpty then none
  else some { server with addresses := server.addresses.filter (· ≠ addr) }

/-- An address is removed. -/
theorem erase (h : Mirror A S) {o : AddrInfo} (ho : A addr = some o) {server : Server}
    (hserver : S o.secret = some server) :
    Mirror (update A addr none) (update S o.secret (remaining server addr)) := by
  have hold : ∀ secret t, update S o.secret (remaining server addr) secret = some t →
      ∃ t', S secret = some t' ∧ t.addresses = t'.addresses.filter (· ≠ addr) := by
    intro secret t ht
    by_cases hsecret : secret = o.secret
    · rw [hsecret, update_self] at ht
      unfold remaining at ht
      split at ht
      · cases ht
      · exact ⟨server, by rw [hsecret, hserver], by rw [← Option.some.inj ht]⟩
    · rw [update_of_ne hsecret] at ht
      refine ⟨t, ht, (List.filter_eq_self.mpr fun a ha => ?_).symm⟩
      obtain ⟨a_info, haA, haS⟩ := h.owned secret t ht a ha
      rw [decide_eq_true_iff]
      rintro rfl
      rw [ho] at haA
      exact hsecret (by rw [← haS, Option.some.inj haA])
  apply of_mem
  · intro a a_info ha
    have hne : a ≠ addr := by
      rintro rfl
      rw [update_self] at ha
      cases ha
    rw [update_of_ne hne] at ha
    obtain ⟨t, ht, hmem⟩ := h.mem ha
    by_cases hsecret : a_info.secret = o.secret
    · rw [hsecret, hserver] at ht
      rw [← Option.some.inj ht] at hmem
      have hkeep : a ∈ server.addresses.filter (· ≠ addr) :=
        List.mem_filter.mpr ⟨hmem, decide_eq_true hne⟩
      refine ⟨{ server with addresses := server.addresses.filter (· ≠ addr) }, ?_, hkeep⟩
      rw [hsecret, update_self]
      unfold remaining
      exact if_neg fun hempty => by
        rw [List.isEmpty_iff.mp hempty] at hkeep
        cases hkeep
    · exact ⟨t, by rw [update_of_ne hsecret, ht], hmem⟩
  · intro secret t ht
    by_cases hsecret : secret = o.secret
    · rw [hsecret, update_self] at ht
      unfold remaining at ht
      split at ht
      · cases ht
      · rename_i hempty
        rw [← Option.some.inj ht]
        exact fun hnil => hempty (List.isEmpty_iff.mpr hnil)
    · rw [update_of_ne hsecret] at ht
      exact h.nonempty secret t ht
  · intro secret t ht
    obtain ⟨t', ht', haddrs⟩ := hold secret t ht
    rw [haddrs]
    exact (h.sorted secret t' ht').filter _
  · intro secret t ht a ha
    obtain ⟨t', ht', haddrs⟩ := hold secret t ht
    rw [haddrs] at ha
    obtain ⟨ha', hne⟩ := List.mem_filter.mp ha
    obtain ⟨a_info, haA, haS⟩ := h.owned secret t' ht' a ha'
    exact ⟨a_info, by rw [update_of_ne (by simpa using hne), haA], haS⟩

/-- An address is added to the server of its secret. -/
theorem insert (h : Mirror A S) (haddr : A addr = none) (a_info : AddrInfo) {server : Server}
    (hlist : match S a_info.secret with
      | none => server.addresses = [addr]
      | some t => server.addresses = (t.addresses ++ [addr]).insertionSort (· ≤ ·)) :
    Mirror (update A addr (some a_info)) (update S a_info.secret (some server)) := by
  have hnotin : ∀ secret t, S secret = some t → addr ∉ t.addresses := by
    intro secret t ht hmem
    obtain ⟨x, hx, -⟩ := h.owned secret t ht addr hmem
    rw [haddr] at hx
    cases hx
  have hmem : ∀ a, a ∈ server.addresses ↔
      a = addr ∨ ∃ t, S a_info.secret = some t ∧ a ∈ t.addresses := by
    intro a
    cases hS : S a_info.secret with
    | none =>
        rw [hS] at hlist
        rw [hlist]
        simp
    | some t =>
        rw [hS] at hlist
        rw [hlist, List.mem_insertionSort]
        simp [or_comm]
  have hsorted : server.addresses.Pairwise (· < ·) := by
    cases hS : S a_info.secret with
    | none =>
        rw [hS] at hlist
        rw [hlist]
        exact List.pairwise_singleton _ _
    | some t =>
        rw [hS] at hlist
        rw [hlist]
        apply pairwise_lt_insertionSort
        rw [List.nodup_append]
        refine ⟨(h.sorted _ t hS).imp fun hlt => ne_of_lt hlt, List.nodup_singleton _, ?_⟩
        intro a ha b hb heq
        rw [List.mem_singleton.mp hb] at heq
        exact hnotin _ t hS (by rw [← heq]; exact ha)
  apply of_mem
  · intro a x hx
    by_cases ha : a = addr
    · rw [ha, update_self] at hx
      rw [← Option.some.inj hx]
      exact ⟨server, update_self .., (hmem a).mpr (.inl ha)⟩
    · rw [update_of_ne ha] at hx
      obtain ⟨t, ht, hat⟩ := h.mem hx
      by_cases hsecret : x.secret = a_info.secret
      · rw [hsecret] at ht ⊢
        exact ⟨server, update_self .., (hmem a).mpr (.inr ⟨t, ht, hat⟩)⟩
      · exact ⟨t, by rw [update_of_ne hsecret, ht], hat⟩
  · intro secret t ht
    by_cases hsecret : secret = a_info.secret
    · rw [hsecret, update_self] at ht
      rw [← Option.some.inj ht]
      exact List.ne_nil_of_mem ((hmem addr).mpr (.inl rfl))
    · rw [update_of_ne hsecret] at ht
      exact h.nonempty secret t ht
  · intro secret t ht
    by_cases hsecret : secret = a_info.secret
    · rw [hsecret, update_self] at ht
      rw [← Option.some.inj ht]
      exact hsorted
    · rw [update_of_ne hsecret] at ht
      exact h.sorted secret t ht
  · intro secret t ht a ha
    by_cases hsecret : secret = a_info.secret
    · rw [hsecret, update_self] at ht
      rw [← Option.some.inj ht] at ha
      rcases (hmem a).mp ha with rfl | ⟨t', ht', hat'⟩
      · exact ⟨a_info, update_self .., hsecret.symm⟩
      · obtain ⟨x, hx, hxs⟩ := h.owned _ t' ht' a hat'
        have hne : a ≠ addr := fun heq => hnotin _ t' ht' (by rw [← heq]; exact hat')
        exact ⟨x, by rw [update_of_ne hne, hx], by rw [hxs, hsecret]⟩
    · rw [update_of_ne hsecret] at ht
      obtain ⟨x, hx, hxs⟩ := h.owned secret t ht a ha
      have hne : a ≠ addr := fun heq => hnotin _ t ht (by rw [← heq]; exact ha)
      exact ⟨x, by rw [update_of_ne hne, hx], hxs⟩

/-- An address keeps its secret. -/
theorem refresh (h : Mirror A S) {o a_info : AddrInfo} (ho : A addr = some o)
    (hsecret : o.secret = a_info.secret) {t server : Server} (ht : S a_info.secret = some t)
    (hlist : server.addresses = t.addresses) :
    Mirror (update A addr (some a_info)) (update S a_info.secret (some server)) := by
  have hold : ∀ secret u, update S a_info.secret (some server) secret = some u →
      ∃ v, S secret = some v ∧ u.addresses = v.addresses := by
    intro secret u hu
    by_cases hs : secret = a_info.secret
    · rw [hs, update_self] at hu
      rw [← Option.some.inj hu, hs]
      exact ⟨t, ht, hlist⟩
    · rw [update_of_ne hs] at hu
      exact ⟨u, hu, rfl⟩
  have hnew : ∀ secret v, S secret = some v →
      ∃ u, update S a_info.secret (some server) secret = some u ∧ u.addresses = v.addresses := by
    intro secret v hv
    by_cases hs : secret = a_info.secret
    · rw [hs, ht] at hv
      rw [hs, ← Option.some.inj hv]
      exact ⟨server, update_self .., hlist⟩
    · exact ⟨v, by rw [update_of_ne hs, hv], rfl⟩
  apply of_mem
  · intro a x hx
    have hlisted : ∃ y, A a = some y ∧ y.secret = x.secret := by
      by_cases ha : a = addr
      · rw [ha, update_self] at hx
        rw [ha, ← Option.some.inj hx]
        exact ⟨o, ho, hsecret⟩
      · rw [update_of_ne ha] at hx
        exact ⟨x, hx, rfl⟩
    obtain ⟨y, hy, hys⟩ := hlisted
    obtain ⟨v, hv, hmem⟩ := h.mem hy
    obtain ⟨u, hu, haddrs⟩ := hnew y.secret v hv
    rw [hys] at hu
    exact ⟨u, hu, by rw [haddrs]; exact hmem⟩
  · intro secret u hu
    obtain ⟨v, hv, haddrs⟩ := hold secret u hu
    rw [haddrs]
    exact h.nonempty secret v hv
  · intro secret u hu
    obtain ⟨v, hv, haddrs⟩ := hold secret u hu
    rw [haddrs]
    exact h.sorted secret v hv
  · intro secret u hu a ha
    obtain ⟨v, hv, haddrs⟩ := hold secret u hu
    rw [haddrs] at ha
    obtain ⟨x, hx, hxs⟩ := h.owned secret v hv a ha
    by_cases haddr : a = addr
    · rw [haddr, ho] at hx
      rw [haddr, update_self]
      exact ⟨a_info, rfl, by rw [← hsecret, Option.some.inj hx, hxs]⟩
    · exact ⟨x, by rw [update_of_ne haddr, hx], hxs⟩

end Mirror

/-! ## Lookups after an update -/

section Lookup

variable {K V : Type} [DecidableEq K]

theorem lookup_insert_eq (m : HashMap K V) (k : K) (v : V) :
    (fun i => (m.insert k v).lookup i) = update (fun i => m.lookup i) k (some v) := by
  funext i
  by_cases h : i = k
  · rw [h, update_self, AList.lookup_insert]
  · rw [update_of_ne h, AList.lookup_insert_ne h]

theorem lookup_erase_eq (m : HashMap K V) (k : K) :
    (fun i => (m.erase k).lookup i) = update (fun i => m.lookup i) k none := by
  funext i
  by_cases h : i = k
  · rw [h, update_self, AList.lookup_erase]
  · rw [update_of_ne h, AList.lookup_erase_ne h]

theorem lookup_eq_some {m : HashMap K V} {k : K} {v : V} :
    m.lookup k = some v ↔ (⟨k, v⟩ : Sigma fun _ : K => V) ∈ m.entries := AList.mem_lookup_iff

theorem lookup_collect [LinearOrder K] (m : HashMap K V) (k : K) :
    (BTreeMap.collect m).lookup k = m.lookup k :=
  AList.perm_lookup (List.perm_insertionSort _ m.entries)

theorem lookup_map {W : Type} (f : V → W) (m : HashMap K V) (k : K) :
    (HashMap.map f m).lookup k = (m.lookup k).map f := by
  cases h : m.lookup k with
  | none =>
      rw [Option.map_none, AList.lookup_eq_none]
      rw [AList.lookup_eq_none] at h
      intro hmem
      obtain ⟨e, he, hkey⟩ := List.mem_map.mp hmem
      obtain ⟨e', he', rfl⟩ := List.mem_map.mp he
      exact h (List.mem_map.mpr ⟨e', he', hkey⟩)
  | some v =>
      rw [Option.map_some, lookup_eq_some]
      exact List.mem_map.mpr ⟨⟨k, v⟩, lookup_eq_some.mp h, rfl⟩

end Lookup

namespace Servers

/-- Every entry is listed once by the server of its secret, and servers list nothing else. -/
def Consistent (s : Servers) : Prop :=
  Mirror (fun addr => s.addresses.lookup addr) fun secret => s.servers.lookup secret

variable {s : Servers}

theorem consistent_new : Consistent new := Mirror.empty

/-- `release` where the registry is consistent. -/
theorem release_eq {servers : HashMap ShortString Server} {secret : ShortString} {server : Server}
    (hserver : servers.lookup secret = some server) (addr : Addr) :
    ∃ servers', release servers secret addr = .ok servers' ∧
      (fun i => servers'.lookup i) =
        update (fun i => servers.lookup i) secret (Mirror.remaining server addr) := by
  unfold release Mirror.remaining
  rw [hserver]
  simp only
  by_cases hempty : (server.addresses.filter (· ≠ addr)).isEmpty = true
  · rw [if_pos hempty, if_pos hempty]
    exact ⟨_, rfl, lookup_erase_eq _ _⟩
  · rw [if_neg hempty, if_neg hempty]
    exact ⟨_, rfl, lookup_insert_eq _ _ _⟩

/-- An entry leaves the registry. -/
theorem Consistent.release (h : s.Consistent) {addr : Addr} {o : AddrInfo}
    (ho : s.addresses.lookup addr = some o) :
    ∃ server servers, s.servers.lookup o.secret = some server ∧
      Servers.release s.servers o.secret addr = .ok servers ∧
      (fun i => servers.lookup i) =
        update (fun i => s.servers.lookup i) o.secret (Mirror.remaining server addr) ∧
      Consistent { addresses := s.addresses.erase addr, servers := servers } := by
  obtain ⟨server, hserver, -⟩ := h.listed addr o ho
  obtain ⟨servers, hrun, hservers⟩ := release_eq hserver addr
  refine ⟨server, servers, hserver, hrun, hservers, ?_⟩
  show Mirror (fun i => (s.addresses.erase addr).lookup i) fun i => servers.lookup i
  rw [hservers, lookup_erase_eq]
  exact Mirror.erase h ho hserver

/-- The server that `addServer` leaves. -/
structure Holding (t : Option Server) (server : Server) (info_serial : Int) (info : Option RawValue) :
    Prop where
  serial : server.info_serial = t.elim info_serial fun t => max t.info_serial info_serial
  info : some server.info =
    t.elim info fun t => if info_serial > t.info_serial then info else some t.info

theorem addServer_eq (s : Servers) (addr : Addr) (insert_addr : Bool) {secret : ShortString}
    {info_serial : Int} {info : Option RawValue}
    (hinfo : s.needInfo secret info_serial = true → info ≠ none)
    (hinsert : s.servers.lookup secret = none → insert_addr = true) :
    ∃ server, s.addServer addr secret info_serial info insert_addr =
        .ok ({ s with servers := s.servers.insert secret server },
          if insert_addr then .Added else .Refreshed) ∧
      Holding (s.servers.lookup secret) server info_serial info ∧
      server.addresses = match s.servers.lookup secret with
        | none => [addr]
        | some t =>
            if insert_addr then (t.addresses ++ [addr]).insertionSort (· ≤ ·) else t.addresses := by
  unfold needInfo at hinfo
  unfold addServer
  cases hserver : s.servers.lookup secret with
  | none =>
      rw [hserver] at hinfo
      cases info with
      | none => exact absurd rfl (hinfo rfl)
      | some info =>
          rw [hinsert hserver]
          exact ⟨{ addresses := [addr], info_serial := info_serial, info := info }, rfl,
            ⟨rfl, rfl⟩, rfl⟩
  | some t =>
      rw [hserver] at hinfo
      simp only
      by_cases hnew : info_serial > t.info_serial
      · rw [if_pos hnew]
        cases info with
        | none => exact absurd rfl (hinfo (decide_eq_true hnew))
        | some info =>
            refine ⟨_, rfl, ⟨?_, ?_⟩, rfl⟩
            · exact (max_eq_right (Int.le_of_lt hnew)).symm
            · exact (if_pos hnew).symm
      · rw [if_neg hnew]
        refine ⟨_, rfl, ⟨?_, ?_⟩, rfl⟩
        · exact (max_eq_left (Int.not_lt.mp hnew)).symm
        · exact (if_neg hnew).symm

/-- The entry stays and the new one is dropped. -/
def Rejects (o a_info : AddrInfo) : Prop :=
  a_info.kind < o.kind ∨ a_info.ping_time < o.ping_time

instance (o a_info : AddrInfo) : Decidable (Rejects o a_info) :=
  inferInstanceAs (Decidable (_ ∨ _))

/-- The servers once the address has left the server of another secret. -/
def afterMove (s : Servers) (addr : Addr) (a_info : AddrInfo) : ShortString → Option Server :=
  match s.addresses.lookup addr with
  | some o =>
      if o.secret ≠ a_info.secret then
        update (fun i => s.servers.lookup i) o.secret
          ((s.servers.lookup o.secret).bind fun server => Mirror.remaining server addr)
      else fun i => s.servers.lookup i
  | none => fun i => s.servers.lookup i

/-- What `add` does. -/
inductive Adding (s : Servers) (addr : Addr) (a_info : AddrInfo) (info_serial : Int)
    (info : Option RawValue) : Servers → AddResult → Prop
  | needInfo (hneed : s.needInfo a_info.secret info_serial = true) (hinfo : info = none) :
      Adding s addr a_info info_serial info s .NeedInfo
  | obsolete (o : AddrInfo) (ho : s.addresses.lookup addr = some o) (hreject : Rejects o a_info) :
      Adding s addr a_info info_serial info s .Obsolete
  | stored (s' : Servers) (r : AddResult) (hr : r = .Added ∨ r = .Refreshed)
      (hinfo : s.needInfo a_info.secret info_serial = true → info ≠ none)
      (hnot : ∀ o, s.addresses.lookup addr = some o → ¬ Rejects o a_info)
      (hA : (fun i => s'.addresses.lookup i) =
        update (fun i => s.addresses.lookup i) addr (some a_info)) (server : Server)
      (hS : (fun i => s'.servers.lookup i) =
        update (s.afterMove addr a_info) a_info.secret (some server))
      (hserver : Holding (s.servers.lookup a_info.secret) server info_serial info) :
      Adding s addr a_info info_serial info s' r

/-- `add` keeps the registry consistent and does not panic. -/
theorem Consistent.add (h : s.Consistent) (addr : Addr) (a_info : AddrInfo) (info_serial : Int)
    (info : Option RawValue) :
    ∃ s' r, s.add addr a_info info_serial info = .ok (s', r) ∧ s'.Consistent ∧
      Adding s addr a_info info_serial info s' r := by
  unfold Servers.add
  by_cases hneed : s.needInfo a_info.secret info_serial ∧ info = none
  · rw [if_pos hneed]
    exact ⟨s, .NeedInfo, rfl, h, .needInfo hneed.1 hneed.2⟩
  rw [if_neg hneed]
  have hinfo : s.needInfo a_info.secret info_serial = true → info ≠ none :=
    fun hn hi => hneed ⟨hn, hi⟩
  cases haddr : s.addresses.lookup addr with
  | none =>
      obtain ⟨server, hrun, hserver, haddrs⟩ := addServer_eq
        { s with addresses := s.addresses.insert addr a_info } addr true hinfo fun _ => rfl
      refine ⟨_, _, hrun, ?_, .stored _ _ (.inl rfl) hinfo ?_ (lookup_insert_eq _ _ _) server ?_ hserver⟩
      · show Mirror (fun i => (s.addresses.insert addr a_info).lookup i)
          fun i => (s.servers.insert a_info.secret server).lookup i
        rw [lookup_insert_eq, lookup_insert_eq]
        apply Mirror.insert h haddr
        cases hold : s.servers.lookup a_info.secret with
        | none =>
            simp only [hold] at haddrs
            exact haddrs
        | some t =>
            simp only [hold] at haddrs
            exact haddrs
      · intro o ho
        rw [haddr] at ho
        cases ho
      · unfold afterMove
        rw [haddr]
        exact lookup_insert_eq _ _ _
  | some o =>
      simp only
      by_cases hkind : a_info.kind < o.kind
      · rw [if_pos hkind]
        exact ⟨s, .Obsolete, rfl, h, .obsolete o haddr (.inl hkind)⟩
      rw [if_neg hkind]
      by_cases hping : a_info.ping_time < o.ping_time
      · rw [if_pos hping]
        exact ⟨s, .Obsolete, rfl, h, .obsolete o haddr (.inr hping)⟩
      rw [if_neg hping]
      have hnot : ∀ o', s.addresses.lookup addr = some o' → ¬ Rejects o' a_info := by
        intro o' ho'
        rw [haddr] at ho'
        cases ho'
        exact not_or.mpr ⟨hkind, hping⟩
      by_cases hsecret : o.secret ≠ a_info.secret
      · rw [if_pos hsecret]
        obtain ⟨old, servers, hold, hrelease, hservers, hrest⟩ := h.release haddr
        have hother : servers.lookup a_info.secret = s.servers.lookup a_info.secret := by
          have hpoint := congrFun hservers a_info.secret
          rw [update_of_ne (Ne.symm hsecret)] at hpoint
          exact hpoint
        have hinfo' : Servers.needInfo { addresses := s.addresses.insert addr a_info, servers := servers }
            a_info.secret info_serial = true → info ≠ none := by
          unfold needInfo at hinfo ⊢
          simp only [hother]
          exact hinfo
        obtain ⟨server, hrun, hserver, haddrs⟩ := addServer_eq
          { addresses := s.addresses.insert addr a_info, servers := servers } addr true hinfo' fun _ => rfl
        simp only [hrelease, bind, Except.bind]
        simp only [hother] at hserver haddrs
        refine ⟨_, _, hrun, ?_, .stored _ _ (.inl rfl) hinfo hnot (lookup_insert_eq _ _ _) server ?_
          hserver⟩
        · have hmirror : Mirror (update (fun i => s.addresses.lookup i) addr none)
              fun i => servers.lookup i := by
            have hrest' := hrest
            unfold Consistent at hrest'
            rw [lookup_erase_eq] at hrest'
            exact hrest'
          show Mirror (fun i => (s.addresses.insert addr a_info).lookup i)
            fun i => (servers.insert a_info.secret server).lookup i
          rw [lookup_insert_eq, lookup_insert_eq]
          have hidem : update (fun i => s.addresses.lookup i) addr (some a_info) =
              update (update (fun i => s.addresses.lookup i) addr none) addr (some a_info) :=
            (update_idem ..).symm
          rw [hidem]
          apply hmirror.insert (update_self ..)
          rw [hother]
          cases hsome : s.servers.lookup a_info.secret with
          | none =>
              simp only [hsome] at haddrs
              exact haddrs
          | some t =>
              simp only [hsome] at haddrs
              exact haddrs
        · unfold afterMove
          rw [haddr]
          simp only
          rw [if_pos hsecret, hold, Option.bind_some, ← hservers]
          exact lookup_insert_eq _ _ _
      · rw [if_neg hsecret]
        have hsame : o.secret = a_info.secret := not_not.mp hsecret
        obtain ⟨t, ht, -⟩ := h.listed addr o haddr
        rw [hsame] at ht
        obtain ⟨server, hrun, hserver, haddrs⟩ := addServer_eq
          { s with addresses := s.addresses.insert addr a_info } addr false hinfo fun hnone => by
            rw [show s.servers.lookup a_info.secret = none from hnone] at ht
            cases ht
        simp only [ht] at haddrs
        refine ⟨_, _, hrun, ?_, .stored _ _ (.inr rfl) hinfo hnot (lookup_insert_eq _ _ _) server ?_
          hserver⟩
        · show Mirror (fun i => (s.addresses.insert addr a_info).lookup i)
            fun i => (s.servers.insert a_info.secret server).lookup i
          rw [lookup_insert_eq, lookup_insert_eq]
          exact Mirror.refresh h haddr hsame ht haddrs
        · unfold afterMove
          rw [haddr]
          simp only
          rw [if_neg hsecret]
          exact lookup_insert_eq _ _ _

/-! ## Removing -/

/-- `remove` takes the entry where the secret is right. -/
theorem Consistent.remove (h : s.Consistent) (addr : Addr) (secret : ShortString) :
    ∃ s' r, s.remove addr secret = .ok (s', r) ∧ s'.Consistent := by
  unfold Servers.remove
  cases haddr : s.addresses.lookup addr with
  | none => exact ⟨s, .NotFound, rfl, h⟩
  | some o =>
      simp only
      by_cases hsecret : secret = o.secret
      · obtain ⟨server, servers, -, hrelease, -, hrest⟩ := h.release haddr
        rw [if_pos hsecret, hsecret]
        simp only [hrelease, bind, Except.bind]
        exact ⟨_, _, rfl, hrest⟩
      · rw [if_neg hsecret]
        exact ⟨s, .NotFound, rfl, h⟩

/-- `remove` inserts nothing. -/
theorem remove_lookup {s' : Servers} {addr : Addr} {secret : ShortString} {r : RemoveResult}
    (h : s.remove addr secret = .ok (s', r)) (a : Addr) :
    s'.addresses.lookup a = s.addresses.lookup a ∨ s'.addresses.lookup a = none := by
  unfold Servers.remove at h
  split at h
  · cases h
    exact .inl rfl
  · split at h
    · cases hrelease : Servers.release s.servers secret addr with
      | error e =>
          rw [hrelease] at h
          cases h
      | ok servers =>
          rw [hrelease] at h
          cases h
          by_cases ha : a = addr
          · rw [ha]
            exact .inr (AList.lookup_erase _ _)
          · exact .inl (AList.lookup_erase_ne ha)
    · cases h
      exact .inl rfl

theorem Consistent.removeAll (h : s.Consistent) {addrs : List Addr} (hnodup : addrs.Nodup)
    (hmem : ∀ addr ∈ addrs, addr ∈ s.addresses) :
    ∃ s', Servers.removeAll addrs s = .ok s' ∧ s'.Consistent ∧
      ∀ addr, s'.addresses.lookup addr = if addr ∈ addrs then none else s.addresses.lookup addr := by
  induction addrs generalizing s with
  | nil => exact ⟨s, rfl, h, fun addr => by simp⟩
  | cons a addrs ih =>
      obtain ⟨hnew, hnodup⟩ := List.nodup_cons.mp hnodup
      obtain ⟨o, ho⟩ := Option.isSome_iff_exists.mp (AList.lookup_isSome.mpr (hmem a (by simp)))
      obtain ⟨server, servers, -, hrelease, -, hrest⟩ := h.release ho
      obtain ⟨s', hrun, hs', hlookup⟩ := ih hrest hnodup fun addr haddr => by
        rw [AList.mem_erase]
        exact ⟨fun heq => hnew (by rw [← heq]; exact haddr), hmem addr (by simp [haddr])⟩
      refine ⟨s', ?_, hs', fun addr => ?_⟩
      · unfold Servers.removeAll
        rw [ho]
        simp only [hrelease, bind, Except.bind]
        exact hrun
      · rw [hlookup]
        by_cases haddr : addr ∈ addrs
        · rw [if_pos haddr, if_pos (by simp [haddr])]
        · rw [if_neg haddr]
          by_cases heq : addr = a
          · rw [if_pos (by simp [heq]), heq, AList.lookup_erase]
          · rw [if_neg (by simp [heq, haddr]), AList.lookup_erase_ne heq]

/-- `prune_before` removes exactly the old entries. -/
theorem Consistent.prune_before (h : s.Consistent) (time : Timestamp) :
    ∃ s', s.prune_before time = .ok s' ∧ s'.Consistent ∧
      ∀ addr, s'.addresses.lookup addr =
        (s.addresses.lookup addr).filter fun a_info => ¬ a_info.ping_time < time := by
  have hmem : ∀ addr, addr ∈ ((s.addresses.entries.filter fun e => e.2.ping_time < time).map Sigma.fst) ↔
      ∃ a_info, s.addresses.lookup addr = some a_info ∧ a_info.ping_time < time := by
    intro addr
    rw [List.mem_map]
    constructor
    · rintro ⟨⟨a, x⟩, he, rfl⟩
      obtain ⟨hentry, htime⟩ := List.mem_filter.mp he
      exact ⟨x, lookup_eq_some.mpr hentry, by simpa using htime⟩
    · rintro ⟨x, hx, htime⟩
      exact ⟨⟨addr, x⟩, List.mem_filter.mpr ⟨lookup_eq_some.mp hx, decide_eq_true htime⟩, rfl⟩
  have hnodup : ((s.addresses.entries.filter fun e => e.2.ping_time < time).map Sigma.fst).Nodup :=
    s.addresses.keys_nodup.sublist (List.filter_sublist.map _)
  obtain ⟨s', hrun, hs', hlookup⟩ := h.removeAll hnodup fun addr haddr => by
    obtain ⟨x, hx, -⟩ := (hmem addr).mp haddr
    exact AList.lookup_isSome.mp (by rw [hx]; rfl)
  refine ⟨s', hrun, hs', fun addr => ?_⟩
  rw [hlookup]
  cases hx : s.addresses.lookup addr with
  | none => simp
  | some x =>
      by_cases htime : x.ping_time < time
      · rw [if_pos ((hmem addr).mpr ⟨x, hx, htime⟩), Option.filter_some_neg (by simp [htime])]
      · rw [if_neg, Option.filter_some_pos (by simpa using htime)]
        intro hin
        obtain ⟨y, hy, hylt⟩ := (hmem addr).mp hin
        rw [hx] at hy
        rw [← Option.some.inj hy] at hylt
        exact htime hylt

/-! ## Merging -/

/-- Every entry has a server in the dump. -/
def Dumped (other : Dump) : Prop :=
  ∀ addr a_info, other.addresses.lookup addr = some a_info →
    ∃ server, other.servers.lookup a_info.secret = some server

theorem Consistent.dumped (h : s.Consistent) (now : Timestamp) : Dumped (Dump.new now s) := by
  intro addr a_info ha
  have ha' : s.addresses.lookup addr = some a_info := (lookup_collect s.addresses addr).symm.trans ha
  obtain ⟨server, hserver, -⟩ := h.listed addr a_info ha'
  refine ⟨DumpServer.of server, ?_⟩
  show (BTreeMap.collect (HashMap.map DumpServer.of s.servers)).lookup a_info.secret = _
  rw [lookup_collect, lookup_map, hserver]
  rfl

theorem Consistent.mergeLoop (h : s.Consistent) {other : Dump}
    {entries : List (Sigma fun _ : Addr => AddrInfo)}
    (hdump : ∀ e ∈ entries, ∃ server, other.servers.lookup e.2.secret = some server) :
    ∃ s', Servers.mergeLoop other entries s = .ok s' ∧ s'.Consistent := by
  induction entries generalizing s with
  | nil => exact ⟨s, rfl, h⟩
  | cons e entries ih =>
      obtain ⟨addr, a_info⟩ := e
      obtain ⟨server, hserver⟩ := hdump ⟨addr, a_info⟩ (by simp)
      obtain ⟨s₁, r, hadd, h₁, -⟩ := h.add addr a_info server.info_serial (some server.info)
      obtain ⟨s', hrun, hs'⟩ := ih h₁ fun e he => hdump e (by simp [he])
      refine ⟨s', ?_, hs'⟩
      unfold Servers.mergeLoop
      simp only at hserver
      rw [hserver]
      simp only [hadd, bind, Except.bind]
      exact hrun

theorem Consistent.merge (h : s.Consistent) {other : Dump} (hdump : Dumped other) :
    ∃ s', s.merge other = .ok s' ∧ s'.Consistent :=
  h.mergeLoop fun e he => hdump e.1 e.2 (lookup_eq_some.mpr he)

end Servers

end Fex.Mastersrv
