import Fex.Mastersrv.Servers.Consistency

/-!
# Dumps of the registry

`from_dump` rebuilds the address lists, so a registry read back from its own
dump is the same, and every dump that is accepted gives a consistent registry.
-/

namespace Fex.Mastersrv

open Fex.Lib Function

namespace Servers

variable {s : Servers}

/-- The addresses with a secret, in the order of the entries. -/
def listed (entries : List (Sigma fun _ : Addr => AddrInfo)) (secret : ShortString) : List Addr :=
  (entries.filter fun e => e.2.secret = secret).map Sigma.fst

theorem mem_listed {m : HashMap Addr AddrInfo} {secret : ShortString} {addr : Addr} :
    addr ∈ listed m.entries secret ↔ ∃ a_info, m.lookup addr = some a_info ∧ a_info.secret = secret := by
  unfold listed
  rw [List.mem_map]
  constructor
  · rintro ⟨⟨a, x⟩, he, rfl⟩
    obtain ⟨hentry, hsecret⟩ := List.mem_filter.mp he
    exact ⟨x, lookup_eq_some.mpr hentry, by simpa using hsecret⟩
  · rintro ⟨x, hx, hsecret⟩
    exact ⟨⟨addr, x⟩, List.mem_filter.mpr ⟨lookup_eq_some.mp hx, decide_eq_true hsecret⟩, rfl⟩

theorem nodup_listed (m : HashMap Addr AddrInfo) (secret : ShortString) :
    (listed m.entries secret).Nodup := m.keys_nodup.sublist (List.filter_sublist.map _)

theorem fixup_eq {entries : List (Sigma fun _ : Addr => AddrInfo)} {m m' : HashMap ShortString Server}
    (h : fixup entries m = some m') :
    (∀ e ∈ entries, ∃ server, m.lookup e.2.secret = some server) ∧
    ∀ secret, m'.lookup secret = (m.lookup secret).map fun server =>
      { server with addresses := server.addresses ++ listed entries secret } := by
  induction entries generalizing m with
  | nil =>
      cases h
      refine ⟨by simp, fun secret => ?_⟩
      cases m'.lookup secret with
      | none => rfl
      | some server => simp [listed]
  | cons e entries ih =>
      obtain ⟨addr, a_info⟩ := e
      unfold fixup at h
      cases hserver : m.lookup a_info.secret with
      | none =>
          rw [hserver] at h
          cases h
      | some server =>
          rw [hserver] at h
          obtain ⟨hall, hlookup⟩ := ih h
          constructor
          · intro e he
            rcases List.mem_cons.mp he with rfl | he
            · exact ⟨server, hserver⟩
            · obtain ⟨t, ht⟩ := hall e he
              by_cases hsecret : e.2.secret = a_info.secret
              · exact ⟨server, by rw [hsecret, hserver]⟩
              · rw [AList.lookup_insert_ne hsecret] at ht
                exact ⟨t, ht⟩
          · intro secret
            rw [hlookup]
            by_cases hsecret : secret = a_info.secret
            · rw [hsecret, AList.lookup_insert, hserver]
              simp [listed]
            · rw [AList.lookup_insert_ne hsecret]
              have hlist : listed (⟨addr, a_info⟩ :: entries) secret = listed entries secret := by
                unfold listed
                rw [List.filter_cons_of_neg (by simpa using Ne.symm hsecret)]
              rw [hlist]

theorem fixup_isSome (entries : List (Sigma fun _ : Addr => AddrInfo))
    {m : HashMap ShortString Server}
    (h : ∀ e ∈ entries, ∃ server, m.lookup e.2.secret = some server) :
    ∃ m', fixup entries m = some m' := by
  induction entries generalizing m with
  | nil => exact ⟨m, rfl⟩
  | cons e entries ih =>
      obtain ⟨addr, a_info⟩ := e
      obtain ⟨server, hserver⟩ := h ⟨addr, a_info⟩ (by simp)
      unfold fixup
      simp only at hserver
      rw [hserver]
      apply ih
      intro e he
      by_cases hsecret : e.2.secret = a_info.secret
      · exact ⟨_, by rw [hsecret, AList.lookup_insert]⟩
      · obtain ⟨t, ht⟩ := h e (by simp [he])
        exact ⟨t, by rw [AList.lookup_insert_ne hsecret, ht]⟩

/-- The server that `from_dump` builds. -/
def rebuilt (dump : Dump) (secret : ShortString) (server : DumpServer) : Server :=
  { addresses := (listed dump.addresses.entries secret).insertionSort (· ≤ ·)
    info_serial := server.info_serial
    info := server.info }

theorem from_dump_eq {dump : Dump} (h : from_dump dump = some s) :
    Dumped dump ∧ s.addresses = dump.addresses ∧
    (∀ secret, s.servers.lookup secret = (dump.servers.lookup secret).map (rebuilt dump secret)) ∧
    ∀ secret server, dump.servers.lookup secret = some server →
      listed dump.addresses.entries secret ≠ [] := by
  unfold from_dump at h
  simp only [Option.bind_eq_bind, Option.bind_eq_some_iff] at h
  obtain ⟨m, hfix, hrest⟩ := h
  obtain ⟨hall, hlookup⟩ := fixup_eq hfix
  have hm : ∀ secret, m.lookup secret = (dump.servers.lookup secret).map fun server =>
      { addresses := listed dump.addresses.entries secret, info_serial := server.info_serial,
        info := server.info } := by
    intro secret
    rw [hlookup, lookup_map, Option.map_map]
    rfl
  split at hrest
  · cases hrest
  rename_i hempty
  have hnonempty : ∀ secret server, dump.servers.lookup secret = some server →
      listed dump.addresses.entries secret ≠ [] := by
    intro secret server hserver hnil
    apply hempty
    have hentry : m.lookup secret = some
        { addresses := [], info_serial := server.info_serial, info := server.info } := by
      rw [hm, hserver, hnil]
      rfl
    exact List.any_eq_true.mpr ⟨_, lookup_eq_some.mp hentry, rfl⟩
  rw [← Option.some.inj hrest]
  refine ⟨fun addr a_info ha => ?_, rfl, fun secret => ?_, hnonempty⟩
  · obtain ⟨server, hserver⟩ := hall ⟨addr, a_info⟩ (lookup_eq_some.mp ha)
    rw [lookup_map] at hserver
    obtain ⟨d, hd, -⟩ := Option.map_eq_some_iff.mp hserver
    exact ⟨d, hd⟩
  · show (HashMap.map (fun server : Server =>
      { server with addresses := server.addresses.insertionSort (· ≤ ·) }) m).lookup secret = _
    rw [lookup_map, hm, Option.map_map]
    rfl

theorem from_dump_isSome {dump : Dump} (hdumped : Dumped dump)
    (hlisted : ∀ secret server, dump.servers.lookup secret = some server →
      listed dump.addresses.entries secret ≠ []) : ∃ s, from_dump dump = some s := by
  obtain ⟨m, hfix⟩ := fixup_isSome dump.addresses.entries
    (m := HashMap.map (fun server : DumpServer =>
      { addresses := [], info_serial := server.info_serial, info := server.info : Server })
      dump.servers) (fun e he => by
        obtain ⟨server, hserver⟩ := hdumped e.1 e.2 (lookup_eq_some.mpr he)
        exact ⟨_, by rw [lookup_map, hserver]; rfl⟩)
  have hnone : ¬ (m.entries.any fun e => e.2.addresses.isEmpty) = true := by
    intro hany
    obtain ⟨⟨secret, server⟩, he, hempty⟩ := List.any_eq_true.mp hany
    have hlookup := (fixup_eq hfix).2 secret
    rw [lookup_eq_some.mpr he, lookup_map] at hlookup
    cases hd : dump.servers.lookup secret with
    | none =>
        rw [hd] at hlookup
        cases hlookup
    | some d =>
        rw [hd] at hlookup
        have haddrs := congrArg Server.addresses (Option.some.inj hlookup)
        have hnil := List.isEmpty_iff.mp hempty
        simp only at haddrs hnil
        rw [hnil, List.nil_append] at haddrs
        exact hlisted secret d hd haddrs.symm
  unfold from_dump
  simp only [hfix, Option.bind_eq_bind, Option.bind_some]
  exact ⟨_, if_neg hnone⟩

/-- An accepted dump gives a consistent registry. -/
theorem consistent_of_from_dump {dump : Dump} (h : from_dump dump = some s) : s.Consistent := by
  obtain ⟨hdumped, haddresses, hservers, hnonempty⟩ := from_dump_eq h
  have hinv : ∀ secret server, s.servers.lookup secret = some server →
      ∃ d, dump.servers.lookup secret = some d ∧ server = rebuilt dump secret d := by
    intro secret server hserver
    rw [hservers] at hserver
    obtain ⟨d, hd, heq⟩ := Option.map_eq_some_iff.mp hserver
    exact ⟨d, hd, heq.symm⟩
  have hmem : ∀ secret d addr, addr ∈ (rebuilt dump secret d).addresses ↔
      ∃ a_info, dump.addresses.lookup addr = some a_info ∧ a_info.secret = secret := by
    intro secret d addr
    unfold rebuilt
    simp only
    rw [List.mem_insertionSort, mem_listed]
  apply Mirror.of_mem
  · intro addr a_info ha
    rw [haddresses] at ha
    obtain ⟨d, hd⟩ := hdumped addr a_info ha
    refine ⟨rebuilt dump a_info.secret d, ?_, (hmem _ d addr).mpr ⟨a_info, ha, rfl⟩⟩
    rw [hservers, hd]
    rfl
  · intro secret server hserver hnil
    obtain ⟨d, hd, rfl⟩ := hinv secret server hserver
    apply hnonempty secret d hd
    have hlen := congrArg List.length hnil
    unfold rebuilt at hlen
    simp only [List.length_insertionSort, List.length_nil] at hlen
    exact List.eq_nil_of_length_eq_zero hlen
  · intro secret server hserver
    obtain ⟨d, -, rfl⟩ := hinv secret server hserver
    exact pairwise_lt_insertionSort (nodup_listed dump.addresses secret)
  · intro secret server hserver addr haddr
    obtain ⟨d, -, rfl⟩ := hinv secret server hserver
    rw [haddresses]
    exact (hmem secret d addr).mp haddr

/-- Registries with the same entries. -/
structure Same (s t : Servers) : Prop where
  addresses : ∀ addr, s.addresses.lookup addr = t.addresses.lookup addr
  servers : ∀ secret, s.servers.lookup secret = t.servers.lookup secret

/-- A registry is read back from its dump. -/
theorem Consistent.from_dump_new (h : s.Consistent) (now : Timestamp) :
    ∃ t, from_dump (Dump.new now s) = some t ∧ Same t s := by
  have hA : ∀ addr, (Dump.new now s).addresses.lookup addr = s.addresses.lookup addr :=
    lookup_collect s.addresses
  have hS : ∀ secret, (Dump.new now s).servers.lookup secret =
      (s.servers.lookup secret).map DumpServer.of := by
    intro secret
    show (BTreeMap.collect (HashMap.map DumpServer.of s.servers)).lookup secret = _
    rw [lookup_collect, lookup_map]
  have hlisted : ∀ secret server, s.servers.lookup secret = some server → ∀ addr,
      addr ∈ listed (Dump.new now s).addresses.entries secret ↔ addr ∈ server.addresses := by
    intro secret server hserver addr
    rw [mem_listed]
    constructor
    · rintro ⟨a_info, ha, rfl⟩
      rw [hA] at ha
      obtain ⟨t, ht, hmem⟩ := h.mem ha
      rw [hserver] at ht
      rw [Option.some.inj ht]
      exact hmem
    · intro haddr
      obtain ⟨a_info, ha, hsecret⟩ := h.owned secret server hserver addr haddr
      exact ⟨a_info, (hA addr).trans ha, hsecret⟩
  obtain ⟨t, ht⟩ := from_dump_isSome (h.dumped now) fun secret d hd hnil => by
    rw [hS] at hd
    obtain ⟨server, hserver, -⟩ := Option.map_eq_some_iff.mp hd
    obtain ⟨a, ha⟩ := List.exists_mem_of_ne_nil _ (h.nonempty secret server hserver)
    have hin := (hlisted secret server hserver a).mpr ha
    rw [hnil] at hin
    cases hin
  obtain ⟨-, haddresses, hservers, -⟩ := from_dump_eq ht
  refine ⟨t, ht, fun addr => by rw [haddresses, hA], fun secret => ?_⟩
  rw [hservers, hS]
  cases hserver : s.servers.lookup secret with
  | none => rfl
  | some server =>
      have hsorted := h.sorted secret server hserver
      have hperm : (listed (Dump.new now s).addresses.entries secret).Perm server.addresses :=
        (List.perm_ext_iff_of_nodup (nodup_listed _ secret) (hsorted.imp fun hlt => ne_of_lt hlt)).mpr
          (hlisted secret server hserver)
      have heq : (listed (Dump.new now s).addresses.entries secret).insertionSort (· ≤ ·) =
          server.addresses :=
        ((List.perm_insertionSort _ _).trans hperm).eq_of_pairwise'
          (List.pairwise_insertionSort _ _) (hsorted.imp fun hlt => le_of_lt hlt)
      show some (rebuilt (Dump.new now s) secret (DumpServer.of server)) = some server
      unfold rebuilt DumpServer.of
      rw [heq]

/-! ## Runs -/

inductive Op
  | add (addr : Addr) (a_info : AddrInfo) (info_serial : Int) (info : Option RawValue)
  | remove (addr : Addr) (secret : ShortString)
  | prune_before (time : Timestamp)
  | merge (other : Dump)

def step (s : Servers) : Op → Exec Servers
  | .add addr a_info info_serial info => do return (← s.add addr a_info info_serial info).1
  | .remove addr secret => do return (← s.remove addr secret).1
  | .prune_before time => s.prune_before time
  | .merge other => s.merge other

/-- Dumps that are merged come from consistent registries. -/
def Allowed : Op → Prop
  | .merge other => ∃ now t, Consistent t ∧ other = Dump.new now t
  | _ => True

theorem Consistent.step (h : s.Consistent) {op : Op} (hop : Allowed op) :
    ∃ t, s.step op = .ok t ∧ t.Consistent := by
  cases op with
  | add addr a_info info_serial info =>
      obtain ⟨t, r, hrun, ht, -⟩ := h.add addr a_info info_serial info
      refine ⟨t, ?_, ht⟩
      show (do return (← s.add addr a_info info_serial info).1) = _
      rw [hrun]
      rfl
  | remove addr secret =>
      obtain ⟨t, r, hrun, ht⟩ := h.remove addr secret
      refine ⟨t, ?_, ht⟩
      show (do return (← s.remove addr secret).1) = _
      rw [hrun]
      rfl
  | prune_before time =>
      obtain ⟨t, hrun, ht, -⟩ := h.prune_before time
      exact ⟨t, hrun, ht⟩
  | merge other =>
      obtain ⟨now, r, hr, rfl⟩ := hop
      exact h.merge (hr.dumped now)

theorem consistent_of_run {s₀ : Servers} (h₀ : s₀.Consistent)
    (h : Reachable step (fun _ op => Allowed op) s₀ s) : s.Consistent := by
  apply h.invariant h₀
  intro s t op hs hop hstep
  obtain ⟨t', hrun, ht'⟩ := hs.step hop
  rw [hstep] at hrun
  rw [Except.ok.inj hrun]
  exact ht'

/-- In every run the registry is consistent and no operation panics. -/
theorem registry_runs {s₀ : Servers} (h₀ : s₀ = new ∨ ∃ dump, from_dump dump = some s₀)
    (h : Reachable step (fun _ op => Allowed op) s₀ s) :
    s.Consistent ∧
    (∀ op, Allowed op → ∃ t, s.step op = .ok t) ∧
    (∀ addr a_info info_serial info t r, s.add addr a_info info_serial info = .ok (t, r) →
      r = .NeedInfo ∨ r = .Obsolete → t = s) ∧
    (∀ time, ∃ t, s.prune_before time = .ok t ∧ ∀ addr, t.addresses.lookup addr =
      (s.addresses.lookup addr).filter fun a_info => ¬ a_info.ping_time < time) ∧
    ∀ now, ∃ t, from_dump (Dump.new now s) = some t ∧ Same t s := by
  have hstart : s₀.Consistent := by
    rcases h₀ with rfl | ⟨dump, hdump⟩
    · exact consistent_new
    · exact consistent_of_from_dump hdump
  have hs := consistent_of_run hstart h
  refine ⟨hs, fun op hop => ?_, fun addr a_info info_serial info t r hrun hr => ?_, fun time => ?_,
    hs.from_dump_new⟩
  · obtain ⟨t, hrun, -⟩ := hs.step hop
    exact ⟨t, hrun⟩
  · obtain ⟨t', r', hrun', -, hadd⟩ := hs.add addr a_info info_serial info
    rw [hrun] at hrun'
    cases hrun'
    cases hadd with
    | needInfo => rfl
    | obsolete => rfl
    | stored s' r hstored =>
        rcases hr with rfl | rfl
        · rcases hstored with h | h <;> cases h
        · rcases hstored with h | h <;> cases h
  · obtain ⟨t, hrun, -, hlookup⟩ := hs.prune_before time
    exact ⟨t, hrun, hlookup⟩

def exampleAddr : Addr := { ip := .V4 0x7f000001#32, port := 8303, protocol := .V6 }

/-- An address is added and pruned. -/
theorem registry_runs_pruned : ∃ s t,
    new.step (.add exampleAddr { kind := .Mastersrv, ping_time := 5, location := none, secret := "a" } 1
      (some "[]")) = .ok s ∧
    s.Consistent ∧ s.prune_before 6 = .ok t ∧ t.addresses.lookup exampleAddr = none := by
  have hallowed : Allowed (.add exampleAddr
    { kind := .Mastersrv, ping_time := 5, location := none, secret := "a" } 1 (some "[]")) := trivial
  obtain ⟨s, hrun, -⟩ := consistent_new.step hallowed
  have hreach : Reachable step (fun _ op => Allowed op) new s :=
    .next (.add exampleAddr _ 1 (some "[]")) .init trivial hrun
  obtain ⟨hs, -, -, hprune, -⟩ := registry_runs (.inl rfl) hreach
  obtain ⟨t, hprune, hlookup⟩ := hprune 6
  refine ⟨s, t, hrun, hs, hprune, ?_⟩
  rw [hlookup]
  have hadd : s.addresses.lookup exampleAddr =
      some { kind := .Mastersrv, ping_time := 5, location := none, secret := "a" } := by
    cases hrun
    rfl
  rw [hadd]
  rfl

end Servers

end Fex.Mastersrv
