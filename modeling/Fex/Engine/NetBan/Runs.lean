import Fex.Engine.NetBan.Pool

/-!
# Runs of the pools of bans

Every run keeps the layout of a pool.  The loop of `CNetBan::Update` stops at
the first ban that has not expired, and the order of the used list makes this
all bans that have.
-/

namespace Fex.Engine.NetBan

open Fex.Lib CBanPool

variable {T : Type} {HashCount : Nat}

/-! ## Reset -/

/-- Slots from `k` on are linked in their order. -/
theorem links_next (k n : Nat) (hn : k + n = MAX_BANS) :
    Links id (fun i => if i + 1 < MAX_BANS then some (i + 1) else none) (List.range' k n) none := by
  induction n generalizing k with
  | zero => trivial
  | succ n ih =>
      refine ⟨?_, ih (k + 1) (by omega)⟩
      rw [Option.or_none]
      cases n with
      | zero => exact if_neg (by omega)
      | succ n => exact if_pos (by omega)

theorem links_prev {n : Nat} (hn : n ≤ MAX_BANS) {slots : List Nat} (hslots : slots = List.range n) :
    Links id (fun i => if 0 < i ∧ i < MAX_BANS then some (i - 1) else none) slots.reverse none := by
  subst hslots
  induction n with
  | zero => trivial
  | succ n ih =>
      rw [List.range_succ, List.reverse_append, List.reverse_singleton, List.singleton_append]
      refine ⟨?_, ih (by omega)⟩
      rw [Option.or_none, List.head?_reverse, List.getLast?_range]
      cases n with
      | zero => exact if_neg (by omega)
      | succ n => exact if_pos (by omega)

/-- After `Reset` every slot is free. -/
theorem layout_reset [BanData T] (s : CBanPool T HashCount) :
    Layout s.Reset [] (List.range MAX_BANS) fun _ => [] := by
  have hempty : ∀ d : DList Nat, d.head = none → d.Holds [] := fun d hd =>
    ⟨hd, trivial, trivial, List.nodup_nil⟩
  have hnext := links_next 0 MAX_BANS (Nat.zero_add _)
  have hhead : (List.range MAX_BANS).head? = some 0 := by
    rw [List.head?_range]
    exact if_neg (by decide)
  have hnodup : (List.range MAX_BANS).Nodup := List.nodup_range
  rw [← List.range_eq_range'] at hnext
  -- the list is not to be evaluated
  obtain ⟨slots, hslots⟩ : ∃ l, l = List.range MAX_BANS := ⟨_, rfl⟩
  rw [← hslots] at hnext hhead hnodup ⊢
  constructor
  · exact hempty _ rfl
  · exact ⟨hhead.symm, hnext, links_prev le_rfl hslots, hnodup⟩
  · rw [List.nil_append, hslots]
  · exact fun h => hempty _ rfl
  · simp
  · simp
  · rfl
  · exact List.Pairwise.nil

/-! ## Expiry -/

/-- The ban is removed by `Update` at `Now`. -/
def Expired (Now : Int) (s : CBanPool T HashCount) (i : Nat) : Prop :=
  s.Expires i ≠ EXPIRES_NEVER ∧ s.Expires i < Now

instance (Now : Int) (s : CBanPool T HashCount) (i : Nat) : Decidable (Expired Now s i) :=
  inferInstanceAs (Decidable (_ ∧ _))

/-- Behind a ban that has not expired there is none that has. -/
theorem Sooner.not_expired {Now : Int} {s : CBanPool T HashCount} {i j : Nat}
    (h : Sooner (s.Expires i) (s.Expires j)) (hi : ¬ Expired Now s i) : ¬ Expired Now s j := by
  unfold Sooner at h
  unfold Expired at *
  omega

theorem Layout.removeExpired {s : CBanPool T HashCount} {used free : List Nat}
    {bucket : CNetHash → List Nat} (h : Layout s used free bucket) (Now : Int) {n : Nat}
    (hn : used.length < n) :
    ∃ s' free' bucket', RemoveExpired Now n s = .ok s' ∧ s'.m_aBans = s.m_aBans ∧
      Layout s' (used.filter fun i => ¬ Expired Now s i) free' bucket' := by
  induction used generalizing s free bucket n with
  | nil =>
      obtain ⟨n, rfl⟩ : ∃ m, n = m + 1 := ⟨n - 1, by omega⟩
      have hfirst : s.m_pFirstUsed = none := h.usedHolds.head
      refine ⟨s, free, bucket, ?_, rfl, h⟩
      unfold RemoveExpired
      rw [hfirst]
  | cons x used ih =>
      obtain ⟨n, rfl⟩ : ∃ m, n = m + 1 := ⟨n - 1, by omega⟩
      have hfirst : s.m_pFirstUsed = some x := h.usedHolds.head
      unfold RemoveExpired
      rw [hfirst]
      simp only
      by_cases hx : Expired Now s x
      · obtain ⟨cs, ds, hcd⟩ := List.append_of_mem
          ((h.mem_bucket (s.m_aBans x).m_NetHash x).mpr ⟨by simp, rfl⟩)
        obtain ⟨s₁, hremove, hbans, h₁⟩ := @Layout.remove _ _ s free bucket [] used cs ds x h hcd
        obtain ⟨s', free', bucket', hrun, hbans', h'⟩ := ih h₁ (by simpa using hn)
        have hexp : ∀ i, Expired Now s₁ i ↔ Expired Now s i := by
          intro i
          unfold Expired CBanPool.Expires
          rw [hbans]
        refine ⟨s', free', bucket', ?_, hbans'.trans hbans, ?_⟩
        · rw [if_pos (show _ ∧ _ from hx), hremove]
          exact hrun
        · rw [List.filter_cons_of_neg (by simpa using hx)]
          simp only [hexp] at h'
          exact h'
      · refine ⟨s, free, bucket, if_neg hx, rfl, ?_⟩
        have hall : ∀ i ∈ x :: used, ¬ Expired Now s i := by
          intro i hi
          rcases List.mem_cons.mp hi with rfl | hi
          · exact hx
          · exact ((List.pairwise_cons.mp h.sorted).1 i hi).not_expired hx
        rw [List.filter_eq_self.mpr (by simpa using hall)]
        exact h

/-! ## Runs -/

inductive Call (T : Type)
  | Add (pData : T) (pInfo : CBanInfo) (pNetHash : CNetHash)
  | Remove (pBan? : Option Nat)
  | Update (pBan : Nat) (pInfo : CBanInfo)
  | Reset

def step [BanData T] (s : CBanPool T HashCount) : Call T → Exec (CBanPool T HashCount)
  | .Add pData pInfo pNetHash => do return (← s.Add pData pInfo pNetHash).1
  | .Remove pBan? => do return (← s.Remove pBan?).1
  | .Update pBan pInfo => s.Update pBan pInfo
  | .Reset => .ok s.Reset

/-- The slot is in the used list. -/
def Used (s : CBanPool T HashCount) (i : Nat) : Prop := ∃ used, s.usedList.Holds used ∧ i ∈ used

/-- Hashes index the table, and bans are used ones. -/
def Allowed (s : CBanPool T HashCount) : Call T → Prop
  | .Add _ _ pNetHash => InRange HashCount pNetHash
  | .Remove pBan? => ∀ pBan, pBan? = some pBan → Used s pBan
  | .Update pBan _ => Used s pBan
  | .Reset => True

/-- The states of all runs on a pool. -/
def Reached [BanData T] (s : CBanPool T HashCount) : Prop :=
  ∃ mem : CBanPool T HashCount, Reachable step Allowed mem.Reset s

def PoolInvariant (s : CBanPool T HashCount) : Prop :=
  ∃ used free bucket, Layout s used free bucket

/-- `s'` has the bans of `s` that have not expired. -/
def KeepsUnexpired (Now : Int) (s s' : CBanPool T HashCount) : Prop :=
  PoolInvariant s' ∧ s'.m_aBans = s.m_aBans ∧ ∀ i, Used s' i ↔ Used s i ∧ ¬ Expired Now s i

namespace Layout

variable {s : CBanPool T HashCount} {used free : List Nat} {bucket : CNetHash → List Nat}

theorem used_iff (h : Layout s used free bucket) {i : Nat} : Used s i ↔ i ∈ used := by
  constructor
  · rintro ⟨used', hused', hi⟩
    rw [h.usedHolds.unique hused']
    exact hi
  · exact fun hi => ⟨used, h.usedHolds, hi⟩

theorem step [BanData T] (h : Layout s used free bucket) {c : Call T} (hc : Allowed s c) :
    ∃ t, NetBan.step s c = .ok t ∧ PoolInvariant t := by
  cases c with
  | Add pData pInfo pNetHash =>
      cases free with
      | nil =>
          have hfirst : s.m_pFirstFree = none := h.freeHolds.head
          refine ⟨s, ?_, _, _, _, h⟩
          unfold NetBan.step CBanPool.Add
          rw [hfirst]
          rfl
      | cons x free =>
          obtain ⟨t, as, bs, hadd, -, -, ht⟩ := h.add hc pData pInfo
          refine ⟨t, ?_, _, _, _, ht⟩
          simp only [NetBan.step, hadd]
          rfl
  | Remove pBan? =>
      cases pBan? with
      | none => exact ⟨s, rfl, _, _, _, h⟩
      | some x =>
          have hx := h.used_iff.mp (hc x rfl)
          obtain ⟨cs, ds, hcd⟩ := List.append_of_mem
            ((h.mem_bucket (s.m_aBans x).m_NetHash x).mpr ⟨hx, rfl⟩)
          obtain ⟨as, bs, rfl⟩ := List.append_of_mem hx
          obtain ⟨t, hremove, -, ht⟩ := h.remove hcd
          refine ⟨t, ?_, _, _, _, ht⟩
          simp only [NetBan.step, hremove]
          rfl
  | Update x pInfo =>
      obtain ⟨as, bs, rfl⟩ := List.append_of_mem (h.used_iff.mp hc)
      obtain ⟨t, as', bs', hupdate, -, -, ht⟩ := h.update pInfo
      exact ⟨t, hupdate, _, _, _, ht⟩
  | Reset => exact ⟨s.Reset, rfl, _, _, _, layout_reset s⟩

end Layout

theorem Reached.poolInvariant [BanData T] {s : CBanPool T HashCount} (h : Reached s) :
    PoolInvariant s := by
  obtain ⟨mem, hrun⟩ := h
  apply hrun.invariant
  · exact ⟨_, _, _, layout_reset mem⟩
  · rintro s t c ⟨used, free, bucket, hs⟩ hc hstep
    obtain ⟨t', hstep', ht'⟩ := hs.step hc
    rw [hstep] at hstep'
    rw [Except.ok.inj hstep']
    exact ht'

theorem PoolInvariant.removeExpired {s : CBanPool T HashCount} (h : PoolInvariant s) (Now : Int) :
    ∃ s', RemoveExpired Now (MAX_BANS + 1) s = .ok s' ∧ KeepsUnexpired Now s s' := by
  obtain ⟨used, free, bucket, hs⟩ := h
  obtain ⟨s', free', bucket', hrun, hbans, hs'⟩ :=
    hs.removeExpired Now (Nat.lt_succ_of_le hs.length_used)
  refine ⟨s', hrun, ⟨_, _, _, hs'⟩, hbans, fun i => ?_⟩
  rw [hs'.used_iff, hs.used_iff, List.mem_filter]
  simp

/-- A pool in every run, and what `Update` does with two such pools. -/
theorem ban_pool_runs [BanData T] {s : CBanPool T HashCount} (h : Reached s) :
    PoolInvariant s ∧ (∀ c, Allowed s c → ∃ t, step s c = .ok t) ∧
    ∀ b : CNetBan, Reached b.m_BanAddrPool → Reached b.m_BanRangePool → ∀ Now,
      ∃ b', b.Update Now = .ok b' ∧
        KeepsUnexpired Now b.m_BanAddrPool b'.m_BanAddrPool ∧
        KeepsUnexpired Now b.m_BanRangePool b'.m_BanRangePool := by
  refine ⟨h.poolInvariant, fun c hc => ?_, fun b ha hr Now => ?_⟩
  · obtain ⟨used, free, bucket, hs⟩ := h.poolInvariant
    obtain ⟨t, hstep, -⟩ := hs.step hc
    exact ⟨t, hstep⟩
  · obtain ⟨a', hrunA, ha'⟩ := ha.poolInvariant.removeExpired Now
    obtain ⟨r', hrunR, hr'⟩ := hr.poolInvariant.removeExpired Now
    refine ⟨{ b with m_BanAddrPool := a', m_BanRangePool := r' }, ?_, ha', hr'⟩
    unfold CNetBan.Update
    rw [hrunA, hrunR]
    rfl

/-- Pools of zeroed memory. -/
def zeroed [BanData T] : CBanPool T HashCount :=
  { m_aapHashList := fun _ _ => none
    m_aBans := fun _ =>
      { m_Data := BanData.zero
        m_Info := { m_Expires := 0, m_aReason := [], m_VerbatimReason := false }
        m_NetHash := { m_Hash := 0, m_HashIndex := 0 } }
    m_pHashNext := fun _ => none
    m_pHashPrev := fun _ => none
    m_pNext := fun _ => none
    m_pPrev := fun _ => none
    m_pFirstFree := none
    m_pFirstUsed := none
    m_CountUsed := 0 }

/-- A ban for ever and one that expires at 5. -/
theorem ban_pool_runs_small : ∃ s : CBanAddrPool, Reached s ∧ s.m_CountUsed = 2 ∧ PoolInvariant s ∧
    ∃ b' : CNetBan, CNetBan.Update { m_BanAddrPool := s, m_BanRangePool := zeroed.Reset
                                     m_LocalhostIpV4 := .zero, m_LocalhostIpV6 := .zero } 7 = .ok b' ∧
      KeepsUnexpired 7 s b'.m_BanAddrPool := by
  have hrun : ∃ s : CBanAddrPool, Reached s ∧ s.m_CountUsed = 2 := by
    have h₀ : Reachable step Allowed (zeroed : CBanAddrPool).Reset zeroed.Reset := .init
    have h₁ := Reachable.next (Call.Add NETADDR.zero
      { m_Expires := EXPIRES_NEVER, m_aReason := [], m_VerbatimReason := false } (AddrHash .zero))
      h₀ ⟨by decide, by decide⟩ rfl
    have h₂ := Reachable.next (Call.Add { NETADDR.zero with type := NETTYPE_IPV4 }
      { m_Expires := 5, m_aReason := [], m_VerbatimReason := false } (AddrHash .zero))
      h₁ ⟨by decide, by decide⟩ rfl
    exact ⟨_, ⟨_, h₂⟩, rfl⟩
  obtain ⟨s, hs, hcount⟩ := hrun
  have hpool := ban_pool_runs hs
  obtain ⟨b', hupdate, haddr, -⟩ :=
    hpool.2.2 { m_BanAddrPool := s, m_BanRangePool := zeroed.Reset
                m_LocalhostIpV4 := .zero, m_LocalhostIpV6 := .zero } hs ⟨zeroed, .init⟩ 7
  exact ⟨s, hs, hcount, hpool.1, b', hupdate, haddr⟩

end Fex.Engine.NetBan
