import Fex.Engine.NetBan.Lookup

/-!
# Runs of the ban list

In every run both pools file their bans under the right hashes and hold valid
ranges only, so `IsBanned` always answers for the bans that are held.
-/

namespace Fex.Engine.NetBan

open Fex.Lib CBanPool

section Stock

variable {T : Type} {HashCount : Nat} [BanData T]

/-- Every used ban is filed under its hash and has data that satisfies `P`. -/
def Stock (P : T → Prop) (s : CBanPool T HashCount) : Prop :=
  ∃ used free bucket, Filed s used free bucket ∧ ∀ i ∈ used, P (s.m_aBans i).m_Data

variable {P : T → Prop} {s : CBanPool T HashCount}

theorem stock_reset (s : CBanPool T HashCount) : Stock P s.Reset :=
  ⟨_, _, _, ⟨layout_reset s, by simp⟩, by simp⟩

theorem Stock.add (h : Stock P s) {pData : T} {k : CNetHash} (hhash : BanData.NetHash pData = .ok k)
    (hk : InRange HashCount k) (hP : P pData) (pInfo : CBanInfo) :
    ∃ s' pBan?, s.Add pData pInfo k = .ok (s', pBan?) ∧ Stock P s' := by
  obtain ⟨used, free, bucket, ⟨hlayout, hfiled⟩, hgood⟩ := h
  cases free with
  | nil =>
      have hfirst : s.m_pFirstFree = none := hlayout.freeHolds.head
      refine ⟨s, none, ?_, used, [], bucket, ⟨hlayout, hfiled⟩, hgood⟩
      unfold CBanPool.Add
      rw [hfirst]
  | cons x free =>
      obtain ⟨s', as, bs, hadd, rfl, hbans, hlayout'⟩ := hlayout.add hk pData pInfo
      have hold : ∀ i ∈ as ++ x :: bs, i ≠ x → i ∈ as ++ bs := by
        intro i hi hne
        simp only [List.mem_append, List.mem_cons] at hi ⊢
        tauto
      refine ⟨s', some x, hadd, _, _, _, ⟨hlayout', fun i hi => ?_⟩, fun i hi => ?_⟩
      · rw [hbans]
        by_cases hix : i = x
        · rw [hix, Function.update_self]
          exact hhash
        · rw [Function.update_of_ne hix]
          exact hfiled i (hold i hi hix)
      · rw [hbans]
        by_cases hix : i = x
        · rw [hix, Function.update_self]
          exact hP
        · rw [Function.update_of_ne hix]
          exact hgood i (hold i hi hix)

theorem Stock.remove (h : Stock P s) {x : Nat} (hx : Used s x) :
    ∃ s' r, s.Remove (some x) = .ok (s', r) ∧ Stock P s' := by
  obtain ⟨used, free, bucket, ⟨hlayout, hfiled⟩, hgood⟩ := h
  have hx := hlayout.used_iff.mp hx
  obtain ⟨cs, ds, hcd⟩ := List.append_of_mem
    ((hlayout.mem_bucket (s.m_aBans x).m_NetHash x).mpr ⟨hx, rfl⟩)
  obtain ⟨as, bs, rfl⟩ := List.append_of_mem hx
  obtain ⟨s', hremove, hbans, hlayout'⟩ := hlayout.remove hcd
  have hsub : ∀ i ∈ as ++ bs, i ∈ as ++ x :: bs := by
    intro i hi
    simp only [List.mem_append, List.mem_cons] at hi ⊢
    tauto
  refine ⟨s', 0, hremove, _, _, _, ⟨hlayout', fun i hi => ?_⟩, fun i hi => ?_⟩
  · rw [hbans]
    exact hfiled i (hsub i hi)
  · rw [hbans]
    exact hgood i (hsub i hi)

theorem Stock.update (h : Stock P s) {x : Nat} (hx : Used s x) (pInfo : CBanInfo) :
    ∃ s', s.Update x pInfo = .ok s' ∧ Stock P s' := by
  obtain ⟨used, free, bucket, ⟨hlayout, hfiled⟩, hgood⟩ := h
  obtain ⟨as, bs, rfl⟩ := List.append_of_mem (hlayout.used_iff.mp hx)
  obtain ⟨s', as', bs', hupdate, hsplit, hbans, hlayout'⟩ := hlayout.update pInfo
  have hsub : ∀ i ∈ as' ++ x :: bs', i ∈ as ++ x :: bs := by
    intro i hi
    have hmem : i ∈ as ++ bs ↔ i ∈ as' ++ bs' := by rw [hsplit]
    simp only [List.mem_append, List.mem_cons] at hi hmem ⊢
    tauto
  have hkeep : ∀ i, (s'.m_aBans i).m_Data = (s.m_aBans i).m_Data ∧
      (s'.m_aBans i).m_NetHash = (s.m_aBans i).m_NetHash := by
    intro i
    rw [hbans]
    by_cases hix : i = x
    · rw [hix, Function.update_self]
      exact ⟨rfl, rfl⟩
    · rw [Function.update_of_ne hix]
      exact ⟨rfl, rfl⟩
  refine ⟨s', hupdate, _, _, _, ⟨hlayout', fun i hi => ?_⟩, fun i hi => ?_⟩
  · rw [(hkeep i).1, (hkeep i).2]
    exact hfiled i (hsub i hi)
  · rw [(hkeep i).1]
    exact hgood i (hsub i hi)

theorem Stock.find (h : Stock P s) (pData : T) {k : CNetHash} (hk : InRange HashCount k) :
    ∃ pBan?, s.Find pData k = .ok pBan? ∧ ∀ x, pBan? = some x → Used s x := by
  obtain ⟨used, free, bucket, ⟨hlayout, -⟩, -⟩ := h
  refine ⟨_, hlayout.find pData hk, fun x hx => hlayout.used_iff.mpr ?_⟩
  exact ((hlayout.mem_bucket k x).mp (List.mem_of_find?_eq_some hx)).1

omit [BanData T] in
theorem getLoop_spec {xs : List Nat} (h : Links id s.m_pNext xs none) (n : Nat) :
    s.GetLoop n xs.head? = xs[n]? := by
  induction xs generalizing n with
  | nil => cases n <;> rfl
  | cons x xs ih =>
      obtain ⟨hnext, h⟩ := h
      rw [Option.or_none] at hnext
      have hnext' : s.m_pNext x = xs.head? := hnext
      cases n with
      | zero => rfl
      | succ n =>
          rw [List.head?_cons, List.getElem?_cons_succ, ← ih h n, ← hnext']
          rfl

theorem Stock.get (h : Stock P s) {Index : Int} {x : Nat} (hx : s.Get Index = some x) : Used s x := by
  obtain ⟨used, free, bucket, ⟨hlayout, -⟩, -⟩ := h
  have hhead : s.m_pFirstUsed = used.head? := hlayout.usedHolds.head
  unfold CBanPool.Get at hx
  split at hx
  · cases hx
  · rw [hhead, getLoop_spec hlayout.usedHolds.next] at hx
    exact hlayout.used_iff.mpr (List.mem_of_getElem? hx)

theorem Stock.removeExpired (h : Stock P s) (Now : Int) :
    ∃ s', RemoveExpired Now (MAX_BANS + 1) s = .ok s' ∧ Stock P s' := by
  obtain ⟨used, free, bucket, ⟨hlayout, hfiled⟩, hgood⟩ := h
  obtain ⟨s', free', bucket', hrun, hbans, hlayout'⟩ :=
    hlayout.removeExpired Now (Nat.lt_succ_of_le hlayout.length_used)
  refine ⟨s', hrun, _, _, _, ⟨hlayout', fun i hi => ?_⟩, fun i hi => ?_⟩
  · rw [hbans]
    exact hfiled i (List.mem_of_mem_filter hi)
  · rw [hbans]
    exact hgood i (List.mem_of_mem_filter hi)

theorem Stock.ban (h : Stock P s) {pData : T} {k : CNetHash} (hhash : BanData.NetHash pData = .ok k)
    (hk : InRange HashCount k) (hP : P pData) (b : CNetBan) (Now Seconds : Int)
    (pReason : List UInt8) (VerbatimReason : Bool) :
    ∃ s' r, b.Ban s Now pData Seconds pReason VerbatimReason = .ok (s', r) ∧ Stock P s' := by
  obtain ⟨pBan?, hfind, hused⟩ := h.find pData hk
  unfold CNetBan.Ban
  by_cases hlocal : (BanData.NetMatch pData b.m_LocalhostIpV4 ||
      BanData.NetMatch pData b.m_LocalhostIpV6) = true
  · rw [if_pos hlocal]
    exact ⟨s, -1, rfl, h⟩
  · rw [if_neg hlocal, hhash]
    simp only [bind, Except.bind, hfind]
    cases pBan? with
    | none =>
        obtain ⟨s', o, hadd, hs'⟩ := h.add hhash hk hP
          { m_Expires := if Seconds > 0 then Now + Seconds else EXPIRES_NEVER
            m_aReason := pReason.take (REASON_LENGTH - 1)
            m_VerbatimReason := VerbatimReason }
        refine ⟨s', if o.isSome then 0 else -1, ?_, hs'⟩
        simp only [hadd]
        rfl
    | some x =>
        obtain ⟨s', hupdate, hs'⟩ := h.update (hused x rfl)
          { m_Expires := if Seconds > 0 then Now + Seconds else EXPIRES_NEVER
            m_aReason := pReason.take (REASON_LENGTH - 1)
            m_VerbatimReason := VerbatimReason }
        refine ⟨s', 1, ?_, hs'⟩
        simp only [hupdate]
        rfl

theorem Stock.unban (h : Stock P s) {pData : T} {k : CNetHash}
    (hhash : BanData.NetHash pData = .ok k) (hk : InRange HashCount k) :
    ∃ s' r, CNetBan.Unban s pData = .ok (s', r) ∧ Stock P s' := by
  obtain ⟨pBan?, hfind, hused⟩ := h.find pData hk
  unfold CNetBan.Unban
  rw [hhash]
  simp only [bind, Except.bind, hfind]
  cases pBan? with
  | none => exact ⟨s, -1, rfl, h⟩
  | some x =>
      obtain ⟨s', r, hremove, hs'⟩ := h.remove (hused x rfl)
      refine ⟨s', 0, ?_, hs'⟩
      simp only [hremove]
      rfl

end Stock

/-! ## Runs -/

namespace CNetBan

inductive Call
  | BanAddr (Now : Int) (pAddr : NETADDR) (Seconds : Int) (pReason : List UInt8) (VerbatimReason : Bool)
  | BanRange (Now : Int) (pRange : CNetRange) (Seconds : Int) (pReason : List UInt8)
  | UnbanByAddr (pAddr : NETADDR)
  | UnbanByRange (pRange : CNetRange)
  | UnbanByIndex (Index : Int)
  | UnbanAll
  | Update (Now : Int)

def step (s : CNetBan) : Call → Exec CNetBan
  | .BanAddr Now pAddr Seconds pReason VerbatimReason =>
      s.BanAddr Now pAddr Seconds pReason VerbatimReason
  | .BanRange Now pRange Seconds pReason => s.BanRange Now pRange Seconds pReason
  | .UnbanByAddr pAddr => s.UnbanByAddr pAddr
  | .UnbanByRange pRange => s.UnbanByRange pRange
  | .UnbanByIndex Index => s.UnbanByIndex Index
  | .UnbanAll => .ok s.UnbanAll
  | .Update Now => s.Update Now

/-- Addresses are filed by their sum and ranges are valid. -/
structure Invariant (s : CNetBan) : Prop where
  addrs : Stock (fun _ => True) s.m_BanAddrPool
  ranges : Stock (fun r => r.IsValid = true) s.m_BanRangePool

variable {s : CNetBan}

theorem invariant_unbanAll (s : CNetBan) : Invariant s.UnbanAll :=
  ⟨stock_reset s.m_BanAddrPool, stock_reset s.m_BanRangePool⟩

theorem rangeHash_inRange {r : CNetRange} (hr : r.IsValid = true) :
    ∃ k, RangeHash r = .ok k ∧ InRange 16 k := by
  obtain ⟨k, p, x, y, hk, -, -, hindex, hhash, hp⟩ := rangeHash_spec hr
  refine ⟨k, hk, ?_, ?_⟩
  · have hle := ipLength_le r.m_LB.type
    omega
  · rw [hhash]
    exact and_byte_lt _

theorem Invariant.unbanByIndex (h : Invariant s) (Index : Int) :
    ∃ t, s.UnbanByIndex Index = .ok t ∧ Invariant t := by
  unfold CNetBan.UnbanByIndex
  cases ha : s.m_BanAddrPool.Get Index with
  | some x =>
      obtain ⟨p, r, hremove, hp⟩ := h.addrs.remove (h.addrs.get ha)
      refine ⟨{ s with m_BanAddrPool := p }, ?_, hp, h.ranges⟩
      simp only [hremove]
      rfl
  | none =>
      simp only
      cases hr : s.m_BanRangePool.Get (Index - s.m_BanAddrPool.m_CountUsed) with
      | some x =>
          obtain ⟨p, r, hremove, hp⟩ := h.ranges.remove (h.ranges.get hr)
          refine ⟨{ s with m_BanRangePool := p }, ?_, h.addrs, hp⟩
          simp only [hremove]
          rfl
      | none => exact ⟨s, rfl, h⟩

theorem Invariant.step (h : Invariant s) (c : Call) : ∃ t, s.step c = .ok t ∧ Invariant t := by
  cases c with
  | BanAddr Now pAddr Seconds pReason VerbatimReason =>
      obtain ⟨p, r, hban, hp⟩ :=
        h.addrs.ban rfl (addrHash_inRange pAddr) trivial s Now Seconds pReason VerbatimReason
      refine ⟨{ s with m_BanAddrPool := p }, ?_, hp, h.ranges⟩
      simp only [CNetBan.step, CNetBan.BanAddr, hban]
      rfl
  | BanRange Now pRange Seconds pReason =>
      by_cases hr : pRange.IsValid = true
      · obtain ⟨k, hhash, hk⟩ := rangeHash_inRange hr
        obtain ⟨p, r, hban, hp⟩ := h.ranges.ban hhash hk hr s Now Seconds pReason false
        refine ⟨{ s with m_BanRangePool := p }, ?_, h.addrs, hp⟩
        simp only [CNetBan.step, CNetBan.BanRange, hr, if_true, hban]
        rfl
      · exact ⟨s, if_neg hr, h⟩
  | UnbanByAddr pAddr =>
      obtain ⟨p, r, hunban, hp⟩ := h.addrs.unban rfl (addrHash_inRange pAddr)
      refine ⟨{ s with m_BanAddrPool := p }, ?_, hp, h.ranges⟩
      simp only [CNetBan.step, CNetBan.UnbanByAddr, hunban]
      rfl
  | UnbanByRange pRange =>
      by_cases hr : pRange.IsValid = true
      · obtain ⟨k, hhash, hk⟩ := rangeHash_inRange hr
        obtain ⟨p, r, hunban, hp⟩ := h.ranges.unban hhash hk
        refine ⟨{ s with m_BanRangePool := p }, ?_, h.addrs, hp⟩
        simp only [CNetBan.step, CNetBan.UnbanByRange, hr, if_true, hunban]
        rfl
      · exact ⟨s, if_neg hr, h⟩
  | UnbanByIndex Index => exact h.unbanByIndex Index
  | UnbanAll => exact ⟨s.UnbanAll, rfl, invariant_unbanAll s⟩
  | Update Now =>
      obtain ⟨a, hrunA, ha⟩ := h.addrs.removeExpired Now
      obtain ⟨r, hrunR, hr⟩ := h.ranges.removeExpired Now
      refine ⟨{ s with m_BanAddrPool := a, m_BanRangePool := r }, ?_, ha, hr⟩
      simp only [CNetBan.step, CNetBan.Update, hrunA, hrunR]
      rfl

end CNetBan

/-- In every run no call faults and `IsBanned` answers for the bans that are held. -/
theorem is_banned_iff {mem s : CNetBan} {LocalhostIpV4 LocalhostIpV6 : NETADDR}
    (h : Reachable CNetBan.step (fun _ _ => True) (mem.Init LocalhostIpV4 LocalhostIpV6) s) :
    (∀ c, ∃ t, s.step c = .ok t) ∧
    ∀ pOrigAddr, ∃ b, s.IsBanned pOrigAddr = .ok b ∧
      (b = true ↔ Banned s (lookupAddr pOrigAddr)) := by
  have hinv : CNetBan.Invariant s := by
    apply h.invariant
    · exact ⟨stock_reset mem.m_BanAddrPool, stock_reset mem.m_BanRangePool⟩
    · intro s t c hs _ hstep
      obtain ⟨t', hstep', ht'⟩ := hs.step c
      rw [hstep] at hstep'
      rw [Except.ok.inj hstep']
      exact ht'
  refine ⟨fun c => ?_, fun pOrigAddr => ?_⟩
  · obtain ⟨t, hstep, -⟩ := hinv.step c
    exact ⟨t, hstep⟩
  · obtain ⟨usedA, freeA, bucketA, hA, -⟩ := hinv.addrs
    obtain ⟨usedR, freeR, bucketR, hR, hvalid⟩ := hinv.ranges
    exact isBanned_spec hA hR hvalid pOrigAddr

/-- An IPv4 range from 1.2.3.0 to 1.2.3.9. -/
def exampleRange : CNetRange :=
  { m_LB := { type := NETTYPE_IPV4, ip := #v[1, 2, 3, 0, 0, 0, 0, 0, 0, 0, 0, 0, 0, 0, 0, 0], port := 0 }
    m_UB := { type := NETTYPE_IPV4, ip := #v[1, 2, 3, 9, 0, 0, 0, 0, 0, 0, 0, 0, 0, 0, 0, 0], port := 0 } }

/-- An empty list of bans. -/
def exampleBans : CNetBan :=
  CNetBan.Init { m_BanAddrPool := zeroed, m_BanRangePool := zeroed
                 m_LocalhostIpV4 := .zero, m_LocalhostIpV6 := .zero } .zero .zero

/-- A range is banned, and addresses are looked up. -/
theorem is_banned_iff_range :
    ∃ s, Reachable CNetBan.step (fun _ _ => True) exampleBans s ∧ s.m_BanRangePool.m_CountUsed = 1 ∧
      ∀ pOrigAddr, ∃ b, s.IsBanned pOrigAddr = .ok b ∧
        (b = true ↔ Banned s (lookupAddr pOrigAddr)) := by
  have h₀ : Reachable CNetBan.step (fun _ _ => True) exampleBans exampleBans := .init
  have hrun : ∃ s, Reachable CNetBan.step (fun _ _ => True) exampleBans s ∧
      s.m_BanRangePool.m_CountUsed = 1 := by
    have h₁ := Reachable.next (CNetBan.Call.BanRange 0 exampleRange 60 []) h₀ trivial rfl
    exact ⟨_, h₁, rfl⟩
  obtain ⟨s, hs, hcount⟩ := hrun
  exact ⟨s, hs, hcount, (is_banned_iff hs).2⟩

end Fex.Engine.NetBan
