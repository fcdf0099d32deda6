import Fex.Engine.NetBan.Runs

/-!
# The lookup of bans

A ban is filed under the hash of its address or of the common prefix of its
range.  `IsBanned` looks under the hash of every prefix of the address, which
finds exactly the bans that hold for it.
-/

namespace Fex.Engine.NetBan

open Fex.Lib CBanPool

/-! ## Comparisons -/

theorem ipLength_le (type : UInt32) : ipLength type ≤ 16 := by
  unfold ipLength
  split <;> decide

theorem ipLength_pos (type : UInt32) : 0 < ipLength type := by
  unfold ipLength
  split <;> decide

theorem length_bytes (a : NETADDR) (type : UInt32) :
    (a.bytes 0 (ipLength type)).length = ipLength type := by
  have hle := ipLength_le type
  unfold NETADDR.bytes
  rw [List.length_take, List.length_drop, Vector.length_toList]
  omega

/-- The bytes that count for the type of an address. -/
def NETADDR.key (a : NETADDR) : List UInt8 := a.bytes 0 (ipLength a.type)

theorem uintBytes_inj {x y : UInt32} (h : uintBytes x = uintBytes y) : x = y := by
  have hbytes : ∀ z : UInt32, (uintBytes z).map UInt8.toNat =
      [z.toNat % 256, z.toNat / 256 % 256, z.toNat / 65536 % 256, z.toNat / 16777216 % 256] := by
    intro z
    simp [uintBytes, Nat.shiftRight_eq_div_pow]
  have heq := congrArg (List.map UInt8.toNat) h
  rw [hbytes, hbytes] at heq
  simp only [List.cons.injEq] at heq
  have hx := x.toNat_lt
  have hy := y.toNat_lt
  apply UInt32.toNat_inj.mp
  omega

theorem netComp_eq_zero {a b : NETADDR} : NetComp a b = 0 ↔ a.type = b.type ∧ a.key = b.key := by
  have hlen : (uintBytes a.type ++ a.bytes 0 (ipLength a.type)).length =
      (uintBytes b.type ++ b.bytes 0 (ipLength a.type)).length := by
    rw [List.length_append, List.length_append, length_bytes, length_bytes]
    rfl
  unfold NetComp
  rw [mem_comp_eq_zero hlen]
  constructor
  · intro heq
    obtain ⟨htype, hkey⟩ := List.append_inj heq rfl
    have htype' := uintBytes_inj htype
    refine ⟨htype', hkey.trans ?_⟩
    rw [htype']
    rfl
  · rintro ⟨htype, hkey⟩
    unfold NETADDR.key at hkey
    rw [← htype] at hkey ⊢
    rw [hkey]

/-! ## Hashes -/

theorem addrHash_of_key {a b : NETADDR} (htype : a.type = b.type) (hkey : a.key = b.key) :
    AddrHash a = AddrHash b := by
  unfold AddrHash
  show CNetHash.mk (byteSum a.key &&& 0xFF) 0 = CNetHash.mk (byteSum b.key &&& 0xFF) 0
  rw [hkey]

theorem and_byte_lt (n : Nat) : n &&& 0xFF < 256 :=
  lt_of_le_of_lt Nat.and_le_right (by decide)

theorem addrHash_inRange (a : NETADDR) : InRange 1 (AddrHash a) :=
  ⟨Nat.one_pos, and_byte_lt _⟩

theorem hashEntry_inRange (a : NETADDR) (i : Nat) :
    InRange 16 (HashEntry a (ipLength a.type) i) :=
  ⟨lt_of_lt_of_le (Nat.mod_lt _ (ipLength_pos a.type)) (ipLength_le a.type), and_byte_lt _⟩

/-- The last entry is the hash of the whole address. -/
theorem hashEntry_last (a : NETADDR) : HashEntry a (ipLength a.type) (ipLength a.type) = AddrHash a := by
  unfold HashEntry AddrHash
  rw [Nat.mod_self]

theorem makeHashArray_get (a : NETADDR) {i : Nat} (hi : i ≤ ipLength a.type) :
    (MakeHashArray a).1[i]? = some (HashEntry a (ipLength a.type) i) := by
  unfold MakeHashArray
  simp only
  rw [List.getElem?_map, List.getElem?_range (by omega)]
  rfl

/-- The loop ends behind the common prefix. -/
theorem rangeHashLoop_spec {as bs : List UInt8} (h : CNetHash) (hlen : as.length = bs.length)
    (hne : as ≠ bs) :
    ∃ p a b x y, as = p ++ a :: x ∧ bs = p ++ b :: y ∧ a ≠ b ∧
      RangeHashLoop as bs h = .ok { m_Hash := (h.m_Hash + byteSum p) &&& 0xFF
                                    m_HashIndex := h.m_HashIndex + p.length } := by
  induction as generalizing bs h with
  | nil => exact absurd (List.eq_nil_of_length_eq_zero hlen.symm).symm hne
  | cons a as ih =>
      cases bs with
      | nil => simp at hlen
      | cons b bs =>
          unfold RangeHashLoop
          by_cases hab : a = b
          · subst hab
            have hne' : as ≠ bs := fun heq => hne (by rw [heq])
            obtain ⟨p, c, d, x, y, hx, hy, hcd, hloop⟩ :=
              ih { m_Hash := h.m_Hash + a.toNat, m_HashIndex := h.m_HashIndex + 1 }
                (by simpa using hlen) hne'
            refine ⟨a :: p, c, d, x, y, by rw [hx]; rfl, by rw [hy]; rfl, hcd, ?_⟩
            rw [if_pos rfl, hloop]
            simp [byteSum, Nat.add_assoc, Nat.add_comm 1]
          · exact ⟨[], a, b, as, bs, rfl, rfl, hab, if_neg hab⟩

/-! ## Ranges -/

namespace CNetRange

variable {r : CNetRange}

theorem types_of_isValid (h : r.IsValid = true) : r.m_LB.type = r.m_UB.type := by
  unfold CNetRange.IsValid at h
  simp only [Bool.and_eq_true, beq_iff_eq] at h
  exact h.1

theorem keys_of_isValid (h : r.IsValid = true) : r.m_LB.key ≠ r.m_UB.key := by
  intro hkey
  have hzero := netComp_eq_zero.mpr ⟨types_of_isValid h, hkey⟩
  unfold CNetRange.IsValid at h
  rw [hzero] at h
  simp at h

end CNetRange

theorem bytes_eq_take (a : NETADDR) {i : Nat} (hi : i ≤ ipLength a.type) :
    a.bytes 0 i = a.key.take i := by
  unfold NETADDR.key NETADDR.bytes
  rw [List.take_take, Nat.min_eq_left hi]

theorem bytes_eq_drop (a : NETADDR) (i : Nat) :
    a.bytes i (ipLength a.type - i) = a.key.drop i := by
  unfold NETADDR.key NETADDR.bytes
  rw [List.drop_take, List.drop_zero]

theorem length_key (a : NETADDR) : a.key.length = ipLength a.type := length_bytes a a.type

/-- The bounds of a range agree in a prefix, under whose hash the range is filed. -/
theorem rangeHash_spec {r : CNetRange} (hr : r.IsValid = true) :
    ∃ h p x y, RangeHash r = .ok h ∧ r.m_LB.key = p ++ x ∧ r.m_UB.key = p ++ y ∧
      h.m_HashIndex = p.length ∧ h.m_Hash = byteSum p &&& 0xFF ∧
      p.length < ipLength r.m_LB.type := by
  have htype := CNetRange.types_of_isValid hr
  have hne := CNetRange.keys_of_isValid hr
  have hip : r.m_LB.ip.toList ≠ r.m_UB.ip.toList := by
    intro hip
    apply hne
    unfold NETADDR.key NETADDR.bytes
    rw [hip, htype]
  have hlen : r.m_LB.ip.toList.length = r.m_UB.ip.toList.length := by
    rw [Vector.length_toList, Vector.length_toList]
  obtain ⟨p, a, b, x, y, hx, hy, -, hloop⟩ :=
    rangeHashLoop_spec { m_Hash := 0, m_HashIndex := 0 } hlen hip
  have hkeyL : r.m_LB.key = (p ++ a :: x).take (ipLength r.m_LB.type) := by
    rw [← hx]
    rfl
  have hkeyU : r.m_UB.key = (p ++ b :: y).take (ipLength r.m_LB.type) := by
    rw [← hy, htype]
    rfl
  have hp : p.length < ipLength r.m_LB.type := by
    by_contra hp
    apply hne
    rw [hkeyL, hkeyU, List.take_append_of_le_length (by omega),
      List.take_append_of_le_length (by omega)]
  refine ⟨_, p, (a :: x).take (ipLength r.m_LB.type - p.length),
    (b :: y).take (ipLength r.m_LB.type - p.length), hloop, ?_, ?_, Nat.zero_add _, ?_, hp⟩
  · rw [hkeyL, List.take_append, List.take_of_length_le hp.le]
  · rw [hkeyU, List.take_append, List.take_of_length_le hp.le]
  · show (0 + byteSum p) &&& 0xFF = _
    rw [Nat.zero_add]

theorem netMatchRange_iff {r : CNetRange} {a : NETADDR} {i : Nat} (hL : r.m_LB.type = a.type)
    (hU : r.m_UB.type = a.type) (hi : i ≤ ipLength a.type) :
    NetMatchRange r a i (ipLength a.type) = true ↔ r.m_LB.key.take i = a.key.take i ∧
      LexLe (r.m_LB.key.drop i) (a.key.drop i) ∧ LexLe (a.key.drop i) (r.m_UB.key.drop i) := by
  have hlenL : (r.m_LB.key.take i).length = (a.key.take i).length := by
    rw [List.length_take, List.length_take, length_key, length_key, hL]
  have hlenL' : (r.m_LB.key.drop i).length = (a.key.drop i).length := by
    rw [List.length_drop, List.length_drop, length_key, length_key, hL]
  have hlenU' : (a.key.drop i).length = (r.m_UB.key.drop i).length := by
    rw [List.length_drop, List.length_drop, length_key, length_key, hU]
  have hlow : r.m_LB.bytes 0 i = r.m_LB.key.take i := bytes_eq_take _ (hL ▸ hi)
  have hlow' : r.m_LB.bytes i (ipLength a.type - i) = r.m_LB.key.drop i := by
    rw [← bytes_eq_drop, hL]
  have hup' : r.m_UB.bytes i (ipLength a.type - i) = r.m_UB.key.drop i := by
    rw [← bytes_eq_drop, hU]
  have hstart : (i == 0 || mem_comp (r.m_LB.bytes 0 i) (a.bytes 0 i) == 0) = true ↔
      r.m_LB.key.take i = a.key.take i := by
    rw [hlow, bytes_eq_take a hi, Bool.or_eq_true, beq_iff_eq, beq_iff_eq, mem_comp_eq_zero hlenL]
    constructor
    · rintro (rfl | heq)
      · rw [List.take_zero, List.take_zero]
      · exact heq
    · exact .inr
  have hupper : mem_comp (r.m_UB.key.drop i) (a.key.drop i) ≥ 0 ↔
      LexLe (a.key.drop i) (r.m_UB.key.drop i) := by
    rw [← mem_comp_nonpos hlenU', mem_comp_swap]
    omega
  unfold NetMatchRange
  rw [Bool.and_eq_true, Bool.and_eq_true, Bool.and_eq_true, hstart, hlow', hup', bytes_eq_drop,
    decide_eq_true_iff, decide_eq_true_iff, mem_comp_nonpos hlenL', hupper]
  simp [hL, and_assoc]

/-- The address lies in the range. -/
def InBounds (r : CNetRange) (a : NETADDR) : Prop :=
  r.m_LB.type = a.type ∧ LexLe r.m_LB.key a.key ∧ LexLe a.key r.m_UB.key

/-- An address in a range shares its prefix, and only such addresses match. -/
theorem match_iff_inBounds {r : CNetRange} {a : NETADDR} {h : CNetHash} (hr : r.IsValid = true)
    (hh : RangeHash r = .ok h) :
    (∃ i < ipLength a.type, HashEntry a (ipLength a.type) i = h ∧
      NetMatchRange r a i (ipLength a.type) = true) ↔ InBounds r a := by
  obtain ⟨h', p, x, y, hh', hL, hU, hindex, hhash, hp⟩ := rangeHash_spec hr
  rw [hh] at hh'
  cases hh'
  have htype := CNetRange.types_of_isValid hr
  have hdropL : r.m_LB.key.drop p.length = x := by
    rw [hL, List.drop_left]
  have hdropU : r.m_UB.key.drop p.length = y := by
    rw [hU, List.drop_left]
  have htakeL : r.m_LB.key.take p.length = p := by
    rw [hL, List.take_left]
  constructor
  · rintro ⟨i, hi, hentry, hmatch⟩
    have hLa : r.m_LB.type = a.type := by
      unfold NetMatchRange at hmatch
      simp only [Bool.and_eq_true, beq_iff_eq] at hmatch
      exact hmatch.1.1.1
    have hip : i = p.length := by
      rw [← hindex, ← hentry]
      exact (Nat.mod_eq_of_lt hi).symm
    rw [netMatchRange_iff hLa (htype.symm.trans hLa) hi.le, hip, hdropL, hdropU, htakeL] at hmatch
    obtain ⟨htake, hlow, hup⟩ := hmatch
    have hkey : a.key = p ++ a.key.drop p.length := by
      conv_lhs => rw [← List.take_append_drop p.length a.key, ← htake]
    refine ⟨hLa, ?_, ?_⟩
    · rw [hL, hkey, lexLe_append_left]
      exact hlow
    · rw [hU, hkey, lexLe_append_left]
      exact hup
  · rintro ⟨hLa, hlow, hup⟩
    rw [hL] at hlow
    rw [hU] at hup
    obtain ⟨z, hz⟩ := prefix_of_between hlow hup
    rw [hz, lexLe_append_left] at hlow hup
    have hpa : p.length < ipLength a.type := hLa ▸ hp
    refine ⟨p.length, hpa, ?_, ?_⟩
    · unfold HashEntry
      rw [bytes_eq_take a hpa.le, hz, List.take_left, Nat.mod_eq_of_lt hpa, ← hindex, ← hhash]
    · rw [netMatchRange_iff hLa (htype.symm.trans hLa) hpa.le, hdropL, hdropU, htakeL, hz,
        List.take_left, List.drop_left]
      exact ⟨rfl, hlow, hup⟩

/-! ## Loops over hash lists -/

section Loops

variable {T : Type} {HashCount : Nat}

theorem findLoop_spec [BanData T] {s : CBanPool T HashCount} (pData : T) {xs : List Nat} {n : Nat}
    (h : Links id s.m_pHashNext xs none) (hn : xs.length ≤ n) :
    s.FindLoop pData n xs.head? =
      .ok (xs.find? fun j => BanData.NetComp (s.m_aBans j).m_Data pData = 0) := by
  induction xs generalizing n with
  | nil =>
      unfold FindLoop
      rfl
  | cons x xs ih =>
      obtain ⟨n, rfl⟩ : ∃ m, n = m + 1 := ⟨n - 1, by rw [List.length_cons] at hn; omega⟩
      obtain ⟨hnext, h⟩ := h
      rw [Option.or_none] at hnext
      have hnext' : s.m_pHashNext x = xs.head? := hnext
      rw [List.head?_cons]
      unfold FindLoop
      by_cases hx : BanData.NetComp (s.m_aBans x).m_Data pData = 0
      · rw [if_pos hx, List.find?_cons_of_pos (by simpa using hx)]
      · rw [if_neg hx, List.find?_cons_of_neg (by simpa using hx), hnext']
        exact ih h (by simpa using hn)

theorem matchLoop_spec {s : CBanRangePool} (pAddr : NETADDR) (i Length : Nat) {xs : List Nat}
    {n : Nat} (h : Links id s.m_pHashNext xs none) (hn : xs.length ≤ n) :
    CNetBan.MatchLoop s pAddr i Length n xs.head? =
      .ok (xs.any fun j => NetMatchRange (s.m_aBans j).m_Data pAddr i Length) := by
  induction xs generalizing n with
  | nil =>
      unfold CNetBan.MatchLoop
      rfl
  | cons x xs ih =>
      obtain ⟨n, rfl⟩ : ∃ m, n = m + 1 := ⟨n - 1, by rw [List.length_cons] at hn; omega⟩
      obtain ⟨hnext, h⟩ := h
      rw [Option.or_none] at hnext
      have hnext' : s.m_pHashNext x = xs.head? := hnext
      rw [List.head?_cons, List.any_cons]
      unfold CNetBan.MatchLoop
      by_cases hx : NetMatchRange (s.m_aBans x).m_Data pAddr i Length = true
      · rw [if_pos hx, hx, Bool.true_or]
      · rw [if_neg hx, hnext', ih h (by simpa using hn), Bool.eq_false_iff.mpr hx, Bool.false_or]

variable {s : CBanPool T HashCount} {used free : List Nat} {bucket : CNetHash → List Nat}

theorem Layout.find [BanData T] (h : Layout s used free bucket) (pData : T) {k : CNetHash}
    (hk : InRange HashCount k) :
    s.Find pData k =
      .ok ((bucket k).find? fun j => BanData.NetComp (s.m_aBans j).m_Data pData = 0) := by
  have hhead : s.m_aapHashList k.m_HashIndex k.m_Hash = (bucket k).head? := (h.hashed k).head
  unfold Find
  rw [if_neg (not_not.mpr hk), hhead]
  exact findLoop_spec pData (h.hashed k).next (h.length_bucket k)

/-- The loop over the prefixes finds a range under one of their hashes. -/
theorem Layout.rangeLoop {s : CBanRangePool} (h : Layout s used free bucket) (a : NETADDR) {n : Nat}
    (hn : n ≤ ipLength a.type) :
    ∃ b, CNetBan.RangeLoop s a (MakeHashArray a).1 (ipLength a.type) n = .ok b ∧
      (b = true ↔ ∃ i < n, ∃ j ∈ bucket (HashEntry a (ipLength a.type) i),
        NetMatchRange (s.m_aBans j).m_Data a i (ipLength a.type) = true) := by
  induction n with
  | zero => exact ⟨false, rfl, by simp⟩
  | succ n ih =>
      obtain ⟨b, hloop, hb⟩ := ih (by omega)
      set k := HashEntry a (ipLength a.type) n with hk
      have hhead : s.m_aapHashList k.m_HashIndex k.m_Hash = (bucket k).head? := (h.hashed k).head
      have hmatch := matchLoop_spec a n (ipLength a.type) (h.hashed k).next (h.length_bucket k)
      unfold CNetBan.RangeLoop
      rw [makeHashArray_get a (by omega)]
      simp only
      rw [if_neg (not_not.mpr (hashEntry_inRange a n)), ← hk, hhead]
      have hmatch' : CNetBan.MatchLoop s a n (ipLength a.type) MAX_BANS (bucket k).head? = _ := hmatch
      rw [hmatch']
      simp only [bind, Except.bind]
      by_cases hany : ((bucket k).any fun j =>
          NetMatchRange (s.m_aBans j).m_Data a n (ipLength a.type)) = true
      · rw [if_pos hany]
        refine ⟨true, rfl, fun _ => ?_, fun _ => rfl⟩
        obtain ⟨j, hj, hmatch⟩ := List.any_eq_true.mp hany
        exact ⟨n, n.lt_succ_self, j, hj, hmatch⟩
      · rw [if_neg hany]
        refine ⟨b, hloop, hb.trans ?_⟩
        constructor
        · rintro ⟨i, hi, hrest⟩
          exact ⟨i, hi.trans n.lt_succ_self, hrest⟩
        · rintro ⟨i, hi, j, hj, hrange⟩
          rcases Nat.lt_succ_iff_lt_or_eq.mp hi with hi | rfl
          · exact ⟨i, hi, j, hj, hrange⟩
          · exact absurd (List.any_eq_true.mpr ⟨j, hj, hrange⟩) hany

end Loops

/-! ## Filed bans -/

section Filing

variable {T : Type} {HashCount : Nat} [BanData T]

/-- A pool whose used bans are under the hash of their data. -/
structure Filed (s : CBanPool T HashCount) (used free : List Nat) (bucket : CNetHash → List Nat) :
    Prop where
  layout : Layout s used free bucket
  filed : ∀ i ∈ used, BanData.NetHash (s.m_aBans i).m_Data = .ok (s.m_aBans i).m_NetHash

end Filing

/-- The ban of an address. -/
def SameAddr (a b : NETADDR) : Prop := a.type = b.type ∧ a.key = b.key

/-- Websocket addresses count as IPv4. -/
def lookupAddr (a : NETADDR) : NETADDR :=
  if a.type = NETTYPE_WEBSOCKET_IPV4 then { a with type := NETTYPE_IPV4 } else a

/-- Some ban of the two pools is for the address. -/
def Banned (s : CNetBan) (a : NETADDR) : Prop :=
  (∃ i, Used s.m_BanAddrPool i ∧ SameAddr (s.m_BanAddrPool.m_aBans i).m_Data a) ∨
  ∃ i, Used s.m_BanRangePool i ∧ InBounds (s.m_BanRangePool.m_aBans i).m_Data a

/-- `IsBanned` finds a ban exactly if there is one. -/
theorem isBanned_spec {s : CNetBan} {usedA freeA usedR freeR : List Nat}
    {bucketA bucketR : CNetHash → List Nat} (hA : Filed s.m_BanAddrPool usedA freeA bucketA)
    (hR : Filed s.m_BanRangePool usedR freeR bucketR)
    (hvalid : ∀ i ∈ usedR, (s.m_BanRangePool.m_aBans i).m_Data.IsValid = true) (pOrigAddr : NETADDR) :
    ∃ b, s.IsBanned pOrigAddr = .ok b ∧ (b = true ↔ Banned s (lookupAddr pOrigAddr)) := by
  set a := lookupAddr pOrigAddr with ha
  have hlast := makeHashArray_get a (i := ipLength a.type) le_rfl
  have hfind := hA.layout.find a (addrHash_inRange a)
  obtain ⟨b, hloop, hb⟩ := hR.layout.rangeLoop a (n := ipLength a.type) le_rfl
  have haddr : (∃ j ∈ bucketA (AddrHash a), NetComp (s.m_BanAddrPool.m_aBans j).m_Data a = 0) ↔
      ∃ i, Used s.m_BanAddrPool i ∧ SameAddr (s.m_BanAddrPool.m_aBans i).m_Data a := by
    constructor
    · rintro ⟨j, hj, hcomp⟩
      have hused := ((hA.layout.mem_bucket _ j).mp hj).1
      exact ⟨j, hA.layout.used_iff.mpr hused, netComp_eq_zero.mp hcomp⟩
    · rintro ⟨j, hj, hsame⟩
      have hused := hA.layout.used_iff.mp hj
      refine ⟨j, (hA.layout.mem_bucket _ j).mpr ⟨hused, ?_⟩, netComp_eq_zero.mpr hsame⟩
      have hhash := Except.ok.inj (hA.filed j hused)
      rw [← hhash]
      exact addrHash_of_key hsame.1 hsame.2
  have hrange : (∃ i < ipLength a.type, ∃ j ∈ bucketR (HashEntry a (ipLength a.type) i),
      NetMatchRange (s.m_BanRangePool.m_aBans j).m_Data a i (ipLength a.type) = true) ↔
      ∃ i, Used s.m_BanRangePool i ∧ InBounds (s.m_BanRangePool.m_aBans i).m_Data a := by
    constructor
    · rintro ⟨i, hi, j, hj, hmatch⟩
      obtain ⟨hused, hhash⟩ := (hR.layout.mem_bucket _ j).mp hj
      refine ⟨j, hR.layout.used_iff.mpr hused, ?_⟩
      exact (match_iff_inBounds (hvalid j hused) (hR.filed j hused)).mp ⟨i, hi, hhash.symm, hmatch⟩
    · rintro ⟨j, hj, hbounds⟩
      have hused := hR.layout.used_iff.mp hj
      obtain ⟨i, hi, hhash, hmatch⟩ :=
        (match_iff_inBounds (hvalid j hused) (hR.filed j hused)).mpr hbounds
      exact ⟨i, hi, j, (hR.layout.mem_bucket _ j).mpr ⟨hused, hhash.symm⟩, hmatch⟩
  have hhashes : MakeHashArray a = ((MakeHashArray a).1, ipLength a.type) := rfl
  have hlookup : (if pOrigAddr.type = NETTYPE_WEBSOCKET_IPV4 then
      { pOrigAddr with type := NETTYPE_IPV4 } else pOrigAddr) = a := rfl
  unfold CNetBan.IsBanned
  dsimp only
  rw [hlookup, hhashes]
  simp only [hlast, hashEntry_last, hfind]
  unfold Banned
  rw [← haddr, ← hrange, ← hb]
  cases hx : (bucketA (AddrHash a)).find? fun j =>
      BanData.NetComp (s.m_BanAddrPool.m_aBans j).m_Data a = 0 with
  | some j =>
      refine ⟨true, rfl, fun _ => .inl ?_, fun _ => rfl⟩
      have hfound := List.find?_some hx
      exact ⟨j, List.mem_of_find?_eq_some hx, of_decide_eq_true hfound⟩
  | none =>
      refine ⟨b, hloop, .inr, ?_⟩
      rintro (⟨j, hj, hcomp⟩ | hb)
      · have hnone := List.find?_eq_none.mp hx j hj
        exact absurd (decide_eq_true hcomp) hnone
      · exact hb

end Fex.Engine.NetBan
