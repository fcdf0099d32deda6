import Fex.Engine.Connection
import Fex.Engine.Huffman.Codec

/-!
# Decoding stays in bounds

`UnpackPacket` checks the size of a whole datagram only, and `FetchChunk` walks
the headers of a packet again for every chunk.  The walk never passes the end
of the data; the copy of an uncompressed 0.6 packet may pass the end of the
array, for three sizes of datagrams.
-/

namespace Fex.Engine.Connection

open Fex.Lib Fex.Engine.Network CNetRecvUnpacker

/-! ## Fetching -/

theorem unpack_le (b : Buffer) (a Split : Nat) :
    a < (CNetChunkHeader.Unpack b a Split).2 ∧ (CNetChunkHeader.Unpack b a Split).2 ≤ a + 3 := by
  unfold CNetChunkHeader.Unpack
  simp only
  split <;> simp

/-- A header that starts within the data is read within the packet. -/
theorem readHeader_ok {p : CNetPacketConstruct} {a Split : Nat} (ha : a ≤ NET_MAX_PAYLOAD) :
    ReadHeader p a Split = .ok (CNetChunkHeader.Unpack p.memory a Split) := by
  have hle := (unpack_le p.memory a Split).2
  unfold ReadHeader
  exact if_pos (by omega)

/-- Skipping one more chunk is one more step at the end of the walk. -/
theorem skipChunks_succ {p : CNetPacketConstruct} {Split n a b : Nat}
    (h : SkipChunks p Split n a = .ok b) (hb : b ≤ NET_MAX_PAYLOAD) :
    SkipChunks p Split (n + 1) a = .ok
      ((CNetChunkHeader.Unpack p.memory b Split).2 +
        (CNetChunkHeader.Unpack p.memory b Split).1.m_Size) := by
  induction n generalizing a with
  | zero =>
      cases h
      simp only [SkipChunks, readHeader_ok hb]
      rfl
  | succ n ih =>
      unfold SkipChunks at h ⊢
      cases hread : ReadHeader p a Split with
      | error e =>
          rw [hread] at h
          cases h
      | ok r =>
          rw [hread] at h
          exact ih h

theorem splitOf_sequenced (c : Option CNetConnection) (h : CNetChunkHeader) :
    splitOf (Sequenced c h).1 = splitOf c := by
  cases c with
  | none => rfl
  | some c =>
      unfold Sequenced
      simp only
      split_ifs <;> rfl

/-- The chunks already taken end at `a`, within the data. -/
structure WalkedTo (u : CNetRecvUnpacker) (Split a : Nat) : Prop where
  skip : SkipChunks u.m_Data Split u.m_CurrentChunk 0 = .ok a
  inside : (a : Int) ≤ u.m_Data.m_DataSize
  payload : u.m_Data.m_DataSize ≤ NET_MAX_PAYLOAD

/-- What a call of `FetchChunk` does to an unpacker that has walked to `a`. -/
inductive Fetched (u : CNetRecvUnpacker) (Split a : Nat) :
    CNetRecvUnpacker × Option CNetConnection × Option CNetChunk → Prop
  | stop (u' : CNetRecvUnpacker) (c' : Option CNetConnection) (hvalid : u'.m_Valid = false) :
      Fetched u Split a (u', c', none)
  | chunk (u' : CNetRecvUnpacker) (c' : Option CNetConnection) (ch : CNetChunk)
      (hdata : u'.m_Data = u.m_Data) (hsplit : splitOf c' = Split)
      (hnext : u.m_CurrentChunk < u'.m_CurrentChunk)
      (hlast : u'.m_CurrentChunk ≤ u.m_Data.m_NumChunks)
      (hstart : a ≤ ch.m_pData) (hwalk : WalkedTo u' Split (ch.m_pData + ch.m_DataSize)) :
      Fetched u Split a (u', c', some ch)

theorem fetchLoop_spec {n : Nat} {u : CNetRecvUnpacker} {c : Option CNetConnection} {a : Nat}
    (hu : u.m_Valid = true → WalkedTo u (splitOf c) a)
    (hn : u.m_Data.m_NumChunks - u.m_CurrentChunk < n) :
    ∃ r, FetchLoop n u c = .ok r ∧ Fetched u (splitOf c) a r := by
  induction n generalizing u c a with
  | zero => omega
  | succ n ih =>
      unfold FetchLoop
      by_cases hend : !u.m_Valid ∨ u.m_CurrentChunk ≥ u.m_Data.m_NumChunks
      · exact ⟨_, if_pos hend, .stop _ _ rfl⟩
      · rw [if_neg hend]
        rw [not_or, ge_iff_le, Nat.not_le] at hend
        obtain ⟨hvalid, hcur⟩ := hend
        have hw := hu (by simpa using hvalid)
        have ha : a ≤ NET_MAX_PAYLOAD := by
          have h₁ := hw.inside
          have h₂ := hw.payload
          omega
        have hskip := skipChunks_succ hw.skip ha
        have hend := (unpack_le u.m_Data.memory a (splitOf c)).1
        simp only [hw.skip, readHeader_ok ha, bind, Except.bind]
        set r := CNetChunkHeader.Unpack u.m_Data.memory a (splitOf c)
        by_cases hover : ((r.2 + r.1.m_Size : Nat) : Int) > u.m_Data.m_DataSize
        · exact ⟨_, if_pos hover, .stop _ _ rfl⟩
        · rw [if_neg hover]
          have hw' : WalkedTo { u with m_CurrentChunk := u.m_CurrentChunk + 1 } (splitOf c)
              (r.2 + r.1.m_Size) := ⟨hskip, by simpa using hover, hw.payload⟩
          have hsplit := splitOf_sequenced c r.1
          by_cases htake : (Sequenced c r.1).2
          · refine ⟨_, if_pos htake, .chunk _ _ _ rfl hsplit (Nat.lt_succ_self _) hcur ?_ hw'⟩
            exact Nat.le_of_lt hend
          · rw [if_neg htake]
            -- the chunk is skipped: the walk goes on behind it
            rw [← hsplit] at hw'
            obtain ⟨v, hv, hf⟩ := ih (fun _ => hw') (by simp only; omega)
            refine ⟨v, hv, ?_⟩
            rw [hsplit] at hf
            cases hf with
            | stop u' c' hstop => exact .stop u' c' hstop
            | chunk u' c' ch hdata hs hnext hlast hstart hwalk =>
                refine .chunk u' c' ch hdata hs ?_ hlast ?_ hwalk
                · simp only at hnext
                  omega
                · omega

/-- Call `FetchChunk` until it returns 0, at most `n` times. -/
def FetchAll : Nat → CNetRecvUnpacker → Option CNetConnection → Exec (List CNetChunk)
  | 0, _, _ => .error .diverges
  | n + 1, u, c => do
      let (u, c, pChunk) ← FetchChunk u c
      match pChunk with
      | none => return []
      | some pChunk => return pChunk :: (← FetchAll n u c)

/-- Chunks from `a` on, one behind the other, within `size` bytes. -/
def Disjoint (size : Int) : Nat → List CNetChunk → Prop
  | _, [] => True
  | a, ch :: chunks =>
      a ≤ ch.m_pData ∧ ((ch.m_pData + ch.m_DataSize : Nat) : Int) ≤ size ∧
        Disjoint size (ch.m_pData + ch.m_DataSize) chunks

theorem fetchAll_spec {n : Nat} {u : CNetRecvUnpacker} {c : Option CNetConnection} {a : Nat}
    (hu : u.m_Valid = true → WalkedTo u (splitOf c) a)
    (hn : u.m_Data.m_NumChunks - u.m_CurrentChunk < n) :
    ∃ chunks, FetchAll n u c = .ok chunks ∧ Disjoint u.m_Data.m_DataSize a chunks := by
  induction n generalizing u c a with
  | zero => omega
  | succ n ih =>
      obtain ⟨r, hr, hf⟩ := fetchLoop_spec (n := u.m_Data.m_NumChunks + 1) hu (by omega)
      have hfetch : FetchChunk u c = .ok r := hr
      unfold FetchAll
      rw [hfetch]
      cases hf with
      | stop u' c' hvalid => exact ⟨[], rfl, trivial⟩
      | chunk u' c' ch hdata hsplit hnext hlast hstart hwalk =>
          rw [← hsplit] at hwalk
          obtain ⟨chunks, hall, hdisj⟩ := ih (fun _ => hwalk) (by rw [hdata]; omega)
          rw [hdata] at hdisj
          have hinside := hwalk.inside
          rw [hdata] at hinside
          refine ⟨ch :: chunks, ?_, hstart, hinside, hdisj⟩
          simp only [bind, Except.bind, hall]
          rfl

/-- Whatever `m_NumChunks` says and whatever the connection, the chunks fetched lie inside the
first `m_DataSize` bytes without overlapping, and the calls end. -/
theorem fetchAll_start {u : CNetRecvUnpacker} {c : Option CNetConnection} (Addr : NETADDR)
    (ClientId : Int) (hpos : 0 ≤ u.m_Data.m_DataSize) (hmax : u.m_Data.m_DataSize ≤ NET_MAX_PAYLOAD) :
    ∃ chunks, FetchAll (u.m_Data.m_NumChunks + 1) (u.Start Addr ClientId) c = .ok chunks ∧
      Disjoint u.m_Data.m_DataSize 0 chunks :=
  fetchAll_spec (fun _ => ⟨rfl, hpos, hmax⟩) (Nat.lt_succ_of_le (Nat.sub_le _ _))

/-! ## Unpacking -/

/-- The first byte of a datagram without its ack bits. -/
def RawFlags (pBuffer : List UInt8) : Nat := (pBuffer.getD 0 0).toNat >>> 2

/-- The datagrams whose payload does not fit: the plain ones of 0.6 that are longer than the
array and a 0.6 header together. -/
def TooLong (pBuffer : List UInt8) (Sixup : Bool) : Prop :=
  NET_MAX_PAYLOAD + NET_PACKETHEADERSIZE < pBuffer.length ∧ pBuffer.length ≤ NET_MAX_PACKETSIZE ∧
    RawFlags pBuffer &&& NET_PACKETFLAG_CONNLESS = 0 ∧ Sixup = false ∧
    RawFlags pBuffer &&& NET_PACKETFLAG_UNUSED = 0 ∧
    RawFlags pBuffer &&& NET_PACKETFLAG_COMPRESSION = 0

/-- The call neither faults nor accepts a packet whose data size is out of range. -/
def InBounds (r : Exec Unpacked) : Prop :=
  ∃ u, r = .ok u ∧ (u.ret = 0 →
    0 ≤ u.pPacket.m_DataSize ∧ u.pPacket.m_DataSize ≤ NET_MAX_PAYLOAD)

theorem store_ok {p : CNetPacketConstruct} {src : List UInt8} (h : src.length ≤ NET_MAX_PAYLOAD) :
    p.store 0 src = .ok { p with m_aChunkData := p.m_aChunkData.copy 0 src } := by
  unfold CNetPacketConstruct.store
  exact if_pos (by omega)

/-- The response token is stored through the pointer the caller passed. -/
theorem unpackResponse_spec {u : Unpacked} (hmax : u.pPacket.m_DataSize ≤ NET_MAX_PAYLOAD)
    (hresp : u.pResponseToken ≠ none ∨ u.pPacket.m_Flags &&& NET_PACKETFLAG_CONTROL = 0) :
    InBounds (UnpackResponse u) := by
  unfold UnpackResponse
  split
  · exact ⟨_, rfl, fun h => absurd h (Int.neg_ne_zero.mpr Int.one_ne_zero)⟩
  · rename_i hpos
    split
    · rename_i hcontrol
      rcases hresp with hresp | hresp
      · cases hr : u.pResponseToken with
        | none => exact absurd hr hresp
        | some t =>
            exact ⟨_, rfl, fun _ => ⟨by simpa using hpos, hmax⟩⟩
      · exact absurd hresp hcontrol.1
    · exact ⟨u, rfl, fun _ => ⟨by omega, hmax⟩⟩

theorem storeToken_ok {Sixup : Bool} {p : Option SECURITY_TOKEN} (h : Sixup = true → p ≠ none)
    (Token : SECURITY_TOKEN) :
    ∃ q, storeToken Sixup p Token = .ok q ∧ (p ≠ none → q ≠ none) := by
  cases Sixup with
  | false => exact ⟨p, rfl, id⟩
  | true =>
      cases p with
      | none => exact absurd rfl (h rfl)
      | some t => exact ⟨some Token, rfl, fun _ => Option.some_ne_none _⟩

/-- A decoding step leaves a packet that fits, and whose response token can be stored. -/
def Decoded (v : Unpacked) : Prop :=
  v.ret = 0 → v.pPacket.m_DataSize ≤ NET_MAX_PAYLOAD ∧
    (v.pResponseToken ≠ none ∨ v.pPacket.m_Flags &&& NET_PACKETFLAG_CONTROL = 0)

/-- The early returns. -/
theorem decoded_error (u : Unpacked) :
    ∃ v, Except.ok { u with ret := -1 } = (.ok v : Exec Unpacked) ∧ Decoded v :=
  ⟨_, rfl, fun hzero => absurd hzero (Int.neg_ne_zero.mpr Int.one_ne_zero)⟩

theorem unpackConnless_spec {pBuffer : List UInt8} {u : Unpacked}
    (hsize : pBuffer.length ≤ NET_MAX_PACKETSIZE) :
    ∃ v, UnpackConnless pBuffer u = .ok v ∧ Decoded v := by
  unfold UnpackConnless
  generalize decide ((pBuffer.getD 0 0).toNat &&& 0x3 = 1) = Sixup
  simp only
  by_cases htokens : (Sixup && (u.pSecurityToken.isNone || u.pResponseToken.isNone)) = true
  · rw [if_pos htokens]
    exact decoded_error { u with Sixup := Sixup }
  · rw [if_neg htokens]
    have hsec : Sixup = true → u.pSecurityToken ≠ none := by
      rintro rfl hnone
      simp [hnone] at htokens
    have hresp : Sixup = true → u.pResponseToken ≠ none := by
      rintro rfl hnone
      simp [hnone] at htokens
    obtain ⟨t, ht, -⟩ := storeToken_ok hsec (ToSecurityToken (pBuffer.drop 1))
    obtain ⟨r, hr, -⟩ := storeToken_ok hresp (ToSecurityToken (pBuffer.drop 5))
    have hOffset : 6 ≤ (if Sixup = true then 9 else 6) := by cases Sixup <;> decide
    generalize (if Sixup = true then 9 else 6) = Offset at hOffset
    by_cases hshort : pBuffer.length < Offset
    · rw [if_pos hshort]
      exact decoded_error { u with Sixup := Sixup }
    · rw [if_neg hshort]
      have hlen : (pBuffer.drop Offset).length ≤ NET_MAX_PAYLOAD := by
        simp only [NET_MAX_PAYLOAD, NET_MAX_PACKETSIZE, List.length_drop] at hsize ⊢
        omega
      simp only [ht, hr, store_ok hlen, bind, Except.bind]
      refine ⟨_, rfl, fun _ => ⟨?_, .inr ?_⟩⟩
      · rw [List.length_drop] at hlen
        exact Int.ofNat_le.mpr hlen
      · simp only
        split <;> rfl

theorem unpackPayload_spec {Flags : Nat} {pData : List UInt8}
    (hfit : Flags &&& NET_PACKETFLAG_COMPRESSION = 0 → pData.length ≤ NET_MAX_PAYLOAD) :
    (UnpackPayload Flags pData).1.length ≤ NET_MAX_PAYLOAD ∧
      (UnpackPayload Flags pData).2 ≤ NET_MAX_PAYLOAD := by
  unfold UnpackPayload
  split
  · have hpDst : ([] : List UInt8).length ≤ NET_MAX_PAYLOAD := Nat.zero_le NET_MAX_PAYLOAD
    have hlen := Huffman.decompressSymbols_length (h := ms_Huffman) (n := NET_MAX_PAYLOAD + 1)
      (d := { Bits := 0, Bitcount := 0, pSrc := pData }) hpDst
    cases hdec : ms_Huffman.Decompress pData NET_MAX_PAYLOAD with
    | ok out =>
        have := hlen.1 out hdec
        exact ⟨this, Int.ofNat_le.mpr this⟩
    | error out => exact ⟨hlen.2 out hdec, show (-1 : Int) ≤ 1394 by decide⟩
  · rename_i hplain
    have := hfit (not_not.mp hplain)
    exact ⟨this, Int.ofNat_le.mpr this⟩

theorem fromSixupFlags_control {Flags : Nat} (h : Flags &&& 1 = 0) :
    FromSixupFlags Flags &&& NET_PACKETFLAG_CONTROL = 0 := by
  unfold FromSixupFlags
  rw [if_neg (not_not.mpr h)]
  split <;> split <;> rfl

/-- Packets of a connection fit, unless they are too long; without a response token pointer
the flag of a control packet must be known to be clear. -/
theorem unpackConn_spec {pBuffer : List UInt8} {u : Unpacked}
    (hsize : pBuffer.length ≤ NET_MAX_PACKETSIZE)
    (hfit : pBuffer.length ≤ NET_MAX_PAYLOAD + NET_PACKETHEADERSIZE ∨ u.Sixup = true ∨
      u.pPacket.m_Flags &&& NET_PACKETFLAG_UNUSED ≠ 0 ∨
      u.pPacket.m_Flags &&& NET_PACKETFLAG_COMPRESSION ≠ 0)
    (hresp : u.pResponseToken ≠ none ∨ (u.Sixup = true ∧ u.pPacket.m_Flags &&& 1 = 0)) :
    ∃ v, UnpackConn pBuffer u = .ok v ∧ Decoded v := by
  unfold UnpackConn
  generalize hS : (u.Sixup || decide (u.pPacket.m_Flags &&& NET_PACKETFLAG_UNUSED ≠ 0)) = Sixup
  simp only
  by_cases htoken : (Sixup && u.pSecurityToken.isNone) = true
  · rw [if_pos htoken]
    exact decoded_error { u with Sixup := Sixup }
  · rw [if_neg htoken]
    have hsec : Sixup = true → u.pSecurityToken ≠ none := by
      rintro rfl hnone
      simp [hnone] at htoken
    obtain ⟨t, ht, -⟩ := storeToken_ok hsec (ToSecurityToken (pBuffer.drop 3))
    have hplain : (if Sixup then FromSixupFlags u.pPacket.m_Flags else u.pPacket.m_Flags) &&&
          NET_PACKETFLAG_COMPRESSION = 0 →
        (pBuffer.drop (if Sixup then 7 else NET_PACKETHEADERSIZE)).length ≤ NET_MAX_PAYLOAD := by
      intro hplain
      simp only [NET_MAX_PAYLOAD, NET_MAX_PACKETSIZE, NET_PACKETHEADERSIZE,
        List.length_drop] at hsize hfit ⊢
      cases Sixup with
      | true =>
          simp only [if_true]
          omega
      | false =>
          simp only [Bool.or_eq_false_iff, decide_eq_false_iff_not, not_not] at hS
          simp only [Bool.false_eq_true, if_false] at hplain ⊢
          rcases hfit with hfit | hfit | hfit | hfit
          · omega
          · rw [hS.1] at hfit
            cases hfit
          · exact absurd hS.2 hfit
          · exact absurd hplain hfit
    have hpayload := unpackPayload_spec hplain
    have hcontrol : u.pResponseToken ≠ none ∨ (if Sixup then FromSixupFlags u.pPacket.m_Flags
        else u.pPacket.m_Flags) &&& NET_PACKETFLAG_CONTROL = 0 := by
      rcases hresp with hresp | ⟨htrue, hbit⟩
      · exact .inl hresp
      · rw [htrue, Bool.true_or] at hS
        subst hS
        exact .inr (fromSixupFlags_control hbit)
    generalize (if Sixup then FromSixupFlags u.pPacket.m_Flags else u.pPacket.m_Flags) = Flags
      at hpayload hcontrol
    generalize (if Sixup then 7 else NET_PACKETHEADERSIZE) = DataStart at hpayload
    by_cases hshort : pBuffer.length < DataStart
    · rw [if_pos hshort]
      exact decoded_error { u with Sixup := Sixup }
    · rw [if_neg hshort]
      simp only [ht, bind, Except.bind]
      split
      · exact ⟨_, rfl, fun hzero => absurd hzero (Int.neg_ne_zero.mpr Int.one_ne_zero)⟩
      · rw [store_ok hpayload.1]
        exact ⟨_, rfl, fun _ => ⟨hpayload.2, hcontrol⟩⟩

/-- Calls whose payload fits and whose response token pointer is valid or not needed. -/
theorem unpackPacket_inBounds {pBuffer : List UInt8} {p : CNetPacketConstruct} {Sixup : Bool}
    {pSecurityToken pResponseToken : Option SECURITY_TOKEN} (hlong : ¬ TooLong pBuffer Sixup)
    (hresp : pResponseToken ≠ none ∨ (Sixup = true ∧
      RawFlags pBuffer &&& NET_PACKETFLAG_CONNLESS = 0 ∧ RawFlags pBuffer &&& 1 = 0)) :
    InBounds (UnpackPacket pBuffer p Sixup pSecurityToken pResponseToken) := by
  unfold UnpackPacket
  simp only
  by_cases hsize : pBuffer.length < NET_PACKETHEADERSIZE ∨ NET_MAX_PACKETSIZE < pBuffer.length
  · rw [if_pos hsize]
    exact ⟨_, rfl, fun hzero => absurd hzero (Int.neg_ne_zero.mpr Int.one_ne_zero)⟩
  · rw [if_neg hsize]
    rw [not_or, Nat.not_lt, Nat.not_lt] at hsize
    have hfinish : ∀ v : Unpacked, Decoded v →
        InBounds (if v.ret ≠ 0 then .ok v else UnpackResponse v) := by
      intro v hv
      by_cases hret : v.ret = 0
      · rw [if_neg (not_not.mpr hret)]
        exact unpackResponse_spec (hv hret).1 (hv hret).2
      · rw [if_pos hret]
        exact ⟨v, rfl, fun hzero => absurd hzero hret⟩
    by_cases hconnless : RawFlags pBuffer &&& NET_PACKETFLAG_CONNLESS = 0
    · obtain ⟨v, hv, hdec⟩ := unpackConn_spec (u :=
          { ret := 0, pPacket := { p with m_Flags := RawFlags pBuffer }, Sixup := Sixup
            pSecurityToken := pSecurityToken, pResponseToken := pResponseToken }) hsize.2 (by
          rw [TooLong] at hlong
          by_contra hno
          simp only [not_or, not_not, Bool.not_eq_true] at hno
          exact hlong ⟨by omega, hsize.2, hconnless, hno.2.1, hno.2.2.1, hno.2.2.2⟩) (by
          rcases hresp with hresp | ⟨htrue, -, hbit⟩
          · exact .inl hresp
          · exact .inr ⟨htrue, hbit⟩)
      unfold RawFlags at hv hconnless
      rw [if_neg (not_not.mpr hconnless), hv]
      exact hfinish v hdec
    · obtain ⟨v, hv, hdec⟩ := unpackConnless_spec (u :=
          { ret := 0, pPacket := { p with m_Flags := RawFlags pBuffer }, Sixup := Sixup
            pSecurityToken := pSecurityToken, pResponseToken := pResponseToken }) hsize.2
      unfold RawFlags at hv hconnless
      rw [if_pos hconnless, hv]
      exact hfinish v hdec

/-- The payload of a datagram that is too long is copied past the array. -/
theorem unpackPacket_tooLong {pBuffer : List UInt8} {p : CNetPacketConstruct} {Sixup : Bool}
    {pSecurityToken pResponseToken : Option SECURITY_TOKEN} (hlong : TooLong pBuffer Sixup) :
    UnpackPacket pBuffer p Sixup pSecurityToken pResponseToken = .error .outOfBounds := by
  obtain ⟨hmin, hmax, hconnless, rfl, hunused, hplain⟩ := hlong
  unfold RawFlags at hconnless hunused hplain
  have hmin' : ¬ pBuffer.length < NET_PACKETHEADERSIZE := by omega
  unfold UnpackPacket
  simp only
  rw [if_neg (not_or.mpr ⟨hmin', by omega⟩), if_neg (not_not.mpr hconnless)]
  generalize (pBuffer.getD 0 0).toNat >>> 2 = raw at hconnless hunused hplain ⊢
  have hstore : ∀ q : CNetPacketConstruct,
      q.store 0 (pBuffer.drop NET_PACKETHEADERSIZE) = .error .outOfBounds := by
    intro q
    unfold CNetPacketConstruct.store
    rw [List.length_drop]
    exact if_neg (by omega)
  unfold UnpackConn
  simp [hunused, UnpackPayload, hplain, hmin', storeToken, hstore, bind, Except.bind]

/-- One call does not fault, and what it accepts can be fetched safely, also once `Feed` has
taken a token off its end. -/
def SafeDecode (r : Exec Unpacked) : Prop :=
  ∃ u, r = .ok u ∧ (u.ret = 0 →
    0 ≤ u.pPacket.m_DataSize ∧ u.pPacket.m_DataSize ≤ NET_MAX_PAYLOAD ∧
    ∀ (NumChunks : Nat) (DataSize : Int) (v : CNetRecvUnpacker) (c : Option CNetConnection)
      (Addr : NETADDR) (ClientId : Int), 0 ≤ DataSize → DataSize ≤ u.pPacket.m_DataSize →
      v.m_Data = { u.pPacket with m_NumChunks := NumChunks, m_DataSize := DataSize } →
      ∃ chunks, FetchAll (NumChunks + 1) (v.Start Addr ClientId) c = .ok chunks ∧
        Disjoint DataSize 0 chunks)

theorem InBounds.safeDecode {r : Exec Unpacked} (h : InBounds r) : SafeDecode r := by
  obtain ⟨u, hu, hbounds⟩ := h
  refine ⟨u, hu, fun hret => ⟨(hbounds hret).1, (hbounds hret).2, ?_⟩⟩
  intro NumChunks DataSize v c Addr ClientId hpos hle hdata
  have hfetch := fetchAll_start (u := v) (c := c) Addr ClientId
    (by rw [hdata]; exact hpos) (by rw [hdata]; exact hle.trans (hbounds hret).2)
  rwa [hdata] at hfetch

/-- The first call of `CNetServer::Recv` and the call of `CNetClient::Recv` pass both token
pointers; the second call of the server re-parses a 0.6 packet of a connection as 0.7 without a
response token pointer. -/
def RecvSafe (pBuffer : List UInt8) (p : CNetPacketConstruct) (Sixup : Bool)
    (Token ResponseToken : SECURITY_TOKEN) : Prop :=
  SafeDecode (UnpackPacket pBuffer p Sixup (some Token) (some ResponseToken)) ∧
    ∀ u Token', UnpackPacket pBuffer p Sixup (some Token) (some ResponseToken) = .ok u →
      u.ret = 0 → u.pPacket.m_Flags &&& NET_PACKETFLAG_CONNLESS = 0 → u.Sixup = false →
      SafeDecode (UnpackPacket pBuffer u.pPacket true (some Token') none)

theorem unpackResponse_frame {u v : Unpacked} (h : UnpackResponse u = .ok v) :
    v.Sixup = u.Sixup ∧ v.pPacket.m_Flags = u.pPacket.m_Flags := by
  unfold UnpackResponse at h
  split at h
  · cases h
    exact ⟨rfl, rfl⟩
  · split at h
    · cases hr : u.pResponseToken with
      | none =>
          rw [hr] at h
          cases h
      | some t =>
          rw [hr] at h
          cases h
          exact ⟨rfl, rfl⟩
    · cases h
      exact ⟨rfl, rfl⟩

theorem unpackConnless_flags {pBuffer : List UInt8} {u v : Unpacked}
    (h : UnpackConnless pBuffer u = .ok v) (hret : v.ret = 0) :
    v.pPacket.m_Flags &&& NET_PACKETFLAG_CONNLESS ≠ 0 := by
  unfold UnpackConnless at h
  generalize decide ((pBuffer.getD 0 0).toNat &&& 0x3 = 1) = Sixup at h
  simp only at h
  generalize (if Sixup = true then 9 else 6) = Offset at h
  split at h
  · cases h
    exact absurd hret (Int.neg_ne_zero.mpr Int.one_ne_zero)
  · split at h
    · cases h
      exact absurd hret (Int.neg_ne_zero.mpr Int.one_ne_zero)
    · generalize storeToken Sixup u.pSecurityToken _ = t at h
      generalize storeToken Sixup u.pResponseToken _ = r at h
      unfold CNetPacketConstruct.store at h
      cases t with
      | error e => cases h
      | ok t =>
          cases r with
          | error e => cases h
          | ok r =>
              simp only [bind, Except.bind] at h
              split at h
              · cases h
              · rename_i hstore
                split at hstore
                · cases hstore
                  cases h
                  simp only
                  split <;> decide
                · cases hstore

theorem unpackConn_sixup {pBuffer : List UInt8} {u v : Unpacked}
    (h : UnpackConn pBuffer u = .ok v) :
    v.Sixup = (u.Sixup || decide (u.pPacket.m_Flags &&& NET_PACKETFLAG_UNUSED ≠ 0)) := by
  unfold UnpackConn at h
  generalize (u.Sixup || decide (u.pPacket.m_Flags &&& NET_PACKETFLAG_UNUSED ≠ 0)) = Sixup at h ⊢
  simp only at h
  generalize (if Sixup = true then 7 else NET_PACKETHEADERSIZE) = DataStart at h
  generalize (if Sixup then FromSixupFlags u.pPacket.m_Flags else u.pPacket.m_Flags) = Flags at h
  split at h
  · cases h
    rfl
  · split at h
    · cases h
      rfl
    · generalize storeToken Sixup u.pSecurityToken _ = t at h
      cases t with
      | error e => cases h
      | ok t =>
          simp only [bind, Except.bind] at h
          split at h
          · cases h
            rfl
          · split at h
            · cases h
            · cases h
              rfl

/-- What the server learns from a packet that was accepted as one of a 0.6 connection. -/
theorem unpackPacket_plain {pBuffer : List UInt8} {p : CNetPacketConstruct} {Sixup : Bool}
    {pSecurityToken pResponseToken : Option SECURITY_TOKEN} {u : Unpacked}
    (h : UnpackPacket pBuffer p Sixup pSecurityToken pResponseToken = .ok u) (hret : u.ret = 0)
    (hflags : u.pPacket.m_Flags &&& NET_PACKETFLAG_CONNLESS = 0) (hsix : u.Sixup = false) :
    RawFlags pBuffer &&& NET_PACKETFLAG_CONNLESS = 0 ∧ RawFlags pBuffer &&& 1 = 0 := by
  unfold UnpackPacket at h
  simp only at h
  split at h
  · cases h
    exact absurd hret (Int.neg_ne_zero.mpr Int.one_ne_zero)
  · have hfinish : ∀ v : Unpacked, (if v.ret ≠ 0 then .ok v else UnpackResponse v) = .ok u →
        v.ret = 0 ∧ v.Sixup = false ∧ v.pPacket.m_Flags &&& NET_PACKETFLAG_CONNLESS = 0 := by
      intro v hv
      split at hv
      · rename_i hne
        cases hv
        exact absurd hret hne
      · rename_i hzero
        obtain ⟨hs, hf⟩ := unpackResponse_frame hv
        exact ⟨not_not.mp hzero, hs ▸ hsix, hf ▸ hflags⟩
    split at h
    · cases hc : UnpackConnless pBuffer
        { ret := 0, pPacket := { p with m_Flags := (pBuffer.getD 0 0).toNat >>> 2 }
          Sixup := Sixup, pSecurityToken := pSecurityToken, pResponseToken := pResponseToken } with
      | error e =>
          rw [hc] at h
          cases h
      | ok v =>
          rw [hc] at h
          obtain ⟨hzero, -, hno⟩ := hfinish v h
          exact absurd hno (unpackConnless_flags hc hzero)
    · rename_i hconnless
      cases hc : UnpackConn pBuffer
        { ret := 0, pPacket := { p with m_Flags := (pBuffer.getD 0 0).toNat >>> 2 }
          Sixup := Sixup, pSecurityToken := pSecurityToken, pResponseToken := pResponseToken } with
      | error e =>
          rw [hc] at h
          cases h
      | ok v =>
          rw [hc] at h
          obtain ⟨-, hs, -⟩ := hfinish v h
          rw [unpackConn_sixup hc, Bool.or_eq_false_iff, decide_eq_false_iff_not, not_not] at hs
          exact ⟨not_not.mp hconnless, hs.2⟩

/-- Decoding stays in bounds exactly for the datagrams that are not too long. -/
theorem recv_safe_iff (pBuffer : List UInt8) (p : CNetPacketConstruct) (Sixup : Bool)
    (Token ResponseToken : SECURITY_TOKEN) :
    RecvSafe pBuffer p Sixup Token ResponseToken ↔ ¬ TooLong pBuffer Sixup := by
  constructor
  · rintro ⟨⟨u, hu, -⟩, -⟩ hlong
    rw [unpackPacket_tooLong hlong] at hu
    cases hu
  · intro hlong
    refine ⟨(unpackPacket_inBounds hlong (.inl (Option.some_ne_none _))).safeDecode, ?_⟩
    intro u Token' hu hret hflags hsix
    have hraw := unpackPacket_plain hu hret hflags hsix
    refine (unpackPacket_inBounds ?_ (.inr ⟨rfl, hraw⟩)).safeDecode
    intro hlong'
    exact absurd hlong'.2.2.2.1 (by decide)

/-- A datagram of 1398 zero bytes is too long: 1395 bytes are copied into an array of 1394. -/
theorem recv_unsafe : ¬ RecvSafe (List.replicate 1398 0) .zero false 0 0 := by
  rw [recv_safe_iff, not_not]
  have hzero : RawFlags (List.replicate 1398 0) = 0 := rfl
  refine ⟨?_, ?_, by rw [hzero]; rfl, rfl, by rw [hzero]; rfl, by rw [hzero]; rfl⟩ <;>
    rw [List.length_replicate] <;> decide

end Fex.Engine.Connection
