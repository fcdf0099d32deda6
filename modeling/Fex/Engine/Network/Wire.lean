import Fex.Engine.Huffman.Codec
import Fex.Engine.Network

/-!
# The wire format round trip

`Unpack` reads back what `Pack` stored, up to the bits a header has for the
size, and `UnpackPacket` recovers the packet that `SendPacket` sent, up to the
byte a header has for the number of chunks.
-/

namespace Fex.Engine.Network

open Fex.Lib

/-! ## Chunk headers -/

theorem flags_size_bits : ∀ f < 4, ∀ x < 64, (f <<< 6 ||| x) < 256 ∧
    (f <<< 6 ||| x) >>> 6 &&& 3 = f ∧ (f <<< 6 ||| x) &&& 0x3f = x := by
  decide

theorem size_seq_bits_four : ∀ m < 16, ∀ t < 16, (m ||| t <<< 4) < 256 ∧
    (m ||| t <<< 4) >>> 4 = t ∧ (m ||| t <<< 4) &&& 15 = m := by
  decide

theorem size_seq_bits_six : ∀ m < 64, ∀ t < 4, (m ||| t <<< 6) < 256 ∧
    (m ||| t <<< 6) >>> 6 = t ∧ (m ||| t <<< 6) &&& 63 = m := by
  decide

theorem seq_bits : ∀ s < 1024, s >>> 2 >>> 4 <<< 4 <<< 2 ||| (s &&& 0xff) = s ∧
    s >>> 2 >>> 6 <<< 6 <<< 2 ||| (s &&& 0xff) = s := by
  decide +kernel

/-- Bits of the size and the sequence in the second byte, for either protocol. -/
theorem size_seq_bits {Split m s : Nat} (hSplit : Split = 4 ∨ Split = 6) (hm : m < 2 ^ Split)
    (hs : s < NET_MAX_SEQUENCE) :
    (m ||| s >>> 2 >>> Split <<< Split) < 256 ∧
      (m ||| s >>> 2 >>> Split <<< Split) >>> Split = s >>> 2 >>> Split ∧
      (m ||| s >>> 2 >>> Split <<< Split) &&& 1 <<< Split - 1 = m ∧
      s >>> 2 >>> Split <<< Split <<< 2 ||| (s &&& 0xff) = s := by
  have hs' : s < 1024 := hs
  rcases hSplit with rfl | rfl
  · have ht : s >>> 2 >>> 4 < 16 := by
      simp only [Nat.shiftRight_eq_div_pow]
      omega
    obtain ⟨h₁, h₂, h₃⟩ := size_seq_bits_four m hm _ ht
    exact ⟨h₁, h₂, h₃, (seq_bits s hs').1⟩
  · have ht : s >>> 2 >>> 6 < 4 := by
      simp only [Nat.shiftRight_eq_div_pow]
      omega
    obtain ⟨h₁, h₂, h₃⟩ := size_seq_bits_six m hm _ ht
    exact ⟨h₁, h₂, h₃, (seq_bits s hs').2⟩

/-- Bytes of a packed header, not counting the payload. -/
def headerSize (Flags : Nat) : Nat := if Flags &&& NET_CHUNKFLAG_VITAL ≠ 0 then 3 else 2

@[simp] theorem length_pack (h : CNetChunkHeader) (Split : Nat) :
    (h.Pack Split).length = headerSize h.m_Flags := by
  unfold CNetChunkHeader.Pack headerSize
  simp only
  split <;> rfl

/-- Unpacking a packed header: the size keeps its low `6 + Split` bits, and a chunk that is not
vital has no sequence. -/
theorem unpack_pack {h : CNetChunkHeader} {Split : Nat} (hSplit : Split = 4 ∨ Split = 6)
    (hflags : h.m_Flags < 4) {s : Nat} (hseq : h.m_Sequence = s) (hs : s < NET_MAX_SEQUENCE)
    {b : Buffer} {a : Nat} (hb : b.slice a (headerSize h.m_Flags) = h.Pack Split) :
    CNetChunkHeader.Unpack b a Split =
      ({ m_Flags := h.m_Flags
         m_Size := h.m_Size % 2 ^ (6 + Split)
         m_Sequence := if h.m_Flags &&& NET_CHUNKFLAG_VITAL ≠ 0 then h.m_Sequence else -1 },
        a + headerSize h.m_Flags) := by
  have hmask : 1 <<< Split - 1 = 2 ^ Split - 1 := by rw [Nat.one_shiftLeft]
  have hhigh : h.m_Size >>> Split &&& 0x3f < 64 := Nat.and_lt_two_pow _ (by decide : 0x3f < 2 ^ 6)
  have hlow : h.m_Size &&& 1 <<< Split - 1 = h.m_Size % 2 ^ Split := by
    rw [hmask, Nat.and_two_pow_sub_one_eq_mod]
  have hlowlt : h.m_Size % 2 ^ Split < 2 ^ Split := Nat.mod_lt _ (Nat.two_pow_pos _)
  have hflags' : h.m_Flags &&& 3 = h.m_Flags := by
    rw [Nat.and_two_pow_sub_one_eq_mod h.m_Flags 2]
    exact Nat.mod_eq_of_lt hflags
  obtain ⟨hf₁, hf₂, hf₃⟩ := flags_size_bits h.m_Flags hflags _ hhigh
  obtain ⟨hq₁, hq₂, hq₃, hq₄⟩ := size_seq_bits hSplit hlowlt hs
  -- the two parts of the size
  have hsize : (h.m_Size >>> Split &&& 0x3f) <<< Split ||| h.m_Size % 2 ^ Split =
      h.m_Size % 2 ^ (6 + Split) := by
    rw [← Nat.shiftLeft_add_eq_or_of_lt hlowlt, Nat.shiftLeft_eq, Nat.shiftRight_eq_div_pow,
      Nat.and_two_pow_sub_one_eq_mod _ 6, Nat.add_comm 6, Nat.pow_add, Nat.mod_mul,
      Nat.mul_comm, Nat.add_comm]
  have hfirst : (UInt8.ofNat ((h.m_Flags &&& 3) <<< 6 ||| h.m_Size >>> Split &&& 0x3f)).toNat =
      h.m_Flags <<< 6 ||| h.m_Size >>> Split &&& 0x3f := by
    rw [hflags']
    exact UInt8.toNat_ofNat_of_lt' hf₁
  unfold CNetChunkHeader.Pack headerSize at hb
  unfold CNetChunkHeader.Unpack headerSize
  simp only [hlow] at hb
  by_cases hvital : h.m_Flags &&& NET_CHUNKFLAG_VITAL ≠ 0
  · rw [if_pos hvital, if_pos hvital, hseq, Int.toNat_natCast] at hb
    simp only [Buffer.slice_succ, Buffer.slice_zero, List.cons.injEq, and_true] at hb
    obtain ⟨hb₀, hb₁, hb₂⟩ := hb
    have hthird : (UInt8.ofNat (s &&& 0xff)).toNat = s &&& 0xff :=
      UInt8.toNat_ofNat_of_lt' (Nat.and_lt_two_pow _ (by decide : 0xff < 2 ^ 8))
    rw [Nat.add_assoc] at hb₂
    simp only [hb₀, hb₁, hb₂, hfirst, hthird, UInt8.toNat_ofNat_of_lt' hq₁, hf₂, hf₃, hq₂, hq₃,
      hq₄, hsize, if_pos hvital, hseq]
  · rw [if_neg hvital, if_neg hvital] at hb
    simp only [Buffer.slice_succ, Buffer.slice_zero, List.cons.injEq, and_true] at hb
    obtain ⟨hb₀, hb₁⟩ := hb
    have hsecond : (UInt8.ofNat (h.m_Size % 2 ^ Split)).toNat = h.m_Size % 2 ^ Split := by
      refine UInt8.toNat_ofNat_of_lt' (Nat.lt_of_lt_of_le hlowlt ?_)
      rcases hSplit with rfl | rfl <;> decide
    have hmod : h.m_Size % 2 ^ Split &&& 1 <<< Split - 1 = h.m_Size % 2 ^ Split := by
      rw [hmask, Nat.and_two_pow_sub_one_eq_mod, Nat.mod_mod]
    simp only [hb₀, hb₁, hfirst, hsecond, hf₂, hf₃, hmod, hsize, if_neg hvital]

/-! ## Packets -/

theorem header_bits : ∀ F < 64, ∀ a < 4, (F <<< 2 &&& 0xfc ||| a) < 256 ∧
    (F <<< 2 &&& 0xfc ||| a) >>> 2 = F ∧ (F <<< 2 &&& 0xfc ||| a) &&& 0x3 = a := by
  decide

theorem ack_bits : ∀ a < 1024, (a >>> 8 &&& 0x3) <<< 8 ||| (a &&& 0xff) = a := by
  decide +kernel

/-- Flags of the packets a connection sends: chunks, chunks with a resend request, and control
messages, each compressed or not. -/
def SentFlags : List Nat := [0, 4, 16, 32, 48]

theorem sentFlags_bits : ∀ F ∈ SentFlags, F < 64 ∧ F &&& NET_PACKETFLAG_CONNLESS = 0 ∧
    F &&& NET_PACKETFLAG_UNUSED = 0 ∧ SixupFlags F < 64 ∧
    SixupFlags F &&& NET_PACKETFLAG_CONNLESS = 0 ∧ FromSixupFlags (SixupFlags F) = F := by
  decide

/-- Control packets are sent as they are. -/
theorem sentFlags_control : ∀ F ∈ SentFlags,
    ¬ (F &&& NET_PACKETFLAG_COMPRESSION ≠ 0 ∧ F &&& NET_PACKETFLAG_CONTROL ≠ 0) := by
  decide

/-- The bytes a packet carries: its data and, for 0.6, the token. -/
def wireData (p : CNetPacketConstruct) (SecurityToken : SECURITY_TOKEN) (Sixup : Bool) :
    List UInt8 :=
  p.data ++ if !Sixup && SecurityToken != NET_SECURITY_TOKEN_UNSUPPORTED then
    WriteSecurityToken SecurityToken else []

theorem length_data {p : CNetPacketConstruct} : p.data.length = p.m_DataSize.toNat :=
  Buffer.length_slice _ _ _

/-- Sending appends the token within the array, or faults. -/
theorem appendToken_spec {p q : CNetPacketConstruct} {SecurityToken : SECURITY_TOKEN}
    {Sixup : Bool} (hpos : 0 ≤ p.m_DataSize) (h : AppendToken p SecurityToken Sixup = .ok q) :
    q.data = wireData p SecurityToken Sixup ∧ 0 ≤ q.m_DataSize ∧ q.m_Flags = p.m_Flags ∧
      q.m_Ack = p.m_Ack ∧ q.m_NumChunks = p.m_NumChunks := by
  unfold AppendToken at h
  unfold wireData
  split at h
  · rename_i htoken
    rw [if_pos htoken]
    unfold CNetPacketConstruct.store at h
    split at h
    · cases h
      refine ⟨?_, by simp only; omega, rfl, rfl, rfl⟩
      have hlen : (p.m_DataSize + TOKEN_SIZE).toNat =
          p.m_DataSize.toNat + (WriteSecurityToken SecurityToken).length := by
        have : (WriteSecurityToken SecurityToken).length = TOKEN_SIZE := rfl
        omega
      unfold CNetPacketConstruct.data
      simp only [hlen]
      exact Buffer.slice_copy_append _ _ _
    · cases h
  · rename_i htoken
    cases h
    rw [if_neg htoken, List.append_nil]
    exact ⟨rfl, hpos, rfl, rfl, rfl⟩

/-- The payload on the wire unpacks to the data. -/
theorem compressPayload_spec {p : CNetPacketConstruct} {HeaderSize : Nat} {NoCompress : Bool}
    (hfit : p.data.length ≤ NET_MAX_PAYLOAD) (hHeader : HeaderSize < NET_MAX_PACKETSIZE)
    (hflags : p.m_Flags = 0 ∨ p.m_Flags = 16 ∨ (p.m_Flags = 4 ∧ NoCompress = true)) :
    ∃ F, (CompressPayload p HeaderSize NoCompress).2 = F ∧ F ∈ SentFlags ∧
      (F = p.m_Flags ∨ F = p.m_Flags ||| NET_PACKETFLAG_COMPRESSION) ∧
      UnpackPayload F (CompressPayload p HeaderSize NoCompress).1 = (p.data, (p.data.length : Int)) ∧
      (HeaderSize + p.data.length ≤ NET_MAX_PACKETSIZE →
        HeaderSize + (CompressPayload p HeaderSize NoCompress).1.length ≤ NET_MAX_PACKETSIZE) := by
  have hclear : clearFlag p.m_Flags NET_PACKETFLAG_COMPRESSION = p.m_Flags := by
    rcases hflags with h | h | ⟨h, -⟩ <;> rw [h] <;> rfl
  have hplain : p.m_Flags ∈ SentFlags ∧ p.m_Flags &&& NET_PACKETFLAG_COMPRESSION = 0 := by
    rcases hflags with h | h | ⟨h, -⟩ <;> rw [h] <;> decide
  have hPlain : ∀ r : List UInt8 × Nat,
      r = (p.data, clearFlag p.m_Flags NET_PACKETFLAG_COMPRESSION) →
      ∃ F, r.2 = F ∧ F ∈ SentFlags ∧
        (F = p.m_Flags ∨ F = p.m_Flags ||| NET_PACKETFLAG_COMPRESSION) ∧
        UnpackPayload F r.1 = (p.data, (p.data.length : Int)) ∧
        (HeaderSize + p.data.length ≤ NET_MAX_PACKETSIZE →
          HeaderSize + r.1.length ≤ NET_MAX_PACKETSIZE) := by
    rintro r rfl
    rw [hclear]
    refine ⟨_, rfl, hplain.1, .inl rfl, ?_, id⟩
    unfold UnpackPayload
    exact if_neg (not_not.mpr hplain.2)
  unfold CompressPayload
  cases NoCompress with
  | true => exact hPlain _ rfl
  | false =>
      simp only [Bool.false_eq_true, if_false]
      cases hcomp : ms_Huffman.Compress p.data (NET_MAX_PACKETSIZE - HeaderSize : Nat) with
      | none => exact hPlain _ rfl
      | some out =>
          simp only
          split
          · obtain ⟨hdec, hlen⟩ := Huffman.huffman_roundtrip hcomp hfit
            have hout := hlen (by omega)
            have hF : p.m_Flags ||| NET_PACKETFLAG_COMPRESSION ∈ SentFlags ∧
                (p.m_Flags ||| NET_PACKETFLAG_COMPRESSION) &&& NET_PACKETFLAG_COMPRESSION ≠ 0 := by
              rcases hflags with h | h | ⟨-, h⟩
              · rw [h]
                decide
              · rw [h]
                decide
              · cases h
            refine ⟨_, rfl, hF.1, .inr rfl, ?_, fun _ => ?_⟩
            · unfold UnpackPayload
              rw [if_pos hF.2]
              simp only [ms_Huffman, hdec]
            · change HeaderSize + out.length ≤ _
              omega
          · exact hPlain _ rfl

/-- The three header bytes read back. -/
theorem packetHeader_bits {F Ack NumChunks : Nat} (hF : F < 64) (hAck : Ack < NET_MAX_SEQUENCE)
    (rest : List UInt8) :
    let d := PacketHeader F Ack NumChunks ++ rest
    (d.getD 0 0).toNat >>> 2 = F ∧
      ((d.getD 0 0).toNat &&& 0x3) <<< 8 ||| (d.getD 1 0).toNat = Ack ∧
      (d.getD 2 0).toNat = NumChunks % 256 := by
  have hlt : Ack >>> 8 &&& 0x3 < 4 := Nat.and_lt_two_pow _ (by decide : 0x3 < 2 ^ 2)
  obtain ⟨h₁, h₂, h₃⟩ := header_bits F hF _ hlt
  have hack₁ : (UInt8.ofNat (Ack &&& 0xff)).toNat = Ack &&& 0xff :=
    UInt8.toNat_ofNat_of_lt' (Nat.and_lt_two_pow _ (by decide : 0xff < 2 ^ 8))
  have hfirst := UInt8.toNat_ofNat_of_lt' h₁
  intro d
  have hd₀ : d.getD 0 0 = .ofNat (F <<< 2 &&& 0xfc ||| Ack >>> 8 &&& 0x3) := rfl
  have hd₁ : d.getD 1 0 = .ofNat (Ack &&& 0xff) := rfl
  have hd₂ : d.getD 2 0 = .ofNat NumChunks := rfl
  rw [hd₀, hd₁, hd₂, hfirst, hack₁, h₂, h₃]
  exact ⟨rfl, ack_bits Ack hAck, UInt8.toNat_ofNat'⟩

/-- A datagram is the header, for 0.7 the token, and the payload. -/
theorem sendPacket_inv {p : CNetPacketConstruct} {SecurityToken : SECURITY_TOKEN}
    {Sixup NoCompress : Bool} {d : List UInt8}
    (h : SendPacket p SecurityToken Sixup NoCompress = .ok d) :
    ∃ q H, AppendToken p SecurityToken Sixup = .ok q ∧ H = (if Sixup then 7 else 3) ∧
      H + (CompressPayload q H NoCompress).1.length ≤ NET_MAX_PACKETSIZE ∧
      d = PacketHeader (if Sixup then SixupFlags (CompressPayload q H NoCompress).2
          else (CompressPayload q H NoCompress).2) q.m_Ack q.m_NumChunks ++
        ((if Sixup then WriteSecurityToken SecurityToken else []) ++
          (CompressPayload q H NoCompress).1) := by
  unfold SendPacket at h
  simp only [bind, Except.bind] at h
  cases happ : AppendToken p SecurityToken Sixup with
  | error e =>
      rw [happ] at h
      cases h
  | ok q =>
      rw [happ] at h
      refine ⟨q, _, rfl, rfl, ?_⟩
      have hH : (if Sixup then NET_PACKETHEADERSIZE + TOKEN_SIZE else NET_PACKETHEADERSIZE) =
          if Sixup then 7 else 3 := rfl
      rw [hH] at h
      simp only at h
      by_cases hlen : NET_MAX_PACKETSIZE <
          (if Sixup then 7 else 3) + (CompressPayload q (if Sixup then 7 else 3) NoCompress).1.length
      · rw [if_pos hlen] at h
        cases h
      · rw [if_neg hlen] at h
        exact ⟨Nat.not_lt.mp hlen, (Except.ok.inj h).symm⟩

/-- The packet that `UnpackPacket` leaves in `q` when `p` was sent. -/
def received (p q : CNetPacketConstruct) (SecurityToken : SECURITY_TOKEN) (Sixup : Bool)
    (F : Nat) : CNetPacketConstruct :=
  { m_Flags := F
    m_Ack := p.m_Ack
    m_NumChunks := p.m_NumChunks % 256
    m_DataSize := (wireData p SecurityToken Sixup).length
    m_aChunkData := q.m_aChunkData.copy 0 (wireData p SecurityToken Sixup)
    m_aExtraData := q.m_aExtraData }

theorem length_writeSecurityToken (t : SECURITY_TOKEN) :
    (WriteSecurityToken t).length = TOKEN_SIZE := rfl

theorem length_wireData_le (p : CNetPacketConstruct) (SecurityToken : SECURITY_TOKEN)
    (Sixup : Bool) :
    (wireData p SecurityToken Sixup).length ≤
      p.m_DataSize.toNat + if Sixup then 0 else TOKEN_SIZE := by
  unfold wireData
  rw [List.length_append, length_data]
  cases Sixup with
  | true => simp
  | false =>
      split
      · rw [length_writeSecurityToken]
        simp
      · simp

/-- A packet with room for the token is sent. -/
theorem sendPacket_ok {p : CNetPacketConstruct} {SecurityToken : SECURITY_TOKEN}
    {Sixup NoCompress : Bool} (hsize : 0 ≤ p.m_DataSize)
    (hmax : p.m_DataSize + TOKEN_SIZE ≤ NET_MAX_PAYLOAD)
    (hflags : p.m_Flags = 0 ∨ p.m_Flags = 16 ∨ (p.m_Flags = 4 ∧ NoCompress = true)) :
    ∃ d, SendPacket p SecurityToken Sixup NoCompress = .ok d := by
  have happ : ∃ q, AppendToken p SecurityToken Sixup = .ok q := by
    unfold AppendToken
    split
    · have hroom : p.m_DataSize.toNat + (WriteSecurityToken SecurityToken).length ≤
          NET_MAX_PAYLOAD := by
        rw [length_writeSecurityToken]
        omega
      unfold CNetPacketConstruct.store
      rw [if_pos hroom]
      exact ⟨_, rfl⟩
    · exact ⟨_, rfl⟩
  obtain ⟨q, hq⟩ := happ
  obtain ⟨hdata, hsize', hflags', -, -⟩ := appendToken_spec hsize hq
  have hlen := length_wireData_le p SecurityToken Sixup
  rw [← hdata] at hlen
  set H := if Sixup then NET_PACKETHEADERSIZE + TOKEN_SIZE else NET_PACKETHEADERSIZE with hH
  have hfit : q.data.length ≤ NET_MAX_PAYLOAD ∧ H + q.data.length ≤ NET_MAX_PACKETSIZE ∧
      H < NET_MAX_PACKETSIZE := by
    simp only [NET_MAX_PAYLOAD, NET_MAX_PACKETSIZE, TOKEN_SIZE, NET_PACKETHEADERSIZE] at *
    rw [hH]
    cases Sixup <;> simp only [if_true, Bool.false_eq_true, if_false] at hlen ⊢ <;> omega
  rw [← hflags'] at hflags
  obtain ⟨-, -, -, -, -, hpayload⟩ := compressPayload_spec hfit.1 hfit.2.2 hflags
  refine ⟨PacketHeader (if Sixup then SixupFlags (CompressPayload q H NoCompress).2
      else (CompressPayload q H NoCompress).2) q.m_Ack q.m_NumChunks ++
    ((if Sixup then WriteSecurityToken SecurityToken else []) ++
      (CompressPayload q H NoCompress).1), ?_⟩
  unfold SendPacket
  rw [hq]
  simp only [bind, Except.bind]
  exact if_neg (Nat.not_lt.mpr (hpayload hfit.2.1))

/-- Reading the packet of a connection behind a header as `SendPacket` writes it. -/
theorem unpackConn_sent {u : Unpacked} {SecurityToken : SECURITY_TOKEN} {F Ack NumChunks : Nat}
    {Payload data : List UInt8} (hF : F ∈ SentFlags) (hAck : Ack < NET_MAX_SEQUENCE)
    (hflags : u.pPacket.m_Flags = if u.Sixup then SixupFlags F else F)
    (htoken : u.Sixup = true → u.pSecurityToken ≠ none)
    (hpayload : UnpackPayload F Payload = (data, (data.length : Int)))
    (hfit : data.length ≤ NET_MAX_PAYLOAD) :
    UnpackConn (PacketHeader (if u.Sixup then SixupFlags F else F) Ack NumChunks ++
        ((if u.Sixup then WriteSecurityToken SecurityToken else []) ++ Payload)) u = .ok
      { u with
        pPacket := { u.pPacket with
          m_Flags := F, m_Ack := Ack, m_NumChunks := NumChunks % 256, m_DataSize := data.length
          m_aChunkData := u.pPacket.m_aChunkData.copy 0 data }
        pSecurityToken := if u.Sixup then some (ToSecurityToken
          (WriteSecurityToken SecurityToken ++ Payload)) else u.pSecurityToken } := by
  obtain ⟨hlt, -, hunused, hlt', -, hfrom⟩ := sentFlags_bits F hF
  have hnot := sentFlags_control F hF
  have hstore : ∀ p : CNetPacketConstruct,
      p.store 0 data = .ok { p with m_aChunkData := p.m_aChunkData.copy 0 data } := by
    intro p
    unfold CNetPacketConstruct.store
    exact if_pos (by omega)
  unfold UnpackConn
  cases hs : u.Sixup with
  | false =>
      obtain ⟨-, hb₁, hb₂⟩ := @packetHeader_bits _ _ NumChunks hlt hAck Payload
      simp only [hs, hflags, if_false, Bool.false_eq_true, hunused, ne_eq, not_true_eq_false,
        decide_false, Bool.or_false, Bool.false_and, List.nil_append, hb₁, hb₂]
      rw [if_neg (by simp [PacketHeader, NET_PACKETHEADERSIZE])]
      have hdrop : (PacketHeader F Ack NumChunks ++ Payload).drop NET_PACKETHEADERSIZE = Payload :=
        rfl
      rw [hdrop, hpayload]
      simp only [storeToken, bind, Except.bind]
      rw [if_neg hnot, hstore]
      rfl
  | true =>
      obtain ⟨-, hb₁, hb₂⟩ := @packetHeader_bits _ _ NumChunks hlt' hAck
        (WriteSecurityToken SecurityToken ++ Payload)
      obtain ⟨t, ht⟩ := Option.ne_none_iff_exists'.mp (htoken hs)
      simp only [hs, hflags, if_true, Bool.true_or, ht, Option.isNone_some, Bool.and_false,
        Bool.false_eq_true, if_false, hb₁, hb₂, hfrom]
      rw [if_neg (by simp [PacketHeader, WriteSecurityToken])]
      have hdrop : (PacketHeader (SixupFlags F) Ack NumChunks ++
          (WriteSecurityToken SecurityToken ++ Payload)).drop 7 = Payload := rfl
      have hdrop' : (PacketHeader (SixupFlags F) Ack NumChunks ++
          (WriteSecurityToken SecurityToken ++ Payload)).drop 3 =
          WriteSecurityToken SecurityToken ++ Payload := rfl
      rw [hdrop, hdrop', hpayload]
      simp only [storeToken, bind, Except.bind]
      rw [if_neg hnot, hstore]
      rfl

/-- Packets that a connection sends: chunks, or a control message that carries no token. -/
structure Sendable (p : CNetPacketConstruct) (NoCompress : Bool) : Prop where
  size : 0 ≤ p.m_DataSize
  ack : p.m_Ack < NET_MAX_SEQUENCE
  flags : p.m_Flags = 0 ∨ p.m_Flags = 16 ∨ (p.m_Flags = 4 ∧ NoCompress = true)
  msg : p.m_Flags = 4 → 0 < p.m_DataSize ∧ p.m_aChunkData 0 ≠ NET_CTRLMSG_CONNECT ∧
    p.m_aChunkData 0 ≠ NET_CTRLMSG_TOKEN

/-- The datagram of a packet, for some payload that unpacks to the data of the packet. -/
theorem sendPacket_eq {p : CNetPacketConstruct} {SecurityToken : SECURITY_TOKEN}
    {Sixup NoCompress : Bool} {d : List UInt8} (hp : Sendable p NoCompress)
    (hfit : (wireData p SecurityToken Sixup).length ≤ NET_MAX_PAYLOAD)
    (h : SendPacket p SecurityToken Sixup NoCompress = .ok d) :
    ∃ F ∈ SentFlags, ∃ Payload, (F = p.m_Flags ∨ F = p.m_Flags ||| NET_PACKETFLAG_COMPRESSION) ∧
      UnpackPayload F Payload = (wireData p SecurityToken Sixup,
        ((wireData p SecurityToken Sixup).length : Int)) ∧
      d.length ≤ NET_MAX_PACKETSIZE ∧
      d = PacketHeader (if Sixup then SixupFlags F else F) p.m_Ack p.m_NumChunks ++
        ((if Sixup then WriteSecurityToken SecurityToken else []) ++ Payload) := by
  obtain ⟨q, H, happ, hH, hlen, hd⟩ := sendPacket_inv h
  obtain ⟨hdata, hsize, hflags', hack', hnum'⟩ := appendToken_spec hp.size happ
  have hflags := hp.flags
  rw [← hflags'] at hflags
  have hHmax : H < NET_MAX_PACKETSIZE := by
    rw [hH]
    cases Sixup <;> decide
  rw [← hdata] at hfit ⊢
  obtain ⟨F, hF, hFmem, hFcases, hpayload, -⟩ := compressPayload_spec hfit hHmax hflags
  rw [hflags'] at hFcases
  rw [hF, hack', hnum'] at hd
  refine ⟨F, hFmem, _, hFcases, hpayload, ?_, hd⟩
  have hsize' : d.length = H + (CompressPayload q H NoCompress).1.length := by
    rw [hd]
    cases Sixup <;> simp [PacketHeader, WriteSecurityToken, hH] <;> omega
  omega

/-- A packet that carries no token leaves the response token alone. -/
theorem unpackResponse_sent {u : Unpacked} (hsize : 0 ≤ u.pPacket.m_DataSize)
    (hmsg : u.pPacket.m_Flags &&& NET_PACKETFLAG_CONTROL ≠ 0 →
      u.pPacket.m_aChunkData 0 ≠ NET_CTRLMSG_CONNECT ∧
        u.pPacket.m_aChunkData 0 ≠ NET_CTRLMSG_TOKEN) :
    UnpackResponse u = .ok u := by
  unfold UnpackResponse
  rw [if_neg (Int.not_lt.mpr hsize), if_neg]
  rintro ⟨hctrl, -, htoken⟩
  obtain ⟨h₁, h₂⟩ := hmsg hctrl
  exact htoken.elim h₁ h₂

/-- The first byte of a packet arrives. -/
theorem received_first {p : CNetPacketConstruct} (q : CNetPacketConstruct)
    (SecurityToken : SECURITY_TOKEN) (Sixup : Bool) (F : Nat) (h : 0 < p.m_DataSize) :
    (received p q SecurityToken Sixup F).m_aChunkData 0 = p.m_aChunkData 0 := by
  obtain ⟨n, hn⟩ : ∃ n, p.m_DataSize.toNat = n + 1 := ⟨p.m_DataSize.toNat - 1, by omega⟩
  unfold received wireData CNetPacketConstruct.data Buffer.copy
  rw [hn, Buffer.slice_succ]
  rfl

/-- The packet round trip. -/
theorem unpackPacket_sendPacket {p : CNetPacketConstruct} {SecurityToken : SECURITY_TOKEN}
    {Sixup NoCompress : Bool} {d : List UInt8} (hp : Sendable p NoCompress)
    (hfit : (wireData p SecurityToken Sixup).length ≤ NET_MAX_PAYLOAD)
    (h : SendPacket p SecurityToken Sixup NoCompress = .ok d) (q : CNetPacketConstruct)
    {t r : Option SECURITY_TOKEN} (ht : Sixup = true → t ≠ none) :
    ∃ F u, (F = p.m_Flags ∨ F = p.m_Flags ||| NET_PACKETFLAG_COMPRESSION) ∧
      UnpackPacket d q Sixup t r = .ok u ∧ u.ret = 0 ∧ u.Sixup = Sixup ∧
      u.pPacket = received p q SecurityToken Sixup F := by
  obtain ⟨F, hF, Payload, hFcases, hpayload, hlen, hd⟩ := sendPacket_eq hp hfit h
  obtain ⟨hlt, hconn, -, hlt', hconn', -⟩ := sentFlags_bits F hF
  have hG : (if Sixup then SixupFlags F else F) < 64 ∧
      (if Sixup then SixupFlags F else F) &&& NET_PACKETFLAG_CONNLESS = 0 := by
    cases Sixup
    · exact ⟨hlt, hconn⟩
    · exact ⟨hlt', hconn'⟩
  have hbits := @packetHeader_bits _ _ p.m_NumChunks hG.1 hp.ack
    ((if Sixup then WriteSecurityToken SecurityToken else []) ++ Payload)
  simp only [← hd] at hbits
  have hgood : ¬ (d.length < NET_PACKETHEADERSIZE ∨ NET_MAX_PACKETSIZE < d.length) := by
    have h3 : NET_PACKETHEADERSIZE ≤ d.length := by
      rw [hd]
      simp [PacketHeader, NET_PACKETHEADERSIZE]
    omega
  have hmsg : F &&& NET_PACKETFLAG_CONTROL ≠ 0 →
      (received p q SecurityToken Sixup F).m_aChunkData 0 ≠ NET_CTRLMSG_CONNECT ∧
        (received p q SecurityToken Sixup F).m_aChunkData 0 ≠ NET_CTRLMSG_TOKEN := by
    intro hctrl
    have hp4 : p.m_Flags = 4 := by
      rcases hp.flags with h | h | ⟨h, -⟩
      · rw [h] at hFcases
        rcases hFcases with rfl | rfl <;> exact absurd hctrl (by decide)
      · rw [h] at hFcases
        rcases hFcases with rfl | rfl <;> exact absurd hctrl (by decide)
      · exact h
    obtain ⟨hpos, hmsg⟩ := hp.msg hp4
    rw [received_first q SecurityToken Sixup F hpos]
    exact hmsg
  have hconn := @unpackConn_sent
    { ret := 0, pPacket := { q with m_Flags := if Sixup then SixupFlags F else F }
      Sixup := Sixup, pSecurityToken := t, pResponseToken := r }
    SecurityToken _ _ p.m_NumChunks _ _ hF hp.ack rfl ht hpayload hfit
  simp only [← hd] at hconn
  unfold UnpackPacket
  simp only [if_neg hgood, hbits.1, hG.2, ne_eq, not_true_eq_false, if_false, hconn, bind,
    Except.bind]
  refine ⟨F, _, hFcases, unpackResponse_sent ?_ hmsg, rfl, rfl, rfl⟩
  exact Int.natCast_nonneg _

end Fex.Engine.Network
