import Fex.Engine.Connection
import Fex.Engine.Connection.Frames
import Fex.Engine.RingBuffer.Walk

/-!
# The resend buffer as a queue

The blocks in use are a list, oldest first, and the objects in them are read
through the pointers of that list.
-/

namespace Fex.Engine.Connection

open Fex.Lib Fex.Engine.Network Fex.Engine.RingBuffer

/-- The buffer holds the objects at `live`, oldest first. -/
structure Buffered (b : ResendBuffer) (live : List Nat) : Prop where
  layout : ∃ L, Represents b.ring L ∧ L.live = live
  flags : b.ring.m_Flags = 0

namespace Buffered

variable {b : ResendBuffer} {live : List Nat}

theorem init (b : ResendBuffer) : Buffered b.Init [] where
  layout := by
    have hpos : 0 < NET_CONN_BUFFERSIZE / ITEM_SIZE * ITEM_SIZE := by decide
    have hdvd : ITEM_SIZE ∣ NET_CONN_BUFFERSIZE / ITEM_SIZE * ITEM_SIZE := Nat.dvd_mul_left _ _
    exact ⟨_, represents_clear hpos hdvd, rfl⟩
  flags := rfl

theorem first (h : Buffered b live) : b.First = live.head? := by
  obtain ⟨L, hrep, rfl⟩ := h.layout
  exact hrep.first

theorem linked (h : Buffered b live) : Linked b.Next live none := by
  obtain ⟨L, hrep, rfl⟩ := h.layout
  exact hrep.linked

theorem length_lt_fuel (h : Buffered b live) : live.length < b.ring.fuel := by
  obtain ⟨L, hrep, rfl⟩ := h.layout
  exact hrep.live_lt_fuel

/-- Only the ring matters. -/
theorem congr {c : ResendBuffer} (h : Buffered b live) (hring : c.ring = b.ring) :
    Buffered c live where
  layout := hring ▸ h.layout
  flags := hring ▸ h.flags

theorem popFirst {p : Nat} (h : Buffered b (p :: live)) :
    ∃ c, b.PopFirst = .ok c ∧ Buffered c live ∧ c.chunks = b.chunks := by
  obtain ⟨L, hrep, hlive⟩ := h.layout
  rcases hrep.popFirst with ⟨hnil, -⟩ | ⟨t, L', q, hpop, hrep', hcons, hflags, -, -⟩
  · rw [hnil] at hlive
    cases hlive
  · rw [hcons] at hlive
    refine ⟨{ b with ring := t }, ?_, ⟨⟨L', hrep', (List.cons.inj hlive).2⟩, ?_⟩, rfl⟩
    · unfold ResendBuffer.PopFirst
      rw [hpop]
      rfl
    · exact hflags.trans h.flags

/-- Storing appends the object, or leaves the queue as it is when there is no room. -/
theorem store {chunk : CNetChunkResend} (h : Buffered b live)
    (hsize : chunk.m_DataSize ≤ NET_MAX_PAYLOAD) :
    ∃ c stored, b.Store chunk = .ok (c, stored) ∧
      ((stored = false ∧ Buffered c live ∧ c.chunks = b.chunks) ∨
        ∃ p, stored = true ∧ p ∉ live ∧ Buffered c (live ++ [p]) ∧
          c.chunks = Function.update b.chunks p chunk) := by
  obtain ⟨L, hrep, hlive⟩ := h.layout
  have hfit : FitsInt b.ring (RESEND_SIZE + chunk.m_DataSize) := by
    left
    unfold CRingBufferBase.RoundedSize
    simp only [ITEM_SIZE, RESEND_SIZE, intMax, NET_MAX_PAYLOAD, NET_MAX_PACKETSIZE] at hsize ⊢
    omega
  obtain ⟨t, L', r, popped, rest, halloc, hrep', hsplit, hlive', -, hflags, -, hkeep, -⟩ :=
    allocate_spec hrep hfit
  have hpopped : popped = [] := hkeep (by
    unfold CRingBufferBase.Recycles
    rw [h.flags]
    decide)
  rw [hpopped, List.nil_append, hlive] at hsplit
  rw [← hsplit] at hlive'
  unfold ResendBuffer.Store
  rw [halloc]
  cases r with
  | none =>
      refine ⟨_, false, rfl, .inl ⟨rfl, ⟨⟨L', hrep', by simpa using hlive'⟩, ?_⟩, rfl⟩⟩
      exact hflags.trans h.flags
  | some p =>
      have hnodup := hrep'.nodup
      rw [hlive'] at hnodup
      have hnew : p ∉ live := by
        intro hmem
        exact (List.nodup_append.mp hnodup).2.2 p hmem p (by simp) rfl
      refine ⟨_, true, rfl, .inr ⟨p, rfl, hnew, ⟨⟨L', hrep', hlive'⟩, ?_⟩, rfl⟩⟩
      exact hflags.trans h.flags

end Buffered

end Fex.Engine.Connection

/-!
## Queueing and flushing chunks

The packet under construction holds the chunks queued since the last flush, and
a flushed datagram transports them: whoever unpacks it finds them again.
-/

namespace Fex.Engine.Connection

open Fex.Lib Fex.Engine.Network

/-- The split of a protocol. -/
def splitBits (Sixup : Bool) : Nat := if Sixup then 6 else 4

theorem split_eq (c : CNetConnection) : c.Split = splitBits c.m_Sixup := rfl

/-- What unpacking a datagram with these chunks leaves in the packet. -/
structure Unpacks (Sixup : Bool) (Ack : Nat) (chs : List Chunk) (p : CNetPacketConstruct) :
    Prop where
  carries : Carries p (splitBits Sixup) chs
  count : p.m_NumChunks = chs.length % 256
  ack : p.m_Ack = Ack
  size : ((encode (splitBits Sixup) chs).length : Int) ≤ p.m_DataSize
  control : p.m_Flags &&& NET_PACKETFLAG_CONTROL ≠ 0 →
    chs = [] ∧ p.m_aChunkData 0 = NET_CTRLMSG_KEEPALIVE
  connless : p.m_Flags &&& NET_PACKETFLAG_CONNLESS = 0

/-- Unpacking the datagram yields the chunks, whatever packet it is unpacked into. -/
def Transports (Sixup : Bool) (Ack : Nat) (chs : List Chunk) (d : List UInt8) : Prop :=
  ∀ (q : CNetPacketConstruct) (t r : Option SECURITY_TOKEN), (Sixup = true → t ≠ none) →
    ∃ u, UnpackPacket d q Sixup t r = .ok u ∧ u.ret = 0 ∧ u.Sixup = Sixup ∧
      Unpacks Sixup Ack chs u.pPacket

/-- The packet `p` holds exactly the chunks `chs` and leaves room for the token. -/
structure Holds (p : CNetPacketConstruct) (Split : Nat) (chs : List Chunk) : Prop where
  small : ∀ ch ∈ chs, ch.Small Split
  data : p.data = encode Split chs
  size : p.m_DataSize = (encode Split chs).length
  room : p.m_DataSize + TOKEN_SIZE ≤ NET_MAX_PAYLOAD
  count : p.m_NumChunks = chs.length
  flags : p.m_Flags = 0 ∨ p.m_Flags = 16

theorem holds_zero (Split : Nat) : Holds .zero Split [] where
  small := by simp
  data := rfl
  size := rfl
  room := by decide
  count := rfl
  flags := .inl rfl

/-- The data of a sent packet starts with its own data. -/
theorem slice_received {p q : CNetPacketConstruct} {SecurityToken : SECURITY_TOKEN} {Sixup : Bool}
    {F n : Nat} (hn : p.m_DataSize.toNat = n) :
    (received p q SecurityToken Sixup F).m_aChunkData.slice 0 n = p.data := by
  have hlen : p.data.length = n := length_data.trans hn
  have hslice := Buffer.slice_copy q.m_aChunkData 0 (wireData p SecurityToken Sixup)
  have hsplit : (wireData p SecurityToken Sixup).length =
      n + ((wireData p SecurityToken Sixup).length - n) := by
    unfold wireData
    rw [List.length_append, hlen]
    omega
  rw [hsplit, Buffer.slice_add] at hslice
  exact List.append_inj_left hslice (by rw [Buffer.length_slice, hlen])

/-- Sending a packet whose data starts with the chunks transports them. -/
theorem transports_send {p : CNetPacketConstruct} {Sixup : Bool} {chs : List Chunk}
    {tail : List UInt8} (hsmall : ∀ ch ∈ chs, ch.Small (splitBits Sixup))
    (hdata : p.data = encode (splitBits Sixup) chs ++ tail) (hpos : 0 ≤ p.m_DataSize)
    (hroom : p.m_DataSize + TOKEN_SIZE ≤ NET_MAX_PAYLOAD) (hcount : p.m_NumChunks = chs.length)
    (hflags : p.m_Flags = 0 ∨ p.m_Flags = 16) (hack : p.m_Ack < NET_MAX_SEQUENCE)
    {SecurityToken : SECURITY_TOKEN} {d : List UInt8}
    (hsend : SendPacket p SecurityToken Sixup false = .ok d) :
    Transports Sixup p.m_Ack chs d := by
  intro q t r ht
  have hlen := length_wireData_le p SecurityToken Sixup
  have hsize : p.m_DataSize.toNat = (encode (splitBits Sixup) chs).length + tail.length := by
    rw [← length_data, hdata, List.length_append]
  have hfour : p.m_Flags ≠ 4 := by
    rcases hflags with h | h <;> rw [h] <;> decide
  have hp : Sendable p false :=
    ⟨hpos, hack, hflags.imp_right .inl, fun h4 => absurd h4 hfour⟩
  have hfit : (wireData p SecurityToken Sixup).length ≤ NET_MAX_PAYLOAD := by
    have htoken : (if Sixup then 0 else TOKEN_SIZE) ≤ TOKEN_SIZE := by
      cases Sixup <;> decide
    omega
  obtain ⟨F, u, hF, hunpack, hret, hsixup, hu⟩ :=
    unpackPacket_sendPacket hp hfit hsend q (r := r) ht
  have hF' : F &&& NET_PACKETFLAG_CONTROL = 0 ∧ F &&& NET_PACKETFLAG_CONNLESS = 0 := by
    rcases hflags with h | h <;> rw [h] at hF <;> rcases hF with rfl | rfl <;> decide
  have hslice := @slice_received _ q SecurityToken Sixup F _ hsize
  rw [hdata, Buffer.slice_add] at hslice
  refine ⟨u, hunpack, hret, hsixup, ?_⟩
  rw [hu]
  refine ⟨⟨hsmall, List.append_inj_left hslice (Buffer.length_slice _ _ _), by omega, ?_⟩, ?_, rfl,
    ?_, ?_, hF'.2⟩
  · show p.m_NumChunks % 256 ≤ chs.length
    rw [hcount]
    exact Nat.mod_le _ _
  · show p.m_NumChunks % 256 = chs.length % 256
    rw [hcount]
  · show ((encode (splitBits Sixup) chs).length : Int) ≤ (wireData p SecurityToken Sixup).length
    unfold wireData
    rw [List.length_append, length_data]
    omega
  · intro hctrl
    exact absurd hF'.1 hctrl

namespace CNetConnection

/-- Nothing to flush, or a datagram that transports the chunks. -/
theorem flush_spec {c : CNetConnection} {chs : List Chunk} (env : Env)
    (h : Holds c.m_Construct c.Split chs) (hack : c.m_Ack < NET_MAX_SEQUENCE) :
    (chs = [] ∧ c.m_Construct.m_Flags = 0 ∧ c.Flush env = .ok (c, 0)) ∨
    ∃ d, c.Flush env = .ok ({ c.send c.m_PeerAddr d with
        m_LastSendTime := env.Now, m_Construct := .zero }, chs.length) ∧
      Transports c.m_Sixup c.m_Ack chs d := by
  have hcount := h.count
  unfold Flush
  by_cases hempty : c.m_Construct.m_NumChunks = 0 ∧ c.m_Construct.m_Flags = 0
  · left
    rw [if_pos hempty]
    exact ⟨List.length_eq_zero_iff.mp (by omega), hempty.2, rfl⟩
  · right
    rw [if_neg hempty]
    have hsize := h.size
    obtain ⟨d, hd⟩ := @sendPacket_ok { c.m_Construct with m_Ack := c.m_Ack }
      c.m_SecurityToken c.m_Sixup false
      (by simp only; omega) h.room (h.flags.imp_right .inl)
    have hdata : c.m_Construct.data = encode (splitBits c.m_Sixup) chs ++ [] := by
      rw [List.append_nil]
      exact h.data
    have htrans := transports_send (p := { c.m_Construct with m_Ack := c.m_Ack }) h.small hdata
      (by simp only; omega) h.room h.count h.flags hack hd
    refine ⟨d, ?_, htrans⟩
    rw [hd, hcount]
    rfl

end CNetConnection

/-! ## Queueing -/

/-- Flushed or not: the connection afterwards and the chunks left in its packet. -/
inductive Flushed (env : Env) (c : CNetConnection) (chs : List Chunk) :
    CNetConnection → List Chunk → Prop
  | keep : Flushed env c chs c chs
  | sent (d : List UInt8) (h : Transports c.m_Sixup c.m_Ack chs d) :
      Flushed env c chs { c.send c.m_PeerAddr d with
        m_LastSendTime := env.Now, m_Construct := .zero } []

/-- Flushing changes the packet, the time of the last send and what was sent. -/
theorem Flushed.frame {env : Env} {c c₁ : CNetConnection} {chs chs₁ : List Chunk}
    (h : Flushed env c chs c₁ chs₁) : ∃ p t ds, c₁ = { c with
      m_Construct := p, m_LastSendTime := t, m_Socket := c.m_Socket ++ ds } := by
  cases h with
  | keep => exact ⟨c.m_Construct, c.m_LastSendTime, [], by rw [List.append_nil]⟩
  | sent d h => exact ⟨.zero, env.Now, [(c.m_PeerAddr, d)], rfl⟩

/-- The entry of a chunk in the resend buffer. -/
def Chunk.resend (env : Env) (ch : Chunk) : CNetChunkResend :=
  { m_Flags := ch.Flags, m_pData := ch.Data, m_Sequence := ch.Sequence, m_LastSendTime := env.Now
    m_FirstSendTime := env.Now }

/-- The chunk is saved for a resend, does not need to be, or finds no room. -/
inductive Saved (env : Env) (ch : Chunk) (b : ResendBuffer) (live : List Nat) :
    ResendBuffer → List Nat → Int → Prop
  | skip (h : ¬ (ch.Vital ∧ ch.Flags &&& NET_CHUNKFLAG_RESEND = 0)) :
      Saved env ch b live b live 0
  | full (b' : ResendBuffer) (hsave : ch.Vital ∧ ch.Flags &&& NET_CHUNKFLAG_RESEND = 0)
      (hbuf : Buffered b' live) (hchunks : b'.chunks = b.chunks) :
      Saved env ch b live b' live (-1)
  | stored (b' : ResendBuffer) (p : Nat) (hsave : ch.Vital ∧ ch.Flags &&& NET_CHUNKFLAG_RESEND = 0)
      (hnew : p ∉ live) (hbuf : Buffered b' (live ++ [p]))
      (hchunks : b'.chunks = Function.update b.chunks p (ch.resend env)) :
      Saved env ch b live b' (live ++ [p]) 0

theorem Saved.buffered {env : Env} {ch : Chunk} {b b' : ResendBuffer} {live live' : List Nat}
    {ret : Int} (h : Saved env ch b live b' live' ret) (hbuf : Buffered b live) :
    Buffered b' live' := by
  cases h with
  | skip h => exact hbuf
  | full b' hsave hbuf => exact hbuf
  | stored b' p hsave hnew hbuf => exact hbuf

/-- The chunk fits a packet of its own. -/
def Chunk.FitsPacket (ch : Chunk) : Prop :=
  headerSize ch.Flags + ch.Data.length + TOKEN_SIZE ≤ NET_MAX_PAYLOAD

theorem headerSize_le (Flags : Nat) : headerSize Flags ≤ NET_MAX_CHUNKHEADERSIZE := by
  unfold headerSize
  split <;> decide

namespace CNetConnection

variable {c : CNetConnection} {chs : List Chunk} {ch : Chunk}

theorem packChunk_eq (hstore : c.m_Construct.m_DataSize.toNat + (ch.encode c.Split).length ≤
    NET_MAX_PAYLOAD) :
    c.PackChunk ch.Flags ch.Data ch.Sequence = .ok { c with
      m_Construct := { c.m_Construct with
        m_aChunkData := c.m_Construct.m_aChunkData.copy c.m_Construct.m_DataSize.toNat
          (ch.encode c.Split)
        m_NumChunks := c.m_Construct.m_NumChunks + 1
        m_DataSize := c.m_Construct.m_DataSize + (ch.encode c.Split).length } } := by
  unfold Chunk.encode Chunk.packed at hstore
  unfold PackChunk CNetPacketConstruct.store
  simp only [bind, Except.bind]
  rw [if_pos hstore]
  rfl

theorem packChunk_spec (h : Holds c.m_Construct c.Split chs) (hsmall : ch.Small c.Split)
    (hroom : c.m_Construct.m_DataSize + (headerSize ch.Flags + ch.Data.length : Nat) + TOKEN_SIZE ≤
      NET_MAX_PAYLOAD) :
    ∃ p, c.PackChunk ch.Flags ch.Data ch.Sequence = .ok { c with m_Construct := p } ∧
      Holds p c.Split (chs ++ [ch]) := by
  have hsize := h.size
  have hstore : c.m_Construct.m_DataSize.toNat + (ch.encode c.Split).length ≤ NET_MAX_PAYLOAD := by
    rw [Chunk.length_encode]
    omega
  have hdata := h.data
  unfold CNetPacketConstruct.data at hdata
  refine ⟨_, packChunk_eq hstore, ?_⟩
  · refine ⟨?_, ?_, ?_, ?_, ?_, h.flags⟩
    · intro x hx
      rcases List.mem_append.mp hx with hx | hx
      · exact h.small x hx
      · rw [List.mem_singleton.mp hx]
        exact hsmall
    · unfold CNetPacketConstruct.data
      have hlen : (c.m_Construct.m_DataSize + (ch.encode c.Split).length).toNat =
          c.m_Construct.m_DataSize.toNat + (ch.encode c.Split).length := by omega
      simp only [hlen]
      rw [Buffer.slice_copy_append, hdata, encode_append, encode_cons, encode_nil,
        List.append_nil]
    · simp only [encode_append, encode_cons, encode_nil, List.append_nil, List.length_append]
      omega
    · simp only [Chunk.length_encode]
      omega
    · simp only [List.length_append, List.length_singleton, h.count]

theorem saveChunk_spec (env : Env) {live : List Nat} (hbuf : Buffered c.m_Buffer live)
    (hsize : ch.Data.length ≤ NET_MAX_PAYLOAD) :
    ∃ b live' ret, c.SaveChunk env ch.Flags ch.Data ch.Sequence =
        .ok ({ c with m_Buffer := b }, ret) ∧
      Saved env ch c.m_Buffer live b live' ret := by
  unfold SaveChunk
  by_cases hsave : ch.Flags &&& NET_CHUNKFLAG_VITAL ≠ 0 ∧ ch.Flags &&& NET_CHUNKFLAG_RESEND = 0
  · rw [if_pos hsave]
    obtain ⟨b, stored, hstore, hcases⟩ := @Buffered.store _ _ (ch.resend env) hbuf hsize
    unfold Chunk.resend at hstore
    rw [hstore]
    rcases hcases with ⟨rfl, hb, hchunks⟩ | ⟨p, rfl, hnew, hb, hchunks⟩
    · exact ⟨b, live, -1, rfl, .full b hsave hb hchunks⟩
    · exact ⟨b, live ++ [p], 0, rfl, .stored b p hsave hnew hb hchunks⟩
  · rw [if_neg hsave]
    exact ⟨c.m_Buffer, live, 0, rfl, .skip hsave⟩

/-- Queueing appends the chunk to the packet, on its own if the packet had to be flushed. -/
theorem queueChunkEx_spec (env : Env) {live : List Nat}
    (hstate : ¬ (c.m_State = .OFFLINE ∨ c.m_State = .ERROR))
    (h : Holds c.m_Construct c.Split chs) (hack : c.m_Ack < NET_MAX_SEQUENCE)
    (hsmall : ch.Small c.Split) (hfits : ch.FitsPacket) (hbuf : Buffered c.m_Buffer live) :
    ∃ c₁ chs₁ p b live' ret,
      c.QueueChunkEx env ch.Flags ch.Data ch.Sequence =
        .ok ({ c₁ with m_Construct := p, m_Buffer := b }, ret) ∧
      Flushed env c chs c₁ chs₁ ∧ (c.NeedsFlush ch.Data → chs₁ = []) ∧
      Holds p c.Split (chs₁ ++ [ch]) ∧ Saved env ch c.m_Buffer live b live' ret := by
  have hheader := headerSize_le ch.Flags
  have hlen : ch.Data.length ≤ NET_MAX_PAYLOAD := by
    unfold Chunk.FitsPacket at hfits
    omega
  -- the connection once there is room for the chunk
  have hflush : ∃ c₁ chs₁,
      (if c.NeedsFlush ch.Data then Prod.fst <$> c.Flush env else pure c : Exec _) = .ok c₁ ∧
      Flushed env c chs c₁ chs₁ ∧ (c.NeedsFlush ch.Data → chs₁ = []) ∧
      Holds c₁.m_Construct c₁.Split chs₁ ∧
      c₁.m_Construct.m_DataSize + (headerSize ch.Flags + ch.Data.length : Nat) + TOKEN_SIZE ≤
        NET_MAX_PAYLOAD ∧
      c₁.Split = c.Split ∧ c₁.m_Buffer = c.m_Buffer := by
    by_cases hneeds : c.NeedsFlush ch.Data
    · rw [if_pos hneeds]
      unfold Chunk.FitsPacket at hfits
      rcases flush_spec env h hack with ⟨rfl, -, hc⟩ | ⟨d, hc, htrans⟩
      · have hsize := h.size
        rw [hc]
        refine ⟨c, [], rfl, .keep, fun _ => rfl, h, ?_, rfl, rfl⟩
        rw [hsize, encode_nil, List.length_nil]
        omega
      · rw [hc]
        refine ⟨_, [], rfl, .sent d htrans, fun _ => rfl, holds_zero _, ?_, rfl, rfl⟩
        simp only [CNetPacketConstruct.zero]
        omega
    · rw [if_neg hneeds]
      refine ⟨c, chs, rfl, .keep, fun hyes => absurd hyes hneeds, h, ?_, rfl, rfl⟩
      unfold NeedsFlush at hneeds
      simp only [NET_MAX_PAYLOAD, NET_MAX_PACKETSIZE, TOKEN_SIZE] at hneeds ⊢
      omega
  obtain ⟨c₁, chs₁, hc₁, hfl, hnil, hholds, hroom, hsplit, hbuffer⟩ := hflush
  rw [← hsplit] at hsmall
  obtain ⟨p, hp, hholds'⟩ := packChunk_spec hholds hsmall hroom
  rw [← hbuffer] at hbuf
  obtain ⟨b, live', ret, hsave, hsaved⟩ :=
    saveChunk_spec (c := { c₁ with m_Construct := p }) env hbuf hlen
  refine ⟨c₁, chs₁, p, b, live', ret, ?_, hfl, hnil, hsplit ▸ hholds', hbuffer ▸ hsaved⟩
  unfold QueueChunkEx
  rw [if_neg hstate]
  by_cases hneeds : c.NeedsFlush ch.Data
  · rw [if_pos hneeds] at hc₁ ⊢
    simp only [hc₁, bind, Except.bind]
    rw [hp]
    exact hsave
  · rw [if_neg hneeds] at hc₁ ⊢
    simp only [hc₁, bind, Except.bind]
    rw [hp]
    exact hsave

end CNetConnection

end Fex.Engine.Connection
