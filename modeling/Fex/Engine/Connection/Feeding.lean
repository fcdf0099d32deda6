import Fex.Engine.Connection.Sending

/-!
# What an online connection does with a packet

A packet of the peer is dropped, or its ack is recorded, what it asks for is
resent and the chunks the ack covers leave the resend buffer.
-/

namespace Fex.Engine.Connection

open Fex.Lib Fex.Engine.Network Fex.Engine.RingBuffer

namespace CNetConnection

variable {c : CNetConnection}

/-- The oldest chunks go as long as they are in the backroom of the ack. -/
theorem ackLoop_spec {n Ack : Nat} {live : List Nat} (h : Buffered c.m_Buffer live)
    (hn : live.length < n) :
    ∃ b, AckLoop n c Ack = .ok { c with m_Buffer := b } ∧ b.chunks = c.m_Buffer.chunks ∧
      Buffered b (live.dropWhile fun p =>
        IsSeqInBackroom (c.m_Buffer.chunks p).m_Sequence Ack) := by
  induction live generalizing c n with
  | nil =>
      obtain ⟨n, rfl⟩ := Nat.exists_eq_add_of_lt hn
      refine ⟨c.m_Buffer, ?_, rfl, h⟩
      simp only [AckLoop, h.first]
      rfl
  | cons p live ih =>
      obtain ⟨n, rfl⟩ : ∃ m, n = m + 1 := ⟨n - 1, by omega⟩
      rw [List.dropWhile_cons]
      simp only [AckLoop, h.first, List.head?_cons]
      by_cases hback : IsSeqInBackroom (c.m_Buffer.chunks p).m_Sequence Ack = true
      · obtain ⟨b, hpop, hbuf, hchunks⟩ := h.popFirst
        rw [if_pos hback, if_pos hback]
        obtain ⟨b', hloop, hchunks', hbuf'⟩ :=
          @ih { c with m_Buffer := b } n hbuf (by simpa using hn)
        refine ⟨b', ?_, hchunks'.trans hchunks, ?_⟩
        · simp only [hpop, bind, Except.bind]
          exact hloop
        · rw [← hchunks]
          exact hbuf'
      · rw [if_neg hback, if_neg hback]
        exact ⟨c.m_Buffer, rfl, rfl, h⟩

/-- A packet without control messages, or a keep alive, passes through `FeedMessage`. -/
theorem feedMessage_online {p : CNetPacketConstruct} (honline : c.m_State = .ONLINE) (env : Env)
    (hctrl : p.m_Flags &&& NET_PACKETFLAG_CONTROL ≠ 0 → p.m_aChunkData 0 = NET_CTRLMSG_KEEPALIVE)
    (pAddr : NETADDR) (ResponseToken : SECURITY_TOKEN) :
    c.FeedMessage env p pAddr ResponseToken = .ok (c, true) := by
  unfold CNetConnection.FeedMessage
  by_cases hflag : p.m_Flags &&& NET_PACKETFLAG_CONTROL ≠ 0
  · have hmsg := hctrl hflag
    have hclose : ¬ p.m_aChunkData 0 = NET_CTRLMSG_CLOSE := by
      rw [hmsg]
      decide
    have htoken : ¬ p.m_aChunkData 0 = NET_CTRLMSG_TOKEN := by
      rw [hmsg]
      decide
    rw [if_pos hflag, if_neg hclose]
    unfold CNetConnection.FeedControl
    simp only [honline]
    rw [if_neg htoken, if_neg (by decide), if_neg (by decide)]
    rfl
  · rw [if_neg hflag, honline, if_neg (by decide)]

end CNetConnection

namespace Outbox

variable {Put : Chunk → Prop} {c : CNetConnection} {chs items : List Chunk} {live : List Nat}

/-- The chunks that the ack covers are released. -/
theorem ackChunks (h : Outbox c chs live items) (Ack : Nat) :
    ∃ c' live', c.AckChunks Ack = .ok c' ∧
      Outbox c' chs live' (items.dropWhile fun ch => IsSeqInBackroom ch.Sequence Ack) ∧
      c' = { c with m_Buffer := c'.m_Buffer } := by
  obtain ⟨b, hloop, hchunks, hbuf⟩ :=
    @CNetConnection.ackLoop_spec c _ Ack _ h.buffer h.buffer.length_lt_fuel
  refine ⟨_, _, hloop, ⟨h.state, h.ack, h.holds, hbuf, ?_, ?_⟩, rfl⟩
  · rw [← h.stored, List.dropWhile_map]
    simp only [hchunks]
    rfl
  · intro ch hch
    exact h.packable ch ((List.dropWhile_sublist _).mem hch)


/-- Dropped without a trace, or the ack is taken over and chunks are resent and released. -/
theorem feed (h : Outbox c chs live items) (honline : c.m_State = .ONLINE) (env : Env)
    (hput : ∀ ch ∈ items, Put ch.resent) {p : CNetPacketConstruct}
    (hctrl : p.m_Flags &&& NET_PACKETFLAG_CONTROL ≠ 0 → p.m_aChunkData 0 = NET_CTRLMSG_KEEPALIVE)
    (pAddr : NETADDR) (SecurityToken ResponseToken : SECURITY_TOKEN) :
    ∃ c' p' goOn, c.Feed env p pAddr SecurityToken ResponseToken = .ok (c', p', goOn) ∧
      p' = { p with m_DataSize := p'.m_DataSize } ∧
      ((goOn = false ∧ c' = c) ∨
        goOn = true ∧ c.AckValid p.m_Ack = true ∧ c'.m_State = .ONLINE ∧
          ∃ chs' live', Sends Put { c with m_PeerAck := p.m_Ack } c' chs chs' ∧
            Outbox c' chs' live'
              (items.dropWhile fun ch => IsSeqInBackroom ch.Sequence p.m_Ack)) := by
  unfold CNetConnection.Feed
  by_cases haddr : c.m_State ≠ .OFFLINE ∧ c.m_State ≠ .CONNECT ∧ pAddr ≠ c.m_PeerAddr
  · rw [if_pos haddr]
    exact ⟨c, p, false, rfl, rfl, .inl ⟨rfl, rfl⟩⟩
  · rw [if_neg haddr]
    have htoken : ∀ p', c.CheckToken p = some p' → p' = { p with m_DataSize := p'.m_DataSize } := by
      intro p' hp'
      unfold CNetConnection.CheckToken at hp'
      split at hp'
      · split at hp'
        · cases hp'
        · simp only at hp'
          split at hp'
          · rw [← Option.some.inj hp']
          · cases hp'
      · rw [← Option.some.inj hp']
    cases hcheck : c.CheckToken p with
    | none => exact ⟨c, p, false, rfl, rfl, .inl ⟨rfl, rfl⟩⟩
    | some p' =>
        have hp' := htoken p' hcheck
        have hack : p'.m_Ack = p.m_Ack := by rw [hp']
        have hctrl' : p'.m_Flags &&& NET_PACKETFLAG_CONTROL ≠ 0 →
            p'.m_aChunkData 0 = NET_CTRLMSG_KEEPALIVE := by
          rw [hp']
          exact hctrl
        simp only
        by_cases hsix : (c.m_Sixup && SecurityToken != c.m_Token) = true
        · rw [if_pos hsix]
          exact ⟨c, p', false, rfl, hp', .inl ⟨rfl, rfl⟩⟩
        · rw [if_neg hsix]
          by_cases hvalid : (!c.AckValid p'.m_Ack) = true
          · simp only [hvalid, if_true]
            exact ⟨c, p', false, rfl, hp', .inl ⟨rfl, rfl⟩⟩
          · have hok : c.AckValid p.m_Ack = true := by
              rw [hack] at hvalid
              simpa using hvalid
            rw [if_neg hvalid]
            have hrecord : Outbox { c with m_PeerAck := p'.m_Ack } chs live items :=
              h.congr h.state rfl rfl rfl rfl
            -- the packet resends what is asked for
            have hrest : ∃ c₁ chs₁, (if p'.m_Flags &&& NET_PACKETFLAG_RESEND ≠ 0 then
                  CNetConnection.Resend env { c with m_PeerAck := p'.m_Ack }
                else pure { c with m_PeerAck := p'.m_Ack } : Exec _) = .ok c₁ ∧
                Outbox c₁ chs₁ live items ∧
                Sends Put { c with m_PeerAck := p'.m_Ack } c₁ chs chs₁ ∧ c₁.m_State = .ONLINE := by
              split
              · obtain ⟨c₁, chs₁, hresend, hout, hsends, hstate⟩ := hrecord.resend env hput
                exact ⟨c₁, chs₁, hresend, hout, hsends, hstate.trans honline⟩
              · exact ⟨_, chs, rfl, hrecord, .refl Put _ chs, honline⟩
            obtain ⟨c₁, chs₁, hresend, hout₁, hsends₁, hstate₁⟩ := hrest
            have hmsg := CNetConnection.feedMessage_online hstate₁ env hctrl' pAddr ResponseToken
            have htime : Outbox { c₁ with m_LastRecvTime := env.Now } chs₁ live items :=
              hout₁.congr hout₁.state rfl rfl rfl rfl
            obtain ⟨c₂, live₂, hloop, hout₂, hc₂⟩ := htime.ackChunks p'.m_Ack
            refine ⟨c₂, p', true, ?_, hp', .inr ⟨rfl, hok, ?_, chs₁, live₂, ?_, ?_⟩⟩
            · by_cases hflag : p'.m_Flags &&& NET_PACKETFLAG_RESEND ≠ 0
              · rw [if_pos hflag] at hresend ⊢
                simp only [hresend, hmsg, bind, Except.bind]
                rw [if_neg (by decide), if_pos hstate₁, hloop]
                rfl
              · rw [if_neg hflag] at hresend ⊢
                simp only [hresend, hmsg, bind, Except.bind]
                rw [if_neg (by decide), if_pos hstate₁, hloop]
                rfl
            · rw [hc₂]
              exact hstate₁
            · rw [hc₂, ← hack]
              have hstays := hsends₁.stays
              exact ⟨⟨hstays.seq, hstays.ack, hstays.peerAck, hstays.sixup, hstays.addr,
                hstays.unknown⟩, hsends₁.emits⟩
            · rw [← hack]
              exact hout₂

end Outbox

end Fex.Engine.Connection
