import Fex.Engine.Connection.Feeding
import Fex.Engine.Connection.Framing
import Fex.Engine.Connection.Link
import Fex.Lib.Run
import Fex.Lib.Window

/-!
# The link invariant

The chunks are numbered from 1 in the order they were queued; a number is on
the wire modulo `NET_MAX_SEQUENCE`.  `P` of them are acknowledged, `R` are
handed out and `P ≤ R ≤ P + 511` holds for what is queued.  A copy of a chunk
in a packet that may still be delivered is so close to `R` that its sequence
is the expected one only if it is the next chunk; an old ack is so close to `P`
that it is recognised.
-/

namespace Fex.Engine.Connection

open Fex.Lib Fex.Engine.Network Fex.Engine.RingBuffer CNetRecvUnpacker

/-- The sequence of chunk number `n`. -/
abbrev seqOf (start n : Nat) : Nat := wireSeq NET_MAX_SEQUENCE start n

/-- `ch` is a copy of chunk number `n`. -/
structure Copy (queued : List (List UInt8)) (start n : Nat) (ch : Chunk) : Prop where
  pos : 1 ≤ n
  data : queued[n - 1]? = some ch.Data
  seq : ch.Sequence = seqOf start n
  vital : ch.Vital

/-- A copy put into a packet when `t` chunks were queued. -/
def Recent (queued : List (List UInt8)) (start t : Nat) (ch : Chunk) : Prop :=
  ∃ n, Copy queued start n ch ∧ t < n + 511

theorem Copy.le {queued : List (List UInt8)} {start n : Nat} {ch : Chunk}
    (h : Copy queued start n ch) : n ≤ queued.length := by
  have hlt := (List.getElem?_eq_some_iff.mp h.data).1
  have := h.pos
  omega

theorem Copy.append {queued : List (List UInt8)} {start n : Nat} {ch : Chunk}
    (h : Copy queued start n ch) (more : List (List UInt8)) :
    Copy (queued ++ more) start n ch := by
  refine ⟨h.pos, ?_, h.seq, h.vital⟩
  rw [List.getElem?_append_left (List.getElem?_eq_some_iff.mp h.data).1]
  exact h.data

theorem Copy.resent {queued : List (List UInt8)} {start n : Nat} {ch : Chunk}
    (h : Copy queued start n ch) : Copy queued start n ch.resent := by
  refine ⟨h.pos, h.data, h.seq, ?_⟩
  show (ch.Flags ||| NET_CHUNKFLAG_RESEND) &&& NET_CHUNKFLAG_VITAL ≠ 0
  rw [Nat.and_or_distrib_right]
  intro h0
  exact h.vital (Nat.or_eq_zero_iff.mp h0).1

theorem Recent.append {queued : List (List UInt8)} {start t : Nat} {ch : Chunk}
    (h : Recent queued start t ch) (more : List (List UInt8)) :
    Recent (queued ++ more) start t ch := by
  obtain ⟨n, hcopy, hn⟩ := h
  exact ⟨n, hcopy.append more, hn⟩

theorem Recent.mono {queued : List (List UInt8)} {start t t' : Nat} {ch : Chunk}
    (h : Recent queued start t ch) (hle : t' ≤ t) : Recent queued start t' ch := by
  obtain ⟨n, hcopy, hn⟩ := h
  exact ⟨n, hcopy, by omega⟩

/-! ## Comparing sequences -/

theorem inSequence_iff {start n R : Nat} (h₁ : n ≤ R + NET_MAX_SEQUENCE)
    (h₂ : R + 1 < n + NET_MAX_SEQUENCE) :
    seqOf start n = (seqOf start R + 1) % NET_MAX_SEQUENCE ↔ n = R + 1 := by
  rw [wireSeq_succ]
  exact wireSeq_inj (by decide) (by omega) h₂

theorem ackValid_iff (c : CNetConnection) {start P Q r : Nat}
    (hP : c.m_PeerAck = seqOf start P) (hQ : c.m_Sequence = seqOf start Q) (hPQ : P ≤ Q)
    (hwin : Q < P + NET_MAX_SEQUENCE) (hr : r ≤ Q) (hlate : Q < r + NET_MAX_SEQUENCE) :
    c.AckValid (seqOf start r) = true ↔ P ≤ r := by
  rw [← @inCircle_wireSeq NET_MAX_SEQUENCE (by decide) start _ _ _ hPQ hwin hr hlate]
  unfold CNetConnection.AckValid InCircle
  rw [hP, hQ]
  split <;> simp

theorem isSeqInBackroom_nat {x y : Nat} (hx : x < NET_MAX_SEQUENCE) (hy : y < NET_MAX_SEQUENCE) :
    IsSeqInBackroom x y = true ↔ (x ≤ y ∧ y ≤ x + 512) ∨ y + 512 ≤ x := by
  have hN : NET_MAX_SEQUENCE = 1024 := rfl
  rw [hN] at hx hy
  unfold IsSeqInBackroom
  rw [hN]
  simp only
  split <;> simp only [Bool.or_eq_true, Bool.and_eq_true, decide_eq_true_eq] <;> omega

/-- Within half a window the backroom of an ack is what it covers. -/
theorem isSeqInBackroom_iff {start n r : Nat} (h₁ : n < r + 512) (h₂ : r < n + 512) :
    IsSeqInBackroom (seqOf start n) (seqOf start r) = true ↔ n ≤ r := by
  have hN : 0 < NET_MAX_SEQUENCE := by decide
  have hN' : NET_MAX_SEQUENCE = 1024 := rfl
  have hn := wireSeq_lt hN start n
  have hr := wireSeq_lt hN start r
  rw [isSeqInBackroom_nat hn hr]
  rcases Nat.le_total n r with hle | hle
  · obtain ⟨d, rfl⟩ := Nat.exists_eq_add_of_le hle
    have hadd := wireSeq_add hN start n (show d < NET_MAX_SEQUENCE by omega)
    omega
  · obtain ⟨d, rfl⟩ := Nat.exists_eq_add_of_le hle
    have hadd := wireSeq_add hN start r (show d < NET_MAX_SEQUENCE by omega)
    omega

/-! ## The invariant -/

/-- A datagram of the sender: its chunks were queued at most 510 chunks before its count. -/
def FromSender (Sixup : Bool) (queued : List (List UInt8)) (start : Nat)
    (x : NETADDR × List UInt8) (t : Nat) : Prop :=
  ∃ Ack chs, Transports Sixup Ack chs x.2 ∧ ∀ ch ∈ chs, Recent queued start t ch

/-- A datagram of the receiver: no chunks, and the number it had handed out. -/
def FromReceiver (Sixup : Bool) (start R : Nat) (x : NETADDR × List UInt8) (t : Nat) : Prop :=
  ∃ r, r ≤ R ∧ t ≤ r + 511 ∧ Transports Sixup (seqOf start r) [] x.2

/-- The sending endpoint: its pending chunks `chs` and the numbers `ns` of the chunks it holds for
a resend. -/
structure SenderTracks (start : Nat) (s : Link) (P : Nat) (chs : List Chunk) (live : List Nat)
    (items : List Chunk) (ns : List Nat) : Prop where
  outbox : Outbox s.a.conn chs live items
  seq : s.a.conn.m_Sequence = seqOf start s.queued.length
  peerAck : s.a.conn.m_PeerAck = seqOf start P
  building : s.building ≤ s.queued.length
  pending : ∀ ch ∈ chs, Recent s.queued start s.building ch
  numbers : List.Forall₂ (fun ch n => Copy s.queued start n ch) items ns
  sorted : ns.Pairwise (· < ·)
  above : ∀ n ∈ ns, P < n
  sent : List.Forall₂ (FromSender s.a.conn.m_Sixup s.queued start) s.a.conn.m_Socket s.sentA
  unpacker : s.a.unpacker.m_Valid = true → s.a.unpacker.m_Data.m_NumChunks = 0

/-- The receiving endpoint. -/
structure ReceiverTracks (start : Nat) (s : Link) (R : Nat) : Prop where
  outbox : ∃ live, Outbox s.b.conn [] live []
  ack : s.b.conn.m_Ack = seqOf start R
  known : s.b.conn.m_UnknownSeq = false
  sent : List.Forall₂ (FromReceiver s.b.conn.m_Sixup start R) s.b.conn.m_Socket s.sentB
  delivered : s.delivered = s.queued.take R
  unpacker : s.b.unpacker.m_Valid = true → ∃ chs,
    Carries s.b.unpacker.m_Data (splitBits s.b.conn.m_Sixup) chs ∧
      ∀ ch ∈ chs, Recent s.queued start s.unpacking ch

structure Tracks (start : Nat) (s : Link) (P R : Nat) (chs : List Chunk) (live : List Nat)
    (items : List Chunk) (ns : List Nat) : Prop where
  sender : SenderTracks start s P chs live items ns
  receiver : ReceiverTracks start s R
  sixup : s.b.conn.m_Sixup = s.a.conn.m_Sixup
  acked : P ≤ R
  handed : R ≤ s.queued.length
  window : s.queued.length ≤ P + 511
  retained : ∀ i ∈ s.saved, i < R ∨ i + 1 ∈ ns

/-! ## Stamps -/

/-- The counts that `stampA` records fit what was sent. -/
theorem stampA_spec {s : Link} {e : Endpoint} {Sixup : Bool} {Ack start : Nat}
    {chs chs' : List Chunk} {pAddr : NETADDR} {ds : List (List UInt8)}
    (hsent : List.Forall₂ (FromSender Sixup s.queued start) s.a.conn.m_Socket s.sentA)
    (hcount : s.a.conn.m_Construct.m_NumChunks = chs.length)
    (hbuilding : s.building ≤ s.queued.length)
    (hpending : ∀ ch ∈ chs, Recent s.queued start s.building ch)
    (hsocket : e.conn.m_Socket = s.a.conn.m_Socket ++ ds.map fun d => (pAddr, d))
    (hemits : Emits (Recent s.queued start s.queued.length) Sixup Ack chs ds chs') :
    List.Forall₂ (FromSender Sixup s.queued start) e.conn.m_Socket (s.stampA e).sentA ∧
      (∀ ch ∈ chs', Recent s.queued start (s.stampA e).building ch) ∧
      (s.stampA e).building ≤ s.queued.length := by
  set first := if s.a.conn.m_Construct.m_NumChunks = 0 then s.queued.length else s.building
    with hfirst
  have hle : first ≤ s.queued.length := by
    rw [hfirst]
    split <;> omega
  have hold : ∀ ch ∈ chs, Recent s.queued start first ch := by
    intro ch hch
    have hne : s.a.conn.m_Construct.m_NumChunks ≠ 0 := by
      rw [hcount]
      exact Nat.ne_of_gt (List.length_pos_of_mem hch)
    rw [hfirst, if_neg hne]
    exact hpending ch hch
  have hboth : ∀ {new : List Chunk}, (∀ ch ∈ new, Recent s.queued start s.queued.length ch) →
      ∀ ch ∈ chs ++ new, Recent s.queued start first ch := by
    intro new hnew ch hch
    rcases List.mem_append.mp hch with hch | hch
    · exact hold ch hch
    · exact (hnew ch hch).mono hle
  have hdiff : e.conn.m_Socket.length - s.a.conn.m_Socket.length = ds.length := by
    rw [hsocket, List.length_append, List.length_map]
    omega
  unfold Link.stampA
  simp only [hdiff]
  rcases hemits.cases_first with
    ⟨rfl, new, rfl, hnew⟩ | ⟨d, rest, rfl, ⟨new, htrans, hnew⟩, hrest, hlast⟩
  · refine ⟨?_, hboth hnew, hle⟩
    rw [hsocket]
    simpa [Link.stamps] using hsent
  · refine ⟨?_, hlast, Nat.le_refl _⟩
    rw [hsocket]
    refine List.rel_append hsent (.cons ⟨Ack, chs ++ new, htrans, hboth hnew⟩ ?_)
    have hlen : rest.length = (rest.map fun d => (pAddr, d)).length := by rw [List.length_map]
    rw [hlen]
    apply forall₂_replicate
    intro x hx
    obtain ⟨e', he', rfl⟩ := List.mem_map.mp hx
    obtain ⟨chs'', htrans', hall⟩ := hrest e' he'
    exact ⟨Ack, chs'', htrans', hall⟩

/-! ## Receiving a datagram -/

/-- Only the size of the data may differ. -/
theorem Carries.congr {p p' : CNetPacketConstruct} {Split : Nat} {chs : List Chunk}
    (h : Carries p Split chs) (hp : p' = { p with m_DataSize := p'.m_DataSize }) :
    Carries p' Split chs := by
  rw [hp]
  exact ⟨h.small, h.data, h.payload, h.count⟩

/-- A datagram of the peer is dropped, or its ack is taken over and its chunks can be fetched. -/
theorem recv_spec {Put : Chunk → Prop} {e : Endpoint} {chs items : List Chunk} {live : List Nat}
    (h : Outbox e.conn chs live items) (hput : ∀ ch ∈ items, Put ch.resent) {Ack : Nat}
    {packet : List Chunk} {d : List UInt8} (htrans : Transports e.conn.m_Sixup Ack packet d)
    (hvalid : e.unpacker.m_Valid = false) (env : Env) (Addr : NETADDR) :
    ∃ e', e.recv env Addr d = .ok e' ∧
      ((e'.conn = e.conn ∧ e'.unpacker.m_Valid = false) ∨
        (e.conn.AckValid Ack = true ∧ Carries e'.unpacker.m_Data (splitBits e.conn.m_Sixup) packet ∧
          ∃ chs' live', Sends Put { e.conn with m_PeerAck := Ack } e'.conn chs chs' ∧
            Outbox e'.conn chs' live'
              (items.dropWhile fun ch => IsSeqInBackroom ch.Sequence Ack))) := by
  obtain ⟨u, hunpack, hret, -, hu⟩ := htrans e.unpacker.m_Data (some 0)
    (some NET_SECURITY_TOKEN_UNKNOWN) (by simp)
  unfold Endpoint.recv
  simp only [hvalid, Bool.false_eq_true, if_false, hunpack, bind, Except.bind]
  by_cases hdrop : u.ret ≠ 0 ∨ u.pPacket.m_Flags &&& NET_PACKETFLAG_CONNLESS ≠ 0 ∨
      e.conn.m_State = .OFFLINE ∨ e.conn.m_State = .ERROR
  · rw [if_pos hdrop]
    exact ⟨_, rfl, .inl ⟨rfl, rfl⟩⟩
  · rw [if_neg hdrop]
    have honline : e.conn.m_State = .ONLINE := by
      rcases h.state with honline | herror
      · exact honline
      · exact absurd (.inr (.inr (.inr herror))) hdrop
    obtain ⟨c, p, ok, hfeed, hp, hcases⟩ := h.feed honline env hput (fun hc => (hu.control hc).2)
      Addr (u.pSecurityToken.getD 0) (u.pResponseToken.getD 0)
    rw [hfeed]
    refine ⟨_, rfl, ?_⟩
    rcases hcases with ⟨rfl, rfl⟩ | ⟨rfl, hack, -, chs', live', hsends, hout⟩
    · exact .inl ⟨rfl, rfl⟩
    · right
      rw [hu.ack] at hack hsends hout
      refine ⟨hack, ?_, chs', live', hsends, hout⟩
      have hcarries := hu.carries.congr hp
      simp only
      split
      · exact hcarries
      · exact hcarries

/-- Fetching from a packet without chunks. -/
theorem fetch_empty {e : Endpoint}
    (h : e.unpacker.m_Valid = true → e.unpacker.m_Data.m_NumChunks = 0) :
    e.fetch = .ok ({ e with unpacker := e.unpacker.Clear }, none) := by
  have hend : !e.unpacker.m_Valid ∨ e.unpacker.m_CurrentChunk ≥ e.unpacker.m_Data.m_NumChunks := by
    cases hvalid : e.unpacker.m_Valid with
    | false => exact .inl rfl
    | true =>
        right
        rw [h hvalid]
        exact Nat.zero_le _
  have hfetch : e.unpacker.FetchChunk (some e.conn) =
      .ok (e.unpacker.Clear, some e.conn, none) := by
    unfold FetchChunk FetchLoop
    exact if_pos hend
  unfold Endpoint.fetch
  rw [hfetch]
  rfl

end Fex.Engine.Connection
