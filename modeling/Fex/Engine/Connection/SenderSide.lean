import Fex.Engine.Connection.Tracking

/-!
# The sender keeps the invariant

One lemma for each thing the sending endpoint does.  An acknowledgement only
releases chunks that were handed out, and a chunk that is queued takes the next
number.
-/

namespace Fex.Engine.Connection

open Fex.Lib Fex.Engine.Network Fex.Engine.RingBuffer CNetRecvUnpacker

/-- In increasing order, what is left after the numbers up to `r` is above `r`. -/
theorem dropWhile_above {ns : List Nat} (h : ns.Pairwise (· < ·)) (r : Nat) :
    ∀ n ∈ ns.dropWhile (fun n => decide (n ≤ r)), r < n := by
  induction ns with
  | nil => simp
  | cons m ns ih =>
      obtain ⟨hm, hns⟩ := List.pairwise_cons.mp h
      rw [List.dropWhile_cons]
      split
      · exact ih hns
      · rename_i hle
        rw [decide_eq_true_eq] at hle
        intro n hn
        rcases List.mem_cons.mp hn with rfl | hn
        · omega
        · have := hm n hn
          omega

theorem mem_dropWhile_or {ns : List Nat} (r : Nat) {n : Nat} (hn : n ∈ ns) :
    n ≤ r ∨ n ∈ ns.dropWhile (fun n => decide (n ≤ r)) := by
  induction ns with
  | nil => simp at hn
  | cons m ns ih =>
      rw [List.dropWhile_cons]
      split
      · rename_i hle
        rw [decide_eq_true_eq] at hle
        rcases List.mem_cons.mp hn with rfl | hn
        · exact .inl hle
        · exact ih hn
      · exact .inr hn

namespace SenderTracks

variable {start : Nat} {s : Link} {P : Nat} {chs : List Chunk} {live : List Nat}
  {items : List Chunk} {ns : List Nat}

/-- What may be resent now is recent. -/
theorem recent_items (h : SenderTracks start s P chs live items ns)
    (hwindow : s.queued.length ≤ P + 511) :
    ∀ ch ∈ items, Recent s.queued start s.queued.length ch.resent := by
  intro ch hch
  obtain ⟨n, hn, hcopy⟩ := forall₂_left h.numbers hch
  have := h.above n hn
  exact ⟨n, hcopy.resent, by omega⟩

end SenderTracks

/-- The sender after an operation that started from `c₀`. -/
theorem senderTracks_stamp {start : Nat} {s : Link} {e : Endpoint} {c₀ : CNetConnection} {P' : Nat}
    {chs chs' : List Chunk} {live' : List Nat} {items' : List Chunk} {ns' : List Nat}
    (hsent : List.Forall₂ (FromSender s.a.conn.m_Sixup s.queued start) s.a.conn.m_Socket s.sentA)
    (hcount : s.a.conn.m_Construct.m_NumChunks = chs.length)
    (hbuilding : s.building ≤ s.queued.length)
    (hpending : ∀ ch ∈ chs, Recent s.queued start s.building ch)
    (hsocket : c₀.m_Socket = s.a.conn.m_Socket) (hsixup : c₀.m_Sixup = s.a.conn.m_Sixup)
    (hsends : Sends (Recent s.queued start s.queued.length) c₀ e.conn chs chs')
    (hout : Outbox e.conn chs' live' items')
    (hseq : c₀.m_Sequence = seqOf start s.queued.length)
    (hpeerAck : c₀.m_PeerAck = seqOf start P')
    (hnumbers : List.Forall₂ (fun ch n => Copy s.queued start n ch) items' ns')
    (hsorted : ns'.Pairwise (· < ·)) (habove : ∀ n ∈ ns', P' < n)
    (hunpacker : e.unpacker.m_Valid = true → e.unpacker.m_Data.m_NumChunks = 0) :
    SenderTracks start (s.stampA e) P' chs' live' items' ns' := by
  obtain ⟨ds, hsocket', hemits⟩ := hsends.emits
  rw [hsocket] at hsocket'
  rw [hsixup] at hemits
  obtain ⟨hsent', hpending', hbuilding'⟩ :=
    stampA_spec hsent hcount hbuilding hpending hsocket' hemits
  have hstays := hsends.stays
  refine ⟨hout, hstays.seq.trans hseq, hstays.peerAck.trans hpeerAck, hbuilding', hpending',
    hnumbers, hsorted, habove, ?_, hunpacker⟩
  show List.Forall₂ (FromSender e.conn.m_Sixup s.queued start) _ _
  rw [hstays.sixup, hsixup]
  exact hsent'

namespace SenderTracks

variable {start : Nat} {s : Link} {P : Nat} {chs : List Chunk} {live : List Nat}
  {items : List Chunk} {ns : List Nat}

/-- An operation that leaves the acknowledged chunks and the resend buffer alone. -/
theorem stamp (h : SenderTracks start s P chs live items ns) {e : Endpoint} {chs' : List Chunk}
    (hsends : Sends (Recent s.queued start s.queued.length) s.a.conn e.conn chs chs')
    (hout : Outbox e.conn chs' live items)
    (hunpacker : e.unpacker.m_Valid = true → e.unpacker.m_Data.m_NumChunks = 0) :
    SenderTracks start (s.stampA e) P chs' live items ns :=
  senderTracks_stamp h.sent h.outbox.holds.count h.building h.pending rfl rfl hsends hout h.seq
    h.peerAck h.numbers h.sorted h.above hunpacker

theorem flush (h : SenderTracks start s P chs live items ns) (env : Env) :
    ∃ e chs', s.a.act s.b.conn.m_Socket (.flush env) = .ok (e, none) ∧
      SenderTracks start (s.stampA e) P chs' live items ns ∧ e.conn.m_Sixup = s.a.conn.m_Sixup := by
  obtain ⟨c, n, hflush, hout, hsends, -, -⟩ :=
    h.outbox.flush (Recent s.queued start s.queued.length) env
  refine ⟨{ s.a with conn := c }, [], ?_, h.stamp hsends hout h.unpacker, hsends.stays.sixup⟩
  simp only [Endpoint.act, hflush, bind, Except.bind]
  rfl

theorem update (h : SenderTracks start s P chs live items ns)
    (hwindow : s.queued.length ≤ P + 511) (env : Env) :
    ∃ e chs', s.a.act s.b.conn.m_Socket (.update env) = .ok (e, none) ∧
      SenderTracks start (s.stampA e) P chs' live items ns ∧ e.conn.m_Sixup = s.a.conn.m_Sixup := by
  obtain ⟨c, chs', hupdate, hout, hsends⟩ := h.outbox.update env (h.recent_items hwindow)
  refine ⟨{ s.a with conn := c }, chs', ?_, h.stamp hsends hout h.unpacker, hsends.stays.sixup⟩
  simp only [Endpoint.act, hupdate, bind, Except.bind]
  rfl

theorem fetch (h : SenderTracks start s P chs live items ns) :
    ∃ e, s.a.act s.b.conn.m_Socket .fetch = .ok (e, none) ∧
      SenderTracks start (s.stampA e) P chs live items ns ∧ e.conn.m_Sixup = s.a.conn.m_Sixup := by
  refine ⟨_, fetch_empty h.unpacker, h.stamp (.refl _ _ _) h.outbox ?_, rfl⟩
  intro hvalid
  cases hvalid

/-- A datagram of the receiver: an old ack is not taken over, and what a valid one releases was
handed out. -/
theorem recv {R : Nat} (h : SenderTracks start s P chs live items ns)
    (hsent : List.Forall₂ (FromReceiver s.a.conn.m_Sixup start R) s.b.conn.m_Socket s.sentB)
    (hPR : P ≤ R) (hRQ : R ≤ s.queued.length) (hwindow : s.queued.length ≤ P + 511) (env : Env)
    (Addr : NETADDR) {i : Nat} (hlate : ∀ t, s.sentB[i]? = some t → s.queued.length < t + 512) :
    ∃ e P' chs' live' items' ns',
      s.a.act s.b.conn.m_Socket (.recv env Addr i) = .ok (e, none) ∧
      SenderTracks start (s.stampA e) P' chs' live' items' ns' ∧
      e.conn.m_Sixup = s.a.conn.m_Sixup ∧ P ≤ P' ∧ P' ≤ R ∧ ∀ n ∈ ns, n ≤ R ∨ n ∈ ns' := by
  have hkeep : ∀ e : Endpoint, e.conn = s.a.conn →
      (e.unpacker.m_Valid = true → e.unpacker.m_Data.m_NumChunks = 0) →
      SenderTracks start (s.stampA e) P chs live items ns := by
    intro e he hunpacker
    have hsends := Sends.refl (Recent s.queued start s.queued.length) s.a.conn chs
    apply h.stamp (e := e) _ _ hunpacker
    · rw [he]
      exact hsends
    · rw [he]
      exact h.outbox
  have hall : ∀ n ∈ ns, n ≤ R ∨ n ∈ ns := fun n hn => .inr hn
  simp only [Endpoint.act]
  cases hi : s.b.conn.m_Socket[i]? with
  | none => exact ⟨s.a, P, chs, live, items, ns, rfl, hkeep _ rfl h.unpacker, rfl, le_rfl, hPR, hall⟩
  | some x =>
      obtain ⟨t, ht, r, hrR, htr, htrans⟩ := forall₂_getElem? hsent hi
      have hQt := hlate t ht
      simp only
      by_cases hvalid : s.a.unpacker.m_Valid = true
      · refine ⟨s.a, P, chs, live, items, ns, ?_, hkeep _ rfl h.unpacker, rfl, le_rfl, hPR, hall⟩
        unfold Endpoint.recv
        rw [if_pos hvalid]
        rfl
      · obtain ⟨e, hrecv, hcases⟩ := recv_spec h.outbox (h.recent_items hwindow) htrans
          (by simpa using hvalid) env Addr
        have hact : (do return (← s.a.recv env Addr x.2, none) : Exec (Endpoint × Option (List UInt8))) =
            .ok (e, none) := by
          rw [hrecv]
          rfl
        rcases hcases with ⟨hconn, hinvalid⟩ | ⟨hack, hcarries, chs', live', hsends, hout⟩
        · refine ⟨e, P, chs, live, items, ns, hact, hkeep e hconn ?_, by rw [hconn], le_rfl, hPR, hall⟩
          intro hv
          rw [hinvalid] at hv
          cases hv
        · have hN : NET_MAX_SEQUENCE = 1024 := rfl
          have hPr : P ≤ r := (ackValid_iff s.a.conn h.peerAck h.seq (by omega) (by omega)
            (by omega) (by omega)).mp hack
          have hnumbers := forall₂_dropWhile (p := fun ch => IsSeqInBackroom ch.Sequence (seqOf start r))
            (q := fun n => decide (n ≤ r)) h.numbers (by
              intro ch _ n hn hcopy
              have habove := h.above n hn
              have hle := hcopy.le
              have hiff := @isSeqInBackroom_iff start n r (by omega) (by omega)
              rw [← hcopy.seq] at hiff
              by_cases hnr : n ≤ r
              · rw [hiff.mpr hnr, decide_eq_true hnr]
              · rw [decide_eq_false hnr]
                exact Bool.eq_false_iff.mpr fun hback => hnr (hiff.mp hback))
          have hsorted := h.sorted.sublist (List.dropWhile_sublist fun n => decide (n ≤ r))
          refine ⟨e, r, chs', live', items.dropWhile fun ch => IsSeqInBackroom ch.Sequence (seqOf start r),
            ns.dropWhile fun n => decide (n ≤ r), hact, ?_, hsends.stays.sixup, hPr, hrR, fun n hn => ?_⟩
          · apply senderTracks_stamp h.sent h.outbox.holds.count h.building h.pending _ _ hsends hout
              h.seq rfl hnumbers hsorted (dropWhile_above h.sorted r)
            · intro _
              exact Nat.le_zero.mp hcarries.count
            · rfl
            · rfl
          · rcases mem_dropWhile_or r hn with hle | hmem
            · exact .inl (by omega)
            · exact .inr hmem

/-- The guard of `queue` in numbers. -/
theorem unacknowledged_eq (h : SenderTracks start s P chs live items ns) (hPQ : P ≤ s.queued.length)
    (hwindow : s.queued.length ≤ P + 511) : s.unacknowledged = s.queued.length - P := by
  obtain ⟨d, hd⟩ := Nat.exists_eq_add_of_le hPQ
  have hN : NET_MAX_SEQUENCE = 1024 := rfl
  have hadd := wireSeq_add (N := NET_MAX_SEQUENCE) (by decide) start P (show d < NET_MAX_SEQUENCE by omega)
  have hlt := wireSeq_lt (N := NET_MAX_SEQUENCE) (by decide) start P
  have hlt' := wireSeq_lt (N := NET_MAX_SEQUENCE) (by decide) start (P + d)
  unfold Link.unacknowledged
  rw [h.seq, h.peerAck, hd]
  simp only [seqOf, hN] at *
  omega

/-- A vital chunk that fits can be packed, also as a copy. -/
theorem packable_vital {Sixup : Bool} {pData : List UInt8} {Sequence : Nat}
    (hsize : pData.length < 2 ^ (6 + splitBits Sixup))
    (hfits : NET_MAX_CHUNKHEADERSIZE + pData.length + TOKEN_SIZE ≤ NET_MAX_PAYLOAD)
    (hseq : Sequence < NET_MAX_SEQUENCE) :
    Packable Sixup { Flags := NET_CHUNKFLAG_VITAL, Data := pData, Sequence := Sequence } ∧
      Packable Sixup (Chunk.resent
        { Flags := NET_CHUNKFLAG_VITAL, Data := pData, Sequence := Sequence }) := by
  have hone : NET_CHUNKFLAG_VITAL < 4 := by decide
  have hthree : NET_CHUNKFLAG_VITAL ||| NET_CHUNKFLAG_RESEND < 4 := by decide
  have hheader : headerSize NET_CHUNKFLAG_VITAL = NET_MAX_CHUNKHEADERSIZE := by decide
  have hheader' : headerSize (NET_CHUNKFLAG_VITAL ||| NET_CHUNKFLAG_RESEND) =
      NET_MAX_CHUNKHEADERSIZE := by decide
  refine ⟨⟨⟨hone, hsize, hseq⟩, ?_⟩, ⟨hthree, hsize, hseq⟩, ?_⟩
  · unfold Chunk.FitsPacket
    rw [hheader]
    exact hfits
  · unfold Chunk.FitsPacket Chunk.resent
    rw [hheader']
    exact hfits

/-- The state once the chunk is queued, before the counts are brought up to date. -/
theorem queue {pData : List UInt8} {env : Env} (h : SenderTracks start s P chs live items ns)
    (hPQ : P ≤ s.queued.length) (hfits : s.Fits (.queue env pData)) (saved : List Nat) :
    ∃ c ret chs' live' items' ns',
      s.a.conn.QueueChunk env NET_CHUNKFLAG_VITAL pData = .ok (c, ret) ∧
      SenderTracks start (Link.stampA { s with queued := s.queued ++ [pData], saved := saved }
        { s.a with conn := c }) P chs' live' items' ns' ∧
      c.m_Sixup = s.a.conn.m_Sixup ∧ (∀ n ∈ ns, n ∈ ns') ∧
      (ret = 0 → s.queued.length + 1 ∈ ns') := by
  set Q := s.queued.length with hQ
  set c₀ : CNetConnection := { s.a.conn with m_Sequence := seqOf start (Q + 1) } with hc₀
  set ch : Chunk := { Flags := NET_CHUNKFLAG_VITAL, Data := pData, Sequence := seqOf start (Q + 1) }
    with hch
  have hlen : (s.queued ++ [pData]).length = Q + 1 := by simp [hQ]
  have hnext : nextSeq s.a.conn.m_Sequence NET_CHUNKFLAG_VITAL = seqOf start (Q + 1) := by
    rw [h.seq]
    exact wireSeq_succ start Q
  have hvital : NET_CHUNKFLAG_VITAL &&& NET_CHUNKFLAG_VITAL ≠ 0 := by decide
  have hcopy : Copy (s.queued ++ [pData]) start (Q + 1) ch :=
    ⟨Nat.succ_pos _, by simp [hQ, hch], rfl, hvital⟩
  obtain ⟨hpack, hresent⟩ : Packable s.a.conn.m_Sixup ch ∧ Packable s.a.conn.m_Sixup ch.resent :=
    packable_vital hfits.1 hfits.2 (wireSeq_lt (by decide) start (Q + 1))
  have hout₀ : Outbox c₀ chs live items := h.outbox.congr h.outbox.state rfl rfl rfl rfl
  have hput : Recent (s.queued ++ [pData]) start (s.queued ++ [pData]).length ch :=
    ⟨Q + 1, hcopy, by omega⟩
  obtain ⟨c, chs', ret, hqueue, hsends, hstate, hholds, hcases⟩ := hout₀.queueChunkEx env hpack hput
  have hqueue' : s.a.conn.QueueChunk env NET_CHUNKFLAG_VITAL pData = .ok (c, ret) := by
    rw [queueChunk_eq, hnext]
    exact hqueue
  have hstays := hsends.stays
  have hout : ∀ {live' : List Nat} {items' : List Chunk}, Buffered c.m_Buffer live' →
      live'.map (fun p => (c.m_Buffer.chunks p).chunk) = items' →
      (∀ x ∈ items', Packable s.a.conn.m_Sixup x.resent) → Outbox c chs' live' items' := by
    intro live' items' hbuf hstored hall
    refine ⟨?_, ?_, ?_, hbuf, hstored, ?_⟩
    · rw [hstate]
      exact h.outbox.state
    · rw [hstays.ack]
      exact h.outbox.ack
    · rw [hstays.sixup]
      exact hholds
    · rw [hstays.sixup]
      exact hall
  -- what holds for the longer list of queued chunks
  have hsent : List.Forall₂ (FromSender s.a.conn.m_Sixup (s.queued ++ [pData]) start)
      s.a.conn.m_Socket s.sentA := by
    apply h.sent.imp
    rintro x t ⟨Ack, packet, htrans, hall⟩
    exact ⟨Ack, packet, htrans, fun x hx => (hall x hx).append _⟩
  have hpending : ∀ x ∈ chs, Recent (s.queued ++ [pData]) start s.building x :=
    fun x hx => (h.pending x hx).append _
  have hnumbers : List.Forall₂ (fun ch n => Copy (s.queued ++ [pData]) start n ch) items ns :=
    h.numbers.imp fun x n hx => hx.append _
  have hbuilding : s.building ≤ (s.queued ++ [pData]).length := by
    have := h.building
    omega
  have hseq : c₀.m_Sequence = seqOf start (s.queued ++ [pData]).length := by rw [hlen]
  have hfinish : ∀ {live' : List Nat} {items' : List Chunk} {ns' : List Nat},
      Outbox c chs' live' items' →
      List.Forall₂ (fun ch n => Copy (s.queued ++ [pData]) start n ch) items' ns' →
      ns'.Pairwise (· < ·) → (∀ n ∈ ns', P < n) →
      SenderTracks start (Link.stampA { s with queued := s.queued ++ [pData], saved := saved }
        { s.a with conn := c }) P chs' live' items' ns' :=
    fun hout' hnum hsorted habove => senderTracks_stamp
      (s := { s with queued := s.queued ++ [pData], saved := saved }) hsent h.outbox.holds.count
      hbuilding hpending (show c₀.m_Socket = s.a.conn.m_Socket from rfl) rfl hsends hout' hseq
      h.peerAck hnum hsorted habove h.unpacker
  have hkeep : ∀ {live' : List Nat}, Outbox c chs' live' items → ret ≠ 0 →
      ∃ c ret chs' live' items' ns',
        s.a.conn.QueueChunk env NET_CHUNKFLAG_VITAL pData = .ok (c, ret) ∧
        SenderTracks start (Link.stampA { s with queued := s.queued ++ [pData], saved := saved }
          { s.a with conn := c }) P chs' live' items' ns' ∧
        c.m_Sixup = s.a.conn.m_Sixup ∧ (∀ n ∈ ns, n ∈ ns') ∧ (ret = 0 → Q + 1 ∈ ns') := by
    intro live' hout' hret
    exact ⟨c, ret, chs', live', items, ns, hqueue', hfinish hout' hnumbers h.sorted h.above,
      hstays.sixup, fun n hn => hn, fun h0 => absurd h0 hret⟩
  rcases hcases with ⟨hc, hret, -⟩ | ⟨live', hsaved⟩
  · refine hkeep (@hout live _ ?_ ?_ h.outbox.packable) (by rw [hret]; decide)
    · rw [hc]
      exact h.outbox.buffer
    · rw [hc]
      exact h.outbox.stored
  · generalize hb : c.m_Buffer = b at hsaved hout
    cases hsaved with
    | skip hskip =>
        have hnot : NET_CHUNKFLAG_VITAL &&& NET_CHUNKFLAG_RESEND = 0 := by decide
        exact absurd ⟨hvital, hnot⟩ hskip
    | full b' hsave hbuf hchunks =>
        apply hkeep (hout hbuf _ h.outbox.packable) (by decide)
        rw [hchunks]
        exact h.outbox.stored
    | stored b' p hsave hnew hbuf hchunks =>
        have hmap : (live ++ [p]).map (fun q => (b.chunks q).chunk) = items ++ [ch] := by
          rw [hchunks, List.map_append, ← h.outbox.stored]
          congr 1
          · apply List.map_congr_left
            intro q hq
            rw [Function.update_of_ne (by rintro rfl; exact hnew hq)]
          · simp only [List.map_cons, List.map_nil, Function.update_self]
            rfl
        have hall : ∀ x ∈ items ++ [ch], Packable s.a.conn.m_Sixup x.resent := by
          intro x hx
          rcases List.mem_append.mp hx with hx | hx
          · exact h.outbox.packable x hx
          · rw [List.mem_singleton.mp hx]
            exact hresent
        have hle : ∀ n ∈ ns, n ≤ Q := by
          intro n hn
          obtain ⟨x, -, hx⟩ := forall₂_right h.numbers hn
          exact hx.le
        refine ⟨c, 0, chs', live ++ [p], items ++ [ch], ns ++ [Q + 1], hqueue', ?_, hstays.sixup,
          fun n hn => by simp [hn], fun _ => by simp⟩
        apply hfinish (hout hbuf hmap hall) (List.rel_append hnumbers (.cons hcopy .nil))
        · rw [List.pairwise_append]
          refine ⟨h.sorted, List.pairwise_singleton _ _, fun m hm n hn => ?_⟩
          have := hle m hm
          rw [List.mem_singleton.mp hn]
          omega
        · intro n hn
          rcases List.mem_append.mp hn with hn | hn
          · exact h.above n hn
          · rw [List.mem_singleton.mp hn]
            omega

end SenderTracks

end Fex.Engine.Connection
