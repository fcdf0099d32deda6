import Fex.Engine.Connection.Tracking

/-!
# The receiver keeps the invariant

One lemma for each thing the receiving endpoint does.  It queues nothing, so
what it sends are acknowledgements, and what it hands out is the next chunk.
-/

namespace Fex.Engine.Connection

open Fex.Lib Fex.Engine.Network Fex.Engine.RingBuffer CNetRecvUnpacker

/-- An endpoint without chunks sends none. -/
theorem Emits.empty {Sixup : Bool} {Ack : Nat} {ds : List (List UInt8)} {chs : List Chunk}
    (h : Emits (fun _ => False) Sixup Ack [] ds chs) :
    chs = [] ∧ ∀ d ∈ ds, Transports Sixup Ack [] d := by
  induction h with
  | nil => exact ⟨rfl, by simp⟩
  | put ch _ hput _ => exact hput.elim
  | send d _ hd ih =>
      obtain ⟨rfl, hall⟩ := ih
      refine ⟨rfl, fun x hx => ?_⟩
      rcases List.mem_append.mp hx with hx | hx
      · exact hall x hx
      · rw [List.mem_singleton.mp hx]
        exact hd

/-- The receiver after an operation that started from `c₀`. -/
theorem receiverTracks_stamp {start R : Nat} {s : Link} {e : Endpoint} {c₀ : CNetConnection}
    {chs' : List Chunk} {live' : List Nat}
    (hsent : List.Forall₂ (FromReceiver s.b.conn.m_Sixup start R) s.b.conn.m_Socket s.sentB)
    (hsocket : c₀.m_Socket = s.b.conn.m_Socket) (hsixup : c₀.m_Sixup = s.b.conn.m_Sixup)
    (hsends : Sends (fun _ => False) c₀ e.conn [] chs') (hout : Outbox e.conn chs' live' [])
    (hack : c₀.m_Ack = seqOf start R) (hknown : c₀.m_UnknownSeq = false)
    (hlate : s.queued.length ≤ R + 511) (hdelivered : s.delivered = s.queued.take R)
    (hunpacker : e.unpacker.m_Valid = true → ∃ chs,
      Carries e.unpacker.m_Data (splitBits s.b.conn.m_Sixup) chs ∧
        ∀ ch ∈ chs, Recent s.queued start s.unpacking ch) :
    ReceiverTracks start (s.stampB e) R := by
  obtain ⟨ds, hsocket', hemits⟩ := hsends.emits
  obtain ⟨rfl, hall⟩ := hemits.empty
  have hstays := hsends.stays
  rw [hsixup, hack] at hall
  rw [hsocket] at hsocket'
  have hsixup' : e.conn.m_Sixup = s.b.conn.m_Sixup := hstays.sixup.trans hsixup
  refine ⟨⟨live', hout⟩, hstays.ack.trans hack, hstays.unknown.trans hknown, ?_, hdelivered, ?_⟩
  · have hdiff : e.conn.m_Socket.length - s.b.conn.m_Socket.length =
        (ds.map fun d => (c₀.m_PeerAddr, d)).length := by
      rw [hsocket', List.length_append]
      omega
    show List.Forall₂ (FromReceiver e.conn.m_Sixup start R) e.conn.m_Socket
      (s.sentB ++ List.replicate (e.conn.m_Socket.length - s.b.conn.m_Socket.length) s.queued.length)
    rw [hdiff, hsixup', hsocket']
    apply List.rel_append hsent
    apply forall₂_replicate
    intro x hx
    obtain ⟨d, hd, rfl⟩ := List.mem_map.mp hx
    exact ⟨R, le_rfl, hlate, hall d hd⟩
  · show e.unpacker.m_Valid = true → ∃ chs,
      Carries e.unpacker.m_Data (splitBits e.conn.m_Sixup) chs ∧ _
    rw [hsixup']
    exact hunpacker

theorem FromReceiver.mono {Sixup : Bool} {start R R' t : Nat} {x : NETADDR × List UInt8}
    (h : FromReceiver Sixup start R x t) (hle : R ≤ R') : FromReceiver Sixup start R' x t := by
  obtain ⟨r, hr, ht, htrans⟩ := h
  exact ⟨r, hr.trans hle, ht, htrans⟩

/-- The receiver after it handed something out and sent nothing. -/
theorem receiverTracks_quiet {start R : Nat} {s : Link} {e : Endpoint} {live : List Nat}
    {payload : Option (List UInt8)} (hout : Outbox e.conn [] live [])
    (hack : e.conn.m_Ack = seqOf start R) (hknown : e.conn.m_UnknownSeq = false)
    (hsocket : e.conn.m_Socket = s.b.conn.m_Socket) (hsixup : e.conn.m_Sixup = s.b.conn.m_Sixup)
    (hsent : List.Forall₂ (FromReceiver s.b.conn.m_Sixup start R) s.b.conn.m_Socket s.sentB)
    (hdelivered : s.delivered ++ payload.toList = s.queued.take R)
    (hunpacker : e.unpacker.m_Valid = true → ∃ chs,
      Carries e.unpacker.m_Data (splitBits s.b.conn.m_Sixup) chs ∧
        ∀ ch ∈ chs, Recent s.queued start s.unpacking ch) :
    ReceiverTracks start
      (Link.stampB { s with delivered := s.delivered ++ payload.toList } e) R := by
  refine ⟨⟨live, hout⟩, hack, hknown, ?_, hdelivered, ?_⟩
  · show List.Forall₂ (FromReceiver e.conn.m_Sixup start R) e.conn.m_Socket
      (s.sentB ++ List.replicate (e.conn.m_Socket.length - s.b.conn.m_Socket.length) s.queued.length)
    rw [hsixup, hsocket, Nat.sub_self, List.replicate_zero, List.append_nil]
    exact hsent
  · show e.unpacker.m_Valid = true → ∃ chs,
      Carries e.unpacker.m_Data (splitBits e.conn.m_Sixup) chs ∧ _
    rw [hsixup]
    exact hunpacker

/-- A recent copy is taken if it is the next chunk and skipped otherwise. -/
theorem sequenced_recent {queued : List (List UInt8)} {start t R : Nat} {c : CNetConnection}
    {ch : Chunk} (h : Recent queued start t ch) (hlate : queued.length < t + 512)
    (hRQ : R ≤ queued.length) (hwindow : queued.length ≤ R + 511)
    (hack : c.m_Ack = seqOf start R) (hknown : c.m_UnknownSeq = false) :
    (queued[R]? = some ch.Data ∧ Sequenced (some c) ch.header =
      (some { c with m_UnknownSeq := false, m_Ack := seqOf start (R + 1) }, true)) ∨
    Sequenced (some c) ch.header = (some c, false) ∨
    Sequenced (some c) ch.header = (some c.SignalResend, false) := by
  obtain ⟨n, hcopy, hn⟩ := h
  have hle := hcopy.le
  have hN : NET_MAX_SEQUENCE = 1024 := rfl
  have hiff := @inSequence_iff start n R (by omega) (by omega)
  rw [← hcopy.seq, ← hack] at hiff
  have hvital : ch.Flags &&& NET_CHUNKFLAG_VITAL ≠ 0 := hcopy.vital
  unfold Sequenced Chunk.header
  simp only [if_pos hvital, if_neg hvital]
  by_cases hnext : n = R + 1
  · left
    have hdata := hcopy.data
    have hseq := hcopy.seq
    rw [hnext] at hdata hseq
    refine ⟨hdata, ?_⟩
    rw [if_pos (.inl (congrArg Nat.cast (hiff.mpr hnext))), Int.toNat_natCast, hseq]
  · right
    have hno : ¬ ((ch.Sequence : Int) = ((c.m_Ack + 1) % NET_MAX_SEQUENCE : Nat) ∨
        c.m_UnknownSeq = true) := by
      rw [hknown]
      rintro (heq | hf)
      · exact hnext (hiff.mp (Int.ofNat_inj.mp heq))
      · cases hf
    rw [if_neg hno]
    split
    · exact .inl rfl
    · exact .inr rfl

theorem Outbox.signalResend {c : CNetConnection} {chs items : List Chunk} {live : List Nat}
    (h : Outbox c chs live items) : Outbox c.SignalResend chs live items := by
  refine ⟨h.state, h.ack, ⟨h.holds.small, h.holds.data, h.holds.size, h.holds.room, h.holds.count, ?_⟩,
    h.buffer, h.stored, h.packable⟩
  right
  show c.m_Construct.m_Flags ||| NET_PACKETFLAG_RESEND = 16
  rcases h.holds.flags with hflags | hflags <;> rw [hflags] <;> rfl

/-- What `FetchChunk` hands out is the next chunk. -/
theorem fetchLoop_receiver {queued : List (List UInt8)} {start t R : Nat} {chs : List Chunk}
    {live : List Nat} (hrecent : ∀ ch ∈ chs, Recent queued start t ch)
    (hlate : queued.length < t + 512) (hRQ : R ≤ queued.length)
    (hwindow : queued.length ≤ R + 511) {n : Nat} {u : CNetRecvUnpacker} {c : CNetConnection}
    (hu : Carries u.m_Data (splitBits c.m_Sixup) chs) (hout : Outbox c [] live [])
    (hack : c.m_Ack = seqOf start R) (hknown : c.m_UnknownSeq = false)
    (hvalid : u.m_Valid = true) (hn : u.m_Data.m_NumChunks - u.m_CurrentChunk < n) :
    ∃ u' c' r, FetchLoop n u (some c) = .ok (u', some c', r) ∧ Outbox c' [] live [] ∧
      c'.m_Socket = c.m_Socket ∧ c'.m_Sixup = c.m_Sixup ∧ c'.m_UnknownSeq = false ∧
      ((r = none ∧ u'.m_Valid = false ∧ c'.m_Ack = seqOf start R) ∨
        ∃ ch, r = some ch ∧ u'.m_Data = u.m_Data ∧ ch.m_Flags &&& NET_CHUNKFLAG_VITAL ≠ 0 ∧
          queued[R]? = some (u.m_Data.m_aChunkData.slice ch.m_pData ch.m_DataSize) ∧
          c'.m_Ack = seqOf start (R + 1)) := by
  induction n generalizing u c with
  | zero => omega
  | succ n ih =>
      by_cases hend : u.m_Data.m_NumChunks ≤ u.m_CurrentChunk
      · exact ⟨u.Clear, c, none, fetchLoop_end hend, hout, rfl, rfl, hknown, .inl ⟨rfl, rfl, hack⟩⟩
      · have hcount := hu.count
        have hlt : u.m_CurrentChunk < chs.length := by omega
        set xs := chs.take u.m_CurrentChunk with hxs
        set ch := chs[u.m_CurrentChunk] with hch
        have hsplit : chs = xs ++ ch :: chs.drop (u.m_CurrentChunk + 1) := by
          rw [hxs, hch, ← List.drop_eq_getElem_cons hlt, List.take_append_drop]
        have hcur : u.m_CurrentChunk = xs.length := by
          rw [hxs, List.length_take]
          omega
        have hcarries : Carries u.m_Data (splitOf (some c)) (xs ++ ch :: chs.drop (u.m_CurrentChunk + 1)) := by
          rw [← hsplit]
          exact hu
        rw [fetchLoop_next hcarries hvalid hcur (by omega)]
        split
        · exact ⟨_, c, none, rfl, hout, rfl, rfl, hknown, .inl ⟨rfl, rfl, hack⟩⟩
        · have hmem : ch ∈ chs := List.getElem_mem hlt
          rcases sequenced_recent (hrecent ch hmem) hlate hRQ hwindow hack hknown with
            ⟨hdata, hseq⟩ | hseq | hseq
          · rw [hseq]
            refine ⟨_, _, _, rfl, ?_, rfl, rfl, rfl, .inr ⟨_, rfl, rfl, ?_, ?_, rfl⟩⟩
            · exact ⟨hout.state, wireSeq_lt (by decide) start (R + 1), hout.holds, hout.buffer,
                hout.stored, hout.packable⟩
            · obtain ⟨m, hcopy, -⟩ := hrecent ch hmem
              exact hcopy.vital
            · rw [hcarries.chunk_data]
              exact hdata
          · rw [hseq]
            exact @ih { u with m_CurrentChunk := xs.length + 1 } c hu hout hack hknown hvalid
              (by simp only; omega)
          · rw [hseq]
            exact @ih { u with m_CurrentChunk := xs.length + 1 } c.SignalResend hu
              hout.signalResend hack hknown hvalid (by simp only; omega)

namespace ReceiverTracks

variable {start : Nat} {s : Link} {R : Nat}

/-- The receiver with the payloads and the count of the step recorded. -/
theorem flush (h : ReceiverTracks start s R) (hlate : s.queued.length ≤ R + 511) (env : Env) :
    ∃ e, s.b.act s.a.conn.m_Socket (.flush env) = .ok (e, none) ∧
      ReceiverTracks start (s.stampB e) R ∧ e.conn.m_Sixup = s.b.conn.m_Sixup := by
  obtain ⟨live, hout⟩ := h.outbox
  obtain ⟨c, n, hflush, hout', hsends, -, -⟩ := hout.flush (fun _ => False) env
  refine ⟨{ s.b with conn := c }, ?_, ?_, hsends.stays.sixup⟩
  · simp only [Endpoint.act, hflush, bind, Except.bind]
    rfl
  · exact receiverTracks_stamp h.sent rfl rfl hsends hout' h.ack h.known hlate h.delivered h.unpacker

theorem update (h : ReceiverTracks start s R) (hlate : s.queued.length ≤ R + 511) (env : Env) :
    ∃ e, s.b.act s.a.conn.m_Socket (.update env) = .ok (e, none) ∧
      ReceiverTracks start (s.stampB e) R ∧ e.conn.m_Sixup = s.b.conn.m_Sixup := by
  obtain ⟨live, hout⟩ := h.outbox
  obtain ⟨c, chs', hupdate, hout', hsends⟩ := @Outbox.update (fun _ => False) _ _ _ _ hout env (by simp)
  refine ⟨{ s.b with conn := c }, ?_, ?_, hsends.stays.sixup⟩
  · simp only [Endpoint.act, hupdate, bind, Except.bind]
    rfl
  · exact receiverTracks_stamp h.sent rfl rfl hsends hout' h.ack h.known hlate h.delivered h.unpacker

/-- A datagram of the sender; its count goes with it into the unpacker. -/
theorem recv (h : ReceiverTracks start s R) (hlate : s.queued.length ≤ R + 511)
    (hsent : List.Forall₂ (FromSender s.b.conn.m_Sixup s.queued start) s.a.conn.m_Socket s.sentA)
    (env : Env) (Addr : NETADDR) (i : Nat) :
    ∃ e, s.b.act s.a.conn.m_Socket (.recv env Addr i) = .ok (e, none) ∧
      ReceiverTracks start (Link.stampB { s with
        unpacking := if s.b.unpacker.m_Valid then s.unpacking else s.sentA.getD i 0 } e) R ∧
      e.conn.m_Sixup = s.b.conn.m_Sixup := by
  obtain ⟨live, hout⟩ := h.outbox
  set s' : Link := { s with
    unpacking := if s.b.unpacker.m_Valid then s.unpacking else s.sentA.getD i 0 } with hs'
  -- nothing happens to the connection and the unpacker goes on as before
  have hkeep : ∀ e : Endpoint, e.conn = s.b.conn →
      (e.unpacker.m_Valid = true → s.b.unpacker.m_Valid = true ∧ e.unpacker = s.b.unpacker) →
      ReceiverTracks start (s'.stampB e) R := by
    intro e he hunpacker
    have hsends := Sends.refl (fun _ => False) s.b.conn []
    apply @receiverTracks_stamp start R s' e s.b.conn [] live h.sent rfl rfl _ _ h.ack
      h.known hlate h.delivered
    · intro hvalid
      obtain ⟨hold, heq⟩ := hunpacker hvalid
      have hcount : s'.unpacking = s.unpacking := if_pos hold
      rw [hcount, heq]
      exact h.unpacker hold
    · rw [he]
      exact hsends
    · rw [he]
      exact hout
  simp only [Endpoint.act]
  cases hi : s.a.conn.m_Socket[i]? with
  | none => exact ⟨s.b, rfl, hkeep _ rfl fun hv => ⟨hv, rfl⟩, rfl⟩
  | some x =>
      obtain ⟨t, ht, Ack, packet, htrans, hall⟩ := forall₂_getElem? hsent hi
      simp only
      by_cases hvalid : s.b.unpacker.m_Valid = true
      · refine ⟨s.b, ?_, hkeep _ rfl fun hv => ⟨hv, rfl⟩, rfl⟩
        unfold Endpoint.recv
        rw [if_pos hvalid]
        rfl
      · obtain ⟨e, hrecv, hcases⟩ := @recv_spec (fun _ => False) _ _ _ _ hout (by simp) _ _ _ htrans
          (by simpa using hvalid) env Addr
        refine ⟨e, by rw [hrecv]; rfl, ?_⟩
        rcases hcases with ⟨hconn, hinvalid⟩ | ⟨-, hcarries, chs', live', hsends, hout'⟩
        · refine ⟨hkeep e hconn fun hv => ?_, by rw [hconn]⟩
          rw [hinvalid] at hv
          cases hv
        · refine ⟨?_, hsends.stays.sixup⟩
          have hcount : s'.unpacking = t := by
            show (if s.b.unpacker.m_Valid then s.unpacking else s.sentA.getD i 0) = t
            rw [if_neg hvalid, List.getD_eq_getElem?_getD, ht]
            rfl
          apply receiverTracks_stamp (s := s') h.sent _ _ hsends hout' h.ack h.known hlate h.delivered
          · intro _
            rw [hcount]
            exact ⟨packet, hcarries, hall⟩
          · rfl
          · rfl

/-- `FetchChunk` hands out the next chunk or none. -/
theorem fetch (h : ReceiverTracks start s R) (hRQ : R ≤ s.queued.length)
    (hwindow : s.queued.length ≤ R + 511)
    (hlate : s.b.unpacker.m_Valid = true → s.queued.length < s.unpacking + 512) :
    ∃ e payload R', s.b.act s.a.conn.m_Socket .fetch = .ok (e, payload) ∧
      ReceiverTracks start
        (Link.stampB { s with delivered := s.delivered ++ payload.toList } e) R' ∧
      e.conn.m_Sixup = s.b.conn.m_Sixup ∧ R ≤ R' ∧ R' ≤ s.queued.length := by
  by_cases hvalid : s.b.unpacker.m_Valid = true
  · obtain ⟨live, hout⟩ := h.outbox
    obtain ⟨chs, hcarries, hrecent⟩ := h.unpacker hvalid
    obtain ⟨u', c', r, hfetch, hout', hsocket, hsixup, hknown, hcases⟩ :=
      fetchLoop_receiver hrecent (hlate hvalid) hRQ hwindow hcarries hout h.ack h.known hvalid
        (Nat.lt_succ_of_le (Nat.sub_le _ _))
    have hact : s.b.fetch = .ok ({ s.b with conn := c', unpacker := u' }, r.bind fun ch =>
        if ch.m_Flags &&& NET_CHUNKFLAG_VITAL ≠ 0 then
          some (u'.m_Data.m_aChunkData.slice ch.m_pData ch.m_DataSize)
        else none) := by
      unfold Endpoint.fetch FetchChunk
      rw [hfetch]
      rfl
    rcases hcases with ⟨rfl, hinvalid, hack⟩ | ⟨ch, rfl, hdata, hvital, hget, hack⟩
    · refine ⟨_, none, R, hact, ?_, hsixup, le_rfl, hRQ⟩
      apply receiverTracks_quiet hout' hack hknown hsocket hsixup h.sent
      · rw [h.delivered]
        exact List.append_nil _
      · intro hv
        exact absurd hv (by rw [hinvalid]; decide)
    · have hlt := (List.getElem?_eq_some_iff.mp hget).1
      rw [Option.bind_some, if_pos hvital, hdata] at hact
      refine ⟨_, _, R + 1, hact, ?_, hsixup, Nat.le_succ R, hlt⟩
      apply receiverTracks_quiet hout' hack hknown hsocket hsixup
      · exact h.sent.imp fun x t hx => hx.mono (Nat.le_succ R)
      · rw [h.delivered, List.take_add_one, hget]
      · intro _
        exact ⟨chs, by rw [hdata]; exact hcarries, hrecent⟩
  · obtain ⟨live, hout⟩ := h.outbox
    refine ⟨_, none, R, fetch_empty fun hv => absurd hv hvalid, ?_, rfl, le_rfl, hRQ⟩
    apply receiverTracks_quiet (e := { s.b with unpacker := s.b.unpacker.Clear }) hout h.ack h.known rfl rfl h.sent
    · rw [h.delivered]
      exact List.append_nil _
    · intro hv
      cases hv

end ReceiverTracks

end Fex.Engine.Connection
