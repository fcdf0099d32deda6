import Fex.Engine.Connection.ReceiverSide
import Fex.Engine.Connection.SenderSide

/-!
# Reliable delivery in order

Every step within the window keeps the link invariant, and the invariant says
that what was handed out is a prefix of what was queued.
-/

namespace Fex.Engine.Connection

open Fex.Lib Fex.Engine.Network Fex.Engine.RingBuffer CNetRecvUnpacker

/-- The receiver does not notice what the sender does. -/
theorem ReceiverTracks.frame {start R : Nat} {s t : Link} (h : ReceiverTracks start s R)
    (hb : t.b = s.b) (hsent : t.sentB = s.sentB) (hunpacking : t.unpacking = s.unpacking)
    (hdelivered : t.delivered = s.delivered) {more : List (List UInt8)}
    (hqueued : t.queued = s.queued ++ more) (hR : R ≤ s.queued.length) :
    ReceiverTracks start t R := by
  constructor
  · rw [hb]
    exact h.outbox
  · rw [hb]
    exact h.ack
  · rw [hb]
    exact h.known
  · rw [hb, hsent]
    exact h.sent
  · rw [hdelivered, h.delivered, hqueued, List.take_append_of_le_length hR]
  · rw [hb, hunpacking, hqueued]
    intro hvalid
    obtain ⟨chs, hcarries, hrecent⟩ := h.unpacker hvalid
    exact ⟨chs, hcarries, fun ch hch => (hrecent ch hch).append more⟩

/-- The sender does not notice what the receiver does. -/
theorem SenderTracks.frame {start P : Nat} {s t : Link} {chs items : List Chunk}
    {live ns : List Nat} (h : SenderTracks start s P chs live items ns) (ha : t.a = s.a)
    (hsent : t.sentA = s.sentA) (hbuilding : t.building = s.building)
    (hqueued : t.queued = s.queued) : SenderTracks start t P chs live items ns := by
  constructor
  · rw [ha]
    exact h.outbox
  · rw [ha, hqueued]
    exact h.seq
  · rw [ha]
    exact h.peerAck
  · rw [hbuilding, hqueued]
    exact h.building
  · rw [hbuilding, hqueued]
    exact h.pending
  · rw [hqueued]
    exact h.numbers
  · exact h.sorted
  · exact h.above
  · rw [ha, hsent, hqueued]
    exact h.sent
  · rw [ha]
    exact h.unpacker

/-- Some numbers and chunks fit the state. -/
def Tracked (start : Nat) (s : Link) : Prop :=
  ∃ P R chs live items ns, Tracks start s P R chs live items ns

namespace Tracks

variable {start : Nat} {s : Link} {P R : Nat} {chs : List Chunk} {live : List Nat}
  {items : List Chunk} {ns : List Nat}

/-- A chunk is queued: it takes the next number, and it is saved if `QueueChunk` returns 0. -/
theorem queue (h : Tracks start s P R chs live items ns) (env : Env) (pData : List UInt8)
    (hguard : s.InWindow (.queue env pData)) (hfits : s.Fits (.queue env pData)) :
    ∃ t, s.step (.queue env pData) = .ok t ∧ Tracked start t := by
  have hPQ : P ≤ s.queued.length := h.acked.trans h.handed
  have hless : s.unacknowledged < 511 := hguard
  rw [h.sender.unacknowledged_eq hPQ h.window] at hless
  have hqueue := fun saved => h.sender.queue hPQ hfits saved
  obtain ⟨c, ret, -, -, -, -, hok, -⟩ := hqueue []
  set saved := if ret = 0 then s.saved ++ [s.queued.length] else s.saved with hsaved
  obtain ⟨c', ret', chs', live', items', ns', hok', hsender, hsixup, hns, hnew⟩ := hqueue saved
  rw [hok] at hok'
  cases hok'
  refine ⟨Link.stampA { s with queued := s.queued ++ [pData], saved := saved }
    { s.a with conn := c }, ?_, P, R, chs', live', items', ns', hsender, ?_, ?_, h.acked, ?_, ?_, ?_⟩
  · simp only [Link.step, hok, bind, Except.bind]
    rfl
  · exact @ReceiverTracks.frame _ _ _ _ h.receiver rfl rfl rfl rfl [pData] rfl h.handed
  · exact h.sixup.trans hsixup.symm
  · show R ≤ (s.queued ++ [pData]).length
    have := h.handed
    simp only [List.length_append, List.length_singleton]
    omega
  · show (s.queued ++ [pData]).length ≤ P + 511
    simp only [List.length_append, List.length_singleton]
    omega
  · show ∀ i ∈ saved, i < R ∨ i + 1 ∈ ns'
    have hold : ∀ i ∈ s.saved, i < R ∨ i + 1 ∈ ns' :=
      fun i hi => (h.retained i hi).imp_right fun hmem => hns _ hmem
    rw [hsaved]
    split
    · rename_i hret
      intro i hi
      rcases List.mem_append.mp hi with hi | hi
      · exact hold i hi
      · rw [List.mem_singleton.mp hi]
        exact .inr (hnew hret)
    · exact hold

/-- The sender did something that queued no chunk. -/
theorem sender_step (h : Tracks start s P R chs live items ns) {x : Action} {e : Endpoint}
    {P' : Nat} {chs' items' : List Chunk} {live' ns' : List Nat}
    (hact : s.a.act s.b.conn.m_Socket x = .ok (e, none))
    (hsender : SenderTracks start (s.stampA e) P' chs' live' items' ns')
    (hsixup : e.conn.m_Sixup = s.a.conn.m_Sixup) (hP : P ≤ P') (hR : P' ≤ R)
    (hns : ∀ n ∈ ns, n ≤ R ∨ n ∈ ns') : ∃ t, s.step (.a x) = .ok t ∧ Tracked start t := by
  refine ⟨s.stampA e, ?_, P', R, chs', live', items', ns', hsender, ?_, ?_, hR, h.handed, ?_, ?_⟩
  · simp only [Link.step, hact, bind, Except.bind]
    rfl
  · exact h.receiver.frame rfl rfl rfl rfl (List.append_nil _).symm h.handed
  · exact h.sixup.trans hsixup.symm
  · exact h.window.trans (Nat.add_le_add_right hP 511)
  · intro i hi
    rcases h.retained i hi with hlt | hmem
    · exact .inl hlt
    · exact hns (i + 1) hmem

/-- The receiver did something; the packet it unpacks may be a new one. -/
theorem receiver_step (h : Tracks start s P R chs live items ns) {x : Action} {e : Endpoint}
    {payload : Option (List UInt8)} {unpacking R' : Nat}
    (hunpacking : unpacking = match x with
      | .recv _ _ i => if s.b.unpacker.m_Valid then s.unpacking else s.sentA.getD i 0
      | _ => s.unpacking)
    (hact : s.b.act s.a.conn.m_Socket x = .ok (e, payload))
    (hreceiver : ReceiverTracks start (Link.stampB { s with
      delivered := s.delivered ++ payload.toList, unpacking := unpacking } e) R')
    (hsixup : e.conn.m_Sixup = s.b.conn.m_Sixup) (hR : R ≤ R') (hQ : R' ≤ s.queued.length) :
    ∃ t, s.step (.b x) = .ok t ∧ Tracked start t := by
  refine ⟨_, ?_, P, R', chs, live, items, ns, ?_, hreceiver, hsixup.trans h.sixup,
    h.acked.trans hR, hQ, h.window, ?_⟩
  · simp only [Link.step, hact, bind, Except.bind]
    rw [hunpacking]
    rfl
  · exact h.sender.frame rfl rfl rfl rfl
  · exact fun i hi => (h.retained i hi).imp_left fun hlt => hlt.trans_le hR

/-- Every step within the window can be made and keeps the invariant. -/
theorem step (h : Tracks start s P R chs live items ns) {e : Event} (hguard : s.InWindow e)
    (hfits : s.Fits e) : ∃ t, s.step e = .ok t ∧ Tracked start t := by
  have hPR := h.acked
  have hRQ := h.handed
  have hwindow := h.window
  have hlate : s.queued.length ≤ R + 511 := by omega
  have hkeep : ∀ n ∈ ns, n ≤ R ∨ n ∈ ns := fun n hn => .inr hn
  cases e with
  | queue env pData => exact h.queue env pData hguard hfits
  | a x =>
      cases x with
      | flush env =>
          obtain ⟨e, chs', hact, hsender, hsixup⟩ := h.sender.flush env
          exact h.sender_step hact hsender hsixup le_rfl hPR hkeep
      | update env =>
          obtain ⟨e, chs', hact, hsender, hsixup⟩ := h.sender.update hwindow env
          exact h.sender_step hact hsender hsixup le_rfl hPR hkeep
      | recv env Addr i =>
          have hsent := h.receiver.sent
          rw [h.sixup] at hsent
          obtain ⟨e, P', chs', live', items', ns', hact, hsender, hsixup, hP, hR, hns⟩ :=
            h.sender.recv hsent hPR hRQ hwindow env Addr hguard
          exact h.sender_step hact hsender hsixup hP hR hns
      | fetch =>
          obtain ⟨e, hact, hsender, hsixup⟩ := h.sender.fetch
          exact h.sender_step hact hsender hsixup le_rfl hPR hkeep
  | b x =>
      have hnil : s.delivered ++ (none : Option (List UInt8)).toList = s.delivered :=
        List.append_nil _
      cases x with
      | flush env =>
          obtain ⟨e, hact, hreceiver, hsixup⟩ := h.receiver.flush hlate env
          apply h.receiver_step rfl hact _ hsixup le_rfl hRQ
          rw [hnil]
          exact hreceiver
      | update env =>
          obtain ⟨e, hact, hreceiver, hsixup⟩ := h.receiver.update hlate env
          apply h.receiver_step rfl hact _ hsixup le_rfl hRQ
          rw [hnil]
          exact hreceiver
      | recv env Addr i =>
          have hsent := h.sender.sent
          rw [← h.sixup] at hsent
          obtain ⟨e, hact, hreceiver, hsixup⟩ := h.receiver.recv hlate hsent env Addr i
          apply h.receiver_step rfl hact _ hsixup le_rfl hRQ
          rw [hnil]
          exact hreceiver
      | fetch =>
          obtain ⟨e, payload, R', hact, hreceiver, hsixup, hR, hQ⟩ :=
            h.receiver.fetch hRQ hlate hguard
          exact h.receiver_step rfl hact hreceiver hsixup hR hQ

end Tracks

def peerAddr : NETADDR := { type := 1, ip := [127, 0, 0, 1], port := 8303 }

/-- An online connection of the protocol without tokens. -/
def plain : CNetConnection :=
  blank.DirectInit env₀ peerAddr NET_SECURITY_TOKEN_UNSUPPORTED 0 false

end Fex.Engine.Connection
