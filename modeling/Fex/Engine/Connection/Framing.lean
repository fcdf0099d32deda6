import Fex.Engine.Connection.Queueing
import Fex.Engine.RingBuffer.Runs

/-!
# The framing round trip

Chunks are queued on a connection with flushes in between.  As long as every
chunk fits its size field and a packet of its own, and no packet gets more than
255 chunks, unpacking the datagrams gives the queued chunks back.
-/

namespace Fex.Engine.Connection

open Fex.Lib Fex.Engine.Network Fex.Engine.RingBuffer CNetRecvUnpacker

/-! ## Sequence numbers -/

/-- The sequence a connection packs with a chunk when its last one was `k`. -/
def nextSeq (k : Nat) (Flags : Nat) : Nat :=
  if Flags &&& NET_CHUNKFLAG_VITAL ≠ 0 then (k + 1) % NET_MAX_SEQUENCE else k

/-- The chunks are numbered from `k` on. -/
def Numbered : Nat → List Chunk → Prop
  | _, [] => True
  | k, ch :: chs => ch.Sequence = nextSeq k ch.Flags ∧ Numbered ch.Sequence chs

def lastSeq (k : Nat) (chs : List Chunk) : Nat := chs.foldl (fun _ ch => ch.Sequence) k

@[simp] theorem lastSeq_append (k : Nat) (xs ys : List Chunk) :
    lastSeq k (xs ++ ys) = lastSeq (lastSeq k xs) ys := List.foldl_append

theorem numbered_append {k : Nat} {xs ys : List Chunk} :
    Numbered k (xs ++ ys) ↔ Numbered k xs ∧ Numbered (lastSeq k xs) ys := by
  induction xs generalizing k with
  | nil => simp [Numbered, lastSeq]
  | cons x xs ih =>
      simp only [List.cons_append, Numbered, ih, and_assoc]
      rfl

/-! ## Receiving -/

/-- A chunk as the receiver gets it; chunks that are not vital have no sequence. -/
structure Delivered where
  Flags : Nat
  Data : List UInt8
  Sequence : Option Nat
  deriving DecidableEq

def Chunk.delivered (ch : Chunk) : Delivered :=
  { Flags := ch.Flags, Data := ch.Data, Sequence := if ch.Vital then some ch.Sequence else none }

/-- What the caller of `FetchChunk` sees of a chunk. -/
def view (u : CNetRecvUnpacker) (c : Option CNetConnection) (pChunk : CNetChunk) : Delivered :=
  { Flags := pChunk.m_Flags
    Data := u.m_Data.m_aChunkData.slice pChunk.m_pData pChunk.m_DataSize
    Sequence := if pChunk.m_Flags &&& NET_CHUNKFLAG_VITAL ≠ 0 then c.map (·.m_Ack) else none }

/-- Call `FetchChunk` until it returns 0, at most `n` times. -/
def FetchData : Nat → CNetRecvUnpacker → Option CNetConnection →
    Exec (List Delivered × CNetRecvUnpacker × Option CNetConnection)
  | 0, _, _ => .error .diverges
  | n + 1, u, c => do
      let (u, c, pChunk) ← FetchChunk u c
      match pChunk with
      | none => return ([], u, c)
      | some pChunk =>
          let (rest, u', c') ← FetchData n u c
          return (view u c pChunk :: rest, u', c')

/-- Unpack a datagram and fetch its chunks. -/
def RecvPacket (Sixup : Bool) (d : List UInt8) (u : CNetRecvUnpacker) (c : Option CNetConnection) :
    Exec (List Delivered × CNetRecvUnpacker × Option CNetConnection) := do
  let r ← UnpackPacket d u.m_Data Sixup (some 0) (some 0)
  let u := { u with m_Data := r.pPacket }
  if r.ret ≠ 0 ∨ r.pPacket.m_DataSize = 0 then return ([], u, c)
  else FetchData (r.pPacket.m_NumChunks + 1) (u.Start u.m_Addr u.m_ClientId) c

/-- Datagrams received one after the other. -/
def RecvAll (Sixup : Bool) : List (List UInt8) → CNetRecvUnpacker → Option CNetConnection →
    Exec (List Delivered)
  | [], _, _ => .ok []
  | d :: ds, u, c => do
      let (xs, u, c) ← RecvPacket Sixup d u c
      return xs ++ (← RecvAll Sixup ds u c)

/-- A chunk with the expected sequence is taken. -/
theorem sequenced_numbered {c : CNetConnection} {ch : Chunk}
    (h : ch.Sequence = nextSeq c.m_Ack ch.Flags) :
    ∃ c', Sequenced (some c) ch.header = (some c', true) ∧ c'.m_Sixup = c.m_Sixup ∧
      c'.m_Ack = ch.Sequence := by
  unfold nextSeq at h
  unfold Sequenced Chunk.header
  by_cases hvital : ch.Flags &&& NET_CHUNKFLAG_VITAL ≠ 0
  · rw [if_pos hvital] at h
    simp only [if_pos hvital, if_neg hvital]
    rw [if_pos (.inl (congrArg Nat.cast h))]
    exact ⟨_, rfl, rfl, rfl⟩
  · rw [if_neg hvital] at h
    simp only [if_neg hvital]
    rw [if_pos (not_not.mp hvital)]
    exact ⟨c, rfl, rfl, h.symm⟩

theorem fetchData_spec {n : Nat} {u : CNetRecvUnpacker} {c : CNetConnection}
    {xs ys : List Chunk} (h : Carries u.m_Data c.Split (xs ++ ys)) (hvalid : u.m_Valid = true)
    (hcur : u.m_CurrentChunk = xs.length) (hcount : u.m_Data.m_NumChunks = (xs ++ ys).length)
    (hsize : ((encode c.Split (xs ++ ys)).length : Int) ≤ u.m_Data.m_DataSize)
    (hnum : Numbered c.m_Ack ys) (hn : ys.length < n) :
    ∃ u' c', FetchData n u (some c) = .ok (ys.map Chunk.delivered, u', some c') ∧
      c'.m_Sixup = c.m_Sixup ∧ c'.m_Ack = lastSeq c.m_Ack ys := by
  induction ys generalizing n u c xs with
  | nil =>
      obtain ⟨n, rfl⟩ := Nat.exists_eq_add_of_lt hn
      have hend : u.m_Data.m_NumChunks ≤ u.m_CurrentChunk := by
        rw [hcount, hcur, List.append_nil]
      refine ⟨u.Clear, c, ?_, rfl, rfl⟩
      rw [FetchData, FetchChunk, fetchLoop_end hend]
      rfl
  | cons ch ys ih =>
      obtain ⟨n, rfl⟩ : ∃ m, n = m + 1 := ⟨n - 1, by simp only [List.length_cons] at hn; omega⟩
      obtain ⟨hseq, hrest⟩ := hnum
      obtain ⟨c', hc', hsixup, hack⟩ := sequenced_numbered hseq
      have hlt : xs.length < u.m_Data.m_NumChunks := by
        rw [hcount]
        simp
      have hinside : ¬ (((encode c.Split (xs ++ [ch])).length : Nat) : Int) > u.m_Data.m_DataSize := by
        have happend : encode c.Split (xs ++ ch :: ys) =
            encode c.Split (xs ++ [ch]) ++ encode c.Split ys := by simp
        rw [happend, List.length_append] at hsize
        omega
      have hfetch : FetchChunk u (some c) = .ok
          ({ u with m_CurrentChunk := xs.length + 1 }, some c', some
            { m_ClientId := u.m_ClientId, m_Address := u.m_Addr, m_Flags := ch.Flags
              m_DataSize := ch.Data.length
              m_pData := (encode c.Split xs).length + headerSize ch.Flags }) := by
        unfold FetchChunk
        rw [fetchLoop_next (c := some c) h hvalid hcur hlt, hc']
        exact if_neg hinside
      have hsplit : c'.Split = c.Split := by rw [split_eq, split_eq, hsixup]
      have happend : xs ++ [ch] ++ ys = xs ++ ch :: ys := by simp
      obtain ⟨u', c'', hdata, hsixup', hack'⟩ := @ih n { u with m_CurrentChunk := xs.length + 1 } c'
        (xs ++ [ch]) (by rw [hsplit, happend]; exact h) hvalid (by simp)
        (by rw [happend]; exact hcount) (by rw [hsplit, happend]; exact hsize)
        (by rw [hack]; exact hrest) (by simpa using hn)
      refine ⟨u', c'', ?_, hsixup'.trans hsixup, ?_⟩
      · have hview : view { u with m_CurrentChunk := xs.length + 1 } (some c')
            { m_ClientId := u.m_ClientId, m_Address := u.m_Addr, m_Flags := ch.Flags
              m_DataSize := ch.Data.length
              m_pData := (encode c.Split xs).length + headerSize ch.Flags } = ch.delivered := by
          unfold view Chunk.delivered
          simp only [h.chunk_data, Option.map_some, hack]
          rfl
        unfold FetchData
        simp only [hfetch, bind, Except.bind, hdata, hview]
        rfl
      · rw [hack', hack]
        rfl

/-- A datagram that transports numbered chunks is received whole. -/
theorem recvPacket_spec {Ack : Nat} {chs : List Chunk} {d : List UInt8} {c : CNetConnection}
    (h : Transports c.m_Sixup Ack chs d) (hcount : chs.length < 256)
    (hnum : Numbered c.m_Ack chs) (u : CNetRecvUnpacker) :
    ∃ u' c', RecvPacket c.m_Sixup d u (some c) = .ok (chs.map Chunk.delivered, u', some c') ∧
      c'.m_Sixup = c.m_Sixup ∧ c'.m_Ack = lastSeq c.m_Ack chs := by
  obtain ⟨v, hunpack, hret, -, hu⟩ := h u.m_Data (some 0) (some 0) (by simp)
  unfold RecvPacket
  simp only [hunpack, hret, bind, Except.bind, ne_eq, not_true_eq_false, false_or]
  by_cases hzero : v.pPacket.m_DataSize = 0
  · -- an empty packet carries no chunk
    rw [if_pos hzero]
    have hnil : chs = [] := by
      cases chs with
      | nil => rfl
      | cons ch chs =>
          have hsize := hu.size
          have hheader : 2 ≤ headerSize ch.Flags := by
            unfold headerSize
            split <;> decide
          rw [hzero, encode_cons, List.length_append, Chunk.length_encode] at hsize
          omega
    rw [hnil]
    exact ⟨_, c, rfl, rfl, rfl⟩
  · rw [if_neg hzero]
    have hnumChunks : v.pPacket.m_NumChunks = ([] ++ chs).length := by
      rw [hu.count, List.nil_append]
      exact Nat.mod_eq_of_lt hcount
    apply @fetchData_spec _ (Start { u with m_Data := v.pPacket } u.m_Addr u.m_ClientId) c [] chs
      hu.carries rfl rfl hnumChunks hu.size hnum
    rw [hnumChunks]
    exact Nat.lt_succ_self _

/-- Datagrams that transport the parts of a numbered run, in order. -/
theorem recvAll_spec {ds : List (List UInt8)} {parts : List (List Chunk)} {Sixup : Bool}
    (h : List.Forall₂ (fun d chs => chs.length < 256 ∧ ∃ Ack, Transports Sixup Ack chs d) ds parts)
    {c : CNetConnection} (hsixup : c.m_Sixup = Sixup) (hnum : Numbered c.m_Ack parts.flatten)
    (u : CNetRecvUnpacker) :
    RecvAll Sixup ds u (some c) = .ok (parts.flatten.map Chunk.delivered) := by
  induction h generalizing c u with
  | nil => rfl
  | cons hd htail ih =>
      obtain ⟨hcount, Ack, htrans⟩ := hd
      rw [List.flatten_cons, numbered_append] at hnum
      rw [← hsixup] at htrans
      obtain ⟨u', c', hrecv, hsixup', hack'⟩ := recvPacket_spec htrans hcount hnum.1 u
      rw [hsixup] at hrecv
      have hrest := @ih c' (hsixup'.trans hsixup) (by rw [hack']; exact hnum.2) u'
      unfold RecvAll
      simp only [hrecv, hrest, bind, Except.bind, List.flatten_cons, List.map_append]
      rfl

/-! ## Runs -/

inductive QueueCall
  | queue (env : Env) (Flags : Nat) (pData : List UInt8)
  | flush (env : Env)

/-- A connection and the chunks queued on it, each with the sequence it got. -/
structure Sender where
  conn : CNetConnection
  queued : List Chunk

def Sender.step (s : Sender) : QueueCall → Exec Sender
  | .queue env Flags pData => do
      let (c, _) ← s.conn.QueueChunk env Flags pData
      return { conn := c, queued := s.queued ++
        [{ Flags := Flags, Data := pData, Sequence := c.m_Sequence }] }
  | .flush env => do
      let (c, _) ← s.conn.Flush env
      return { s with conn := c }

/-- What `Send` queues: vital and other chunks of fewer than `NET_MAX_PAYLOAD` bytes. -/
def Accepted : QueueCall → Prop
  | .queue _ Flags pData =>
      (Flags = 0 ∨ Flags = NET_CHUNKFLAG_VITAL) ∧ pData.length < NET_MAX_PAYLOAD
  | .flush _ => True

instance : ∀ e, Decidable (Accepted e)
  | .queue _ _ _ => inferInstanceAs (Decidable (_ ∧ _))
  | .flush _ => .isTrue trivial

/-- The chunk fits its size field and a packet of its own, and the packet it goes into has fewer
than 255 chunks. -/
def Frames (s : Sender) : QueueCall → Prop
  | .queue _ Flags pData =>
      pData.length < 2 ^ (6 + s.conn.Split) ∧
        headerSize Flags + pData.length + TOKEN_SIZE ≤ NET_MAX_PAYLOAD ∧
        (s.conn.m_Construct.m_NumChunks < 255 ∨ s.conn.NeedsFlush pData)
  | .flush _ => True

instance (s : Sender) : ∀ e, Decidable (Frames s e)
  | .queue _ _ _ => inferInstanceAs (Decidable (_ ∧ _ ∧ _))
  | .flush _ => .isTrue trivial

/-- An online connection on which nothing is queued and from which nothing was sent. -/
structure Idle (c : CNetConnection) : Prop where
  online : c.m_State = .ONLINE
  construct : c.m_Construct = .zero
  seq : c.m_Sequence < NET_MAX_SEQUENCE
  ack : c.m_Ack < NET_MAX_SEQUENCE
  buffer : ∃ live, Buffered c.m_Buffer live
  socket : c.m_Socket = []

/-- The packet keeps room for the token, and after a flush a peer that expects the first sequence
receives exactly the queued chunks. -/
structure RoundTrip (c₀ : CNetConnection) (s : Sender) : Prop where
  room : s.conn.m_Construct.m_DataSize + TOKEN_SIZE ≤ NET_MAX_PAYLOAD
  received : ∀ env, ∃ c n, s.conn.Flush env = .ok (c, n) ∧
    ∀ (r : CNetConnection) (u : CNetRecvUnpacker), r.m_Sixup = c₀.m_Sixup →
      r.m_Ack = c₀.m_Sequence → RecvAll c₀.m_Sixup (c.m_Socket.map Prod.snd) u (some r) =
        .ok (s.queued.map Chunk.delivered)

/-- The datagrams transport all queued chunks but the last ones, which the packet under
construction holds. -/
structure Framed (c₀ : CNetConnection) (s : Sender) : Prop where
  online : s.conn.m_State = .ONLINE
  sixup : s.conn.m_Sixup = c₀.m_Sixup
  ack : s.conn.m_Ack < NET_MAX_SEQUENCE
  buffer : ∃ live, Buffered s.conn.m_Buffer live
  numbered : Numbered c₀.m_Sequence s.queued
  seq : s.conn.m_Sequence = lastSeq c₀.m_Sequence s.queued
  bound : s.conn.m_Sequence < NET_MAX_SEQUENCE
  packets : ∃ parts pending, s.queued = parts.flatten ++ pending ∧
    Holds s.conn.m_Construct s.conn.Split pending ∧ pending.length < 256 ∧
    List.Forall₂ (fun d chs => chs.length < 256 ∧ ∃ Ack, Transports c₀.m_Sixup Ack chs d)
      (s.conn.m_Socket.map Prod.snd) parts

theorem Idle.framed {c₀ : CNetConnection} (h : Idle c₀) : Framed c₀ ⟨c₀, []⟩ where
  online := h.online
  sixup := rfl
  ack := h.ack
  buffer := h.buffer
  numbered := trivial
  seq := rfl
  bound := h.seq
  packets := by
    refine ⟨[], [], rfl, ?_, by decide, ?_⟩
    · rw [h.construct]
      exact holds_zero _
    · rw [h.socket]
      exact .nil

theorem nextSeq_lt {k : Nat} (Flags : Nat) (h : k < NET_MAX_SEQUENCE) :
    nextSeq k Flags < NET_MAX_SEQUENCE := by
  unfold nextSeq
  split
  · exact Nat.mod_lt _ (by decide)
  · exact h

theorem queueChunk_eq (env : Env) (c : CNetConnection) (Flags : Nat) (pData : List UInt8) :
    c.QueueChunk env Flags pData =
      CNetConnection.QueueChunkEx env { c with m_Sequence := nextSeq c.m_Sequence Flags } Flags pData
        (nextSeq c.m_Sequence Flags) := by
  unfold CNetConnection.QueueChunk nextSeq
  by_cases hvital : Flags &&& NET_CHUNKFLAG_VITAL ≠ 0
  · rw [if_pos hvital, if_pos hvital]
  · rw [if_neg hvital, if_neg hvital]

/-- Flushing hands the pending chunks to a datagram. -/
theorem Flushed.packets {env : Env} {c c₁ : CNetConnection} {pending pending₁ : List Chunk}
    (h : Flushed env c pending c₁ pending₁) (hcount : pending.length < 256)
    {parts : List (List Chunk)}
    (hparts : List.Forall₂ (fun d chs => chs.length < 256 ∧ ∃ Ack, Transports c.m_Sixup Ack chs d)
      (c.m_Socket.map Prod.snd) parts) :
    ∃ parts₁, parts.flatten ++ pending = parts₁.flatten ++ pending₁ ∧
      List.Forall₂ (fun d chs => chs.length < 256 ∧ ∃ Ack, Transports c.m_Sixup Ack chs d)
        (c₁.m_Socket.map Prod.snd) parts₁ := by
  cases h with
  | keep => exact ⟨parts, rfl, hparts⟩
  | sent d h =>
      refine ⟨parts ++ [pending], by simp, ?_⟩
      have hsocket : (c.m_Socket ++ [(c.m_PeerAddr, d)]).map Prod.snd =
          c.m_Socket.map Prod.snd ++ [d] := by simp
      show List.Forall₂ _ ((c.m_Socket ++ [(c.m_PeerAddr, d)]).map Prod.snd) _
      rw [hsocket]
      exact List.rel_append hparts (.cons ⟨hcount, _, h⟩ .nil)

theorem Framed.queue {c₀ : CNetConnection} {s : Sender} (h : Framed c₀ s) {env : Env} {Flags : Nat}
    {pData : List UInt8} (haccepted : Accepted (.queue env Flags pData))
    (hframes : Frames s (.queue env Flags pData)) :
    ∃ t, s.step (.queue env Flags pData) = .ok t ∧ Framed c₀ t := by
  obtain ⟨hsize, hfits, hcount⟩ := hframes
  obtain ⟨live, hbuf⟩ := h.buffer
  obtain ⟨parts, pending, hqueued, hholds, hpending, hparts⟩ := h.packets
  have hseq := nextSeq_lt Flags h.bound
  set ch : Chunk := { Flags := Flags, Data := pData, Sequence := nextSeq s.conn.m_Sequence Flags }
  have hsmall : ch.Small s.conn.Split := by
    refine ⟨?_, hsize, hseq⟩
    show Flags < 4
    rcases haccepted.1 with rfl | rfl <;> decide
  have hstate : ¬ (s.conn.m_State = .OFFLINE ∨ s.conn.m_State = .ERROR) := by
    rw [h.online]
    decide
  obtain ⟨c₁, chs₁, p, b, live', ret, hqueue, hfl, hnil, hholds', hsaved⟩ :=
    CNetConnection.queueChunkEx_spec
      (c := { s.conn with m_Sequence := nextSeq s.conn.m_Sequence Flags }) env hstate hholds h.ack
      hsmall hfits hbuf
  obtain ⟨parts₁, hflatten, hparts₁⟩ := hfl.packets hpending (by rw [← h.sixup] at hparts; exact hparts)
  have hlen : (chs₁ ++ [ch]).length < 256 := by
    rw [List.length_append, List.length_singleton]
    rcases hcount with hlt | hneeds
    · have := hholds.count
      cases hfl with
      | keep => omega
      | sent d hd => decide
    · rw [hnil hneeds]
      decide
  obtain ⟨p', t', ds, hframe⟩ := hfl.frame
  have hstep : s.step (.queue env Flags pData) = .ok
      ⟨{ c₁ with m_Construct := p, m_Buffer := b },
        s.queued ++ [{ Flags := Flags, Data := pData, Sequence := c₁.m_Sequence }]⟩ := by
    unfold Sender.step
    simp only [queueChunk_eq, bind, Except.bind]
    rw [hqueue]
    rfl
  refine ⟨_, hstep, ?_⟩
  · rw [hframe] at hparts₁ ⊢
    refine ⟨h.online, h.sixup, h.ack, ⟨live', hsaved.buffered hbuf⟩, ?_, ?_, hseq, parts₁,
      chs₁ ++ [ch], ?_, hholds', hlen, ?_⟩
    · rw [numbered_append]
      refine ⟨h.numbered, ?_, trivial⟩
      rw [← h.seq]
    · rw [lastSeq_append]
      rfl
    · rw [hqueued, ← List.append_assoc, ← hflatten]
    · rw [← h.sixup]
      exact hparts₁

theorem Framed.flush {c₀ : CNetConnection} {s : Sender} (h : Framed c₀ s) (env : Env) :
    ∃ c n, s.conn.Flush env = .ok (c, n) ∧ Framed c₀ { s with conn := c } ∧
      ∃ parts, s.queued = parts.flatten ∧
        List.Forall₂ (fun d chs => chs.length < 256 ∧ ∃ Ack, Transports c₀.m_Sixup Ack chs d)
          (c.m_Socket.map Prod.snd) parts := by
  obtain ⟨parts, pending, hqueued, hholds, hpending, hparts⟩ := h.packets
  rcases CNetConnection.flush_spec env hholds h.ack with ⟨rfl, -, hflush⟩ | ⟨d, hflush, htrans⟩
  · exact ⟨s.conn, 0, hflush, h, parts, by rw [hqueued, List.append_nil], hparts⟩
  · rw [← h.sixup] at hparts
    obtain ⟨parts₁, hflatten, hparts₁⟩ := (@Flushed.sent env _ _ d htrans).packets hpending hparts
    rw [List.append_nil] at hflatten
    rw [h.sixup] at hparts₁
    refine ⟨_, _, hflush, ⟨h.online, h.sixup, h.ack, h.buffer, h.numbered, h.seq, h.bound, parts₁,
      [], ?_, holds_zero _, by decide, hparts₁⟩, parts₁, ?_, hparts₁⟩
    · rw [hqueued, hflatten, List.append_nil]
    · rw [hqueued, hflatten]

theorem Framed.roundTrip {c₀ : CNetConnection} {s : Sender} (h : Framed c₀ s) :
    RoundTrip c₀ s where
  room := by
    obtain ⟨parts, pending, -, hholds, -⟩ := h.packets
    exact hholds.room
  received := by
    intro env
    obtain ⟨c, n, hflush, -, parts, hqueued, hparts⟩ := h.flush env
    refine ⟨c, n, hflush, fun r u hsixup hack => ?_⟩
    rw [hqueued]
    apply recvAll_spec hparts hsixup
    rw [hack, ← hqueued]
    exact h.numbered

theorem Framed.step {c₀ : CNetConnection} {s : Sender} (h : Framed c₀ s) {e : QueueCall}
    (haccepted : Accepted e) (he : Frames s e) : ∃ t, s.step e = .ok t ∧ Framed c₀ t := by
  cases e with
  | queue env Flags pData => exact h.queue haccepted he
  | flush env =>
      obtain ⟨c, n, hflush, hframed, -⟩ := h.flush env
      refine ⟨{ s with conn := c }, ?_, hframed⟩
      simp only [Sender.step, hflush, bind, Except.bind]
      rfl

/-- The framing round trip over whole runs: no call faults, the bound holds in every state, and
in every state a flush completes the queued chunks for the peer. -/
theorem framing_roundtrip {c₀ : CNetConnection} (hidle : Idle c₀) {s : Sender}
    (h : Reachable Sender.step (fun s e => Accepted e ∧ Frames s e) ⟨c₀, []⟩ s) :
    RoundTrip c₀ s ∧ ∀ e, Accepted e → Frames s e → ∃ t, s.step e = .ok t := by
  have hframed : Framed c₀ s := by
    apply h.invariant hidle.framed
    intro s t e hs he hstep
    obtain ⟨t', hstep', ht'⟩ := hs.step he.1 he.2
    rw [hstep] at hstep'
    rw [Except.ok.inj hstep']
    exact ht'
  refine ⟨hframed.roundTrip, fun e haccepted he => ?_⟩
  obtain ⟨t, ht, -⟩ := hframed.step haccepted he
  exact ⟨t, ht⟩

/-- A connection on zeroed memory. -/
def blank : CNetConnection :=
  { m_Sequence := 0, m_Ack := 0, m_PeerAck := 0, m_State := .OFFLINE, m_SecurityToken := 0
    m_RemoteClosed := false, m_UnknownSeq := false
    m_Buffer :=
      { ring := .Init zeroed NET_CONN_BUFFERSIZE 0
        chunks := fun _ => { m_Flags := 0, m_pData := [], m_Sequence := 0, m_LastSendTime := 0
                             m_FirstSendTime := 0 } }
    m_LastUpdateTime := 0, m_LastRecvTime := 0, m_LastSendTime := 0, m_Construct := .zero
    m_aConnectAddrs := [], m_PeerAddr := { type := 0, ip := [], port := 0 }, m_Socket := []
    m_TimeoutProtected := false, m_TimeoutSituation := false, m_Sixup := false, m_Token := 0 }

/-- The clock at 0, timeouts of 100 seconds and nothing on the stack. -/
def env₀ : Env := { Now := 0, m_ConnTimeout := 100, m_ConnTimeoutProtection := 1000, aStack := [] }

/-- A connection right after `DirectInit`. -/
def online (Sixup : Bool) : CNetConnection :=
  blank.DirectInit env₀ { type := 1, ip := [127, 0, 0, 1], port := 8303 } 5 5 Sixup

theorem idle_online (Sixup : Bool) : Idle (online Sixup) where
  online := rfl
  construct := rfl
  seq := Nat.zero_lt_succ _
  ack := Nat.zero_lt_succ _
  buffer := ⟨[], Buffered.init _⟩
  socket := rfl

/-- A vital chunk on 0.7 and one that is not vital. -/
theorem framing_roundtrip_two : ∃ s,
    Reachable Sender.step (fun s e => Accepted e ∧ Frames s e) ⟨online true, []⟩ s ∧
      s.queued = [{ Flags := 1, Data := [7, 8], Sequence := 1 }, { Flags := 0, Data := [], Sequence := 1 }] ∧
      RoundTrip (online true) s := by
  have h₀ : Reachable Sender.step (fun s e => Accepted e ∧ Frames s e) ⟨online true, []⟩
      ⟨online true, []⟩ := .init
  have h₁ := h₀.next (.queue env₀ 1 [7, 8]) (by decide) rfl
  have h₂ := h₁.next (.queue env₀ 0 []) (by decide) rfl
  exact ⟨_, h₂, rfl, (framing_roundtrip (idle_online true) h₂).1⟩

/-! ## Sizes that do not fit -/

/-- On 0.6 a chunk of 1024 zeros has the header of an empty one. -/
theorem encode_zeros (Sequence : Nat) {pData : List UInt8} (hlen : pData.length = 1024) :
    Chunk.encode 4 { Flags := 0, Data := pData, Sequence := Sequence } = [0, 0] ++ pData := by
  unfold Chunk.encode Chunk.packed CNetChunkHeader.Pack
  simp only [hlen]
  rfl

/-- The packet with that chunk. -/
def zerosPacket (pData : List UInt8) : CNetPacketConstruct :=
  { CNetPacketConstruct.zero with
    m_NumChunks := 1, m_DataSize := 1026, m_aChunkData := Buffer.zero.copy 0 ([0, 0] ++ pData) }

theorem queue_zeros {pData : List UInt8} (hlen : pData.length = 1024) :
    Sender.step ⟨online false, []⟩ (.queue env₀ 0 pData) =
      .ok ⟨{ online false with m_Construct := zerosPacket pData }, [⟨0, pData, 0⟩]⟩ := by
  have hstate : ¬ ((online false).m_State = .OFFLINE ∨ (online false).m_State = .ERROR) := by decide
  have hneeds : ¬ (online false).NeedsFlush pData := by
    unfold CNetConnection.NeedsFlush
    rw [hlen]
    decide
  have hencode : Chunk.encode (online false).Split ⟨0, pData, 0⟩ = [0, 0] ++ pData :=
    encode_zeros 0 hlen
  have hpack := @CNetConnection.packChunk_eq (online false) ⟨0, pData, 0⟩ (by
    rw [hencode, List.length_append, hlen]
    decide)
  rw [hencode, List.length_append, hlen] at hpack
  have hqueue : (online false).QueueChunk env₀ 0 pData =
      .ok ({ online false with m_Construct := zerosPacket pData }, 0) := by
    show (online false).QueueChunkEx env₀ 0 pData 0 = _
    unfold CNetConnection.QueueChunkEx
    rw [if_neg hstate, if_neg hneeds]
    simp only [bind, Except.bind, pure, Except.pure]
    rw [hpack]
    rfl
  simp only [Sender.step, hqueue, bind, Except.bind]
  rfl

theorem data_zerosPacket {pData : List UInt8} (hlen : pData.length = 1024) :
    (zerosPacket pData).data = [0, 0] ++ pData := by
  have hslice := Buffer.slice_copy .zero 0 ([0, 0] ++ pData)
  rw [List.length_append, hlen] at hslice
  exact hslice

/-- Whoever receives that packet finds an empty chunk. -/
theorem transports_zeros {pData d : List UInt8} (hlen : pData.length = 1024)
    {SecurityToken : SECURITY_TOKEN}
    (h : SendPacket (zerosPacket pData) SecurityToken false false = .ok d) :
    Transports false 0 [⟨0, [], 0⟩] d := by
  have hsmall : ∀ ch ∈ [(⟨0, [], 0⟩ : Chunk)], ch.Small (splitBits false) := by
    intro ch hch
    rw [List.mem_singleton.mp hch]
    exact ⟨by decide, by decide, by decide⟩
  have hsize : (zerosPacket pData).m_DataSize = 1026 := rfl
  apply transports_send hsmall (data_zerosPacket hlen) _ _ rfl (.inl rfl) _ h
  · rw [hsize]
    decide
  · rw [hsize]
    decide
  · exact Nat.zero_lt_succ _

/-- A flush of a packet with chunks sends it. -/
theorem flush_sends {env : Env} {c c' : CNetConnection} {n : Nat} (h : c.Flush env = .ok (c', n))
    (hne : c.m_Construct.m_NumChunks ≠ 0) :
    ∃ d, SendPacket { c.m_Construct with m_Ack := c.m_Ack } c.m_SecurityToken c.m_Sixup false =
        .ok d ∧ c'.m_Socket = c.m_Socket ++ [(c.m_PeerAddr, d)] := by
  unfold CNetConnection.Flush at h
  rw [if_neg (fun hempty => hne hempty.1)] at h
  simp only [bind, Except.bind] at h
  cases hsend : SendPacket { c.m_Construct with m_Ack := c.m_Ack } c.m_SecurityToken c.m_Sixup
      false with
  | error e =>
      rw [hsend] at h
      cases h
  | ok d =>
      rw [hsend] at h
      cases h
      exact ⟨d, rfl, rfl⟩

/-- The header of a chunk of 1024 bytes says 0: the peer gets an empty chunk. -/
theorem framing_truncates : ∃ s,
    Reachable Sender.step (fun _ e => Accepted e) ⟨online false, []⟩ s ∧
      ¬ RoundTrip (online false) s := by
  have hlen : (List.replicate 1024 (0 : UInt8)).length = 1024 := List.length_replicate
  generalize List.replicate 1024 (0 : UInt8) = pData at hlen
  have haccepted : Accepted (.queue env₀ 0 pData) := by
    refine ⟨.inl rfl, ?_⟩
    rw [hlen]
    decide
  refine ⟨_, .next _ .init haccepted (queue_zeros hlen), ?_⟩
  intro h
  obtain ⟨c, n, hflush, hrecv⟩ := h.received env₀
  obtain ⟨d, hsend, hsocket⟩ := flush_sends hflush Nat.one_ne_zero
  have hzeros := transports_zeros hlen hsend
  let u : CNetRecvUnpacker :=
    { m_Valid := false, m_Addr := (online false).m_PeerAddr, m_CurrentChunk := 0, m_ClientId := 0
      m_Data := .zero }
  have hempty := recvAll_spec (.cons ⟨by decide, 0, hzeros⟩ .nil) (c := online false) rfl
    ⟨rfl, trivial⟩ u
  have hqueued := hrecv (online false) u rfl rfl
  rw [hsocket] at hqueued
  have hlist := Except.ok.inj (hqueued.symm.trans hempty)
  have hdata : pData = [] := congrArg Delivered.Data (List.cons.inj hlist).1
  rw [hdata] at hlen
  cases hlen

end Fex.Engine.Connection
