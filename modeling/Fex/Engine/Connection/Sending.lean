import Fex.Engine.Connection.Queueing

/-!
# What a connection sends

Every operation of an endpoint only appends chunks to the packet under
construction and hands finished packets to the socket.  `Emits` records that,
for a class of chunks that may be put into packets during the operation, and
`Outbox` is what the operations need of the connection.
-/

namespace Fex.Engine.Connection

open Fex.Lib Fex.Engine.Network Fex.Engine.RingBuffer

/-- From the pending chunks `chs`, putting chunks that satisfy `Put` into packets and sending the
datagrams `ds` leads to the pending chunks of the last index. -/
inductive Emits (Put : Chunk → Prop) (Sixup : Bool) (Ack : Nat) (chs : List Chunk) :
    List (List UInt8) → List Chunk → Prop
  | nil : Emits Put Sixup Ack chs [] chs
  | put {ds : List (List UInt8)} {chs' : List Chunk} (ch : Chunk) :
      Emits Put Sixup Ack chs ds chs' → Put ch → Emits Put Sixup Ack chs ds (chs' ++ [ch])
  | send {ds : List (List UInt8)} {chs' : List Chunk} (d : List UInt8) :
      Emits Put Sixup Ack chs ds chs' → Transports Sixup Ack chs' d →
        Emits Put Sixup Ack chs (ds ++ [d]) []

namespace Emits

variable {Put : Chunk → Prop} {Sixup : Bool} {Ack : Nat} {chs chs' chs'' : List Chunk}
  {ds ds' : List (List UInt8)}

theorem trans (h : Emits Put Sixup Ack chs ds chs') (h' : Emits Put Sixup Ack chs' ds' chs'') :
    Emits Put Sixup Ack chs (ds ++ ds') chs'' := by
  induction h' with
  | nil =>
      rw [List.append_nil]
      exact h
  | put ch _ hput ih => exact .put ch ih hput
  | send d _ hd ih =>
      rw [← List.append_assoc]
      exact .send d ih hd

/-- Nothing was sent and chunks were appended, or the first datagram took the pending chunks and
everything after it consists of chunks of this operation. -/
theorem cases_first (h : Emits Put Sixup Ack chs ds chs') :
    (ds = [] ∧ ∃ new, chs' = chs ++ new ∧ ∀ ch ∈ new, Put ch) ∨
    ∃ d rest, ds = d :: rest ∧
      (∃ new, Transports Sixup Ack (chs ++ new) d ∧ ∀ ch ∈ new, Put ch) ∧
      (∀ e ∈ rest, ∃ new, Transports Sixup Ack new e ∧ ∀ ch ∈ new, Put ch) ∧
      ∀ ch ∈ chs', Put ch := by
  induction h with
  | nil => exact .inl ⟨rfl, [], by simp, by simp⟩
  | @put ds chs' ch _ hput ih =>
      have hnew : ∀ {new : List Chunk}, (∀ x ∈ new, Put x) → ∀ x ∈ new ++ [ch], Put x := by
        intro new hall x hx
        rcases List.mem_append.mp hx with hx | hx
        · exact hall x hx
        · rw [List.mem_singleton.mp hx]
          exact hput
      rcases ih with ⟨rfl, new, rfl, hall⟩ | ⟨d, rest, rfl, hfirst, hrest, hall⟩
      · exact .inl ⟨rfl, new ++ [ch], by rw [List.append_assoc], hnew hall⟩
      · exact .inr ⟨d, rest, rfl, hfirst, hrest, hnew hall⟩
  | @send ds chs' e _ he ih =>
      right
      rcases ih with ⟨rfl, new, rfl, hall⟩ | ⟨d, rest, rfl, hfirst, hrest, hall⟩
      · exact ⟨e, [], rfl, ⟨new, he, hall⟩, by simp, by simp⟩
      · refine ⟨d, rest ++ [e], rfl, hfirst, ?_, by simp⟩
        intro x hx
        rcases List.mem_append.mp hx with hx | hx
        · exact hrest x hx
        · rw [List.mem_singleton.mp hx]
          exact ⟨chs', he, hall⟩

end Emits

/-- The fields that sending leaves alone. -/
structure Stays (c c' : CNetConnection) : Prop where
  seq : c'.m_Sequence = c.m_Sequence
  ack : c'.m_Ack = c.m_Ack
  peerAck : c'.m_PeerAck = c.m_PeerAck
  sixup : c'.m_Sixup = c.m_Sixup
  addr : c'.m_PeerAddr = c.m_PeerAddr
  unknown : c'.m_UnknownSeq = c.m_UnknownSeq

theorem Stays.refl (c : CNetConnection) : Stays c c := ⟨rfl, rfl, rfl, rfl, rfl, rfl⟩

theorem Stays.trans {c c' c'' : CNetConnection} (h : Stays c c') (h' : Stays c' c'') :
    Stays c c'' :=
  ⟨h'.seq.trans h.seq, h'.ack.trans h.ack, h'.peerAck.trans h.peerAck, h'.sixup.trans h.sixup,
    h'.addr.trans h.addr, h'.unknown.trans h.unknown⟩

/-- An operation that sends. -/
structure Sends (Put : Chunk → Prop) (c c' : CNetConnection) (chs chs' : List Chunk) : Prop where
  stays : Stays c c'
  emits : ∃ ds, c'.m_Socket = c.m_Socket ++ ds.map (fun d => (c.m_PeerAddr, d)) ∧
    Emits Put c.m_Sixup c.m_Ack chs ds chs'

theorem Sends.refl (Put : Chunk → Prop) (c : CNetConnection) (chs : List Chunk) :
    Sends Put c c chs chs := ⟨.refl c, [], by simp, .nil⟩

theorem Sends.trans {Put : Chunk → Prop} {c c' c'' : CNetConnection}
    {chs chs' chs'' : List Chunk} (h : Sends Put c c' chs chs') (h' : Sends Put c' c'' chs' chs'') :
    Sends Put c c'' chs chs'' := by
  obtain ⟨ds, hsocket, hemits⟩ := h.emits
  obtain ⟨ds', hsocket', hemits'⟩ := h'.emits
  rw [h.stays.sixup, h.stays.ack] at hemits'
  refine ⟨h.stays.trans h'.stays, ds ++ ds', ?_, hemits.trans hemits'⟩
  rw [hsocket', hsocket, h.stays.addr, List.map_append, List.append_assoc]

/-- The object in the resend buffer as a chunk. -/
def CNetChunkResend.chunk (r : CNetChunkResend) : Chunk :=
  { Flags := r.m_Flags, Data := r.m_pData, Sequence := r.m_Sequence }

/-- The chunk as `ResendChunk` queues it. -/
def Chunk.resent (ch : Chunk) : Chunk := { ch with Flags := ch.Flags ||| NET_CHUNKFLAG_RESEND }

/-- What is put into packets is well formed. -/
def Packable (Sixup : Bool) (ch : Chunk) : Prop := ch.Small (splitBits Sixup) ∧ ch.FitsPacket

/-- A connection that is online or failed, its pending chunks and the chunks it may resend. -/
structure Outbox (c : CNetConnection) (chs : List Chunk) (live : List Nat) (items : List Chunk) :
    Prop where
  state : c.m_State = .ONLINE ∨ c.m_State = .ERROR
  ack : c.m_Ack < NET_MAX_SEQUENCE
  holds : Holds c.m_Construct (splitBits c.m_Sixup) chs
  buffer : Buffered c.m_Buffer live
  stored : live.map (fun p => (c.m_Buffer.chunks p).chunk) = items
  packable : ∀ ch ∈ items, Packable c.m_Sixup ch.resent

/-- Storing a time does not change the chunks. -/
theorem map_update_time {chunks : Nat → CNetChunkResend} (live : List Nat) (p : Nat) (t : Int) :
    live.map (fun q => (Function.update chunks p { chunks p with m_LastSendTime := t } q).chunk) =
      live.map fun q => (chunks q).chunk := by
  apply List.map_congr_left
  intro q _
  by_cases hq : q = p
  · rw [hq, Function.update_self]
    rfl
  · rw [Function.update_of_ne hq]

theorem Flushed.emits {env : Env} {c c₁ : CNetConnection} {chs chs₁ : List Chunk}
    (h : Flushed env c chs c₁ chs₁) (Put : Chunk → Prop) :
    ∃ ds, c₁.m_Socket = c.m_Socket ++ ds.map (fun d => (c.m_PeerAddr, d)) ∧
      Emits Put c.m_Sixup c.m_Ack chs ds chs₁ := by
  cases h with
  | keep => exact ⟨[], by simp, .nil⟩
  | sent d hd => exact ⟨[d], rfl, .send d .nil hd⟩

namespace Outbox

variable {Put : Chunk → Prop} {c : CNetConnection} {chs items : List Chunk} {live : List Nat}

/-- A flush leaves nothing pending; it sets the time of the last send if it sent anything. -/
theorem flush (h : Outbox c chs live items) (Put : Chunk → Prop) (env : Env) :
    ∃ c' n, c.Flush env = .ok (c', n) ∧ Outbox c' [] live items ∧ Sends Put c c' chs [] ∧
      c'.m_State = c.m_State ∧ c'.m_Buffer = c.m_Buffer := by
  rcases CNetConnection.flush_spec env h.holds h.ack with ⟨rfl, -, hflush⟩ | ⟨d, hflush, htrans⟩
  · exact ⟨c, 0, hflush, h, .refl Put c [], rfl, rfl⟩
  · refine ⟨_, _, hflush, ?_, ?_, rfl, rfl⟩
    · exact ⟨h.state, h.ack, holds_zero _, h.buffer, h.stored, h.packable⟩
    · exact ⟨⟨rfl, rfl, rfl, rfl, rfl, rfl⟩, [d], rfl, .send d .nil htrans⟩

/-- Queueing a chunk: a failed connection refuses it, another one packs and perhaps saves it. -/
theorem queueChunkEx (h : Outbox c chs live items) (env : Env) {ch : Chunk}
    (hpack : Packable c.m_Sixup ch) (hput : Put ch) :
    ∃ c' chs' ret, c.QueueChunkEx env ch.Flags ch.Data ch.Sequence = .ok (c', ret) ∧
      Sends Put c c' chs chs' ∧ c'.m_State = c.m_State ∧
      Holds c'.m_Construct (splitBits c.m_Sixup) chs' ∧
      ((c' = c ∧ ret = -1 ∧ c.m_State = .ERROR) ∨
        ∃ live', Saved env ch c.m_Buffer live c'.m_Buffer live' ret) := by
  rcases h.state with hstate | hstate
  · have honline : ¬ (c.m_State = .OFFLINE ∨ c.m_State = .ERROR) := by
      rw [hstate]
      decide
    obtain ⟨c₁, chs₁, p, b, live', ret, hqueue, hfl, -, hholds, hsaved⟩ :=
      CNetConnection.queueChunkEx_spec env honline h.holds h.ack hpack.1 hpack.2 h.buffer
    obtain ⟨ds, hsocket, hemits⟩ := hfl.emits Put
    obtain ⟨p', t', ds', hframe⟩ := hfl.frame
    refine ⟨_, _, ret, hqueue, ⟨?_, ds, hsocket, .put ch hemits hput⟩, ?_, hholds,
      .inr ⟨live', hsaved⟩⟩
    · rw [hframe]
      exact ⟨rfl, rfl, rfl, rfl, rfl, rfl⟩
    · rw [hframe]
  · refine ⟨c, chs, -1, ?_, .refl Put c chs, rfl, h.holds, .inl ⟨rfl, rfl, hstate⟩⟩
    unfold CNetConnection.QueueChunkEx
    exact if_pos (.inr hstate)

theorem resent_not_saved (ch : Chunk) :
    ¬ (ch.resent.Vital ∧ ch.resent.Flags &&& NET_CHUNKFLAG_RESEND = 0) := by
  rintro ⟨-, h⟩
  have hor : (ch.Flags ||| NET_CHUNKFLAG_RESEND) &&& NET_CHUNKFLAG_RESEND = 0 := h
  rw [Nat.and_or_distrib_right, Nat.or_eq_zero_iff] at hor
  exact absurd hor.2 (by decide)

/-- Resending one of the saved chunks. -/
theorem resendChunk (h : Outbox c chs live items) (env : Env) {p : Nat} (hp : p ∈ live)
    (hput : ∀ ch ∈ items, Put ch.resent) :
    ∃ c' chs', c.ResendChunk env p = .ok c' ∧ Outbox c' chs' live items ∧ Sends Put c c' chs chs' ∧
      c'.m_State = c.m_State ∧ c'.m_Buffer.ring = c.m_Buffer.ring := by
  have hmem : (c.m_Buffer.chunks p).chunk ∈ items := by
    rw [← h.stored]
    exact List.mem_map.mpr ⟨p, hp, rfl⟩
  obtain ⟨c', chs', ret, hqueue, hsends, hstate, hholds, hsaved⟩ :=
    h.queueChunkEx env (h.packable _ hmem) (hput _ hmem)
  have hbuffer : c'.m_Buffer = c.m_Buffer := by
    rcases hsaved with ⟨rfl, -, -⟩ | ⟨live', hsaved⟩
    · rfl
    · -- a resent chunk is not saved again
      generalize hb : c'.m_Buffer = b at hsaved
      cases hsaved with
      | skip hskip => rfl
      | full b' hsave => exact absurd hsave (resent_not_saved _)
      | stored b' q hsave => exact absurd hsave (resent_not_saved _)
  have hqueue' : c.QueueChunkEx env ((c.m_Buffer.chunks p).m_Flags ||| NET_CHUNKFLAG_RESEND)
      (c.m_Buffer.chunks p).m_pData (c.m_Buffer.chunks p).m_Sequence = .ok (c', ret) := hqueue
  have hstays := hsends.stays
  have hring : c'.m_Buffer.ring = c.m_Buffer.ring := congrArg ResendBuffer.ring hbuffer
  refine ⟨{ c' with m_Buffer := { c'.m_Buffer with
    chunks := Function.update c'.m_Buffer.chunks p
      { c'.m_Buffer.chunks p with m_LastSendTime := env.Now } } }, chs', ?_, ?_, ?_, hstate, ?_⟩
  · unfold CNetConnection.ResendChunk
    simp only [hqueue', bind, Except.bind]
    rfl
  · refine ⟨?_, ?_, ?_, ?_, ?_, ?_⟩
    · rw [hstate]
      exact h.state
    · show c'.m_Ack < _
      rw [hstays.ack]
      exact h.ack
    · show Holds c'.m_Construct (splitBits c'.m_Sixup) chs'
      rw [hstays.sixup]
      exact hholds
    · exact h.buffer.congr hring
    · simp only [map_update_time, hbuffer]
      exact h.stored
    · show ∀ ch ∈ items, Packable c'.m_Sixup ch.resent
      rw [hstays.sixup]
      exact h.packable
  · exact ⟨⟨hstays.seq, hstays.ack, hstays.peerAck, hstays.sixup, hstays.addr, hstays.unknown⟩,
      hsends.emits⟩
  · exact hring

theorem resendLoop {ps : List Nat} {n : Nat} (h : Outbox c chs live items) (env : Env)
    (hput : ∀ ch ∈ items, Put ch.resent) (hlinked : Linked c.m_Buffer.Next ps none)
    (hps : ∀ p ∈ ps, p ∈ live) (hn : ps.length ≤ n) :
    ∃ c' chs', CNetConnection.ResendLoop env n c ps.head? = .ok c' ∧ Outbox c' chs' live items ∧
      Sends Put c c' chs chs' ∧ c'.m_State = c.m_State := by
  induction ps generalizing c chs n with
  | nil =>
      refine ⟨c, chs, ?_, h, .refl Put c chs, rfl⟩
      cases n <;> rfl
  | cons p ps ih =>
      obtain ⟨n, rfl⟩ : ∃ m, n = m + 1 := ⟨n - 1, by simp only [List.length_cons] at hn; omega⟩
      obtain ⟨c₁, chs₁, hresend, hout, hsends, hstate, hring⟩ :=
        h.resendChunk env (hps p (by simp)) hput
      have hnext : c₁.m_Buffer.Next = c.m_Buffer.Next := by
        unfold ResendBuffer.Next
        rw [hring]
      obtain ⟨hp, hlinked'⟩ := hlinked
      rw [← hnext] at hp hlinked'
      obtain ⟨c', chs', hloop, hout', hsends', hstate'⟩ := ih hout hlinked'
        (fun q hq => hps q (by simp [hq])) (by simpa using hn)
      refine ⟨c', chs', ?_, hout', hsends.trans hsends', hstate'.trans hstate⟩
      rw [Option.or_none] at hp
      rw [List.head?_cons, CNetConnection.ResendLoop]
      simp only [hresend, hp, bind, Except.bind]
      exact hloop

theorem resend (h : Outbox c chs live items) (env : Env) (hput : ∀ ch ∈ items, Put ch.resent) :
    ∃ c' chs', c.Resend env = .ok c' ∧ Outbox c' chs' live items ∧ Sends Put c c' chs chs' ∧
      c'.m_State = c.m_State := by
  unfold CNetConnection.Resend
  rw [h.buffer.first]
  exact h.resendLoop env hput h.buffer.linked (fun _ hp => hp) (Nat.le_of_lt h.buffer.length_lt_fuel)

/-! ## Update -/

/-- Only the fields an `Outbox` speaks of matter. -/
theorem congr {c' : CNetConnection} (h : Outbox c chs live items)
    (hstate : c'.m_State = .ONLINE ∨ c'.m_State = .ERROR) (hack : c'.m_Ack = c.m_Ack)
    (hconstruct : c'.m_Construct = c.m_Construct) (hsixup : c'.m_Sixup = c.m_Sixup)
    (hbuffer : c'.m_Buffer = c.m_Buffer) : Outbox c' chs live items := by
  refine ⟨hstate, hack ▸ h.ack, ?_, hbuffer ▸ h.buffer, hbuffer ▸ h.stored, hsixup ▸ h.packable⟩
  rw [hconstruct, hsixup]
  exact h.holds

theorem updateResend (h : Outbox c chs live items) (env : Env)
    (hput : ∀ ch ∈ items, Put ch.resent) :
    ∃ c' chs', c.UpdateResend env = .ok c' ∧ Outbox c' chs' live items ∧
      Sends Put c c' chs chs' := by
  unfold CNetConnection.UpdateResend
  rw [h.buffer.first]
  cases live with
  | nil => exact ⟨c, chs, rfl, h, .refl Put c chs⟩
  | cons p live =>
      simp only [List.head?_cons]
      split
      · exact ⟨_, chs, rfl, h.congr (.inr rfl) rfl rfl rfl rfl,
          ⟨⟨rfl, rfl, rfl, rfl, rfl, rfl⟩, [], by simp, .nil⟩⟩
      · split
        · obtain ⟨c', chs', hresend, hout, hsends, -, -⟩ :=
            h.resendChunk env List.mem_cons_self hput
          exact ⟨c', chs', hresend, hout, hsends⟩
        · exact ⟨c, chs, rfl, h, .refl Put c chs⟩

end Outbox

/-- A keep alive transports no chunk. -/
theorem sendControl_keepalive {c : CNetConnection} (env : Env) (hack : c.m_Ack < NET_MAX_SEQUENCE) :
    ∃ d, c.SendControl env NET_CTRLMSG_KEEPALIVE [] =
        .ok { c.send c.m_PeerAddr d with m_LastSendTime := env.Now } ∧
      Transports c.m_Sixup c.m_Ack [] d := by
  set p : CNetPacketConstruct := { CNetPacketConstruct.zero with
    m_Flags := NET_PACKETFLAG_CONTROL, m_Ack := c.m_Ack, m_NumChunks := 0, m_DataSize := 1
    m_aChunkData := Buffer.zero.copy 0 [NET_CTRLMSG_KEEPALIVE] } with hp
  have hflags : p.m_Flags = 0 ∨ p.m_Flags = 16 ∨ (p.m_Flags = 4 ∧ true = true) :=
    .inr (.inr ⟨rfl, rfl⟩)
  obtain ⟨d, hd⟩ := @sendPacket_ok p c.m_SecurityToken c.m_Sixup true
    (by rw [hp]; exact Int.one_nonneg)
    (show (1 : Int) + TOKEN_SIZE ≤ NET_MAX_PAYLOAD by decide) hflags
  have hcontrol : CNetConnection.ControlMsg c.m_Ack NET_CTRLMSG_KEEPALIVE [] c.m_SecurityToken
      c.m_Sixup = .ok d := hd
  refine ⟨d, ?_, ?_⟩
  · unfold CNetConnection.SendControl
    simp only [hcontrol, bind, Except.bind]
    rfl
  · intro q t r ht
    have hfirst : p.m_aChunkData 0 = NET_CTRLMSG_KEEPALIVE := rfl
    have hsend : Sendable p true :=
      ⟨Int.one_nonneg, hack, hflags, fun _ => ⟨Int.one_pos, by rw [hfirst]; decide⟩⟩
    have hlen := length_wireData_le p c.m_SecurityToken c.m_Sixup
    have hsize : p.m_DataSize.toNat = 1 := rfl
    have htoken : (if c.m_Sixup then 0 else TOKEN_SIZE) ≤ TOKEN_SIZE := by
      cases c.m_Sixup <;> decide
    have hfit : (wireData p c.m_SecurityToken c.m_Sixup).length ≤ NET_MAX_PAYLOAD := by
      simp only [TOKEN_SIZE, NET_MAX_PAYLOAD, NET_MAX_PACKETSIZE] at *
      omega
    obtain ⟨F, u, hF, hunpack, hret, hsixup, hu⟩ :=
      unpackPacket_sendPacket hsend hfit hd q (r := r) ht
    refine ⟨u, hunpack, hret, hsixup, ?_⟩
    rw [hu]
    refine ⟨⟨by simp, rfl, Nat.zero_le _, Nat.zero_le _⟩, rfl, rfl, Int.natCast_nonneg _, ?_, ?_⟩
    · intro _
      refine ⟨rfl, ?_⟩
      rw [received_first q _ _ _ Int.one_pos]
      exact hfirst
    · have hfour : p.m_Flags = 4 := rfl
      show F &&& NET_PACKETFLAG_CONNLESS = 0
      rw [hfour] at hF
      rcases hF with rfl | rfl <;> decide

namespace Outbox

variable {Put : Chunk → Prop} {c : CNetConnection} {chs items : List Chunk} {live : List Nat}

/-- A keep alive goes out only when nothing is pending. -/
theorem keepalive (h : Outbox c [] live items) (Put : Chunk → Prop) (env : Env) :
    ∃ c', c.SendControl env NET_CTRLMSG_KEEPALIVE [] = .ok c' ∧ Outbox c' [] live items ∧
      Sends Put c c' [] [] := by
  obtain ⟨d, hsend, htrans⟩ := sendControl_keepalive env h.ack
  exact ⟨_, hsend, h.congr h.state rfl rfl rfl rfl,
    ⟨rfl, rfl, rfl, rfl, rfl, rfl⟩, [d], rfl, .send d .nil htrans⟩

theorem updateSend (h : Outbox c chs live items) (Put : Chunk → Prop) (env : Env) :
    ∃ c' chs', c.UpdateSend env = .ok c' ∧ Outbox c' chs' live items ∧ Sends Put c c' chs chs' := by
  unfold CNetConnection.UpdateSend
  rcases h.state with hstate | hstate
  · simp only [hstate]
    by_cases hhalf : env.Now - c.m_LastSendTime > time_freq / 2
    · rw [if_pos hhalf]
      obtain ⟨c₁, n, hflush, hout, hsends, -, -⟩ := h.flush Put env
      have hmap : (Prod.fst <$> c.Flush env : Exec _) = .ok c₁ := by
        rw [hflush]
        rfl
      simp only [hmap, bind, Except.bind]
      by_cases hfull : env.Now - c₁.m_LastSendTime > time_freq
      · rw [if_pos hfull]
        obtain ⟨c₂, hkeep, hout₂, hsends₂⟩ := hout.keepalive Put env
        exact ⟨c₂, [], hkeep, hout₂, hsends.trans hsends₂⟩
      · rw [if_neg hfull]
        exact ⟨c₁, [], rfl, hout, hsends⟩
    · rw [if_neg hhalf]
      have hfull : ¬ env.Now - c.m_LastSendTime > time_freq := by
        unfold time_freq at hhalf ⊢
        omega
      simp only [pure, Except.pure, bind, Except.bind]
      rw [if_neg hfull]
      exact ⟨c, chs, rfl, h, .refl Put c chs⟩
  · simp only [hstate]
    exact ⟨c, chs, rfl, h, .refl Put c chs⟩

theorem update (h : Outbox c chs live items) (env : Env) (hput : ∀ ch ∈ items, Put ch.resent) :
    ∃ c' chs', c.Update env = .ok c' ∧ Outbox c' chs' live items ∧ Sends Put c c' chs chs' := by
  unfold CNetConnection.Update
  generalize hc₁ : (if c.m_State = .ERROR ∧ c.m_TimeoutSituation ∧
      env.Now - c.m_LastRecvTime > time_freq * env.m_ConnTimeoutProtection then
    { c with m_TimeoutSituation := false } else c) = c₁
  have h₁ : Outbox c₁ chs live items ∧ Sends Put c c₁ chs chs := by
    rw [← hc₁]
    split
    · exact ⟨h.congr h.state rfl rfl rfl rfl, ⟨rfl, rfl, rfl, rfl, rfl, rfl⟩, [], by simp, .nil⟩
    · exact ⟨h, .refl Put c chs⟩
  obtain ⟨hout₁, hsends₁⟩ := h₁
  simp only
  by_cases hdead : c₁.m_State = .OFFLINE ∨ c₁.m_State = .ERROR
  · rw [if_pos hdead]
    exact ⟨c₁, chs, rfl, hout₁, hsends₁⟩
  · rw [if_neg hdead]
    generalize hc₂ : (if c₁.m_State ≠ .OFFLINE ∧ c₁.m_State ≠ .CONNECT ∧
        env.Now - c₁.m_LastRecvTime > time_freq * env.m_ConnTimeout then
      { c₁ with m_State := .ERROR, m_TimeoutSituation := true }
      else { c₁ with m_TimeoutSituation := false }) = c₂
    have h₂ : Outbox c₂ chs live items ∧ Sends Put c₁ c₂ chs chs := by
      rw [← hc₂]
      split
      · exact ⟨hout₁.congr (.inr rfl) rfl rfl rfl rfl, ⟨rfl, rfl, rfl, rfl, rfl, rfl⟩, [],
          by simp, .nil⟩
      · exact ⟨hout₁.congr hout₁.state rfl rfl rfl rfl, ⟨rfl, rfl, rfl, rfl, rfl, rfl⟩, [],
          by simp, .nil⟩
    obtain ⟨hout₂, hsends₂⟩ := h₂
    obtain ⟨c₃, chs₃, hresend, hout₃, hsends₃⟩ := hout₂.updateResend env hput
    obtain ⟨c₄, chs₄, hsend, hout₄, hsends₄⟩ := hout₃.updateSend Put env
    refine ⟨c₄, chs₄, ?_, hout₄, hsends₁.trans (hsends₂.trans (hsends₃.trans hsends₄))⟩
    simp only [hresend, bind, Except.bind]
    exact hsend

end Outbox

end Fex.Engine.Connection
