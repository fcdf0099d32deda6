import Fex.Engine.Connection.Queueing
import Fex.Engine.RingBuffer.Runs

/-!
# Two endpoints and the network between them

One endpoint queues vital chunks, the other one hands them out.  The sockets
keep everything that was sent, so a datagram that was sent can be received at
any later time, any number of times or never.

The rest of the state observes the run: what was queued and handed out, which
chunks were saved for a resend, and for every datagram how many chunks had been
queued when its first chunk was put into it.
-/

namespace Fex.Engine.Connection

open Fex.Lib Fex.Engine.Network Fex.Engine.RingBuffer

/-- A client, or the slot of a server that has this peer. -/
structure Endpoint where
  conn : CNetConnection
  unpacker : CNetRecvUnpacker
  server : Bool

namespace Endpoint

/-- `Recv` with a datagram of the peer, which it takes once `FetchChunk` has returned 0.  The
server only starts to unpack packets that are not empty. -/
def recv (env : Env) (e : Endpoint) (Addr : NETADDR) (pData : List UInt8) : Exec Endpoint :=
  if e.unpacker.m_Valid then .ok e
  else do
    let r ← UnpackPacket pData e.unpacker.m_Data e.conn.m_Sixup (some 0)
      (some NET_SECURITY_TOKEN_UNKNOWN)
    if r.ret ≠ 0 ∨ r.pPacket.m_Flags &&& NET_PACKETFLAG_CONNLESS ≠ 0 ∨
        e.conn.m_State = .OFFLINE ∨ e.conn.m_State = .ERROR then
      return { e with unpacker := { e.unpacker with m_Data := r.pPacket } }
    else
      let (c, p, ok) ← e.conn.Feed env r.pPacket Addr (r.pSecurityToken.getD 0)
        (r.pResponseToken.getD 0)
      let u := { e.unpacker with m_Data := p }
      return { e with
        conn := c
        unpacker := if ok && (!e.server || p.m_DataSize != 0) then u.Start Addr 0 else u }

/-- `FetchChunk`: the payload of a vital chunk that is handed out. -/
def fetch (e : Endpoint) : Exec (Endpoint × Option (List UInt8)) := do
  let (u, c, pChunk) ← e.unpacker.FetchChunk (some e.conn)
  return ({ e with conn := c.getD e.conn, unpacker := u }, pChunk.bind fun ch =>
    if ch.m_Flags &&& NET_CHUNKFLAG_VITAL ≠ 0 then
      some (u.m_Data.m_aChunkData.slice ch.m_pData ch.m_DataSize)
    else none)

end Endpoint

/-- What either endpoint does; `recv` names a datagram in the socket of the peer. -/
inductive Action
  | flush (env : Env)
  | update (env : Env)
  | recv (env : Env) (Addr : NETADDR) (i : Nat)
  | fetch

/-- The endpoint afterwards and the payload it handed out. -/
def Endpoint.act (e : Endpoint) (sent : List (NETADDR × List UInt8)) :
    Action → Exec (Endpoint × Option (List UInt8))
  | .flush env => do
      let (c, _) ← e.conn.Flush env
      return ({ e with conn := c }, none)
  | .update env => do return ({ e with conn := ← e.conn.Update env }, none)
  | .recv env Addr i =>
      match sent[i]? with
      | none => .ok (e, none)
      | some (_, pData) => do return (← e.recv env Addr pData, none)
  | .fetch => e.fetch

structure Link where
  a : Endpoint
  b : Endpoint
  /-- payloads queued on `a` -/
  queued : List (List UInt8)
  /-- positions in `queued` for which `QueueChunk` returned 0 -/
  saved : List Nat
  /-- payloads handed out by `b` -/
  delivered : List (List UInt8)
  /-- the count of chunks for the packet `a` is building -/
  building : Nat
  /-- the counts for the datagrams of `a` and of `b` -/
  sentA : List Nat
  sentB : List Nat
  /-- the count of the datagram `b` is unpacking -/
  unpacking : Nat

inductive Event
  | queue (env : Env) (pData : List UInt8)
  | a (x : Action)
  | b (x : Action)

namespace Link

/-- Counts for `n` datagrams sent at once: the first one was being built before. -/
def stamps (first count : Nat) : Nat → List Nat
  | 0 => []
  | n + 1 => first :: List.replicate n count

/-- After `a` did something: whatever it sent first is the packet it was building. -/
def stampA (s : Link) (a : Endpoint) : Link :=
  let count := s.queued.length
  let first := if s.a.conn.m_Construct.m_NumChunks = 0 then count else s.building
  let n := a.conn.m_Socket.length - s.a.conn.m_Socket.length
  { s with
    a := a
    building := if n = 0 then first else count
    sentA := s.sentA ++ stamps first count n }

def stampB (s : Link) (b : Endpoint) : Link :=
  { s with
    b := b
    sentB := s.sentB ++
      List.replicate (b.conn.m_Socket.length - s.b.conn.m_Socket.length) s.queued.length }

def step (s : Link) : Event → Exec Link
  | .queue env pData => do
      let (c, ret) ← s.a.conn.QueueChunk env NET_CHUNKFLAG_VITAL pData
      let saved := if ret = 0 then s.saved ++ [s.queued.length] else s.saved
      return { s with queued := s.queued ++ [pData], saved := saved }.stampA
        { s.a with conn := c }
  | .a x => do
      let (a, _) ← s.a.act s.b.conn.m_Socket x
      return s.stampA a
  | .b x => do
      let (b, payload) ← s.b.act s.a.conn.m_Socket x
      let unpacking := match x with
        | .recv _ _ i => if s.b.unpacker.m_Valid then s.unpacking else s.sentA.getD i 0
        | _ => s.unpacking
      return { s with
        delivered := s.delivered ++ payload.toList, unpacking := unpacking }.stampB b

/-- Vital chunks that are queued and not acknowledged. -/
def unacknowledged (s : Link) : Nat :=
  (s.a.conn.m_Sequence + NET_MAX_SEQUENCE - s.a.conn.m_PeerAck) % NET_MAX_SEQUENCE

/-- At most 511 chunks are unacknowledged, and no packet is delivered after 512 further chunks
were queued. -/
def InWindow (s : Link) : Event → Prop
  | .queue _ _ => s.unacknowledged < 511
  | .a (.recv _ _ i) => ∀ t, s.sentB[i]? = some t → s.queued.length < t + 512
  | .b (.recv _ _ i) => ∀ t, s.sentA[i]? = some t → s.queued.length < t + 512
  | .b .fetch => s.b.unpacker.m_Valid = true → s.queued.length < s.unpacking + 512
  | _ => True

/-- The chunk fits its size field and a packet of its own. -/
def Fits (s : Link) : Event → Prop
  | .queue _ pData =>
      pData.length < 2 ^ (6 + s.a.conn.Split) ∧
        NET_MAX_CHUNKHEADERSIZE + pData.length + TOKEN_SIZE ≤ NET_MAX_PAYLOAD
  | _ => True

/-- Two online endpoints that nothing was sent between; `b` expects the number `a` is about to
use. -/
structure Started (s : Link) : Prop where
  onlineA : s.a.conn.m_State = .ONLINE
  onlineB : s.b.conn.m_State = .ONLINE
  seq : s.a.conn.m_Sequence < NET_MAX_SEQUENCE
  peerAck : s.a.conn.m_PeerAck = s.a.conn.m_Sequence
  ackB : s.b.conn.m_Ack = s.a.conn.m_Sequence
  ackA : s.a.conn.m_Ack < NET_MAX_SEQUENCE
  known : s.b.conn.m_UnknownSeq = false
  sixup : s.b.conn.m_Sixup = s.a.conn.m_Sixup
  constructA : s.a.conn.m_Construct = .zero
  constructB : s.b.conn.m_Construct = .zero
  bufferA : Buffered s.a.conn.m_Buffer []
  bufferB : Buffered s.b.conn.m_Buffer []
  socketA : s.a.conn.m_Socket = []
  socketB : s.b.conn.m_Socket = []
  unpackerA : s.a.unpacker.m_Valid = false
  unpackerB : s.b.unpacker.m_Valid = false
  queued : s.queued = []
  saved : s.saved = []
  delivered : s.delivered = []
  building : s.building = 0
  sentA : s.sentA = []
  sentB : s.sentB = []

end Link

end Fex.Engine.Connection
