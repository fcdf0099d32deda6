import Fex.Engine.Network
import Fex.Engine.RingBuffer

/-!
# CNetConnection and CNetRecvUnpacker

`m_Socket` keeps the datagrams handed to the socket, oldest first.  The objects
in the resend buffer are found by the block they occupy.  The clock does not
advance while a function runs.
-/

namespace Fex.Engine.Connection

open Fex.Lib Fex.Engine.Network Fex.Engine.RingBuffer

inductive ConnState
  | OFFLINE
  | TOKEN
  | CONNECT
  | PENDING
  | ONLINE
  | ERROR
  deriving DecidableEq

def NET_CONN_BUFFERSIZE : Nat := 1024 * 32

/-- `sizeof(CNetChunkResend)` -/
def RESEND_SIZE : Nat := 40

def SECURITY_TOKEN_MAGIC : List UInt8 := [0x54, 0x4b, 0x45, 0x4e]

def NET_TOKENREQUEST_DATASIZE : Nat := 512

structure NETADDR where
  type : Nat
  ip : List UInt8
  port : Nat
  deriving DecidableEq

/-- `net_addr_comp_noport(a, b) == 0` -/
def SameAddrNoPort (a b : NETADDR) : Bool := { a with port := 0 } == { b with port := 0 }

/-- What the functions read of their surroundings: the clock, the configured timeouts and the
uninitialised bytes of a buffer on the stack. -/
structure Env where
  Now : Int
  m_ConnTimeout : Int
  m_ConnTimeoutProtection : Int
  aStack : List UInt8

def time_freq : Int := 1000000000

structure CNetChunkResend where
  m_Flags : Nat
  m_pData : List UInt8
  m_Sequence : Nat
  m_LastSendTime : Int
  m_FirstSendTime : Int

def CNetChunkResend.m_DataSize (r : CNetChunkResend) : Nat := r.m_pData.length

/-- `CStaticRingBuffer<CNetChunkResend, NET_CONN_BUFFERSIZE>` -/
structure ResendBuffer where
  ring : CRingBufferBase
  chunks : Nat → CNetChunkResend

structure CNetConnection where
  m_Sequence : Nat
  m_Ack : Nat
  m_PeerAck : Nat
  m_State : ConnState
  m_SecurityToken : SECURITY_TOKEN
  m_RemoteClosed : Bool
  m_UnknownSeq : Bool
  m_Buffer : ResendBuffer
  m_LastUpdateTime : Int
  m_LastRecvTime : Int
  m_LastSendTime : Int
  m_Construct : CNetPacketConstruct
  m_aConnectAddrs : List NETADDR
  m_PeerAddr : NETADDR
  m_Socket : List (NETADDR × List UInt8)
  m_TimeoutProtected : Bool
  m_TimeoutSituation : Bool
  m_Sixup : Bool
  m_Token : SECURITY_TOKEN

namespace ResendBuffer

def Init (b : ResendBuffer) : ResendBuffer :=
  { b with ring := .Init b.ring.m_aItems NET_CONN_BUFFERSIZE 0 }

def First (b : ResendBuffer) : Option Nat := b.ring.First

def Next (b : ResendBuffer) (pCurrent : Nat) : Exec (Option Nat) := b.ring.Next pCurrent

def PopFirst (b : ResendBuffer) : Exec ResendBuffer := do
  let (ring, _) ← b.ring.PopFirst
  return { b with ring := ring }

/-- `Allocate` and the initialisation of the object; also returns whether there was room. -/
def Store (b : ResendBuffer) (chunk : CNetChunkResend) : Exec (ResendBuffer × Bool) := do
  let (ring, pResend?) ← b.ring.Allocate (RESEND_SIZE + chunk.m_DataSize)
  match pResend? with
  | some pResend =>
      return ({ ring := ring, chunks := Function.update b.chunks pResend chunk }, true)
  | none => return ({ b with ring := ring }, false)

end ResendBuffer

namespace CNetConnection

/-- `Header.Unpack` and `Header.Pack` get the split of the protocol. -/
def Split (c : CNetConnection) : Nat := if c.m_Sixup then 6 else 4

def send (c : CNetConnection) (pAddr : NETADDR) (d : List UInt8) : CNetConnection :=
  { c with m_Socket := c.m_Socket ++ [(pAddr, d)] }

def Reset (c : CNetConnection) (Rejoin : Bool) : CNetConnection :=
  { c with
    m_Sequence := 0
    m_Ack := 0
    m_PeerAck := 0
    m_RemoteClosed := false
    m_TimeoutProtected := Rejoin && c.m_TimeoutProtected
    m_TimeoutSituation := Rejoin && c.m_TimeoutSituation
    m_State := if Rejoin then c.m_State else .OFFLINE
    m_Token := if Rejoin then c.m_Token else -1
    m_SecurityToken := if Rejoin then c.m_SecurityToken else NET_SECURITY_TOKEN_UNKNOWN
    m_Sixup := Rejoin && c.m_Sixup
    m_LastSendTime := 0
    m_LastRecvTime := 0
    m_aConnectAddrs := []
    m_UnknownSeq := false
    m_Buffer := c.m_Buffer.Init
    m_Construct := .zero }

def DirectInit (env : Env) (c : CNetConnection) (Addr : NETADDR)
    (SecurityToken Token : SECURITY_TOKEN) (Sixup : Bool) : CNetConnection :=
  { c.Reset false with
    m_State := .ONLINE
    m_PeerAddr := Addr
    m_LastSendTime := env.Now
    m_LastRecvTime := env.Now
    m_LastUpdateTime := env.Now
    m_SecurityToken := SecurityToken
    m_Token := Token
    m_Sixup := Sixup }

/-- The loop of `AckChunks`. -/
def AckLoop : Nat → CNetConnection → Nat → Exec CNetConnection
  | 0, _, _ => .error .diverges
  | n + 1, c, Ack =>
      match c.m_Buffer.First with
      | none => .ok c
      | some pResend =>
          if IsSeqInBackroom (c.m_Buffer.chunks pResend).m_Sequence Ack then do
            AckLoop n { c with m_Buffer := ← c.m_Buffer.PopFirst } Ack
          else .ok c

def AckChunks (c : CNetConnection) (Ack : Nat) : Exec CNetConnection :=
  AckLoop c.m_Buffer.ring.fuel c Ack

def SignalResend (c : CNetConnection) : CNetConnection :=
  { c with
    m_Construct := { c.m_Construct with
      m_Flags := c.m_Construct.m_Flags ||| NET_PACKETFLAG_RESEND } }

/-- Also returns the number of chunks flushed. -/
def Flush (env : Env) (c : CNetConnection) : Exec (CNetConnection × Nat) := do
  let NumChunks := c.m_Construct.m_NumChunks
  if NumChunks = 0 ∧ c.m_Construct.m_Flags = 0 then return (c, 0)
  -- send of the packets
  let d ← SendPacket { c.m_Construct with m_Ack := c.m_Ack } c.m_SecurityToken c.m_Sixup false
  -- update send times and clear construct so we can start building a new package
  return ({ c.send c.m_PeerAddr d with m_LastSendTime := env.Now, m_Construct := .zero }, NumChunks)

/-- The header and the payload that `QueueChunkEx` appends to `m_Construct`. -/
def PackChunk (c : CNetConnection) (Flags : Nat) (pData : List UInt8) (Sequence : Nat) :
    Exec CNetConnection := do
  let Header : CNetChunkHeader :=
    { m_Flags := Flags, m_Size := pData.length, m_Sequence := Sequence }
  let bytes := Header.Pack c.Split ++ pData
  let p ← c.m_Construct.store c.m_Construct.m_DataSize.toNat bytes
  return { c with
    m_Construct := { p with
      m_NumChunks := p.m_NumChunks + 1
      m_DataSize := p.m_DataSize + bytes.length } }

/-- The chunk no longer fits the packet under construction. -/
def NeedsFlush (c : CNetConnection) (pData : List UInt8) : Prop :=
  c.m_Construct.m_DataSize + pData.length + NET_MAX_CHUNKHEADERSIZE >
    (NET_MAX_PAYLOAD - TOKEN_SIZE : Nat)

instance (c : CNetConnection) (pData : List UInt8) : Decidable (c.NeedsFlush pData) :=
  inferInstanceAs (Decidable (_ > _))

/-- Save the chunk if we need to resend. -/
def SaveChunk (env : Env) (c : CNetConnection) (Flags : Nat) (pData : List UInt8)
    (Sequence : Nat) : Exec (CNetConnection × Int) :=
  if Flags &&& NET_CHUNKFLAG_VITAL ≠ 0 ∧ Flags &&& NET_CHUNKFLAG_RESEND = 0 then do
    let (b, stored) ← c.m_Buffer.Store
      { m_Flags := Flags, m_pData := pData, m_Sequence := Sequence, m_LastSendTime := env.Now
        m_FirstSendTime := env.Now }
    -- out of buffer, don't save the packet and hope nobody will ask for resend
    return ({ c with m_Buffer := b }, if stored then 0 else -1)
  else .ok (c, 0)

def QueueChunkEx (env : Env) (c : CNetConnection) (Flags : Nat) (pData : List UInt8)
    (Sequence : Nat) : Exec (CNetConnection × Int) := do
  if c.m_State = .OFFLINE ∨ c.m_State = .ERROR then return (c, -1)
  -- check if we have space for it, if not, flush the connection
  let c ← if c.NeedsFlush pData then Prod.fst <$> c.Flush env else pure c
  -- pack all the data
  let c ← c.PackChunk Flags pData Sequence
  c.SaveChunk env Flags pData Sequence

def QueueChunk (env : Env) (c : CNetConnection) (Flags : Nat) (pData : List UInt8) :
    Exec (CNetConnection × Int) :=
  let c := if Flags &&& NET_CHUNKFLAG_VITAL ≠ 0 then
      { c with m_Sequence := (c.m_Sequence + 1) % NET_MAX_SEQUENCE }
    else c
  c.QueueChunkEx env Flags pData c.m_Sequence

/-- The datagram of `SendControlMsg`. -/
def ControlMsg (Ack : Nat) (Msg : UInt8) (pExtra : List UInt8) (SecurityToken : SECURITY_TOKEN)
    (Sixup : Bool) : Exec (List UInt8) := do
  let Construct ← { CNetPacketConstruct.zero with
    m_Flags := NET_PACKETFLAG_CONTROL
    m_Ack := Ack
    m_NumChunks := 0
    m_DataSize := 1 + pExtra.length }.store 0 (Msg :: pExtra)
  SendPacket Construct SecurityToken Sixup true

def SendConnect (env : Env) (c : CNetConnection) : Exec CNetConnection := do
  let d ← ControlMsg c.m_Ack NET_CTRLMSG_CONNECT SECURITY_TOKEN_MAGIC c.m_SecurityToken c.m_Sixup
  return { c with
    m_LastSendTime := env.Now
    m_Socket := c.m_Socket ++ c.m_aConnectAddrs.map fun Addr => (Addr, d) }

def SendControl (env : Env) (c : CNetConnection) (Msg : UInt8) (pExtra : List UInt8) :
    Exec CNetConnection := do
  let d ← ControlMsg c.m_Ack Msg pExtra c.m_SecurityToken c.m_Sixup
  return { c.send c.m_PeerAddr d with m_LastSendTime := env.Now }

/-- The request holds the own token and is padded with whatever is on the stack. -/
def SendControlWithToken7 (env : Env) (c : CNetConnection) (Msg : UInt8)
    (ResponseToken : SECURITY_TOKEN) : Exec CNetConnection := do
  let aRequestTokenBuf := (WriteSecurityToken c.m_Token ++ env.aStack).take
    NET_TOKENREQUEST_DATASIZE
  let d ← ControlMsg 0 Msg aRequestTokenBuf ResponseToken true
  return { c.send c.m_PeerAddr d with m_LastSendTime := env.Now }

def ResendChunk (env : Env) (c : CNetConnection) (pResend : Nat) : Exec CNetConnection := do
  let r := c.m_Buffer.chunks pResend
  let (c, _) ← c.QueueChunkEx env (r.m_Flags ||| NET_CHUNKFLAG_RESEND) r.m_pData r.m_Sequence
  return { c with
    m_Buffer := { c.m_Buffer with
      chunks := Function.update c.m_Buffer.chunks pResend
        { c.m_Buffer.chunks pResend with m_LastSendTime := env.Now } } }

/-- The loop of `Resend`. -/
def ResendLoop (env : Env) : Nat → CNetConnection → Option Nat → Exec CNetConnection
  | _, c, none => .ok c
  | 0, _, some _ => .error .diverges
  | n + 1, c, some pResend => do
      let c ← c.ResendChunk env pResend
      ResendLoop env n c (← c.m_Buffer.Next pResend)

def Resend (env : Env) (c : CNetConnection) : Exec CNetConnection :=
  ResendLoop env c.m_Buffer.ring.fuel c c.m_Buffer.First

/-! ## Feed -/

/-- The token check of 0.6 packets: the packet without its token, or `none` to drop it. -/
def CheckToken (c : CNetConnection) (pPacket : CNetPacketConstruct) :
    Option CNetPacketConstruct :=
  if !c.m_Sixup && c.m_State != .OFFLINE && c.m_SecurityToken != NET_SECURITY_TOKEN_UNKNOWN &&
      c.m_SecurityToken != NET_SECURITY_TOKEN_UNSUPPORTED then
    -- supposed to have a valid token in this packet, check it
    if pPacket.m_DataSize < TOKEN_SIZE then none
    else
      let pPacket := { pPacket with m_DataSize := pPacket.m_DataSize - TOKEN_SIZE }
      if c.m_SecurityToken =
          ToSecurityToken (pPacket.m_aChunkData.slice pPacket.m_DataSize.toNat TOKEN_SIZE) then
        some pPacket
      else none
  else some pPacket

/-- Check if actual ack value is valid (own sequence..latest peer ack). -/
def AckValid (c : CNetConnection) (Ack : Nat) : Bool :=
  if c.m_Sequence ≥ c.m_PeerAck then !(Ack < c.m_PeerAck || Ack > c.m_Sequence)
  else !(Ack < c.m_PeerAck && Ack > c.m_Sequence)

/-- The packet carries `SECURITY_TOKEN_MAGIC` and a token behind its control byte. -/
def HasToken (pPacket : CNetPacketConstruct) : Bool :=
  pPacket.m_DataSize ≥ 1 + SECURITY_TOKEN_MAGIC.length + TOKEN_SIZE &&
    pPacket.m_aChunkData.slice 1 4 == SECURITY_TOKEN_MAGIC

/-- `NET_CTRLMSG_CLOSE` -/
def FeedClose (c : CNetConnection) (pAddr : NETADDR) : CNetConnection :=
  let IsPeer := if c.m_State = .CONNECT then c.m_aConnectAddrs.contains pAddr
    else c.m_PeerAddr == pAddr
  if IsPeer then { c with m_State := .ERROR, m_RemoteClosed := true } else c

/-- Control messages other than `NET_CTRLMSG_CLOSE`; `none` when `Feed` returns at once. -/
def FeedControl (env : Env) (c : CNetConnection) (pPacket : CNetPacketConstruct)
    (pAddr : NETADDR) (ResponseToken : SECURITY_TOKEN) : Exec (Option CNetConnection) := do
  let CtrlMsg := pPacket.m_aChunkData 0
  if CtrlMsg = NET_CTRLMSG_TOKEN then
    if c.m_State = .TOKEN then
      let c := { c with
        m_LastRecvTime := env.Now, m_State := .CONNECT, m_SecurityToken := ResponseToken }
      return some (← c.SendControlWithToken7 env NET_CTRLMSG_CONNECT c.m_SecurityToken)
    else return some c
  else if c.m_State = .OFFLINE then
    if CtrlMsg = NET_CTRLMSG_CONNECT then
      if SameAddrNoPort c.m_PeerAddr pAddr && env.Now - c.m_LastUpdateTime < time_freq * 3 then
        return none
      -- send response and init connection
      let c := { c.Reset false with
        m_State := .PENDING
        m_PeerAddr := pAddr
        m_LastSendTime := env.Now
        m_LastRecvTime := env.Now
        m_LastUpdateTime := env.Now
        m_SecurityToken := NET_SECURITY_TOKEN_UNSUPPORTED }
      return some (← c.SendControl env NET_CTRLMSG_CONNECTACCEPT SECURITY_TOKEN_MAGIC)
    else return some c
  else if c.m_State = .CONNECT then
    -- connection made
    if CtrlMsg = NET_CTRLMSG_CONNECTACCEPT then
      let c := { c with
        m_PeerAddr := pAddr
        m_SecurityToken :=
          if c.m_SecurityToken = NET_SECURITY_TOKEN_UNKNOWN ∧ HasToken pPacket then
            ToSecurityToken (pPacket.m_aChunkData.slice (1 + SECURITY_TOKEN_MAGIC.length) 4)
          else if c.m_Sixup then c.m_SecurityToken else NET_SECURITY_TOKEN_UNSUPPORTED }
      let c ← if c.m_Sixup then pure c else c.SendControl env NET_CTRLMSG_ACCEPT []
      return some { c with m_LastRecvTime := env.Now, m_State := .ONLINE }
    else return some c
  else return some c

/-- `Feed` once the packet has been admitted and its ack recorded: handle its message. -/
def FeedMessage (env : Env) (c : CNetConnection) (pPacket : CNetPacketConstruct)
    (pAddr : NETADDR) (ResponseToken : SECURITY_TOKEN) :
    Exec (CNetConnection × Bool) :=
  if pPacket.m_Flags &&& NET_PACKETFLAG_CONTROL ≠ 0 then
    if pPacket.m_aChunkData 0 = NET_CTRLMSG_CLOSE then .ok (c.FeedClose pAddr, false)
    else do
      match ← c.FeedControl env pPacket pAddr ResponseToken with
      | none => return (c, false)
      | some c => return (c, true)
  else if c.m_State = .PENDING then
    .ok ({ c with m_LastRecvTime := env.Now, m_State := .ONLINE }, true)
  else .ok (c, true)

/-- Returns whether the packet is to be unpacked, and the packet without its token. -/
def Feed (env : Env) (c : CNetConnection) (pPacket : CNetPacketConstruct) (pAddr : NETADDR)
    (SecurityToken ResponseToken : SECURITY_TOKEN) :
    Exec (CNetConnection × CNetPacketConstruct × Bool) := do
  -- Disregard packets from the wrong address, unless we don't know our peer yet.
  if c.m_State ≠ .OFFLINE ∧ c.m_State ≠ .CONNECT ∧ pAddr ≠ c.m_PeerAddr then
    return (c, pPacket, false)
  match c.CheckToken pPacket with
  | none => return (c, pPacket, false)
  | some pPacket =>
      if c.m_Sixup && SecurityToken != c.m_Token then return (c, pPacket, false)
      if !c.AckValid pPacket.m_Ack then return (c, pPacket, false)
      let c := { c with m_PeerAck := pPacket.m_Ack }
      -- check if resend is requested
      let c ← if pPacket.m_Flags &&& NET_PACKETFLAG_RESEND ≠ 0 then c.Resend env else pure c
      let (c, goOn) ← c.FeedMessage env pPacket pAddr ResponseToken
      if !goOn then return (c, pPacket, false)
      let c ← if c.m_State = .ONLINE then
          CNetConnection.AckChunks { c with m_LastRecvTime := env.Now } pPacket.m_Ack
        else pure c
      return (c, pPacket, true)

/-! ## Update -/

/-- The part of `Update` that fixes resends. -/
def UpdateResend (env : Env) (c : CNetConnection) : Exec CNetConnection :=
  match c.m_Buffer.First with
  | none => .ok c
  | some pResend =>
      let r := c.m_Buffer.chunks pResend
      -- check if we have some really old stuff laying around and abort if not acked
      if env.Now - r.m_FirstSendTime > time_freq * env.m_ConnTimeout then
        .ok { c with m_State := .ERROR, m_TimeoutSituation := true }
      -- resend packet if we haven't got it acked in 1 second
      else if env.Now - r.m_LastSendTime > time_freq then c.ResendChunk env pResend
      else .ok c

/-- The part of `Update` that sends keep alives. -/
def UpdateSend (env : Env) (c : CNetConnection) : Exec CNetConnection := do
  match c.m_State with
  | .ONLINE =>
      -- flush connection after 500ms if needed
      let c ← if env.Now - c.m_LastSendTime > time_freq / 2 then Prod.fst <$> c.Flush env else pure c
      if env.Now - c.m_LastSendTime > time_freq then c.SendControl env NET_CTRLMSG_KEEPALIVE []
      else return c
  | .CONNECT =>
      -- send a new connect every 500ms
      if env.Now - c.m_LastSendTime > time_freq / 2 then c.SendConnect env else return c
  | .PENDING =>
      -- send a new connect/accept every 500ms
      if env.Now - c.m_LastSendTime > time_freq / 2 then
        c.SendControl env NET_CTRLMSG_CONNECTACCEPT SECURITY_TOKEN_MAGIC
      else return c
  | _ => return c

def Update (env : Env) (c : CNetConnection) : Exec CNetConnection := do
  let c := if c.m_State = .ERROR ∧ c.m_TimeoutSituation ∧
      env.Now - c.m_LastRecvTime > time_freq * env.m_ConnTimeoutProtection then
    { c with m_TimeoutSituation := false } else c
  if c.m_State = .OFFLINE ∨ c.m_State = .ERROR then return c
  let c := { c with m_TimeoutSituation := false }
  -- check for timeout
  let c := if c.m_State ≠ .OFFLINE ∧ c.m_State ≠ .CONNECT ∧
      env.Now - c.m_LastRecvTime > time_freq * env.m_ConnTimeout then
    { c with m_State := .ERROR, m_TimeoutSituation := true } else c
  let c ← c.UpdateResend env
  c.UpdateSend env

end CNetConnection

/-! ## Fetching chunks -/

/-- A chunk handed out: `m_pData` is its offset in `m_aChunkData`. -/
structure CNetChunk where
  m_ClientId : Int
  m_Address : NETADDR
  m_Flags : Nat
  m_DataSize : Nat
  m_pData : Nat

structure CNetRecvUnpacker where
  m_Valid : Bool
  m_Addr : NETADDR
  m_CurrentChunk : Nat
  m_ClientId : Int
  m_Data : CNetPacketConstruct

namespace CNetRecvUnpacker

def Clear (u : CNetRecvUnpacker) : CNetRecvUnpacker := { u with m_Valid := false }

def Start (u : CNetRecvUnpacker) (pAddr : NETADDR) (ClientId : Int) : CNetRecvUnpacker :=
  { u with m_Addr := pAddr, m_ClientId := ClientId, m_CurrentChunk := 0, m_Valid := true }

/-- `Header.Unpack` within the memory of the packet. -/
def ReadHeader (p : CNetPacketConstruct) (a Split : Nat) : Exec (CNetChunkHeader × Nat) :=
  let r := CNetChunkHeader.Unpack p.memory a Split
  if r.2 ≤ NET_MAX_PAYLOAD + 4 then .ok r else .error .outOfBounds

/-- Skip the first chunks of a packet. -/
def SkipChunks (p : CNetPacketConstruct) (Split : Nat) : Nat → Nat → Exec Nat
  | 0, pData => .ok pData
  | n + 1, pData => do
      let (Header, pData) ← ReadHeader p pData Split
      SkipChunks p Split n (pData + Header.m_Size)

/-- The split for the peer of `m_pConnection`. -/
def splitOf : Option CNetConnection → Nat
  | some c => c.Split
  | none => 4

/-- Sequence handling of a chunk: the connection afterwards and whether to hand it out. -/
def Sequenced (c : Option CNetConnection) (Header : CNetChunkHeader) :
    Option CNetConnection × Bool :=
  match c with
  | none => (none, true)
  | some c =>
      if Header.m_Flags &&& NET_CHUNKFLAG_VITAL = 0 then (some c, true)
      else if Header.m_Sequence = ((c.m_Ack + 1) % NET_MAX_SEQUENCE : Nat) ∨ c.m_UnknownSeq then
        -- in sequence
        (some { c with m_UnknownSeq := false, m_Ack := Header.m_Sequence.toNat }, true)
      -- old packet that we already got
      else if IsSeqInBackroom Header.m_Sequence c.m_Ack then (some c, false)
      -- out of sequence, request resend
      else (some c.SignalResend, false)

/-- The loop of `FetchChunk`; `none` for the connection is a null `m_pConnection`. -/
def FetchLoop : Nat → CNetRecvUnpacker → Option CNetConnection →
    Exec (CNetRecvUnpacker × Option CNetConnection × Option CNetChunk)
  | 0, _, _ => .error .diverges
  | n + 1, u, c =>
      -- check for old data to unpack
      if !u.m_Valid ∨ u.m_CurrentChunk ≥ u.m_Data.m_NumChunks then .ok (u.Clear, c, none)
      else do
        let pData ← SkipChunks u.m_Data (splitOf c) u.m_CurrentChunk 0
        -- unpack the header
        let r ← ReadHeader u.m_Data pData (splitOf c)
        let u := { u with m_CurrentChunk := u.m_CurrentChunk + 1 }
        if ((r.2 + r.1.m_Size : Nat) : Int) > u.m_Data.m_DataSize then return (u.Clear, c, none)
        -- handle sequence stuff
        let (c, take) := Sequenced c r.1
        -- fill in the info
        if take then
          return (u, c, some
            { m_ClientId := u.m_ClientId, m_Address := u.m_Addr, m_Flags := r.1.m_Flags
              m_DataSize := r.1.m_Size, m_pData := r.2 })
        -- take the next chunk in the packet
        else FetchLoop n u c

def FetchChunk (u : CNetRecvUnpacker) (c : Option CNetConnection) :
    Exec (CNetRecvUnpacker × Option CNetConnection × Option CNetChunk) :=
  FetchLoop (u.m_Data.m_NumChunks + 1) u c

end CNetRecvUnpacker

end Fex.Engine.Connection
