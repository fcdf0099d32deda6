import Fex.Engine.Huffman
import Fex.Lib.Buffer

/-!
# Packets and chunks

The wire format of `CNetBase` and `CNetChunkHeader`.  Datagrams are byte lists.
A packet that is built or taken apart lives in a `CNetPacketConstruct`, whose
two arrays lie next to each other in memory.
-/

namespace Fex.Engine.Network

open Fex.Lib

def NET_MAX_PACKETSIZE : Nat := 1400

def NET_MAX_PAYLOAD : Nat := NET_MAX_PACKETSIZE - 6

def NET_MAX_CHUNKHEADERSIZE : Nat := 3

def NET_PACKETHEADERSIZE : Nat := 3

def NET_MAX_SEQUENCE : Nat := 1 <<< 10

def NET_PACKETFLAG_UNUSED : Nat := 1 <<< 0

def NET_PACKETFLAG_CONTROL : Nat := 1 <<< 2

def NET_PACKETFLAG_CONNLESS : Nat := 1 <<< 3

def NET_PACKETFLAG_RESEND : Nat := 1 <<< 4

def NET_PACKETFLAG_COMPRESSION : Nat := 1 <<< 5

def NET_PACKETFLAG_EXTENDED : Nat := 1 <<< 6

def NET_CHUNKFLAG_VITAL : Nat := 1

def NET_CHUNKFLAG_RESEND : Nat := 2

def NET_CTRLMSG_KEEPALIVE : UInt8 := 0

def NET_CTRLMSG_CONNECT : UInt8 := 1

def NET_CTRLMSG_CONNECTACCEPT : UInt8 := 2

def NET_CTRLMSG_ACCEPT : UInt8 := 3

def NET_CTRLMSG_CLOSE : UInt8 := 4

def NET_CTRLMSG_TOKEN : UInt8 := 5

abbrev SECURITY_TOKEN := Int

def NET_SECURITY_TOKEN_UNKNOWN : SECURITY_TOKEN := -1

def NET_SECURITY_TOKEN_UNSUPPORTED : SECURITY_TOKEN := 0

/-- `sizeof(SECURITY_TOKEN)` -/
def TOKEN_SIZE : Nat := 4

/-- The four bytes are read by `bytes_be_to_uint`. -/
def ToSecurityToken (pData : List UInt8) : SECURITY_TOKEN :=
  let byte (i : Nat) : Nat := (pData.getD i 0).toNat
  wrap32 (byte 0 <<< 24 ||| byte 1 <<< 16 ||| byte 2 <<< 8 ||| byte 3 : Nat)

/-- The four bytes that `uint_to_bytes_be` stores. -/
def WriteSecurityToken (Token : SECURITY_TOKEN) : List UInt8 :=
  let value := (Token % 2 ^ 32).toNat
  [.ofNat (value >>> 24), .ofNat (value >>> 16), .ofNat (value >>> 8), .ofNat value]

/-! ## Chunk headers -/

structure CNetChunkHeader where
  m_Flags : Nat
  m_Size : Nat
  m_Sequence : Int

/-- The bytes that `Pack` stores. -/
def CNetChunkHeader.Pack (h : CNetChunkHeader) (Split : Nat) : List UInt8 :=
  let first := (h.m_Flags &&& 3) <<< 6 ||| h.m_Size >>> Split &&& 0x3f
  let second := h.m_Size &&& 1 <<< Split - 1
  if h.m_Flags &&& NET_CHUNKFLAG_VITAL ≠ 0 then
    let Sequence := h.m_Sequence.toNat
    -- the sequence loses its low bits by the mask ~((1 << Split) - 1)
    [.ofNat first, .ofNat (second ||| Sequence >>> 2 >>> Split <<< Split),
      .ofNat (Sequence &&& 0xff)]
  else [.ofNat first, .ofNat second]

/-- Reads the header at `a`; also returns where it ends. -/
def CNetChunkHeader.Unpack (pData : Buffer) (a Split : Nat) : CNetChunkHeader × Nat :=
  let first := (pData a).toNat
  let second := (pData (a + 1)).toNat
  let Flags := first >>> 6 &&& 3
  let Size := (first &&& 0x3f) <<< Split ||| second &&& 1 <<< Split - 1
  if Flags &&& NET_CHUNKFLAG_VITAL ≠ 0 then
    let Sequence := second >>> Split <<< Split <<< 2 ||| (pData (a + 2)).toNat
    ({ m_Flags := Flags, m_Size := Size, m_Sequence := Sequence }, a + 3)
  else ({ m_Flags := Flags, m_Size := Size, m_Sequence := -1 }, a + 2)

def IsSeqInBackroom (Seq Ack : Int) : Bool :=
  let Bottom := Ack - NET_MAX_SEQUENCE / 2
  if Bottom < 0 then Seq ≤ Ack || Seq ≥ Bottom + NET_MAX_SEQUENCE
  else Seq ≤ Ack && Seq ≥ Bottom

/-! ## Packets -/

structure CNetPacketConstruct where
  m_Flags : Nat
  m_Ack : Nat
  m_NumChunks : Nat
  m_DataSize : Int
  m_aChunkData : Buffer
  m_aExtraData : Buffer

namespace CNetPacketConstruct

/-- The packet after `mem_zero`. -/
def zero : CNetPacketConstruct :=
  { m_Flags := 0, m_Ack := 0, m_NumChunks := 0, m_DataSize := 0, m_aChunkData := .zero
    m_aExtraData := .zero }

/-- `mem_copy` into `m_aChunkData`. -/
def store (p : CNetPacketConstruct) (a : Nat) (src : List UInt8) : Exec CNetPacketConstruct :=
  if a + src.length ≤ NET_MAX_PAYLOAD then .ok { p with m_aChunkData := p.m_aChunkData.copy a src }
  else .error .outOfBounds

/-- The bytes in use. -/
def data (p : CNetPacketConstruct) : List UInt8 := p.m_aChunkData.slice 0 p.m_DataSize.toNat

/-- Memory as seen through `m_aChunkData`: the extra data follows. -/
def memory (p : CNetPacketConstruct) : Buffer :=
  fun i => if i < NET_MAX_PAYLOAD then p.m_aChunkData i else p.m_aExtraData (i - NET_MAX_PAYLOAD)

end CNetPacketConstruct

def ms_Huffman : Huffman.CHuffman := Huffman.Default

/-- `Flags & ~Flag` -/
def clearFlag (Flags Flag : Nat) : Nat := Flags ^^^ (Flags &&& Flag)

/-- The flags of a packet as a 0.7 header has them. -/
def SixupFlags (Flags : Nat) : Nat :=
  (if Flags &&& NET_PACKETFLAG_CONTROL ≠ 0 then 1 else 0) |||
    (if Flags &&& NET_PACKETFLAG_RESEND ≠ 0 then 2 else 0) |||
      (if Flags &&& NET_PACKETFLAG_COMPRESSION ≠ 0 then 4 else 0)

/-- The flags of a packet with a 0.7 header. -/
def FromSixupFlags (Flags : Nat) : Nat :=
  (if Flags &&& 1 ≠ 0 then NET_PACKETFLAG_CONTROL else 0) |||
    (if Flags &&& 2 ≠ 0 then NET_PACKETFLAG_RESEND else 0) |||
      (if Flags &&& 4 ≠ 0 then NET_PACKETFLAG_COMPRESSION else 0)

/-- Append the security token of 0.6; if it is `NET_SECURITY_TOKEN_UNKNOWN` we will still append
it hoping to negotiate it. -/
def AppendToken (pPacket : CNetPacketConstruct) (SecurityToken : SECURITY_TOKEN) (Sixup : Bool) :
    Exec CNetPacketConstruct :=
  if !Sixup && SecurityToken != NET_SECURITY_TOKEN_UNSUPPORTED then do
    let p ← pPacket.store pPacket.m_DataSize.toNat (WriteSecurityToken SecurityToken)
    return { p with m_DataSize := p.m_DataSize + TOKEN_SIZE }
  else .ok pPacket

/-- The payload that goes out and the flags that say whether it is compressed. -/
def CompressPayload (pPacket : CNetPacketConstruct) (HeaderSize : Nat) (NoCompress : Bool) :
    List UInt8 × Nat :=
  let Plain := (pPacket.data, clearFlag pPacket.m_Flags NET_PACKETFLAG_COMPRESSION)
  if NoCompress then Plain
  else
    match ms_Huffman.Compress pPacket.data (NET_MAX_PACKETSIZE - HeaderSize : Nat) with
    | none => Plain
    | some out =>
        -- check if the compression was successful and good enough
        if 0 < out.length ∧ (out.length : Int) < pPacket.m_DataSize then
          (out, pPacket.m_Flags ||| NET_PACKETFLAG_COMPRESSION)
        else Plain

/-- The first three bytes of a packet. -/
def PacketHeader (Flags Ack NumChunks : Nat) : List UInt8 :=
  [.ofNat (Flags <<< 2 &&& 0xfc ||| Ack >>> 8 &&& 0x3), .ofNat (Ack &&& 0xff), .ofNat NumChunks]

/-- The datagram that `SendPacket` hands to the socket. -/
def SendPacket (pPacket : CNetPacketConstruct) (SecurityToken : SECURITY_TOKEN) (Sixup : Bool)
    (NoCompress : Bool) : Exec (List UInt8) := do
  let HeaderSize := if Sixup then NET_PACKETHEADERSIZE + TOKEN_SIZE else NET_PACKETHEADERSIZE
  let pPacket ← AppendToken pPacket SecurityToken Sixup
  let (Payload, Flags) := CompressPayload pPacket HeaderSize NoCompress
  -- set header and send the packet
  if NET_MAX_PACKETSIZE < HeaderSize + Payload.length then throw .outOfBounds
  else
    return PacketHeader (if Sixup then SixupFlags Flags else Flags) pPacket.m_Ack
        pPacket.m_NumChunks ++
      ((if Sixup then WriteSecurityToken SecurityToken else []) ++ Payload)

/-- What a call of `UnpackPacket` leaves behind: the return value and what it stored through
its pointers and its reference. -/
structure Unpacked where
  ret : Int
  pPacket : CNetPacketConstruct
  Sixup : Bool
  pSecurityToken : Option SECURITY_TOKEN
  pResponseToken : Option SECURITY_TOKEN

/-- Store through a token pointer of a 0.7 packet. -/
def storeToken (Sixup : Bool) (p : Option SECURITY_TOKEN) (Token : SECURITY_TOKEN) :
    Exec (Option SECURITY_TOKEN) :=
  match Sixup, p with
  | false, p => .ok p
  | true, none => .error .nullDeref
  | true, some _ => .ok (some Token)

def NET_HEADER_EXTENDED : List UInt8 := [0x78, 0x65]

/-- The branch of `UnpackPacket` for connectionless packets. -/
def UnpackConnless (pBuffer : List UInt8) (u : Unpacked) : Exec Unpacked :=
  let u := { u with Sixup := (pBuffer.getD 0 0).toNat &&& 0x3 = 1 }
  let Offset := if u.Sixup then 9 else 6
  if u.Sixup && (u.pSecurityToken.isNone || u.pResponseToken.isNone) then .ok { u with ret := -1 }
  else if pBuffer.length < Offset then .ok { u with ret := -1 }
  else do
    let pSecurityToken ← storeToken u.Sixup u.pSecurityToken (ToSecurityToken (pBuffer.drop 1))
    let pResponseToken ← storeToken u.Sixup u.pResponseToken (ToSecurityToken (pBuffer.drop 5))
    let Extended := !u.Sixup && pBuffer.take 2 == NET_HEADER_EXTENDED
    let p ← { u.pPacket with
      m_Flags := NET_PACKETFLAG_CONNLESS ||| if Extended then NET_PACKETFLAG_EXTENDED else 0
      m_Ack := 0
      m_NumChunks := 0
      m_DataSize := (pBuffer.length - Offset : Nat)
      m_aExtraData := if Extended then u.pPacket.m_aExtraData.copy 0 ((pBuffer.drop 2).take 4)
        else u.pPacket.m_aExtraData }.store 0 (pBuffer.drop Offset)
    return { u with
      pPacket := p, pSecurityToken := pSecurityToken, pResponseToken := pResponseToken }

/-- The payload of a packet of a connection: what is stored in `m_aChunkData` and the new
`m_DataSize`. -/
def UnpackPayload (Flags : Nat) (pData : List UInt8) : List UInt8 × Int :=
  if Flags &&& NET_PACKETFLAG_COMPRESSION ≠ 0 then
    match ms_Huffman.Decompress pData NET_MAX_PAYLOAD with
    | .ok out => (out, out.length)
    | .error out => (out, -1)
  else (pData, pData.length)

/-- The branch of `UnpackPacket` for packets of a connection. -/
def UnpackConn (pBuffer : List UInt8) (u : Unpacked) : Exec Unpacked :=
  let u := { u with Sixup := u.Sixup || u.pPacket.m_Flags &&& NET_PACKETFLAG_UNUSED ≠ 0 }
  let DataStart := if u.Sixup then 7 else NET_PACKETHEADERSIZE
  if u.Sixup && u.pSecurityToken.isNone then .ok { u with ret := -1 }
  else if pBuffer.length < DataStart then .ok { u with ret := -1 }
  else do
    let Flags := if u.Sixup then FromSixupFlags u.pPacket.m_Flags else u.pPacket.m_Flags
    let pSecurityToken ← storeToken u.Sixup u.pSecurityToken (ToSecurityToken (pBuffer.drop 3))
    let (pData, DataSize) := UnpackPayload Flags (pBuffer.drop DataStart)
    let p := { u.pPacket with
      m_Flags := Flags
      m_Ack := ((pBuffer.getD 0 0).toNat &&& 0x3) <<< 8 ||| (pBuffer.getD 1 0).toNat
      m_NumChunks := (pBuffer.getD 2 0).toNat
      m_DataSize := DataSize }
    let u := { u with pSecurityToken := pSecurityToken }
    -- Don't allow compressed control packets.
    if Flags &&& NET_PACKETFLAG_COMPRESSION ≠ 0 ∧ Flags &&& NET_PACKETFLAG_CONTROL ≠ 0 then
      return { u with
        ret := -1, pPacket := { p with m_DataSize := (pBuffer.length - DataStart : Nat) } }
    else return { u with pPacket := ← p.store 0 pData }

/-- The end of `UnpackPacket`: check for errors and set the response token. -/
def UnpackResponse (u : Unpacked) : Exec Unpacked :=
  if u.pPacket.m_DataSize < 0 then .ok { u with ret := -1 }
  else if u.pPacket.m_Flags &&& NET_PACKETFLAG_CONTROL ≠ 0 ∧ u.pPacket.m_DataSize ≥ 5 ∧
      (u.pPacket.m_aChunkData 0 = NET_CTRLMSG_CONNECT ∨
        u.pPacket.m_aChunkData 0 = NET_CTRLMSG_TOKEN) then do
    let pResponseToken ←
      storeToken true u.pResponseToken (ToSecurityToken (u.pPacket.m_aChunkData.slice 1 4))
    return { u with pResponseToken := pResponseToken }
  else .ok u

/-- `UnpackPacket`; `none` is a null token pointer. -/
def UnpackPacket (pBuffer : List UInt8) (pPacket : CNetPacketConstruct) (Sixup : Bool)
    (pSecurityToken pResponseToken : Option SECURITY_TOKEN) : Exec Unpacked :=
  let u : Unpacked :=
    { ret := 0, pPacket := pPacket, Sixup := Sixup, pSecurityToken := pSecurityToken
      pResponseToken := pResponseToken }
  -- check the size
  if pBuffer.length < NET_PACKETHEADERSIZE ∨ NET_MAX_PACKETSIZE < pBuffer.length then
    .ok { u with ret := -1 }
  else do
    -- read the packet
    let u := { u with pPacket := { pPacket with m_Flags := (pBuffer.getD 0 0).toNat >>> 2 } }
    let u ← if u.pPacket.m_Flags &&& NET_PACKETFLAG_CONNLESS ≠ 0 then UnpackConnless pBuffer u
      else UnpackConn pBuffer u
    if u.ret ≠ 0 then return u else UnpackResponse u

end Fex.Engine.Network
