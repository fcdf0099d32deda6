import Fex.Engine.Snapshot.Delivery
import Fex.Lib.Fragments
import Fex.Lib.Run

/-!
# The transport of snapshots

Model of `CSnapshotStorage`, of `DoSnapshot` for one client and of what the client does with the
snapshot messages.  The network may lose, repeat and reorder the messages.  How snapshots are
compared, packed and checked is a parameter.
-/

namespace Fex.Engine.SnapshotTransport

open Fex.Lib
open Fex.Engine.Snapshot (MAX_PARTS MAX_SIZE MAX_SNAPSHOT_PACKSIZE)

def SERVER_TICK_SPEED : Int := 50

/-! ## Storage -/

structure CHolder (σ : Type) where
  m_Tick : Int
  m_Tagtime : Int
  m_pSnap : σ
  m_pAltSnap : Option σ

section

variable {σ : Type}

def PurgeUntil (storage : List (CHolder σ)) (Tick : Int) : List (CHolder σ) :=
  storage.dropWhile fun pHolder => decide (pHolder.m_Tick < Tick)

def Add (storage : List (CHolder σ)) (Tick Tagtime : Int) (pData : σ) (pAltData : Option σ) :
    List (CHolder σ) := storage ++ [⟨Tick, Tagtime, pData, pAltData⟩]

def Get (storage : List (CHolder σ)) (Tick : Int) : Option (CHolder σ) :=
  storage.find? fun pHolder => decide (pHolder.m_Tick = Tick)

end

/-! ## The functions on snapshots -/

/-- `σ` are the snapshots and `δ` the deltas between them. -/
structure Codec (σ δ : Type) where
  EmptySnapshot : σ
  Crc : σ → Int
  /-- There is no delta when nothing changed. -/
  CreateDelta : σ → σ → Option δ
  EmptyDelta : δ
  Compress : δ → Option (List UInt8)
  Decompress : List UInt8 → Option δ
  UnpackDelta : σ → δ → Option σ
  IsValid : σ → Bool
  UnpackAndValidateSnapshot : σ → Option σ

variable {σ δ κ : Type}

/-! ## Messages -/

inductive Message
  | snap (GameTick DeltaOffset : Int) (NumParts Part : Nat) (Crc : Int) (pData : List UInt8)
  | snapSingle (GameTick DeltaOffset Crc : Int) (pData : List UInt8)
  | snapEmpty (GameTick DeltaOffset : Int)

namespace Message

def GameTick : Message → Int
  | .snap GameTick _ _ _ _ _ | .snapSingle GameTick _ _ _ | .snapEmpty GameTick _ => GameTick

def DeltaTick : Message → Int
  | .snap GameTick DeltaOffset _ _ _ _ | .snapSingle GameTick DeltaOffset _ _
  | .snapEmpty GameTick DeltaOffset => GameTick - DeltaOffset

def NumParts : Message → Nat
  | .snap _ _ NumParts _ _ _ => NumParts
  | .snapSingle _ _ _ _ | .snapEmpty _ _ => 1

def Part : Message → Nat
  | .snap _ _ _ Part _ _ => Part
  | .snapSingle _ _ _ _ | .snapEmpty _ _ => 0

/-- The checksum that is compared, an empty message has none. -/
def Crc : Message → Option Int
  | .snap _ _ _ _ Crc _ | .snapSingle _ _ Crc _ => some Crc
  | .snapEmpty _ _ => none

def pData : Message → List UInt8
  | .snap _ _ _ _ _ pData | .snapSingle _ _ _ pData => pData
  | .snapEmpty _ _ => []

end Message

/-! ## The server -/

inductive SnapRate
  | init
  | full
  | recover
  deriving DecidableEq

/-- What the server keeps of a client. -/
structure Slot (σ : Type) where
  m_SnapRate : SnapRate
  m_LastAckedSnapshot : Int
  m_Snapshots : List (CHolder σ)

/-- A snapshot that is sent, with the one it is compared with. -/
structure Encoded (σ : Type) where
  m_Tick : Int
  DeltaTick : Int
  pDeltashot : σ
  pData : σ

/-- The client is trying to recover, don't spam snapshots. -/
def Slot.skips (s : Slot σ) (Tick : Int) : Bool :=
  s.m_SnapRate = .recover ∧ Tick.tmod SERVER_TICK_SPEED ≠ 0 ∨
    s.m_SnapRate = .init ∧ Tick.tmod 10 ≠ 0

/-- Find snapshot that we can perform delta against. -/
def Slot.deltashot (C : Codec σ δ) (s : Slot σ) (Tick : Int) (pData : σ) : Slot σ × Encoded σ :=
  match Get s.m_Snapshots s.m_LastAckedSnapshot with
  | some pHolder =>
      (s, ⟨Tick, s.m_LastAckedSnapshot, pHolder.m_pSnap, pData⟩)
  | none =>
      -- no acked package found, force client to recover rate
      ({ s with m_SnapRate := if s.m_SnapRate = .full then .recover else s.m_SnapRate },
        ⟨Tick, -1, C.EmptySnapshot, pData⟩)

def Slot.DoSnapshot (C : Codec σ δ) (s : Slot σ) (m_CurrentGameTick Now : Int) (pData : σ) :
    Slot σ × Option (Encoded σ) :=
  if s.skips m_CurrentGameTick then (s, none)
  else
    -- keep 3 seconds worth of snapshots
    let m_Snapshots := PurgeUntil s.m_Snapshots (m_CurrentGameTick - SERVER_TICK_SPEED * 3)
    -- save the snapshot
    let m_Snapshots := Add m_Snapshots m_CurrentGameTick Now pData none
    let (s, e) := Slot.deltashot C { s with m_Snapshots } m_CurrentGameTick pData
    (s, some e)

/-- The messages of a snapshot. -/
def Encoded.messages (C : Codec σ δ) (e : Encoded σ) : List Message :=
  match C.CreateDelta e.pDeltashot e.pData with
  | none => [.snapEmpty e.m_Tick (e.m_Tick - e.DeltaTick)]
  | some aDeltaData =>
      match C.Compress aDeltaData with
      | none => []
      | some aCompData =>
          let NumPackets := numFragments MAX_SNAPSHOT_PACKSIZE aCompData
          (List.range NumPackets).map fun n =>
            let pChunk := fragment MAX_SNAPSHOT_PACKSIZE aCompData n
            if NumPackets = 1 then
              .snapSingle e.m_Tick (e.m_Tick - e.DeltaTick) (C.Crc e.pData) pChunk
            else .snap e.m_Tick (e.m_Tick - e.DeltaTick) NumPackets n (C.Crc e.pData) pChunk

/-- What an input message does. -/
def Slot.input (s : Slot σ) (LastAckedSnapshot : Int) : Slot σ :=
  { s with
    m_LastAckedSnapshot := LastAckedSnapshot
    m_SnapRate := if LastAckedSnapshot > 0 then .full else s.m_SnapRate }

/-! ## The client -/

/-- The client; pointers to holders are the ticks of the holders. -/
structure Client (σ : Type) where
  m_aSnapshotStorage : List (CHolder σ)
  m_aCurrentRecvTick : Int
  m_aAckGameTick : Int
  m_aSnapshotParts : Nat
  m_aSnapshotIncomingDataSize : Nat
  m_aaSnapshotIncomingData : Buffer
  m_SnapCrcErrors : Nat
  m_aReceivedSnapshots : Nat
  /-- `SNAP_PREV` and `SNAP_CURRENT`. -/
  m_aapSnapshots : Option (Int × Int)

/-- A client that enters the game. -/
def Client.new (aData : Buffer) : Client σ where
  m_aSnapshotStorage := []
  m_aCurrentRecvTick := 0
  m_aAckGameTick := -1
  m_aSnapshotParts := 0
  m_aSnapshotIncomingDataSize := 0
  m_aaSnapshotIncomingData := aData
  m_SnapCrcErrors := 0
  m_aReceivedSnapshots := 0
  m_aapSnapshots := none

namespace Client

/-- A part of a new tick forgets the parts of the last one. -/
def startTick (c : Client σ) (GameTick : Int) : Client σ :=
  if GameTick ≠ c.m_aCurrentRecvTick then
    { c with
      m_aSnapshotParts := 0
      m_aCurrentRecvTick := GameTick
      m_aSnapshotIncomingDataSize := 0 }
  else c

def storePart (c : Client σ) (m : Message) : Client σ :=
  let size := MAX_SIZE - m.Part * MAX_SNAPSHOT_PACKSIZE
  { c with
    m_aaSnapshotIncomingData :=
      c.m_aaSnapshotIncomingData.copy (m.Part * MAX_SNAPSHOT_PACKSIZE) (m.pData.take size)
    m_aSnapshotParts := c.m_aSnapshotParts ||| 1 <<< m.Part
    m_aSnapshotIncomingDataSize :=
      if m.Part = m.NumParts - 1 then (m.NumParts - 1) * MAX_SNAPSHOT_PACKSIZE + m.pData.length
      else c.m_aSnapshotIncomingDataSize }

/-- All parts are there. -/
def complete (c : Client σ) (NumParts : Nat) : Bool :=
  NumParts < MAX_PARTS ∧ c.m_aSnapshotParts = 2 ^ NumParts - 1 ∨
    NumParts = MAX_PARTS ∧ c.m_aSnapshotParts = 2 ^ 64 - 1

/-- The snapshot that should be used as delta. -/
def deltaShot (C : Codec σ δ) (c : Client σ) (DeltaTick : Int) : Option σ :=
  if DeltaTick ≥ 0 then (Get c.m_aSnapshotStorage DeltaTick).map CHolder.m_pSnap
  else some C.EmptySnapshot

/-- The delta of the bytes that came in. -/
def decode (C : Codec σ δ) (data : List UInt8) : Option δ :=
  if data.length = 0 then some C.EmptyDelta else C.Decompress data

/-- The client resyncs, `SendInput` tells the server. -/
def resync (c : Client σ) : Client σ := { c with m_aAckGameTick := -1 }

def crcError (c : Client σ) : Client σ :=
  if c.m_SnapCrcErrors + 1 > 10 then { c.resync with m_SnapCrcErrors := 0 }
  else { c with m_SnapCrcErrors := c.m_SnapCrcErrors + 1 }

/-- The oldest tick that is still in use. -/
def PurgeTick (c : Client σ) (DeltaTick : Int) : Int :=
  match c.m_aapSnapshots with
  | none => DeltaTick
  | some (prev, current) => min (min DeltaTick prev) current

/-- Apply snapshot, cycle pointers. -/
def accept (c : Client σ) (GameTick Now : Int) (pSnap pAltSnap : σ) : Client σ :=
  let storage := Add c.m_aSnapshotStorage GameTick Now pSnap (some pAltSnap)
  { c with
    m_aSnapshotStorage := storage
    m_aReceivedSnapshots := c.m_aReceivedSnapshots + 1
    m_aapSnapshots :=
      if c.m_aReceivedSnapshots + 1 = 2 then
        (storage.head?.map CHolder.m_Tick).map fun first => (first, GameTick)
      else c.m_aapSnapshots
    -- ack snapshot
    m_aAckGameTick := GameTick }

/-- What is done with an unpacked snapshot. -/
def verify (C : Codec σ δ) (c : Client σ) (m : Message) (Now : Int) (pSnap : σ) :
    Client σ × Option (CHolder σ) :=
  if ¬C.IsValid pSnap then (c, none)
  else if m.Crc.any fun Crc => decide (C.Crc pSnap ≠ Crc) then (c.crcError, none)
  else
    let c := { c with
      m_SnapCrcErrors := c.m_SnapCrcErrors - 1
      -- purge old snapshots
      m_aSnapshotStorage := PurgeUntil c.m_aSnapshotStorage (c.PurgeTick m.DeltaTick) }
    match C.UnpackAndValidateSnapshot pSnap with
    | none => (c, none)
    | some pAltSnap =>
        (c.accept m.GameTick Now pSnap pAltSnap, some ⟨m.GameTick, Now, pSnap, pAltSnap⟩)

/-- All parts are there. -/
def assemble (C : Codec σ δ) (c : Client σ) (m : Message) (Now : Int) :
    Client σ × Option (CHolder σ) :=
  -- reset snapshoting
  let c := { c with m_aSnapshotParts := 0 }
  match c.deltaShot C m.DeltaTick with
  | none => (c.resync, none)
  | some pDeltaShot =>
      match decode C (c.m_aaSnapshotIncomingData.slice 0 c.m_aSnapshotIncomingDataSize) with
      | none => (c, none)
      | some pDeltaData =>
          match C.UnpackDelta pDeltaShot pDeltaData with
          | none => (c, none)
          | some pSnap => c.verify C m Now pSnap

/-- The client after a message, with the snapshot that it adds. -/
def recv (C : Codec σ δ) (c : Client σ) (m : Message) (Now : Int) :
    Client σ × Option (CHolder σ) :=
  if m.NumParts < 1 ∨ m.NumParts > MAX_PARTS ∨ m.Part ≥ m.NumParts ∨
      m.pData.length > MAX_SNAPSHOT_PACKSIZE then (c, none)
  else if m.GameTick ≥ c.m_aCurrentRecvTick ∧ m.GameTick > c.m_aAckGameTick then
    let c := (c.startTick m.GameTick).storePart m
    if c.complete m.NumParts then c.assemble C m Now else (c, none)
  else (c, none)

/-- A turn of the loop of `Update` that switches snapshots. -/
def switch (c : Client σ) : Client σ :=
  match c.m_aapSnapshots with
  | none => c
  | some (_, current) =>
      match (c.m_aSnapshotStorage.dropWhile
          fun pHolder => decide (pHolder.m_Tick ≠ current)).tail with
      | [] => c
      | pNext :: _ => { c with m_aapSnapshots := some (current, pNext.m_Tick) }

end Client

/-! ## The system -/

/-- The two sides and the messages that were ever sent.  The history are the snapshots that the
server stored and sent, the snapshots that the client added are kept too. -/
structure System (σ : Type) where
  slot : Slot σ
  client : Client σ
  sent : List Message
  history : List (Encoded σ)
  added : List (CHolder σ)

inductive Event (σ : Type)
  /-- The server makes a snapshot. -/
  | snapshot (m_CurrentGameTick Now : Int) (pData : σ)
  /-- An input message with any number arrives. -/
  | input (LastAckedSnapshot : Int)
  /-- A message arrives that was sent at some time. -/
  | recv (m : Message) (Now : Int)
  /-- The client switches to the next snapshot. -/
  | switch

def System.init (aData : Buffer) : System σ where
  slot := { m_SnapRate := .init, m_LastAckedSnapshot := -1, m_Snapshots := [] }
  client := .new aData
  sent := []
  history := []
  added := []

def step (C : Codec σ δ) (s : System σ) : Event σ → Exec (System σ)
  | .snapshot m_CurrentGameTick Now pData =>
      let (slot, e) := s.slot.DoSnapshot C m_CurrentGameTick Now pData
      .ok { s with
        slot
        sent := s.sent ++ (e.map (Encoded.messages C)).getD []
        history := s.history ++ e.toList }
  | .input LastAckedSnapshot => .ok { s with slot := s.slot.input LastAckedSnapshot }
  | .recv m Now =>
      let (client, pHolder) := s.client.recv C m Now
      .ok { s with client, added := s.added ++ pHolder.toList }
  | .switch => .ok { s with client := s.client.switch }

end Fex.Engine.SnapshotTransport
