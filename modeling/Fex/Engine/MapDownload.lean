import Fex.Lib.Run

/-!
# Downloading the map from the server

Model of `SendMap`, `SendMapData` and the request for map data at the server and
of the map messages at a client of the 0.6 protocol, with the two queues of a
connection that delivers in order.  Where the client looks for the map first is
not modelled, only what comes of it.
-/

namespace Fex.Engine.MapDownload

open Fex.Lib

structure Map where
  crc : Int
  data : List UInt8

def Map.size (m : Map) : Int := m.data.length

def CHUNK_SIZE : Int := 1024 - 128

/-- `NETMSG_MAP_DATA`, the size is that of the data. -/
structure MapData where
  Last : Bool
  MapCrc : Int
  Chunk : Int
  data : List UInt8

/-- The client reads the CRC and the size of a map from `NETMSG_MAP_CHANGE`. -/
inductive ToClient
  | MAP_CHANGE (map : Map)
  | MAP_DATA (msg : MapData)

/-! ## Server -/

structure CServer where
  map : Map
  m_NextMapChunk : Int
  m_SvMapWindow : Int
  m_SvFastDownload : Bool

namespace CServer

/-- `Offset` is computed without sign. -/
def SendMapData (s : CServer) (Chunk : Int) : List ToClient :=
  let Offset := Chunk * CHUNK_SIZE % 4294967296
  if Chunk < 0 ∨ Offset > s.map.size then []
  else if (Offset + CHUNK_SIZE) % 4294967296 ≥ s.map.size then
    [.MAP_DATA
      { Last := true, MapCrc := s.map.crc, Chunk := Chunk
        data := (s.map.data.drop Offset.toNat).take (s.map.size - Offset).toNat }]
  else
    [.MAP_DATA
      { Last := false, MapCrc := s.map.crc, Chunk := Chunk
        data := (s.map.data.drop Offset.toNat).take CHUNK_SIZE.toNat }]

/-- The sum of two ints. -/
def add (x y : Int) : Exec Int := if IsInt32 (x + y) then .ok (x + y) else .error .overflow

/-- `NETMSG_REQUEST_MAP_DATA` -/
def requestMapData (s : CServer) (Chunk : Int) : Exec (CServer × List ToClient) :=
  if Chunk ≠ s.m_NextMapChunk ∨ ¬ s.m_SvFastDownload then .ok (s, s.SendMapData Chunk)
  else do
    let first :=
      if Chunk = 0 then (List.range s.m_SvMapWindow.toNat).flatMap fun i : Nat => s.SendMapData i
      else []
    let ahead ← add s.m_SvMapWindow s.m_NextMapChunk
    let next ← add s.m_NextMapChunk 1
    return ({ s with m_NextMapChunk := next }, first ++ s.SendMapData ahead)

end CServer

/-! ## Client -/

/-- What the client had of the map that was announced last. -/
inductive Outcome
  | present
  | downloaded (file : List UInt8)

structure CClient where
  /-- The bytes that were written, `none` is no open file. -/
  m_MapdownloadFileTemp : Option (List UInt8)
  m_pMapdownloadTask : Bool
  m_MapdownloadChunk : Int
  m_MapdownloadCrc : Int
  m_MapdownloadAmount : Int
  outcome : Option Outcome
  disconnected : Bool

/-- What comes of the search for a map: it is there, it is downloaded over HTTP first or it is
requested from the server. -/
inductive Search
  | found
  | http
  | request

namespace CClient

def ResetMapDownload (c : CClient) : CClient :=
  { c with
    m_pMapdownloadTask := false, m_MapdownloadFileTemp := none, m_MapdownloadChunk := 0
    m_MapdownloadCrc := 0, m_MapdownloadAmount := 0 }

def SendMapRequest (c : CClient) : Exec (CClient × List Int) :=
  if c.m_MapdownloadFileTemp.isSome then .error .assertion
  else .ok ({ c with m_MapdownloadFileTemp := some [] }, [c.m_MapdownloadChunk])

/-- `NETMSG_MAP_CHANGE` -/
def mapChange (c : CClient) (map : Map) (search : Search) : Exec (CClient × List Int) :=
  if map.size < 0 ∨ map.size > 1024 * 1024 * 1024 then .ok ({ c with disconnected := true }, [])
  else
    let c := c.ResetMapDownload
    match search with
    | .found => .ok ({ c with outcome := some .present }, [])
    | .http =>
        .ok ({ c with m_MapdownloadCrc := map.crc, m_pMapdownloadTask := true, outcome := none }, [])
    | .request => SendMapRequest { c with m_MapdownloadCrc := map.crc, outcome := none }

/-- The HTTP download failed, `ResetMapDownload(false)` keeps the counters. -/
def fallback (c : CClient) : Exec (CClient × List Int) :=
  SendMapRequest { c with m_pMapdownloadTask := false, m_MapdownloadFileTemp := none }

/-- `NETMSG_MAP_DATA` -/
def mapData (c : CClient) (msg : MapData) : CClient × List Int :=
  match c.m_MapdownloadFileTemp with
  | none => (c, [])
  | some file =>
      if msg.data.length ≤ 0 ∨ msg.MapCrc ≠ c.m_MapdownloadCrc ∨ msg.Chunk ≠ c.m_MapdownloadChunk then
        (c, [])
      else
        let file := file ++ msg.data
        let c := { c with
          m_MapdownloadFileTemp := some file
          m_MapdownloadAmount := c.m_MapdownloadAmount + msg.data.length }
        if msg.Last then ({ c.ResetMapDownload with outcome := some (.downloaded file) }, [])
        else
          let Chunk := c.m_MapdownloadChunk + 1
          ({ c with m_MapdownloadChunk := Chunk }, [Chunk])

end CClient

/-! ## Both sides -/

/-- `announced` is the map of the last `NETMSG_MAP_CHANGE` the client received. -/
structure World where
  server : CServer
  client : CClient
  toClient : List ToClient
  toServer : List Int
  announced : Option Map

inductive Event
  | sendMap (map : Map)
  | serverReceive
  | clientReceive (search : Search)
  | fallback

namespace World

def step (w : World) : Event → Exec World
  | .sendMap map =>
      .ok { w with
        server := { w.server with map := map, m_NextMapChunk := 0 }
        toClient := w.toClient ++ [.MAP_CHANGE map] }
  | .serverReceive =>
      match w.toServer with
      | [] => .ok w
      | Chunk :: toServer => do
          let (server, sent) ← w.server.requestMapData Chunk
          return { w with server := server, toClient := w.toClient ++ sent, toServer := toServer }
  | .clientReceive search =>
      match w.toClient with
      | [] => .ok w
      | .MAP_CHANGE map :: toClient => do
          let (client, sent) ← w.client.mapChange map search
          return { w with
            client := client, toClient := toClient, toServer := w.toServer ++ sent
            announced := some map }
      | .MAP_DATA msg :: toClient =>
          let (client, sent) := w.client.mapData msg
          .ok { w with client := client, toClient := toClient, toServer := w.toServer ++ sent }
  | .fallback => do
      let (client, sent) ← w.client.fallback
      return { w with client := client, toServer := w.toServer ++ sent }

end World

end Fex.Engine.MapDownload
