import Fex.Engine.Packer.RoundTrip
import Fex.Engine.SnapshotDelta

/-!
# The teehistorian

Model of `teehistorian.cpp`.  The stream is the list of the bytes written behind the header, and
the UUID of a kind of extra record is a function of its name.  The debug output is left out.
-/

namespace Fex.Game.TeeHistorian

open Fex.Lib Fex.Engine.Packer
open Fex.Engine.Snapshot (CUuid DiffItem)

def MAX_CLIENTS : Int := 128

def TEEHISTORIAN_FINISH : Int := 1
def TEEHISTORIAN_TICK_SKIP : Int := 2
def TEEHISTORIAN_PLAYER_NEW : Int := 3
def TEEHISTORIAN_PLAYER_OLD : Int := 4
def TEEHISTORIAN_INPUT_DIFF : Int := 5
def TEEHISTORIAN_INPUT_NEW : Int := 6
def TEEHISTORIAN_MESSAGE : Int := 7
def TEEHISTORIAN_JOIN : Int := 8
def TEEHISTORIAN_DROP : Int := 9
def TEEHISTORIAN_CONSOLE_COMMAND : Int := 10
def TEEHISTORIAN_EX : Int := 11

/-- The size of a `CTeehistorianPacker`. -/
def bufferSize : Nat := 1024 * 64

/-- The bytes of a `CTeehistorianPacker` behind these calls. -/
def packed (Buffer : List Field) : Exec (List UInt8) := do
  return (← addFields (emptyPacker bufferSize) Buffer).m_pBuffer

/-- `AddString(pStr, 0)` -/
def str (pStr : List UInt8) : Field := .string pStr 0 true

/-- The ten ints of an input. -/
structure CNetObj_PlayerInput where
  ints : List Int
  length_ints : ints.length = 10
  isInt32 : ∀ i ∈ ints, IsInt32 i
  deriving DecidableEq

/-- A difference that an `int` holds. -/
def sub (a b : Int) : Exec Int := if IsInt32 (a - b) then .ok (a - b) else .error .overflow

structure CTeehistorianPlayer where
  m_Alive : Bool
  m_X : Int
  m_Y : Int
  m_Input : CNetObj_PlayerInput
  m_UniqueClientId : Nat
  m_Team : Int

inductive EState
  | START
  | BEFORE_TICK
  | BEFORE_PLAYERS
  | PLAYERS
  | BEFORE_INPUTS
  | INPUTS
  | BEFORE_ENDTICK
  deriving DecidableEq

structure CTeeHistorian where
  m_State : EState
  m_LastWrittenTick : Int
  m_TickWritten : Bool
  m_Tick : Int
  m_PrevMaxClientId : Int
  m_MaxClientId : Int
  m_aPrevPlayers : Int → CTeehistorianPlayer
  m_aPrevTeams : Int → Bool
  written : List UInt8

namespace CTeeHistorian

/-- The members that are not set keep their values. -/
def Reset (s : CTeeHistorian) : Exec CTeeHistorian :=
  if s.m_State = .START ∨ s.m_State = .BEFORE_TICK then
    .ok { s with
      m_State := .START
      m_LastWrittenTick := 0
      m_TickWritten := true
      m_Tick := 0
      m_MaxClientId := MAX_CLIENTS
      m_aPrevPlayers := fun i =>
        { s.m_aPrevPlayers i with m_Alive := false, m_UniqueClientId := 0, m_Team := 0 }
      m_aPrevTeams := fun _ => false
      written := [] }
  else .error .assertion

def Write (s : CTeeHistorian) (pData : List UInt8) : CTeeHistorian :=
  { s with written := s.written ++ pData }

def WriteTick (s : CTeeHistorian) : Exec CTeeHistorian := do
  let dt := s.m_Tick - s.m_LastWrittenTick - 1
  let TickPacker ← packed [.int (-TEEHISTORIAN_TICK_SKIP), .int dt]
  return { s.Write TickPacker with m_TickWritten := true, m_LastWrittenTick := s.m_Tick }

def EnsureTickWritten (s : CTeeHistorian) : Exec CTeeHistorian :=
  if s.m_TickWritten then .ok s else s.WriteTick

def EnsureTickWrittenPlayerData (s : CTeeHistorian) (ClientId : Int) : Exec CTeeHistorian :=
  if ClientId ≤ s.m_MaxClientId then .error .assertion
  else
    let s := { s with m_MaxClientId := ClientId }
    if s.m_TickWritten = false ∧
        (ClientId > s.m_PrevMaxClientId ∨ s.m_LastWrittenTick + 1 ≠ s.m_Tick) then
      s.WriteTick
    else
      -- Tick is implicit.
      .ok { s with m_LastWrittenTick := s.m_Tick, m_TickWritten := true }

def WriteExtra (s : CTeeHistorian) (Uuid : CUuid) (pData : List UInt8) : Exec CTeeHistorian := do
  let s ← s.EnsureTickWritten
  let Ex ← packed [.int (-TEEHISTORIAN_EX), .raw Uuid.toList, .int pData.length]
  return (s.Write Ex).Write pData

def prevPlayer (s : CTeeHistorian) (ClientId : Int) : Exec CTeehistorianPlayer :=
  if 0 ≤ ClientId ∧ ClientId < MAX_CLIENTS then .ok (s.m_aPrevPlayers ClientId)
  else .error .outOfBounds

def setPrevPlayer (s : CTeeHistorian) (ClientId : Int) (p : CTeehistorianPlayer) : CTeeHistorian :=
  { s with m_aPrevPlayers := Function.update s.m_aPrevPlayers ClientId p }

/-! ## Ticks and players -/

def BeginTick (s : CTeeHistorian) (Tick : Int) : Exec CTeeHistorian :=
  if s.m_State = .START ∨ s.m_State = .BEFORE_TICK then
    .ok { s with m_Tick := Tick, m_TickWritten := false, m_State := .BEFORE_PLAYERS }
  else .error .assertion

def BeginPlayers (s : CTeeHistorian) : Exec CTeeHistorian :=
  if s.m_State = .BEFORE_PLAYERS then
    .ok { s with m_PrevMaxClientId := s.m_MaxClientId, m_MaxClientId := -1, m_State := .PLAYERS }
  else .error .assertion

/-- The branch of `RecordPlayer` that writes. -/
def WritePlayer (s : CTeeHistorian) (pPrev : CTeehistorianPlayer) (ClientId m_X m_Y : Int) :
    Exec CTeeHistorian := do
  let s ← s.EnsureTickWrittenPlayerData ClientId
  if pPrev.m_Alive then do
    let dx ← sub m_X pPrev.m_X
    let dy ← sub m_Y pPrev.m_Y
    let Buffer ← packed [.int ClientId, .int dx, .int dy]
    return s.Write Buffer
  else do
    let Buffer ← packed [.int (-TEEHISTORIAN_PLAYER_NEW), .int ClientId, .int m_X, .int m_Y]
    return s.Write Buffer

def RecordPlayer (s : CTeeHistorian) (ClientId m_X m_Y : Int) : Exec CTeeHistorian :=
  if s.m_State ≠ .PLAYERS then .error .assertion
  else do
    let pPrev ← s.prevPlayer ClientId
    let s ←
      if pPrev.m_Alive = false ∨ pPrev.m_X ≠ m_X ∨ pPrev.m_Y ≠ m_Y then
        s.WritePlayer pPrev ClientId m_X m_Y
      else .ok s
    return s.setPrevPlayer ClientId { pPrev with m_X, m_Y, m_Alive := true }

/-- The branch of `RecordDeadPlayer` that writes. -/
def WriteDeadPlayer (s : CTeeHistorian) (ClientId : Int) : Exec CTeeHistorian := do
  let s ← s.EnsureTickWrittenPlayerData ClientId
  let Buffer ← packed [.int (-TEEHISTORIAN_PLAYER_OLD), .int ClientId]
  return s.Write Buffer

def RecordDeadPlayer (s : CTeeHistorian) (ClientId : Int) : Exec CTeeHistorian :=
  if s.m_State ≠ .PLAYERS then .error .assertion
  else do
    let pPrev ← s.prevPlayer ClientId
    let s ← if pPrev.m_Alive then s.WriteDeadPlayer ClientId else .ok s
    return s.setPrevPlayer ClientId { pPrev with m_Alive := false }

def EndPlayers (s : CTeeHistorian) : Exec CTeeHistorian :=
  if s.m_State = .PLAYERS then .ok { s with m_State := .BEFORE_INPUTS } else .error .assertion

def BeginInputs (s : CTeeHistorian) : Exec CTeeHistorian :=
  if s.m_State = .BEFORE_INPUTS then .ok { s with m_State := .INPUTS } else .error .assertion

/-- The buffer that `RecordPlayerInput` writes. -/
def InputBuffer (pPrev : CTeehistorianPlayer) (ClientId : Int) (UniqueClientId : Nat)
    (pInput : CNetObj_PlayerInput) : Exec (List UInt8) :=
  if pPrev.m_UniqueClientId = UniqueClientId then
    packed (.int (-TEEHISTORIAN_INPUT_DIFF) :: .int ClientId ::
      (DiffItem pPrev.m_Input.ints pInput.ints).map .int)
  else packed (.int (-TEEHISTORIAN_INPUT_NEW) :: .int ClientId :: pInput.ints.map .int)

def RecordPlayerInput (s : CTeeHistorian) (ClientId : Int) (UniqueClientId : Nat)
    (pInput : CNetObj_PlayerInput) : Exec CTeeHistorian := do
  let pPrev ← s.prevPlayer ClientId
  if pPrev.m_UniqueClientId = UniqueClientId ∧ pPrev.m_Input = pInput then return s
  else do
    let s ← s.EnsureTickWritten
    let Buffer ← InputBuffer pPrev ClientId UniqueClientId pInput
    return (s.setPrevPlayer ClientId
      { pPrev with m_UniqueClientId := UniqueClientId, m_Input := pInput }).Write Buffer

def EndInputs (s : CTeeHistorian) : Exec CTeeHistorian :=
  if s.m_State = .INPUTS then .ok { s with m_State := .BEFORE_ENDTICK } else .error .assertion

def EndTick (s : CTeeHistorian) : Exec CTeeHistorian :=
  if s.m_State = .BEFORE_ENDTICK then .ok { s with m_State := .BEFORE_TICK } else .error .assertion

def Finish (s : CTeeHistorian) : Exec CTeeHistorian :=
  if s.m_State = .START ∨ s.m_State = .INPUTS ∨ s.m_State = .BEFORE_ENDTICK ∨
      s.m_State = .BEFORE_TICK then do
    let s ← if s.m_State = .INPUTS then s.EndInputs else .ok s
    let s ← if s.m_State = .BEFORE_ENDTICK then s.EndTick else .ok s
    let Buffer ← packed [.int (-TEEHISTORIAN_FINISH)]
    return s.Write Buffer
  else .error .assertion

/-! ## Other records -/

/-- A record is written behind its tick. -/
def record (s : CTeeHistorian) (Buffer : List Field) : Exec CTeeHistorian := do
  let s ← s.EnsureTickWritten
  let Buffer ← packed Buffer
  return s.Write Buffer

def RecordPlayerMessage (s : CTeeHistorian) (ClientId : Int) (pMsg : List UInt8) :
    Exec CTeeHistorian :=
  s.record [.int (-TEEHISTORIAN_MESSAGE), .int ClientId, .int pMsg.length, .raw pMsg]

def RecordPlayerDrop (s : CTeeHistorian) (ClientId : Int) (pReason : List UInt8) :
    Exec CTeeHistorian :=
  s.record [.int (-TEEHISTORIAN_DROP), .int ClientId, str pReason]

def RecordConsoleCommand (s : CTeeHistorian) (ClientId FlagMask : Int) (pCmd : List UInt8)
    (pResult : List (List UInt8)) : Exec CTeeHistorian :=
  s.record (.int (-TEEHISTORIAN_CONSOLE_COMMAND) :: .int ClientId :: .int FlagMask :: str pCmd ::
    .int pResult.length :: pResult.map str)

section Extra

variable (CalculateUuid : String → CUuid)

/-- The fields of an extra record are packed first. -/
def recordExtra (s : CTeeHistorian) (name : String) (Buffer : List Field) : Exec CTeeHistorian := do
  let Buffer ← packed Buffer
  s.WriteExtra (CalculateUuid name) Buffer

def RecordPlayerTeam (s : CTeeHistorian) (ClientId Team : Int) : Exec CTeeHistorian := do
  let pPrev ← s.prevPlayer ClientId
  if pPrev.m_Team ≠ Team then
    (s.setPrevPlayer ClientId { pPrev with m_Team := Team }).recordExtra CalculateUuid
      "teehistorian-player-team@ddnet.tw" [.int ClientId, .int Team]
  else return s

def RecordTeamPractice (s : CTeeHistorian) (Team : Int) (Practice : Bool) : Exec CTeeHistorian :=
  if ¬ (0 ≤ Team ∧ Team < MAX_CLIENTS) then .error .outOfBounds
  else if s.m_aPrevTeams Team ≠ Practice then
    CTeeHistorian.recordExtra CalculateUuid
      { s with m_aPrevTeams := Function.update s.m_aPrevTeams Team Practice }
      "teehistorian-team-practice@ddnet.tw" [.int Team, .int (if Practice then 1 else 0)]
  else .ok s

/-- The protocol is 0.6 or 0.7. -/
def RecordPlayerJoin (s : CTeeHistorian) (ClientId : Int) (Protocol7 : Bool) :
    Exec CTeeHistorian := do
  let s ← s.recordExtra CalculateUuid
    (if Protocol7 then "teehistorian-joinver7@ddnet.tw" else "teehistorian-joinver6@ddnet.tw")
    [.int ClientId]
  let Buffer ← packed [.int (-TEEHISTORIAN_JOIN), .int ClientId]
  return s.Write Buffer

def RecordPlayerRejoin (s : CTeeHistorian) (ClientId : Int) : Exec CTeeHistorian :=
  s.recordExtra CalculateUuid "teehistorian-rejoinver6@ddnet.org" [.int ClientId]

def RecordPlayerReady (s : CTeeHistorian) (ClientId : Int) : Exec CTeeHistorian :=
  s.recordExtra CalculateUuid "teehistorian-player-ready@ddnet.tw" [.int ClientId]

def RecordPlayerName (s : CTeeHistorian) (ClientId : Int) (pName : List UInt8) :
    Exec CTeeHistorian :=
  s.recordExtra CalculateUuid "teehistorian-player-name@ddnet.org" [.int ClientId, str pName]

def RecordTestExtra (s : CTeeHistorian) : Exec CTeeHistorian :=
  s.WriteExtra (CalculateUuid "teehistorian-test@ddnet.tw") []

def RecordPlayerSwap (s : CTeeHistorian) (ClientId1 ClientId2 : Int) : Exec CTeeHistorian :=
  s.recordExtra CalculateUuid "teehistorian-player-swap@ddnet.tw" [.int ClientId1, .int ClientId2]

def RecordTeamSaveSuccess (s : CTeeHistorian) (Team : Int) (SaveId : CUuid)
    (pTeamSave : List UInt8) : Exec CTeeHistorian :=
  s.recordExtra CalculateUuid "teehistorian-save-success@ddnet.tw"
    [.int Team, .raw SaveId.toList, str pTeamSave]

def RecordTeamSaveFailure (s : CTeeHistorian) (Team : Int) : Exec CTeeHistorian :=
  s.recordExtra CalculateUuid "teehistorian-save-failure@ddnet.tw" [.int Team]

def RecordTeamLoadSuccess (s : CTeeHistorian) (Team : Int) (SaveId : CUuid)
    (pTeamSave : List UInt8) : Exec CTeeHistorian :=
  s.recordExtra CalculateUuid "teehistorian-load-success@ddnet.tw"
    [.int Team, .raw SaveId.toList, str pTeamSave]

def RecordTeamLoadFailure (s : CTeeHistorian) (Team : Int) : Exec CTeeHistorian :=
  s.recordExtra CalculateUuid "teehistorian-load-failure@ddnet.tw" [.int Team]

def RecordDDNetVersionOld (s : CTeeHistorian) (ClientId DDNetVersion : Int) : Exec CTeeHistorian :=
  s.recordExtra CalculateUuid "teehistorian-ddnetver-old@ddnet.tw"
    [.int ClientId, .int DDNetVersion]

def RecordDDNetVersion (s : CTeeHistorian) (ClientId : Int) (ConnectionId : CUuid)
    (DDNetVersion : Int) (pDDNetVersionStr : List UInt8) : Exec CTeeHistorian :=
  s.recordExtra CalculateUuid "teehistorian-ddnetver@ddnet.tw"
    [.int ClientId, .raw ConnectionId.toList, .int DDNetVersion, str pDDNetVersionStr]

def RecordAuthInitial (s : CTeeHistorian) (ClientId Level : Int) (pAuthName : List UInt8) :
    Exec CTeeHistorian :=
  s.recordExtra CalculateUuid "teehistorian-auth-init@ddnet.tw"
    [.int ClientId, .int Level, str pAuthName]

def RecordAuthLogin (s : CTeeHistorian) (ClientId Level : Int) (pAuthName : List UInt8) :
    Exec CTeeHistorian :=
  s.recordExtra CalculateUuid "teehistorian-auth-login@ddnet.tw"
    [.int ClientId, .int Level, str pAuthName]

def RecordAuthLogout (s : CTeeHistorian) (ClientId : Int) : Exec CTeeHistorian :=
  s.recordExtra CalculateUuid "teehistorian-auth-logout@ddnet.tw" [.int ClientId]

def RecordAntibot (s : CTeeHistorian) (pData : List UInt8) : Exec CTeeHistorian :=
  s.WriteExtra (CalculateUuid "teehistorian-antibot@ddnet.org") pData

def RecordPlayerFinish (s : CTeeHistorian) (ClientId TimeTicks : Int) : Exec CTeeHistorian :=
  s.recordExtra CalculateUuid "teehistorian-player-finish@ddnet.org" [.int ClientId, .int TimeTicks]

def RecordTeamFinish (s : CTeeHistorian) (TeamId TimeTicks : Int) : Exec CTeeHistorian :=
  s.recordExtra CalculateUuid "teehistorian-team-finish@ddnet.org" [.int TeamId, .int TimeTicks]

end Extra

end CTeeHistorian

/-! ## Calls -/

inductive Call
  | BeginTick (Tick : Int)
  | BeginPlayers
  | RecordPlayer (ClientId m_X m_Y : Int)
  | RecordDeadPlayer (ClientId : Int)
  | EndPlayers
  | BeginInputs
  | RecordPlayerInput (ClientId : Int) (UniqueClientId : Nat) (pInput : CNetObj_PlayerInput)
  | EndInputs
  | EndTick
  | RecordPlayerMessage (ClientId : Int) (pMsg : List UInt8)
  | RecordPlayerDrop (ClientId : Int) (pReason : List UInt8)
  | RecordConsoleCommand (ClientId FlagMask : Int) (pCmd : List UInt8) (pResult : List (List UInt8))
  | RecordPlayerTeam (ClientId Team : Int)
  | RecordTeamPractice (Team : Int) (Practice : Bool)
  | RecordPlayerJoin (ClientId : Int) (Protocol7 : Bool)
  | RecordPlayerRejoin (ClientId : Int)
  | RecordPlayerReady (ClientId : Int)
  | RecordPlayerName (ClientId : Int) (pName : List UInt8)
  | RecordTestExtra
  | RecordPlayerSwap (ClientId1 ClientId2 : Int)
  | RecordTeamSaveSuccess (Team : Int) (SaveId : CUuid) (pTeamSave : List UInt8)
  | RecordTeamSaveFailure (Team : Int)
  | RecordTeamLoadSuccess (Team : Int) (SaveId : CUuid) (pTeamSave : List UInt8)
  | RecordTeamLoadFailure (Team : Int)
  | RecordDDNetVersionOld (ClientId DDNetVersion : Int)
  | RecordDDNetVersion (ClientId : Int) (ConnectionId : CUuid) (DDNetVersion : Int)
      (pDDNetVersionStr : List UInt8)
  | RecordAuthInitial (ClientId Level : Int) (pAuthName : List UInt8)
  | RecordAuthLogin (ClientId Level : Int) (pAuthName : List UInt8)
  | RecordAuthLogout (ClientId : Int)
  | RecordAntibot (pData : List UInt8)
  | RecordPlayerFinish (ClientId TimeTicks : Int)
  | RecordTeamFinish (TeamId TimeTicks : Int)

def step (CalculateUuid : String → CUuid) (s : CTeeHistorian) : Call → Exec CTeeHistorian
  | .BeginTick Tick => s.BeginTick Tick
  | .BeginPlayers => s.BeginPlayers
  | .RecordPlayer ClientId m_X m_Y => s.RecordPlayer ClientId m_X m_Y
  | .RecordDeadPlayer ClientId => s.RecordDeadPlayer ClientId
  | .EndPlayers => s.EndPlayers
  | .BeginInputs => s.BeginInputs
  | .RecordPlayerInput ClientId UniqueClientId pInput =>
      s.RecordPlayerInput ClientId UniqueClientId pInput
  | .EndInputs => s.EndInputs
  | .EndTick => s.EndTick
  | .RecordPlayerMessage ClientId pMsg => s.RecordPlayerMessage ClientId pMsg
  | .RecordPlayerDrop ClientId pReason => s.RecordPlayerDrop ClientId pReason
  | .RecordConsoleCommand ClientId FlagMask pCmd pResult =>
      s.RecordConsoleCommand ClientId FlagMask pCmd pResult
  | .RecordPlayerTeam ClientId Team => s.RecordPlayerTeam CalculateUuid ClientId Team
  | .RecordTeamPractice Team Practice => s.RecordTeamPractice CalculateUuid Team Practice
  | .RecordPlayerJoin ClientId Protocol7 => s.RecordPlayerJoin CalculateUuid ClientId Protocol7
  | .RecordPlayerRejoin ClientId => s.RecordPlayerRejoin CalculateUuid ClientId
  | .RecordPlayerReady ClientId => s.RecordPlayerReady CalculateUuid ClientId
  | .RecordPlayerName ClientId pName => s.RecordPlayerName CalculateUuid ClientId pName
  | .RecordTestExtra => s.RecordTestExtra CalculateUuid
  | .RecordPlayerSwap ClientId1 ClientId2 => s.RecordPlayerSwap CalculateUuid ClientId1 ClientId2
  | .RecordTeamSaveSuccess Team SaveId pTeamSave =>
      s.RecordTeamSaveSuccess CalculateUuid Team SaveId pTeamSave
  | .RecordTeamSaveFailure Team => s.RecordTeamSaveFailure CalculateUuid Team
  | .RecordTeamLoadSuccess Team SaveId pTeamSave =>
      s.RecordTeamLoadSuccess CalculateUuid Team SaveId pTeamSave
  | .RecordTeamLoadFailure Team => s.RecordTeamLoadFailure CalculateUuid Team
  | .RecordDDNetVersionOld ClientId DDNetVersion =>
      s.RecordDDNetVersionOld CalculateUuid ClientId DDNetVersion
  | .RecordDDNetVersion ClientId ConnectionId DDNetVersion pDDNetVersionStr =>
      s.RecordDDNetVersion CalculateUuid ClientId ConnectionId DDNetVersion pDDNetVersionStr
  | .RecordAuthInitial ClientId Level pAuthName =>
      s.RecordAuthInitial CalculateUuid ClientId Level pAuthName
  | .RecordAuthLogin ClientId Level pAuthName =>
      s.RecordAuthLogin CalculateUuid ClientId Level pAuthName
  | .RecordAuthLogout ClientId => s.RecordAuthLogout CalculateUuid ClientId
  | .RecordAntibot pData => s.RecordAntibot CalculateUuid pData
  | .RecordPlayerFinish ClientId TimeTicks => s.RecordPlayerFinish CalculateUuid ClientId TimeTicks
  | .RecordTeamFinish TeamId TimeTicks => s.RecordTeamFinish CalculateUuid TeamId TimeTicks

end Fex.Game.TeeHistorian
