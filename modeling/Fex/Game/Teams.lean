import Fex.Lib.Loop
import Mathlib.Logic.Function.Basic

/-!
# Teams

Model of `CGameTeams` outside of the mode that forces solo.  Chat, scores, switchers, invitations
and swaps are left out, but for the accesses to their arrays of teams.
-/

namespace Fex.Game.Teams

open Fex.Lib

def TEAM_FLOCK : Int := 0
def TEAM_SUPER : Int := 64
def NUM_DDRACE_TEAMS : Int := TEAM_SUPER + 1
def MAX_CLIENTS : Nat := 128

def WEAPON_GAME : Int := -3
def WEAPON_SELF : Int := -2

inductive ETeamState
  | EMPTY
  | OPEN
  | STARTED
  | STARTED_UNFINISHABLE
  | FINISHED
  deriving DecidableEq

inductive ERaceState
  | NONE
  | STARTED
  | CHEATED
  | FINISHED
  deriving DecidableEq

structure CCharacter where
  m_Alive : Bool
  m_Super : Bool
  m_DDRaceState : ERaceState
  m_StartTime : Int

structure CPlayer where
  m_pCharacter : Option CCharacter

structure CConfig where
  m_SvRejoinTeam0 : Bool
  m_SvMaxTeamSize : Int
  PracticeByDefault : Bool

/-- The teams, with the players and the tick of the game.  A team is saved while its result is
there. -/
structure CGameTeams where
  m_aTeam : Nat → Int
  m_aTeeStarted : Nat → Bool
  m_aTeeFinished : Nat → Bool
  m_aTeamState : Int → ETeamState
  m_aTeamLocked : Int → Bool
  m_aTeamFlock : Int → Bool
  m_aPractice : Int → Bool
  m_apSaveTeamResult : Int → Bool
  m_apPlayers : Nat → Option CPlayer
  Tick : Int

/-- The team is an index of the arrays of teams. -/
def IsTeam (Team : Int) : Prop := 0 ≤ Team ∧ Team < NUM_DDRACE_TEAMS

instance instDecidableIsTeam (Team : Int) : Decidable (IsTeam Team) :=
  inferInstanceAs (Decidable (_ ∧ _))

/-- An access to an array of teams. -/
def element {α : Type} (a : Int → α) (Team : Int) : Exec α :=
  if IsTeam Team then .ok (a Team) else .error .outOfBounds

def store {α : Type} (a : Int → α) (Team : Int) (v : α) : Exec (Int → α) :=
  if IsTeam Team then .ok (Function.update a Team v) else .error .outOfBounds

/-- An access to an array whose values are left out. -/
def access (Team : Int) : Exec Unit := element (fun _ => ()) Team

namespace CGameTeams

/-! ## Players -/

def Character (s : CGameTeams) (ClientId : Nat) : Option CCharacter :=
  ((s.m_apPlayers ClientId).bind CPlayer.m_pCharacter).filter CCharacter.m_Alive

def IsPlaying (s : CGameTeams) (ClientId : Nat) : Bool := (s.Character ClientId).isSome

def GetDDRaceState (s : CGameTeams) (ClientId : Nat) : ERaceState :=
  ((s.Character ClientId).map CCharacter.m_DDRaceState).getD .NONE

def GetStartTime (s : CGameTeams) (ClientId : Nat) : Int :=
  ((s.Character ClientId).map CCharacter.m_StartTime).getD 0

/-- A change of the character that a player has. -/
def setCharacter (s : CGameTeams) (ClientId : Nat) (m_pCharacter : Option CCharacter) :
    CGameTeams :=
  { s with
    m_apPlayers := Function.update s.m_apPlayers ClientId
      ((s.m_apPlayers ClientId).map fun _ => { m_pCharacter }) }

def SetDDRaceState (s : CGameTeams) (ClientId : Nat) (DDRaceState : ERaceState) : CGameTeams :=
  match s.Character ClientId with
  | some pChar => s.setCharacter ClientId (some { pChar with m_DDRaceState := DDRaceState })
  | none => s

def SetStartTime (s : CGameTeams) (ClientId : Nat) (StartTime : Int) : CGameTeams :=
  match s.Character ClientId with
  | some pChar => s.setCharacter ClientId (some { pChar with m_StartTime := StartTime })
  | none => s

/-! ## Teams -/

/-- The clients of a team. -/
def members (s : CGameTeams) (Team : Int) : List Nat :=
  (List.range MAX_CLIENTS).filter fun i => decide (s.m_aTeam i = Team)

def Count (s : CGameTeams) (Team : Int) : Int :=
  if Team = TEAM_SUPER then -1 else (s.members Team).length

def GetTeamState (s : CGameTeams) (Team : Int) : Exec ETeamState := element s.m_aTeamState Team

def TeamLocked (s : CGameTeams) (Team : Int) : Bool :=
  decide (TEAM_FLOCK < Team ∧ Team < TEAM_SUPER) && s.m_aTeamLocked Team

def TeamFlock (s : CGameTeams) (Team : Int) : Bool :=
  decide (TEAM_FLOCK < Team ∧ Team < TEAM_SUPER) && s.m_aTeamFlock Team

def GetSaving (s : CGameTeams) (Team : Int) : Bool :=
  decide (TEAM_FLOCK < Team ∧ Team < TEAM_SUPER) && s.m_apSaveTeamResult Team

def SetTeamLock (s : CGameTeams) (Team : Int) (Lock : Bool) : CGameTeams :=
  if TEAM_FLOCK < Team ∧ Team < TEAM_SUPER then
    { s with m_aTeamLocked := Function.update s.m_aTeamLocked Team Lock }
  else s

def SetTeamFlock (s : CGameTeams) (Team : Int) (Mode : Bool) : CGameTeams :=
  if TEAM_FLOCK < Team ∧ Team < TEAM_SUPER then
    { s with m_aTeamFlock := Function.update s.m_aTeamFlock Team Mode }
  else s

def ChangeTeamState (s : CGameTeams) (Team : Int) (State : ETeamState) : Exec CGameTeams := do
  let m_aTeamState ← store s.m_aTeamState Team State
  return { s with m_aTeamState }

variable (g_Config : CConfig)

/-- Practice mode ends unless it is the default. -/
def ResetPractice (s : CGameTeams) (Team : Int) : Exec CGameTeams :=
  if g_Config.PracticeByDefault then .ok s
  else do
    let m_aPractice ← store s.m_aPractice Team false
    return { s with m_aPractice }

def ResetRoundState (s : CGameTeams) (Team : Int) : Exec CGameTeams := do
  access Team
  s.ResetPractice g_Config Team

def Reset (s : CGameTeams) : CGameTeams :=
  { s with
    m_aTeam := fun _ => TEAM_FLOCK
    m_aTeeStarted := fun _ => false
    m_aTeeFinished := fun _ => false
    m_aTeamState := fun _ => .EMPTY
    m_aTeamLocked := fun _ => false
    m_aTeamFlock := fun _ => false
    m_apSaveTeamResult := fun _ => false
    m_aPractice := fun _ => g_Config.PracticeByDefault }

/-- What the old team loses in `SetForceCharacterTeam`. -/
def leave (s : CGameTeams) (OldTeam Team : Int) : Exec CGameTeams :=
  if Team ≠ OldTeam ∧ OldTeam ≠ TEAM_FLOCK ∧ OldTeam ≠ TEAM_SUPER then do
    let State ← element s.m_aTeamState OldTeam
    if State ≠ .EMPTY ∧ s.Count OldTeam ≤ 1 then do
      let m_aTeamState ← store s.m_aTeamState OldTeam .EMPTY
      -- unlock team when last player leaves
      let s := SetTeamLock { s with m_aTeamState } OldTeam false
      ResetRoundState g_Config (s.SetTeamFlock OldTeam false) OldTeam
    else .ok s
  else .ok s

/-- What the new team gets. -/
def enter (s : CGameTeams) (Team : Int) : Exec CGameTeams :=
  if Team = TEAM_SUPER then .ok s
  else do
    let State ← element s.m_aTeamState Team
    let Locked ← element s.m_aTeamLocked Team
    let Flock ← element s.m_aTeamFlock Team
    if State = .EMPTY ∨ Locked = true ∧ Flock = false then do
      access Team
      if Locked = false then s.ChangeTeamState Team .OPEN else .ok s
    else .ok s

def SetForceCharacterTeam (s : CGameTeams) (ClientId : Nat) (Team : Int) : Exec CGameTeams := do
  let OldTeam := s.m_aTeam ClientId
  let s ← leave g_Config
    { s with
      m_aTeeStarted := Function.update s.m_aTeeStarted ClientId false
      m_aTeeFinished := Function.update s.m_aTeeFinished ClientId false } OldTeam Team
  if TEAM_FLOCK ≤ Team ∧ Team ≤ TEAM_SUPER then
    enter { s with m_aTeam := Function.update s.m_aTeam ClientId Team } Team
  else .error .assertion

/-- The team plays already and lets nobody join. -/
def hasStarted (s : CGameTeams) (Team : Int) : Exec Bool :=
  if Team = TEAM_SUPER then .ok false
  else do
    let State ← element s.m_aTeamState Team
    let Practice ← element s.m_aPractice Team
    let Flock ← element s.m_aTeamFlock Team
    return decide (State ≠ .EMPTY ∧ State ≠ .OPEN) && !Practice && !Flock

/-- The reason why a client may not change its team, if there is one. -/
def rejection (s : CGameTeams) (ClientId : Nat) (Team : Int) : Exec (Option String) := do
  let started ← s.hasStarted Team
  if started then return some "This team started already"
  else if s.m_aTeam ClientId = Team then return some "You are in this team already"
  else
    match s.Character ClientId with
    | none => return some "Your character is not valid"
    | some pChar =>
        if Team = TEAM_SUPER ∧ pChar.m_Super = false then
          return some "You can't join super team if you don't have super rights"
        else if Team ≠ TEAM_SUPER ∧ pChar.m_DDRaceState ≠ .NONE then
          return some "You have started racing already"
        else do
          -- No cheating through noob filter with practice and then leaving team
          let Practice ← element s.m_aPractice (s.m_aTeam ClientId)
          return if Practice && !g_Config.PracticeByDefault then
              some "You have used practice mode already"
            else if s.GetSaving Team then some "Your team is currently saving"
            else if s.GetSaving (s.m_aTeam ClientId) then some "This team is currently saving"
            else none

/-- `nullptr` is `none`. -/
def SetCharacterTeam (s : CGameTeams) (ClientId Team : Int) : Exec (Option String × CGameTeams) :=
  if ClientId < 0 ∨ ClientId ≥ MAX_CLIENTS then .ok (some "Invalid client ID", s)
  else if Team < 0 ∨ Team > NUM_DDRACE_TEAMS then .ok (some "Invalid team number", s)
  else do
    match ← s.rejection g_Config ClientId.toNat Team with
    | some error => return (some error, s)
    | none => return (none, ← s.SetForceCharacterTeam g_Config ClientId.toNat Team)

/-! ## Finishing -/

def TeamFinished (s : CGameTeams) (Team : Int) : Exec Bool := do
  let State ← element s.m_aTeamState Team
  return decide (State = .STARTED) && (s.members Team).all s.m_aTeeFinished

/-- The messages and scores are left out. -/
def OnFinish (s : CGameTeams) (ClientId : Nat) : CGameTeams :=
  if s.IsPlaying ClientId then s.SetDDRaceState ClientId .FINISHED else s

/-- `m_aTeamLocked[Team]`, which is not read for super. -/
def IsLocked (s : CGameTeams) (Team : Int) : Exec Bool :=
  if Team ≥ TEAM_SUPER then .ok false else element s.m_aTeamLocked Team

/-- One player of `OnTeamFinish`. -/
def rejoin (s : CGameTeams) (ClientId : Nat) : Exec CGameTeams :=
  if g_Config.m_SvRejoinTeam0 then do
    let Locked ← s.IsLocked (s.m_aTeam ClientId)
    if Locked then return s else s.SetForceCharacterTeam g_Config ClientId TEAM_FLOCK
  else .ok s

def OnTeamFinish (s : CGameTeams) (Players : List Nat) : Exec CGameTeams :=
  Players.foldlM (rejoin g_Config) s

/-- A team that has finished, with the players that are playing. -/
def finishTeam (s : CGameTeams) (Team : Int) : List Nat → Exec CGameTeams
  | [] => .ok s
  | first :: rest => do
      let TimeTicks := s.Tick - s.GetStartTime first
      if TimeTicks ≤ 0 then return s
      else do
        let Practice ← element s.m_aPractice Team
        if Practice then do
          let s ← s.ChangeTeamState Team .FINISHED
          return (first :: rest).foldl (fun s i => s.SetDDRaceState i .FINISHED) s
        else do
          let s ← ((first :: rest).foldl OnFinish s).ChangeTeamState Team .FINISHED
          OnTeamFinish g_Config s (first :: rest)

/-- The players have neither started nor finished. -/
def clearFlags (s : CGameTeams) (Players : List Nat) : CGameTeams :=
  { s with
    m_aTeeStarted := fun i => s.m_aTeeStarted i && !Players.contains i
    m_aTeeFinished := fun i => s.m_aTeeFinished i && !Players.contains i }

def CheckTeamFinished (s : CGameTeams) (Team : Int) : Exec CGameTeams := do
  if ← s.TeamFinished Team then
    let apTeamPlayers := (s.members Team).filter s.IsPlaying
    finishTeam g_Config (s.clearFlags apTeamPlayers) Team apTeamPlayers
  else return s

/-! ## Characters -/

/-- The start of a character in team 0, in a team that behaves like it or in super. -/
def startFlock (s : CGameTeams) (ClientId : Nat) : Exec CGameTeams := do
  let Team := s.m_aTeam ClientId
  let State ← element s.m_aTeamState Team
  let s ←
    if s.TeamFlock Team ∧ (State = .EMPTY ∨ State = .OPEN) then s.ChangeTeamState Team .STARTED
    else .ok s
  return CGameTeams.SetStartTime
    (SetDDRaceState { s with m_aTeeStarted := Function.update s.m_aTeeStarted ClientId true }
      ClientId .STARTED) ClientId s.Tick

/-- The start of a character in another team: it waits for players that have finished. -/
def startTeam (s : CGameTeams) (ClientId : Nat) : Exec CGameTeams := do
  let Team := s.m_aTeam ClientId
  let Waiting := (s.members Team).any fun i => decide (s.GetDDRaceState i = .FINISHED)
  let State ← element s.m_aTeamState Team
  if Waiting then return s.SetDDRaceState ClientId .NONE
  else do
    let s := { s with m_aTeeStarted := Function.update s.m_aTeeStarted ClientId true }
    if State = .EMPTY ∨ State = .OPEN then do
      let s ← s.ChangeTeamState Team .STARTED
      access Team
      return (s.members Team).foldl
        (fun s i => (s.SetDDRaceState i .STARTED).SetStartTime i s.Tick) s
    else return s

def OnCharacterStart (s : CGameTeams) (ClientId : Nat) : Exec CGameTeams :=
  let Team := s.m_aTeam ClientId
  match s.Character ClientId with
  | none => .ok s
  | some pStartingChar => do
      let Flock ← element s.m_aTeamFlock Team
      if Team ≠ TEAM_FLOCK ∧ Flock = false ∧ pStartingChar.m_DDRaceState = .FINISHED then return s
      else if Team = TEAM_FLOCK ∨ s.TeamFlock Team = true ∨ Team = TEAM_SUPER then
        s.startFlock ClientId
      else s.startTeam ClientId

def OnCharacterFinish (s : CGameTeams) (ClientId : Nat) : Exec CGameTeams := do
  let Team := s.m_aTeam ClientId
  let Flock ← element s.m_aTeamFlock Team
  if Team = TEAM_FLOCK ∨ Flock = true ∨ Team = TEAM_SUPER then
    return if s.IsPlaying ClientId ∧ s.Tick - s.GetStartTime ClientId > 0 then s.OnFinish ClientId
      else s
  else
    CheckTeamFinished g_Config
      { s with m_aTeeFinished :=
        if s.m_aTeeStarted ClientId then Function.update s.m_aTeeFinished ClientId true
        else s.m_aTeeFinished } Team

/-- A team may finish without a client that has left, unless a team is like team 0. -/
def finishUnlessFlock (s : CGameTeams) (FlockTeam Team : Int) : Exec CGameTeams := do
  let Flock ← element s.m_aTeamFlock FlockTeam
  if Flock then return s else s.CheckTeamFinished g_Config Team

def OnCharacterSpawn (s : CGameTeams) (ClientId : Nat) : Exec CGameTeams := do
  let Team := s.m_aTeam ClientId
  if s.GetSaving Team then return s
  else do
    let Locked ← s.IsLocked Team
    if Locked then return s
    else do
      let s ← s.SetForceCharacterTeam g_Config ClientId TEAM_FLOCK
      s.finishUnlessFlock g_Config Team Team

/-! ## Deaths -/

/-- `Die` is called before the character is gone; `death` is what it does to the teams. -/
def KillCharacter (death : CGameTeams → Nat → Exec CGameTeams) (s : CGameTeams) (ClientId : Nat) :
    Exec CGameTeams :=
  match (s.m_apPlayers ClientId).bind CPlayer.m_pCharacter with
  | none => .ok s
  | some pChar => do
      let s ← death (s.setCharacter ClientId (some { pChar with m_Alive := false })) ClientId
      return s.setCharacter ClientId none

/-- The respawning is left out. -/
def KillTeam (death : CGameTeams → Nat → Exec CGameTeams) (s : CGameTeams) (Team : Int)
    (ExceptId : Nat) : Exec CGameTeams :=
  (List.range MAX_CLIENTS).foldlM (fun s i =>
    if s.m_aTeam i = Team ∧ i ≠ ExceptId then s.KillCharacter death i else .ok s) s

/-- Everyone else in the team of the client is killed. -/
def killRest (death : CGameTeams → Nat → Exec CGameTeams) (s : CGameTeams) (ClientId : Nat)
    (Team : Int) : Exec CGameTeams :=
  if s.Count Team > 1 then
    -- Disband team if the team has more players than allowed.
    if s.Count Team > g_Config.m_SvMaxTeamSize then
      (s.SetTeamLock Team false).KillTeam death Team ClientId
    else s.KillTeam death Team ClientId
  else .ok s

/-- The branch of a locked team. -/
def dieLocked (death : CGameTeams → Nat → Exec CGameTeams) (s : CGameTeams) (ClientId : Nat)
    (Team : Int) : Exec CGameTeams := do
  let s ← s.SetForceCharacterTeam g_Config ClientId Team
  let State ← s.GetTeamState Team
  let Flock ← element s.m_aTeamFlock (s.m_aTeam ClientId)
  if State ≠ .OPEN ∧ Flock = false then do
    let s ← s.ChangeTeamState Team .OPEN
    let s ← s.ResetPractice g_Config Team
    s.killRest g_Config death ClientId Team
  else return s

/-- The team of a client that leaves without having started cannot finish. -/
def markUnfinishable (s : CGameTeams) (ClientId : Nat) (Team : Int) : Exec CGameTeams := do
  let State ← element s.m_aTeamState Team
  let Flock ← element s.m_aTeamFlock Team
  if State = .STARTED ∧ s.m_aTeeStarted ClientId = false ∧ Flock = false then do
    access Team
    s.ChangeTeamState Team .STARTED_UNFINISHABLE
  else return s

/-- The branch of the other teams. -/
def dieUnlocked (s : CGameTeams) (ClientId : Nat) (Team : Int) : Exec CGameTeams := do
  let s ← s.markUnfinishable ClientId Team
  let s ← s.SetForceCharacterTeam g_Config ClientId TEAM_FLOCK
  s.finishUnlessFlock g_Config (s.m_aTeam ClientId) Team

/-- A death may kill the rest of a team; `depth` bounds how deep such calls nest. -/
def OnCharacterDeath : Nat → CGameTeams → Nat → Int → Exec CGameTeams
  | 0, _, _, _ => .error .diverges
  | depth + 1, s, ClientId, Weapon =>
      let Team := s.m_aTeam ClientId
      if s.GetSaving Team then .ok s
      else if s.TeamLocked Team = true ∧ Weapon ≠ WEAPON_GAME then
        s.dieLocked g_Config (fun s i => OnCharacterDeath depth s i WEAPON_SELF) ClientId Team
      else s.dieUnlocked g_Config ClientId Team

end CGameTeams

/-! ## Operations -/

inductive Op
  | SetCharacterTeam (ClientId Team : Int)
  | SetForceCharacterTeam (ClientId : Nat) (Team : Int)
  | OnCharacterStart (ClientId : Nat)
  | OnCharacterFinish (ClientId : Nat)
  | OnCharacterSpawn (ClientId : Nat)
  | OnCharacterDeath (ClientId : Nat) (Weapon : Int)
  | SetTeamLock (Team : Int) (Lock : Bool)
  | SetTeamFlock (Team : Int) (Mode : Bool)
  /-- Between the calls the players, the tick, practice modes and savings may change. -/
  | world (m_apPlayers : Nat → Option CPlayer) (Tick : Int)
      (m_aPractice m_apSaveTeamResult : Int → Bool)

def step (g_Config : CConfig) (depth : Nat) (s : CGameTeams) : Op → Exec CGameTeams
  | .SetCharacterTeam ClientId Team => return (← s.SetCharacterTeam g_Config ClientId Team).2
  | .SetForceCharacterTeam ClientId Team => s.SetForceCharacterTeam g_Config ClientId Team
  | .OnCharacterStart ClientId => s.OnCharacterStart ClientId
  | .OnCharacterFinish ClientId => s.OnCharacterFinish g_Config ClientId
  | .OnCharacterSpawn ClientId => s.OnCharacterSpawn g_Config ClientId
  | .OnCharacterDeath ClientId Weapon => s.OnCharacterDeath g_Config depth ClientId Weapon
  | .SetTeamLock Team Lock => .ok (s.SetTeamLock Team Lock)
  | .SetTeamFlock Team Mode => .ok (s.SetTeamFlock Team Mode)
  | .world m_apPlayers Tick m_aPractice m_apSaveTeamResult =>
      .ok { s with m_apPlayers, Tick, m_aPractice, m_apSaveTeamResult }

end Fex.Game.Teams
