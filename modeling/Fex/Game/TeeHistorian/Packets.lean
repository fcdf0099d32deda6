import Fex.Game.TeeHistorian.Stream

/-!
# The packets of a call

Every call writes its packets behind the skip that its tick needs.
-/

namespace Fex.Game.TeeHistorian

open Fex.Lib Fex.Engine.Packer CTeeHistorian
open Fex.Engine.Snapshot (CUuid DiffItem)

variable (CalculateUuid : String → CUuid)

/-- What is written for a player that is new or has moved. -/
def playerPacket (pPrev : CTeehistorianPlayer) (ClientId m_X m_Y : Int) : Packet :=
  if pPrev.m_Alive then .plain ClientId [.int (m_X - pPrev.m_X), .int (m_Y - pPrev.m_Y)]
  else .plain (-TEEHISTORIAN_PLAYER_NEW) [.int ClientId, .int m_X, .int m_Y]

/-- What is written for an input that is new or has changed. -/
def inputPacket (pPrev : CTeehistorianPlayer) (ClientId : Int) (UniqueClientId : Nat)
    (pInput : CNetObj_PlayerInput) : Packet :=
  if pPrev.m_UniqueClientId = UniqueClientId then
    .plain (-TEEHISTORIAN_INPUT_DIFF)
      (.int ClientId :: (DiffItem pPrev.m_Input.ints pInput.ints).map .int)
  else .plain (-TEEHISTORIAN_INPUT_NEW) (.int ClientId :: pInput.ints.map .int)

/-- The packets that a call writes. -/
def packets (s : CTeeHistorian) : Call → List Packet
  | .RecordPlayer ClientId m_X m_Y =>
      let pPrev := s.m_aPrevPlayers ClientId
      if pPrev.m_Alive = false ∨ pPrev.m_X ≠ m_X ∨ pPrev.m_Y ≠ m_Y then
        [playerPacket pPrev ClientId m_X m_Y]
      else []
  | .RecordDeadPlayer ClientId =>
      if (s.m_aPrevPlayers ClientId).m_Alive then
        [.plain (-TEEHISTORIAN_PLAYER_OLD) [.int ClientId]]
      else []
  | .RecordPlayerInput ClientId UniqueClientId pInput =>
      let pPrev := s.m_aPrevPlayers ClientId
      if pPrev.m_UniqueClientId = UniqueClientId ∧ pPrev.m_Input = pInput then []
      else [inputPacket pPrev ClientId UniqueClientId pInput]
  | .RecordPlayerMessage ClientId pMsg =>
      [.plain (-TEEHISTORIAN_MESSAGE) [.int ClientId, .int pMsg.length, .raw pMsg]]
  | .RecordPlayerDrop ClientId pReason =>
      [.plain (-TEEHISTORIAN_DROP) [.int ClientId, str pReason]]
  | .RecordConsoleCommand ClientId FlagMask pCmd pResult =>
      [.plain (-TEEHISTORIAN_CONSOLE_COMMAND)
        (.int ClientId :: .int FlagMask :: str pCmd :: .int pResult.length :: pResult.map str)]
  | .RecordPlayerTeam ClientId Team =>
      if (s.m_aPrevPlayers ClientId).m_Team = Team then []
      else [.extra (CalculateUuid "teehistorian-player-team@ddnet.tw") [.int ClientId, .int Team]]
  | .RecordTeamPractice Team Practice =>
      if s.m_aPrevTeams Team = Practice then []
      else
        [.extra (CalculateUuid "teehistorian-team-practice@ddnet.tw")
          [.int Team, .int (if Practice then 1 else 0)]]
  | .RecordPlayerJoin ClientId Protocol7 =>
      [.extra (CalculateUuid (if Protocol7 then "teehistorian-joinver7@ddnet.tw"
          else "teehistorian-joinver6@ddnet.tw")) [.int ClientId],
        .plain (-TEEHISTORIAN_JOIN) [.int ClientId]]
  | .RecordPlayerRejoin ClientId =>
      [.extra (CalculateUuid "teehistorian-rejoinver6@ddnet.org") [.int ClientId]]
  | .RecordPlayerReady ClientId =>
      [.extra (CalculateUuid "teehistorian-player-ready@ddnet.tw") [.int ClientId]]
  | .RecordPlayerName ClientId pName =>
      [.extra (CalculateUuid "teehistorian-player-name@ddnet.org") [.int ClientId, str pName]]
  | .RecordTestExtra => [.raw (CalculateUuid "teehistorian-test@ddnet.tw") []]
  | .RecordPlayerSwap ClientId1 ClientId2 =>
      [.extra (CalculateUuid "teehistorian-player-swap@ddnet.tw")
        [.int ClientId1, .int ClientId2]]
  | .RecordTeamSaveSuccess Team SaveId pTeamSave =>
      [.extra (CalculateUuid "teehistorian-save-success@ddnet.tw")
        [.int Team, .raw SaveId.toList, str pTeamSave]]
  | .RecordTeamSaveFailure Team =>
      [.extra (CalculateUuid "teehistorian-save-failure@ddnet.tw") [.int Team]]
  | .RecordTeamLoadSuccess Team SaveId pTeamSave =>
      [.extra (CalculateUuid "teehistorian-load-success@ddnet.tw")
        [.int Team, .raw SaveId.toList, str pTeamSave]]
  | .RecordTeamLoadFailure Team =>
      [.extra (CalculateUuid "teehistorian-load-failure@ddnet.tw") [.int Team]]
  | .RecordDDNetVersionOld ClientId DDNetVersion =>
      [.extra (CalculateUuid "teehistorian-ddnetver-old@ddnet.tw")
        [.int ClientId, .int DDNetVersion]]
  | .RecordDDNetVersion ClientId ConnectionId DDNetVersion pDDNetVersionStr =>
      [.extra (CalculateUuid "teehistorian-ddnetver@ddnet.tw")
        [.int ClientId, .raw ConnectionId.toList, .int DDNetVersion, str pDDNetVersionStr]]
  | .RecordAuthInitial ClientId Level pAuthName =>
      [.extra (CalculateUuid "teehistorian-auth-init@ddnet.tw")
        [.int ClientId, .int Level, str pAuthName]]
  | .RecordAuthLogin ClientId Level pAuthName =>
      [.extra (CalculateUuid "teehistorian-auth-login@ddnet.tw")
        [.int ClientId, .int Level, str pAuthName]]
  | .RecordAuthLogout ClientId =>
      [.extra (CalculateUuid "teehistorian-auth-logout@ddnet.tw") [.int ClientId]]
  | .RecordAntibot pData => [.raw (CalculateUuid "teehistorian-antibot@ddnet.org") pData]
  | .RecordPlayerFinish ClientId TimeTicks =>
      [.extra (CalculateUuid "teehistorian-player-finish@ddnet.org")
        [.int ClientId, .int TimeTicks]]
  | .RecordTeamFinish TeamId TimeTicks =>
      [.extra (CalculateUuid "teehistorian-team-finish@ddnet.org") [.int TeamId, .int TimeTicks]]
  | _ => []

/-- What is recorded of a player. -/
def CTeehistorianPlayer.known (p : CTeehistorianPlayer) :
    (Bool × Int × Int) × CNetObj_PlayerInput × Nat :=
  ((p.m_Alive, p.m_X, p.m_Y), p.m_Input, p.m_UniqueClientId)

/-- The members that decide about ticks are the same. -/
structure SameTicks (s s' : CTeeHistorian) : Prop where
  state : s'.m_State = s.m_State
  lastWritten : s'.m_LastWrittenTick = s.m_LastWrittenTick
  tickWritten : s'.m_TickWritten = s.m_TickWritten
  tick : s'.m_Tick = s.m_Tick
  prevMax : s'.m_PrevMaxClientId = s.m_PrevMaxClientId
  max : s'.m_MaxClientId = s.m_MaxClientId

/-- The state is the same but for teams. -/
structure Same (s s' : CTeeHistorian) : Prop extends SameTicks s s' where
  players : ∀ i, (s'.m_aPrevPlayers i).known = (s.m_aPrevPlayers i).known
  written : s'.written = s.written

theorem Same.refl (s : CTeeHistorian) : Same s s :=
  { state := rfl, lastWritten := rfl, tickWritten := rfl, tick := rfl, prevMax := rfl, max := rfl
    players := fun _ => rfl, written := rfl }

theorem Same.trans {s s₁ s₂ : CTeeHistorian} (h : Same s s₁) (h' : Same s₁ s₂) : Same s s₂ where
  state := h'.state.trans h.state
  lastWritten := h'.lastWritten.trans h.lastWritten
  tickWritten := h'.tickWritten.trans h.tickWritten
  tick := h'.tick.trans h.tick
  prevMax := h'.prevMax.trans h.prevMax
  max := h'.max.trans h.max
  players i := (h'.players i).trans (h.players i)
  written := h'.written.trans h.written

/-- The records are written behind the tick. -/
def Recorded (s s' : CTeeHistorian) (rs : List Record) : Prop :=
  rs ≠ [] ∧ ∃ s₀ s₁ bytes, Same s s₀ ∧ s₀.EnsureTickWritten = .ok s₁ ∧ Stream bytes rs ∧
    s' = s₁.Write bytes

section Spec

variable {CalculateUuid : String → CUuid} {s s' : CTeeHistorian}

theorem record_spec {type : Int} {Buffer : List Field} (hfits : Fits (.int type :: Buffer))
    (hshaped : Shaped type Buffer) (htype : type ≠ -TEEHISTORIAN_FINISH)
    (h : s.record (.int type :: Buffer) = .ok s') :
    Recorded s s' [(Packet.plain type Buffer).record] := by
  obtain ⟨bytes, hpacked, hencodes⟩ := encodes_packed hfits hshaped
  unfold CTeeHistorian.record at h
  cases hensure : s.EnsureTickWritten with
  | error e =>
      rw [hensure] at h
      cases h
  | ok s₁ =>
      rw [hensure, hpacked] at h
      cases h
      exact ⟨List.cons_ne_nil _ _, s, s₁, bytes, .refl s, hensure, hencodes.stream htype, rfl⟩

theorem writeExtra_spec {Uuid : CUuid} {pData : List UInt8} (hlength : pData.length ≤ intMax)
    (h : s.WriteExtra Uuid pData = .ok s') : Recorded s s' [(Packet.raw Uuid pData).record] := by
  obtain ⟨Ex, hpacked, hencodes⟩ := encodes_extra Uuid hlength
  unfold CTeeHistorian.WriteExtra at h
  cases hensure : s.EnsureTickWritten with
  | error e =>
      rw [hensure] at h
      cases h
  | ok s₁ =>
      rw [hensure, hpacked] at h
      cases h
      refine ⟨List.cons_ne_nil _ _, s, s₁, Ex ++ pData, .refl s, hensure, hencodes.stream ?_, ?_⟩
      · exact show (-11 : Int) ≠ -1 by decide
      · unfold CTeeHistorian.Write
        rw [List.append_assoc]

theorem recordExtra_spec {name : String} {Buffer : List Field} (hfits : Fits Buffer)
    (h : s.recordExtra CalculateUuid name Buffer = .ok s') :
    Recorded s s' [(Packet.extra (CalculateUuid name) Buffer).record] := by
  obtain ⟨hpacked, hlength⟩ := hfits.payload
  unfold CTeeHistorian.recordExtra at h
  rw [hpacked] at h
  exact writeExtra_spec hlength h

theorem Recorded.of_same {s₀ : CTeeHistorian} {rs : List Record} (hsame : Same s s₀)
    (h : Recorded s₀ s' rs) : Recorded s s' rs := by
  obtain ⟨hne, s₁, s₂, bytes, hsame', hensure, hstream, rfl⟩ := h
  exact ⟨hne, s₁, s₂, bytes, hsame.trans hsame', hensure, hstream, rfl⟩

theorem recordPlayerTeam_spec {ClientId Team : Int}
    (hfits : ∀ k ∈ packets CalculateUuid s (.RecordPlayerTeam ClientId Team), k.Fits)
    (h : s.RecordPlayerTeam CalculateUuid ClientId Team = .ok s') :
    packets CalculateUuid s (.RecordPlayerTeam ClientId Team) = [] ∧ s' = s ∨
      Recorded s s' ((packets CalculateUuid s (.RecordPlayerTeam ClientId Team)).map
        Packet.record) := by
  unfold packets at hfits ⊢
  unfold CTeeHistorian.RecordPlayerTeam CTeeHistorian.prevPlayer at h
  by_cases hid : 0 ≤ ClientId ∧ ClientId < MAX_CLIENTS
  · rw [if_pos hid] at h
    simp only [bind, Except.bind] at h
    by_cases hteam : (s.m_aPrevPlayers ClientId).m_Team = Team
    · rw [if_neg (not_not_intro hteam)] at h
      cases h
      exact .inl ⟨if_pos hteam, rfl⟩
    · rw [if_pos hteam] at h
      simp only [if_neg hteam] at hfits ⊢
      refine .inr (.of_same ?_ (recordExtra_spec (hfits _ List.mem_cons_self) h))
      refine ⟨⟨rfl, rfl, rfl, rfl, rfl, rfl⟩, fun i => ?_, rfl⟩
      by_cases hi : i = ClientId
      · simp only [CTeeHistorian.setPrevPlayer, hi, Function.update_self]
        rfl
      · simp only [CTeeHistorian.setPrevPlayer, Function.update_of_ne hi]
  · rw [if_neg hid] at h
    cases h

theorem recordTeamPractice_spec {Team : Int} {Practice : Bool}
    (hfits : ∀ k ∈ packets CalculateUuid s (.RecordTeamPractice Team Practice), k.Fits)
    (h : s.RecordTeamPractice CalculateUuid Team Practice = .ok s') :
    packets CalculateUuid s (.RecordTeamPractice Team Practice) = [] ∧ s' = s ∨
      Recorded s s' ((packets CalculateUuid s (.RecordTeamPractice Team Practice)).map
        Packet.record) := by
  unfold packets at hfits ⊢
  unfold CTeeHistorian.RecordTeamPractice at h
  by_cases hid : 0 ≤ Team ∧ Team < MAX_CLIENTS
  · rw [if_neg (not_not_intro hid)] at h
    by_cases hpractice : s.m_aPrevTeams Team = Practice
    · rw [if_neg (not_not_intro hpractice)] at h
      cases h
      exact .inl ⟨if_pos hpractice, rfl⟩
    · rw [if_pos hpractice] at h
      simp only [if_neg hpractice] at hfits ⊢
      refine .inr (.of_same ?_ (recordExtra_spec (hfits _ List.mem_cons_self) h))
      exact ⟨⟨rfl, rfl, rfl, rfl, rfl, rfl⟩, fun _ => rfl, rfl⟩
  · rw [if_pos hid] at h
    cases h

theorem recordPlayerJoin_spec {ClientId : Int} {Protocol7 : Bool}
    (hfits : ∀ k ∈ packets CalculateUuid s (.RecordPlayerJoin ClientId Protocol7), k.Fits)
    (h : s.RecordPlayerJoin CalculateUuid ClientId Protocol7 = .ok s') :
    Recorded s s' ((packets CalculateUuid s (.RecordPlayerJoin ClientId Protocol7)).map
      Packet.record) := by
  obtain ⟨hextra, hjoin⟩ := List.forall_mem_cons.mp hfits
  obtain ⟨bytes', hpacked, hencodes⟩ :=
    encodes_packed (hjoin _ List.mem_cons_self) (shaped_join ClientId)
  unfold CTeeHistorian.RecordPlayerJoin at h
  cases hrun : s.recordExtra CalculateUuid
      (if Protocol7 then "teehistorian-joinver7@ddnet.tw" else "teehistorian-joinver6@ddnet.tw")
      [.int ClientId] with
  | error e =>
      rw [hrun] at h
      cases h
  | ok s₂ =>
      obtain ⟨-, s₀, s₁, bytes, hsame, hensure, hstream, rfl⟩ := recordExtra_spec hextra hrun
      rw [hrun] at h
      simp only [bind, Except.bind] at h
      rw [hpacked] at h
      cases h
      refine ⟨List.cons_ne_nil _ _, s₀, s₁, bytes ++ bytes', hsame, hensure,
        hstream.append (hencodes.stream (show (-8 : Int) ≠ -1 by decide)), ?_⟩
      unfold CTeeHistorian.Write
      rw [List.append_assoc]

end Spec

/-- The call is not about ticks, players or inputs. -/
def Call.Other : Call → Prop
  | .BeginTick _ | .BeginPlayers | .RecordPlayer _ _ _ | .RecordDeadPlayer _ | .EndPlayers
  | .BeginInputs | .RecordPlayerInput _ _ _ | .EndInputs | .EndTick => False
  | _ => True

theorem other_spec {s s' : CTeeHistorian} {c : Call} (hother : c.Other)
    (hfits : ∀ k ∈ packets CalculateUuid s c, k.Fits) (h : step CalculateUuid s c = .ok s') :
    packets CalculateUuid s c = [] ∧ s' = s ∨
      Recorded s s' ((packets CalculateUuid s c).map Packet.record) := by
  have hextra : ∀ {name Buffer}, Fits Buffer → s.recordExtra CalculateUuid name Buffer = .ok s' →
      Recorded s s' [(Packet.extra (CalculateUuid name) Buffer).record] := recordExtra_spec
  cases c with
  | BeginTick _ => exact hother.elim
  | BeginPlayers => exact hother.elim
  | RecordPlayer _ _ _ => exact hother.elim
  | RecordDeadPlayer _ => exact hother.elim
  | EndPlayers => exact hother.elim
  | BeginInputs => exact hother.elim
  | RecordPlayerInput _ _ _ => exact hother.elim
  | EndInputs => exact hother.elim
  | EndTick => exact hother.elim
  | RecordPlayerMessage ClientId pMsg =>
      exact .inr (record_spec (hfits _ List.mem_cons_self) (shaped_message ClientId pMsg)
        (show (-7 : Int) ≠ -1 by decide) h)
  | RecordPlayerDrop ClientId pReason =>
      exact .inr (record_spec (hfits _ List.mem_cons_self) (shaped_drop ClientId pReason)
        (show (-9 : Int) ≠ -1 by decide) h)
  | RecordConsoleCommand ClientId FlagMask pCmd pResult =>
      exact .inr (record_spec (hfits _ List.mem_cons_self)
        (shaped_command ClientId FlagMask pCmd pResult) (show (-10 : Int) ≠ -1 by decide) h)
  | RecordPlayerTeam ClientId Team => exact recordPlayerTeam_spec hfits h
  | RecordTeamPractice Team Practice => exact recordTeamPractice_spec hfits h
  | RecordPlayerJoin ClientId Protocol7 => exact .inr (recordPlayerJoin_spec hfits h)
  | RecordTestExtra => exact .inr (writeExtra_spec (hfits _ List.mem_cons_self) h)
  | RecordAntibot pData => exact .inr (writeExtra_spec (hfits _ List.mem_cons_self) h)
  | RecordPlayerRejoin ClientId => exact .inr (hextra (hfits _ List.mem_cons_self) h)
  | RecordPlayerReady ClientId => exact .inr (hextra (hfits _ List.mem_cons_self) h)
  | RecordPlayerName ClientId pName => exact .inr (hextra (hfits _ List.mem_cons_self) h)
  | RecordPlayerSwap ClientId1 ClientId2 => exact .inr (hextra (hfits _ List.mem_cons_self) h)
  | RecordTeamSaveSuccess Team SaveId pTeamSave =>
      exact .inr (hextra (hfits _ List.mem_cons_self) h)
  | RecordTeamSaveFailure Team => exact .inr (hextra (hfits _ List.mem_cons_self) h)
  | RecordTeamLoadSuccess Team SaveId pTeamSave =>
      exact .inr (hextra (hfits _ List.mem_cons_self) h)
  | RecordTeamLoadFailure Team => exact .inr (hextra (hfits _ List.mem_cons_self) h)
  | RecordDDNetVersionOld ClientId DDNetVersion =>
      exact .inr (hextra (hfits _ List.mem_cons_self) h)
  | RecordDDNetVersion ClientId ConnectionId DDNetVersion pDDNetVersionStr =>
      exact .inr (hextra (hfits _ List.mem_cons_self) h)
  | RecordAuthInitial ClientId Level pAuthName => exact .inr (hextra (hfits _ List.mem_cons_self) h)
  | RecordAuthLogin ClientId Level pAuthName => exact .inr (hextra (hfits _ List.mem_cons_self) h)
  | RecordAuthLogout ClientId => exact .inr (hextra (hfits _ List.mem_cons_self) h)
  | RecordPlayerFinish ClientId TimeTicks => exact .inr (hextra (hfits _ List.mem_cons_self) h)
  | RecordTeamFinish TeamId TimeTicks => exact .inr (hextra (hfits _ List.mem_cons_self) h)

end Fex.Game.TeeHistorian
