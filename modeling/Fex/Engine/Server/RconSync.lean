import Fex.Engine.Server
import Fex.Engine.Server.Maplist
import Fex.Lib.Run
import Mathlib.Data.Multiset.AddSub

/-!
# The list of console commands

Model of `UpdateClientRconCommands`, of the part of the authentication that starts
the list and of `ConchainCommandAccessUpdate` with the callback it wraps.  The
messages to a client are kept beside the client.
-/

namespace Fex.Engine.Server

open Fex.Lib

/-- The messages of the list with the strings that are packed. -/
inductive RconMsg
  | RCON_CMD_GROUP_START (Num : Nat)
  | RCON_CMD_ADD (pName pHelp pParams : CString)
  | RCON_CMD_REM (pName : CString)
  | RCON_CMD_GROUP_END
  deriving DecidableEq

def MAX_RCONCMD_SEND : Nat := 16

/-- A slot of `m_aClients` and what was sent to it. -/
structure Slot where
  client : CClient
  sent : List RconMsg

namespace Slot

def send (p : Slot) (Msg : RconMsg) : Slot := { p with sent := p.sent ++ [Msg] }

def SendRconCmdAdd (p : Slot) (info : CCommand) : Slot :=
  p.send (.RCON_CMD_ADD info.m_pName info.m_pHelp info.m_pParams)

def SendRconCmdRem (p : Slot) (info : CCommand) : Slot := p.send (.RCON_CMD_REM info.m_pName)

def setRconCmdToSend (p : Slot) (pCmd : Option Nat) : Slot :=
  { p with client := { p.client with m_pRconCmdToSend := pCmd } }

/-- The group ends once there is no command to send. -/
def endGroup (p : Slot) : Slot :=
  if p.client.m_pRconCmdToSend = none then p.send .RCON_CMD_GROUP_END else p

end Slot

namespace CConsole

def NumRconCommands (c : CConsole) (ConsoleAccessLevel : Int) : Nat :=
  c.commands.countP fun pCmd => pCmd.Grants ConsoleAccessLevel CFGFLAG_SERVER

/-- The client requests the list when it is authenticated with `AuthLevel`. -/
def requestCommands (c : CConsole) (p : Slot) (AuthLevel : Authed) : Slot :=
  let p := { p with client := { p.client with m_Authed := AuthLevel } }
  let Level := p.client.ConsoleAccessLevel
  let p := p.setRconCmdToSend (c.FirstCommandInfo Level CFGFLAG_SERVER)
  (p.send (.RCON_CMD_GROUP_START (c.NumRconCommands Level))).endGroup

/-- The loop of `UpdateClientRconCommands`. -/
def sendCommands (c : CConsole) (ConsoleAccessLevel : Int) : Nat → Slot → Exec Slot
  | 0, p => .ok p
  | n + 1, p =>
      match p.client.m_pRconCmdToSend with
      | none => .ok p
      | some pCmd =>
          match c.commands[pCmd]? with
          | none => .error .outOfBounds
          | some info =>
              let p := p.SendRconCmdAdd info
              let p := p.setRconCmdToSend (c.NextCommandInfo pCmd ConsoleAccessLevel CFGFLAG_SERVER)
              sendCommands c ConsoleAccessLevel n p.endGroup

def UpdateClientRconCommands (c : CConsole) (p : Slot) : Exec Slot :=
  if p.client.m_State ≠ .INGAME ∨ p.client.m_Authed = .NO ∨ p.client.m_pRconCmdToSend = none then
    .ok p
  else c.sendCommands p.client.ConsoleAccessLevel MAX_RCONCMD_SEND p

/-- The callback of `access_level` with two arguments. -/
def ConCommandAccess (c : CConsole) (pName : CString) (AccessLevel : Int) : CConsole :=
  match c.FindCommand pName CFGFLAG_SERVER with
  | none => c
  | some pCommand => { commands := c.commands.modify pCommand fun info => info.SetAccessLevel AccessLevel }

/-- Whether a change of the access level is not reported to a client. -/
def skips (c : CConsole) (pName : CString) (OldAccessLevel NewAccessLevel : Int) (p : Slot) : Bool :=
  let ClientAccessLevel := p.client.ConsoleAccessLevel
  (NewAccessLevel > ClientAccessLevel && ClientAccessLevel < OldAccessLevel) ||
  (NewAccessLevel < ClientAccessLevel && ClientAccessLevel > OldAccessLevel) ||
  match p.client.m_pRconCmdToSend with
  | none => false
  | some pCmd =>
      match c.commands[pCmd]? with
      | none => false
      | some info => str_comp pName info.m_pName ≥ 0

/-- The body of the loop over the clients. -/
def reportAccess (c : CConsole) (pName : CString) (OldAccessLevel : Int) (info : CCommand) (p : Slot) :
    Slot :=
  if p.client.m_State = .EMPTY then p
  else if c.skips pName OldAccessLevel info.m_AccessLevel p then p
  else if OldAccessLevel < info.m_AccessLevel then p.SendRconCmdAdd info
  else p.SendRconCmdRem info

end CConsole

/-- The console and the clients of the server. -/
structure Rcon where
  Console : CConsole
  m_aClients : List Slot

namespace Rcon

/-- `access_level` with two arguments. -/
def ConchainCommandAccessUpdate (r : Rcon) (pName : CString) (AccessLevel : Int) : Rcon :=
  let pInfo := r.Console.GetCommandInfo pName CFGFLAG_SERVER false
  let Old := pInfo.bind fun i => r.Console.commands[i]?
  let Console := r.Console.ConCommandAccess pName AccessLevel
  let New := pInfo.bind fun i => Console.commands[i]?
  match Old, New with
  | some old, some info =>
      if old.m_AccessLevel ≠ info.m_AccessLevel then
        { Console := Console
          m_aClients := r.m_aClients.map (Console.reportAccess pName old.m_AccessLevel info) }
      else { r with Console := Console }
  | _, _ => { r with Console := Console }

inductive Event
  | update (ClientId : Nat)
  | access_level (pName : CString) (AccessLevel : Int)

def step (r : Rcon) : Event → Exec Rcon
  | .update ClientId =>
      match r.m_aClients[ClientId]? with
      | none => .error .outOfBounds
      | some p => do
          let p ← r.Console.UpdateClientRconCommands p
          return { r with m_aClients := r.m_aClients.set ClientId p }
  | .access_level pName AccessLevel => .ok (r.ConchainCommandAccessUpdate pName AccessLevel)

end Rcon

end Fex.Engine.Server

/-!
## The command list of a client

While the list is sent a client holds the commands before the one that is sent
next, and a change of an access level is reported where it is not skipped.
-/

namespace Fex.Engine.Server

open Fex.Lib

/-! ## Comparing names -/

theorem str_comp_swap (a b : CString) : str_comp b a = -str_comp a b := by
  induction a generalizing b with
  | nil =>
      cases b with
      | nil => rfl
      | cons b bs => exact (Int.neg_neg _).symm
  | cons a as ih =>
      cases b with
      | nil => rfl
      | cons b bs =>
          by_cases heq : a = b
          · rw [str_comp, str_comp, if_pos heq, if_pos heq.symm]
            exact ih bs
          · rw [str_comp, str_comp, if_neg heq, if_neg fun h => heq h.symm]
            omega

/-- Names that compare equal also do so without regard to case. -/
theorem str_comp_nocase_eq_zero {a b : CString} (h : str_comp a b = 0) :
    str_comp_nocase a b = 0 := by
  unfold str_comp_nocase
  have hzero : ∀ c : UInt8, (c.toNat : Int) = 0 → ((toLower c).toNat : Int) = 0 := by
    intro c hc
    have hnul : c = 0 := UInt8.toNat_inj.mp (by rw [Int.ofNat_eq_zero.mp hc]; rfl)
    rw [hnul]
    rfl
  induction a generalizing b with
  | nil =>
      cases b with
      | nil => rfl
      | cons b bs =>
          show -((toLower b).toNat : Int) = 0
          rw [hzero b (by have h' : -(b.toNat : Int) = 0 := h; omega)]
          rfl
  | cons a as ih =>
      cases b with
      | nil => exact hzero a h
      | cons b bs =>
          by_cases heq : a = b
          · rw [str_comp, if_pos heq] at h
            rw [List.map_cons, List.map_cons, str_comp, if_pos (by rw [heq])]
            exact ih h
          · rw [str_comp, if_neg heq] at h
            exact absurd (UInt8.toNat_inj.mp (by omega)) heq

/-! ## The console -/

/-- The commands as they are registered: sorted, and those of the server with distinct names. -/
structure CConsole.Registered (c : CConsole) : Prop where
  sorted : c.commands.Pairwise fun a b => str_comp a.m_pName b.m_pName ≤ 0
  distinct : c.commands.Pairwise fun a b =>
    a.m_Flags &&& CFGFLAG_SERVER ≠ 0 → b.m_Flags &&& CFGFLAG_SERVER ≠ 0 →
      str_comp_nocase a.m_pName b.m_pName ≠ 0
  permanent : ∀ a ∈ c.commands, a.m_Temp = false

/-- The names of the server commands that an access level may use. -/
def granted (AccessLevel : Int) (commands : List CCommand) : Multiset CString :=
  (commands.filter fun c => c.Grants AccessLevel CFGFLAG_SERVER).map CCommand.m_pName

theorem granted_append (AccessLevel : Int) (l l' : List CCommand) :
    granted AccessLevel (l ++ l') = granted AccessLevel l + granted AccessLevel l' := by
  unfold granted
  rw [List.filter_append, List.map_append, ← Multiset.coe_add]

theorem granted_singleton (AccessLevel : Int) (c : CCommand) :
    granted AccessLevel [c] =
      if c.Grants AccessLevel CFGFLAG_SERVER then {c.m_pName} else 0 := by
  unfold granted
  rw [List.filter_cons]
  split
  · rfl
  · rfl

theorem granted_eq_zero {AccessLevel : Int} {l : List CCommand}
    (h : ∀ c ∈ l, c.Grants AccessLevel CFGFLAG_SERVER = false) : granted AccessLevel l = 0 := by
  unfold granted
  rw [List.filter_eq_nil_iff.mpr fun c hc => by simp [h c hc]]
  rfl

theorem FirstCommandInfo_spec (c : CConsole) (AccessLevel : Int) :
    match c.FirstCommandInfo AccessLevel CFGFLAG_SERVER with
    | none => granted AccessLevel c.commands = 0
    | some i => ∃ info, c.commands[i]? = some info ∧
        info.Grants AccessLevel CFGFLAG_SERVER = true ∧
        granted AccessLevel (c.commands.take i) = 0 := by
  cases hfirst : c.FirstCommandInfo AccessLevel CFGFLAG_SERVER with
  | none => exact granted_eq_zero (List.findIdx?_eq_none_iff.mp hfirst)
  | some i =>
      obtain ⟨hi, hgrants, hbefore⟩ := List.findIdx?_eq_some_iff_getElem.mp hfirst
      refine ⟨c.commands[i], List.getElem?_eq_getElem hi, hgrants, granted_eq_zero fun x hx => ?_⟩
      obtain ⟨j, hj, rfl⟩ := List.mem_take_iff_getElem.mp hx
      have hlt : j < i := by omega
      simpa using hbefore j hlt

/-- Between a command and the next one nothing is granted. -/
theorem NextCommandInfo_spec (c : CConsole) (AccessLevel : Int) {i : Nat} {info : CCommand}
    (hi : c.commands[i]? = some info) (hinfo : info.Grants AccessLevel CFGFLAG_SERVER = true) :
    match c.NextCommandInfo i AccessLevel CFGFLAG_SERVER with
    | none => granted AccessLevel c.commands =
        info.m_pName ::ₘ granted AccessLevel (c.commands.take i)
    | some j => ∃ next, c.commands[j]? = some next ∧
        next.Grants AccessLevel CFGFLAG_SERVER = true ∧
        granted AccessLevel (c.commands.take j) =
          info.m_pName ::ₘ granted AccessLevel (c.commands.take i) := by
  have hrest := FirstCommandInfo_spec { commands := c.commands.drop (i + 1) } AccessLevel
  unfold CConsole.FirstCommandInfo at hrest
  unfold CConsole.NextCommandInfo
  have htake : granted AccessLevel (c.commands.take (i + 1)) =
      info.m_pName ::ₘ granted AccessLevel (c.commands.take i) := by
    rw [List.take_add_one, hi]
    show granted AccessLevel (c.commands.take i ++ [info]) = _
    rw [granted_append, granted_singleton, if_pos hinfo, Multiset.add_comm,
      Multiset.singleton_add]
  cases hfind : (c.commands.drop (i + 1)).findIdx? fun pCommand =>
      pCommand.Grants AccessLevel CFGFLAG_SERVER with
  | none =>
      simp only [hfind] at hrest
      show granted AccessLevel c.commands = _
      rw [← htake]
      calc granted AccessLevel c.commands
          = granted AccessLevel (c.commands.take (i + 1) ++ c.commands.drop (i + 1)) := by
            rw [List.take_append_drop]
        _ = granted AccessLevel (c.commands.take (i + 1)) := by
            rw [granted_append, hrest, Multiset.add_zero]
  | some j =>
      simp only [hfind] at hrest
      obtain ⟨next, hnext, hgrants, hzero⟩ := hrest
      rw [List.getElem?_drop] at hnext
      refine ⟨next, hnext, hgrants, ?_⟩
      rw [← htake, List.take_add, granted_append, hzero, Multiset.add_zero]

/-! ## What a client holds -/

/-- A client adds and removes commands as it is told. -/
def RconMsg.apply (held : Multiset CString) : RconMsg → Multiset CString
  | .RCON_CMD_ADD pName _ _ => pName ::ₘ held
  | .RCON_CMD_REM pName => held.erase pName
  | .RCON_CMD_GROUP_START _ => held
  | .RCON_CMD_GROUP_END => held

def heldCommands (sent : List RconMsg) : Multiset CString := sent.foldl RconMsg.apply 0

theorem heldCommands_concat (sent : List RconMsg) (Msg : RconMsg) :
    heldCommands (sent ++ [Msg]) = Msg.apply (heldCommands sent) := by
  unfold heldCommands
  rw [List.foldl_append]
  rfl

/-- The number of commands that were passed. -/
def Slot.passed (p : Slot) (c : CConsole) : Nat :=
  p.client.m_pRconCmdToSend.getD c.commands.length

/-- The client holds the commands that were passed. -/
structure Synced (c : CConsole) (p : Slot) : Prop where
  held : heldCommands p.sent = granted p.client.ConsoleAccessLevel (c.commands.take (p.passed c))
  next : ∀ i, p.client.m_pRconCmdToSend = some i →
    ∃ info, c.commands[i]? = some info ∧
      info.Grants p.client.ConsoleAccessLevel CFGFLAG_SERVER = true
  ended : .RCON_CMD_GROUP_END ∈ p.sent → p.client.m_pRconCmdToSend = none

/-- Only the next command to send differs. -/
def SameClient (p p' : Slot) : Prop :=
  ∃ pCmd, p'.client = { p.client with m_pRconCmdToSend := pCmd }

theorem Slot.endGroup_client (p : Slot) : p.endGroup.client = p.client := by
  unfold Slot.endGroup
  split
  · rfl
  · rfl

theorem heldCommands_endGroup (p : Slot) : heldCommands p.endGroup.sent = heldCommands p.sent := by
  unfold Slot.endGroup
  split
  · show heldCommands (p.sent ++ [.RCON_CMD_GROUP_END]) = _
    rw [heldCommands_concat]
    rfl
  · rfl

/-- The group ends exactly where nothing is left to send. -/
theorem Synced.endGroup {c : CConsole} {p : Slot}
    (hheld : heldCommands p.sent = granted p.client.ConsoleAccessLevel (c.commands.take (p.passed c)))
    (hnext : ∀ i, p.client.m_pRconCmdToSend = some i →
      ∃ info, c.commands[i]? = some info ∧
        info.Grants p.client.ConsoleAccessLevel CFGFLAG_SERVER = true)
    (hopen : .RCON_CMD_GROUP_END ∉ p.sent) : Synced c p.endGroup where
  held := by
    rw [heldCommands_endGroup]
    unfold Slot.passed
    rw [Slot.endGroup_client]
    exact hheld
  next := by
    rw [Slot.endGroup_client]
    exact hnext
  ended := by
    rw [Slot.endGroup_client]
    unfold Slot.endGroup
    split
    · intro
      assumption
    · intro h
      exact absurd h hopen

theorem Synced.sendCommands {c : CConsole} (n : Nat) {p : Slot} (h : Synced c p) :
    ∃ p', c.sendCommands p.client.ConsoleAccessLevel n p = .ok p' ∧ Synced c p' ∧
      SameClient p p' := by
  induction n generalizing p with
  | zero => exact ⟨p, rfl, h, p.client.m_pRconCmdToSend, rfl⟩
  | succ n ih =>
      unfold CConsole.sendCommands
      cases hcmd : p.client.m_pRconCmdToSend with
      | none => exact ⟨p, rfl, h, p.client.m_pRconCmdToSend, rfl⟩
      | some i =>
          obtain ⟨info, hinfo, hgrants⟩ := h.next i hcmd
          simp only [hinfo]
          set next := c.NextCommandInfo i p.client.ConsoleAccessLevel CFGFLAG_SERVER with hn
          set p₁ := (p.SendRconCmdAdd info).setRconCmdToSend next with hp₁
          have hsent : p₁.sent = p.sent ++ [.RCON_CMD_ADD info.m_pName info.m_pHelp info.m_pParams] :=
            rfl
          have hpassed : granted p.client.ConsoleAccessLevel (c.commands.take (p₁.passed c)) =
                info.m_pName ::ₘ granted p.client.ConsoleAccessLevel (c.commands.take i) ∧
              ∀ j, next = some j → ∃ info, c.commands[j]? = some info ∧
                info.Grants p.client.ConsoleAccessLevel CFGFLAG_SERVER = true := by
            have hspec := NextCommandInfo_spec c p.client.ConsoleAccessLevel hinfo hgrants
            rw [← hn] at hspec
            show granted _ (c.commands.take (next.getD c.commands.length)) = _ ∧ _
            cases hnext : next with
            | none =>
                rw [hnext] at hspec
                refine ⟨?_, nofun⟩
                show granted _ (c.commands.take c.commands.length) = _
                rw [List.take_length]
                exact hspec
            | some j =>
                rw [hnext] at hspec
                obtain ⟨info', hinfo', hgrants', htake⟩ := hspec
                refine ⟨htake, fun k hk => ?_⟩
                cases hk
                exact ⟨info', hinfo', hgrants'⟩
          have hopen : .RCON_CMD_GROUP_END ∉ p₁.sent := by
            rw [hsent, List.mem_append]
            rintro (hmem | hmem)
            · have hnone := h.ended hmem
              rw [hcmd] at hnone
              cases hnone
            · cases List.mem_singleton.mp hmem
          have hheld : heldCommands p₁.sent =
              granted p.client.ConsoleAccessLevel (c.commands.take (p₁.passed c)) := by
            rw [hsent, heldCommands_concat, hpassed.1, h.held]
            unfold Slot.passed
            rw [hcmd]
            rfl
          have hsynced := Synced.endGroup (c := c) (p := p₁) hheld hpassed.2 hopen
          have hlevel : p₁.endGroup.client.ConsoleAccessLevel = p.client.ConsoleAccessLevel := by
            rw [Slot.endGroup_client]
            rfl
          obtain ⟨p', hrun, hp', pCmd, hclient⟩ := ih hsynced
          rw [hlevel] at hrun
          refine ⟨p', hrun, hp', pCmd, ?_⟩
          rw [hclient, Slot.endGroup_client]
          rfl

theorem Synced.update {c : CConsole} {p : Slot} (h : Synced c p) :
    ∃ p', c.UpdateClientRconCommands p = .ok p' ∧ Synced c p' ∧ SameClient p p' := by
  unfold CConsole.UpdateClientRconCommands
  split
  · exact ⟨p, rfl, h, p.client.m_pRconCmdToSend, rfl⟩
  · exact h.sendCommands MAX_RCONCMD_SEND

/-- The list as it is requested. -/
theorem synced_requestCommands (c : CConsole) (p : Slot) (AuthLevel : Authed) (hsent : p.sent = []) :
    Synced c (c.requestCommands p AuthLevel) := by
  unfold CConsole.requestCommands
  set p₁ : Slot := { p with client := { p.client with m_Authed := AuthLevel } } with hp₁
  have hspec := FirstCommandInfo_spec c p₁.client.ConsoleAccessLevel
  have hmsgs : ((p₁.setRconCmdToSend (c.FirstCommandInfo p₁.client.ConsoleAccessLevel
      CFGFLAG_SERVER)).send (.RCON_CMD_GROUP_START
        (c.NumRconCommands p₁.client.ConsoleAccessLevel))).sent =
      [.RCON_CMD_GROUP_START (c.NumRconCommands p₁.client.ConsoleAccessLevel)] := by
    show p.sent ++ _ = _
    rw [hsent]
    rfl
  apply Synced.endGroup
  · rw [hmsgs]
    show 0 = granted p₁.client.ConsoleAccessLevel (c.commands.take
      ((c.FirstCommandInfo p₁.client.ConsoleAccessLevel CFGFLAG_SERVER).getD c.commands.length))
    cases hfirst : c.FirstCommandInfo p₁.client.ConsoleAccessLevel CFGFLAG_SERVER with
    | none =>
        rw [hfirst] at hspec
        show 0 = granted _ (c.commands.take c.commands.length)
        rw [List.take_length]
        exact hspec.symm
    | some i =>
        rw [hfirst] at hspec
        obtain ⟨-, -, -, hzero⟩ := hspec
        exact hzero.symm
  · intro i hi
    have hfirst : c.FirstCommandInfo p₁.client.ConsoleAccessLevel CFGFLAG_SERVER = some i := hi
    rw [hfirst] at hspec
    obtain ⟨info, hinfo, hgrants, -⟩ := hspec
    exact ⟨info, hinfo, hgrants⟩
  · rw [hmsgs]
    intro hmem
    cases List.mem_singleton.mp hmem

/-! ## A change of an access level -/

theorem str_comp_self (a : CString) : str_comp a a = 0 := by
  have hswap := str_comp_swap a a
  omega

section

variable {c : CConsole} {i j : Nat} {a b : CCommand}

/-- The order of the server commands is that of their names. -/
theorem CConsole.Registered.lt_iff (hc : c.Registered) (hi : c.commands[i]? = some a)
    (hj : c.commands[j]? = some b) (ha : a.m_Flags &&& CFGFLAG_SERVER ≠ 0)
    (hb : b.m_Flags &&& CFGFLAG_SERVER ≠ 0) : i < j ↔ str_comp a.m_pName b.m_pName < 0 := by
  have hpair : ∀ {k l : Nat} {x y : CCommand}, c.commands[k]? = some x → c.commands[l]? = some y →
      x.m_Flags &&& CFGFLAG_SERVER ≠ 0 → y.m_Flags &&& CFGFLAG_SERVER ≠ 0 → k < l →
      str_comp x.m_pName y.m_pName < 0 := by
    intro k l x y hk hl hx hy hlt
    obtain ⟨hk', rfl⟩ := List.getElem?_eq_some_iff.mp hk
    obtain ⟨hl', rfl⟩ := List.getElem?_eq_some_iff.mp hl
    have hsorted := List.pairwise_iff_getElem.mp hc.sorted k l hk' hl' hlt
    have hdistinct := List.pairwise_iff_getElem.mp hc.distinct k l hk' hl' hlt hx hy
    rcases Int.lt_or_eq_of_le hsorted with hneg | hzero
    · exact hneg
    · exact absurd (str_comp_nocase_eq_zero hzero) hdistinct
  constructor
  · exact hpair hi hj ha hb
  · intro hneg
    by_contra hle
    rcases Nat.eq_or_lt_of_le (Nat.le_of_not_lt hle) with heq | hlt
    · rw [heq, hi] at hj
      rw [Option.some.inj hj, str_comp_self] at hneg
      exact absurd hneg (Int.lt_irrefl 0)
    · have hswap := hpair hj hi hb ha hlt
      rw [str_comp_swap] at hswap
      omega

theorem grants_iff (ha : a.m_Flags &&& CFGFLAG_SERVER ≠ 0) (AccessLevel : Int) :
    a.Grants AccessLevel CFGFLAG_SERVER = true ↔ AccessLevel ≤ a.m_AccessLevel := by
  unfold CCommand.Grants
  simp [ha]

theorem server_of_grants {AccessLevel : Int} (h : a.Grants AccessLevel CFGFLAG_SERVER = true) :
    a.m_Flags &&& CFGFLAG_SERVER ≠ 0 := by
  unfold CCommand.Grants at h
  simp at h
  simpa using h.1

/-- What changes where one command does. -/
theorem granted_modify (AccessLevel : Int) (f : CCommand → CCommand) {l : List CCommand} {k : Nat}
    (hi : l[i]? = some a) (hk : i < k) :
    ∃ rest, granted AccessLevel (l.take k) = rest + granted AccessLevel [a] ∧
      granted AccessLevel ((l.modify i f).take k) = rest + granted AccessLevel [f a] := by
  obtain ⟨hlt, rfl⟩ := List.getElem?_eq_some_iff.mp hi
  have hlength : (l.take i).length = i := by
    rw [List.length_take]
    omega
  have hsplit : l = l.take i ++ l[i] :: l.drop (i + 1) := by
    rw [List.getElem_cons_drop, List.take_append_drop]
  have htake : ∀ x : CCommand, (l.take i ++ x :: l.drop (i + 1)).take k =
      l.take i ++ x :: (l.drop (i + 1)).take (k - i - 1) := by
    intro x
    rw [List.take_append, List.take_of_length_le (by omega), hlength,
      show k - i = k - i - 1 + 1 by omega, List.take_succ_cons]
    rfl
  have hparts : ∀ x : CCommand,
      granted AccessLevel (l.take i ++ x :: (l.drop (i + 1)).take (k - i - 1)) =
        granted AccessLevel (l.take i) + granted AccessLevel ((l.drop (i + 1)).take (k - i - 1)) +
          granted AccessLevel [x] := by
    intro x
    rw [← List.singleton_append, granted_append, granted_append, Multiset.add_assoc,
      Multiset.add_comm (granted AccessLevel [x])]
  refine ⟨granted AccessLevel (l.take i) +
    granted AccessLevel ((l.drop (i + 1)).take (k - i - 1)), ?_, ?_⟩
  · rw [← hparts, ← htake, ← hsplit]
  · rw [← hparts, ← htake, List.modify_eq_take_cons_drop hlt]

theorem take_modify (f : CCommand → CCommand) (l : List CCommand) {k : Nat} (hk : k ≤ i) :
    (l.modify i f).take k = l.take k := by
  apply List.ext_getElem?
  intro n
  by_cases hn : n < k
  · rw [List.getElem?_take_of_lt hn, List.getElem?_take_of_lt hn, List.getElem?_modify]
    simp [show i ≠ n by omega]
  · rw [List.getElem?_take_eq_none (Nat.le_of_not_lt hn),
      List.getElem?_take_eq_none (Nat.le_of_not_lt hn)]

end

/-- The command is before the one that is sent next. -/
def Slot.Passed (p : Slot) (c : CConsole) (pName : CString) : Prop :=
  ∀ q info, p.client.m_pRconCmdToSend = some q → c.commands[q]? = some info →
    str_comp pName info.m_pName < 0

/-- The change of a command to `NewAccessLevel` is one that a client is told correctly: the text of
the request sorts as the name of the command, the command that is sent next stays granted, and
neither level is that of the client where the other one is higher. -/
structure Reported (c : CConsole) (pName : CString) (old : CCommand) (NewAccessLevel : Int)
    (p : Slot) : Prop where
  text : p.Passed c pName ↔ p.Passed c old.m_pName
  next : ∀ q info, p.client.m_pRconCmdToSend = some q → c.commands[q]? = some info →
    str_comp old.m_pName info.m_pName = 0 → p.client.ConsoleAccessLevel ≤ NewAccessLevel
  raised : p.Passed c old.m_pName →
    ¬ (old.m_AccessLevel = p.client.ConsoleAccessLevel ∧ old.m_AccessLevel < NewAccessLevel)
  lowered : p.Passed c old.m_pName →
    ¬ (NewAccessLevel = p.client.ConsoleAccessLevel ∧ NewAccessLevel < old.m_AccessLevel)

/-- The access level after a change. -/
def clampLevel (AccessLevel : Int) : Int :=
  max ACCESS_LEVEL_ADMIN (min AccessLevel ACCESS_LEVEL_USER)

section

variable {c : CConsole} {i : Nat} {old : CCommand} {p : Slot} {pName : CString} {AccessLevel : Int}

/-- The console after the access level of one command changed. -/
def CConsole.changed (c : CConsole) (i : Nat) (AccessLevel : Int) : CConsole :=
  { commands := c.commands.modify i fun info => info.SetAccessLevel AccessLevel }

theorem getElem?_changed (c : CConsole) (i : Nat) (AccessLevel : Int) (q : Nat) :
    (c.changed i AccessLevel).commands[q]? =
      c.commands[q]?.map fun info => if i = q then info.SetAccessLevel AccessLevel else info := by
  unfold CConsole.changed
  rw [List.getElem?_modify]
  rfl

theorem length_changed (c : CConsole) (i : Nat) (AccessLevel : Int) :
    (c.changed i AccessLevel).commands.length = c.commands.length := by
  unfold CConsole.changed
  rw [List.length_modify]

/-- The names stay. -/
theorem passed_changed (p : Slot) (c : CConsole) (i : Nat) (AccessLevel : Int) (pName : CString) :
    p.Passed (c.changed i AccessLevel) pName ↔ p.Passed c pName := by
  unfold Slot.Passed
  constructor
  · intro h q info hq hinfo
    have hname := h q (if i = q then info.SetAccessLevel AccessLevel else info) hq (by
      rw [getElem?_changed, hinfo]
      rfl)
    split at hname
    · exact hname
    · exact hname
  · intro h q info hq hinfo
    rw [getElem?_changed] at hinfo
    obtain ⟨info', hinfo', rfl⟩ := Option.map_eq_some_iff.mp hinfo
    have hname := h q info' hq hinfo'
    split
    · exact hname
    · exact hname

/-- When a change is not reported. -/
theorem skips_iff (c : CConsole) (pName : CString) (OldAccessLevel NewAccessLevel : Int) (p : Slot)
    (hnext : ∀ q, p.client.m_pRconCmdToSend = some q → ∃ info, c.commands[q]? = some info) :
    c.skips pName OldAccessLevel NewAccessLevel p = true ↔
      (p.client.ConsoleAccessLevel < NewAccessLevel ∧ p.client.ConsoleAccessLevel < OldAccessLevel) ∨
      (NewAccessLevel < p.client.ConsoleAccessLevel ∧ OldAccessLevel < p.client.ConsoleAccessLevel) ∨
      ¬ p.Passed c pName := by
  unfold CConsole.skips Slot.Passed
  cases hcmd : p.client.m_pRconCmdToSend with
  | none => simp
  | some q =>
      obtain ⟨info, hinfo⟩ := hnext q hcmd
      simp [hinfo, or_assoc]

/-- The command that is sent next stays granted. -/
theorem Synced.next_changed (h : Synced c p) (hold : c.commands[i]? = some old)
    (hserver : old.m_Flags &&& CFGFLAG_SERVER ≠ 0)
    (hreported : Reported c pName old (clampLevel AccessLevel) p) :
    ∀ q, p.client.m_pRconCmdToSend = some q →
      ∃ info, (c.changed i AccessLevel).commands[q]? = some info ∧
        info.Grants p.client.ConsoleAccessLevel CFGFLAG_SERVER = true := by
  intro q hq
  obtain ⟨info, hinfo, hgrants⟩ := h.next q hq
  by_cases heq : i = q
  · refine ⟨old.SetAccessLevel AccessLevel, ?_, ?_⟩
    · rw [getElem?_changed, ← heq, hold]
      simp
    · rw [← heq, hold] at hinfo
      have hle := hreported.next q old hq (by rw [← heq, hold]) (str_comp_self _)
      have hnew : (old.SetAccessLevel AccessLevel).m_Flags &&& CFGFLAG_SERVER ≠ 0 := hserver
      exact (grants_iff hnew _).mpr hle
  · refine ⟨info, ?_, hgrants⟩
    rw [getElem?_changed, hinfo]
    simp [heq]

/-- A command was passed exactly where its name says so. -/
theorem Synced.passed_iff (hc : c.Registered) (h : Synced c p) (hold : c.commands[i]? = some old)
    (hserver : old.m_Flags &&& CFGFLAG_SERVER ≠ 0) :
    p.Passed c old.m_pName ↔ i < p.passed c := by
  unfold Slot.Passed Slot.passed
  cases hcmd : p.client.m_pRconCmdToSend with
  | none =>
      obtain ⟨hi, -⟩ := List.getElem?_eq_some_iff.mp hold
      exact ⟨fun _ => hi, fun _ q info hq => by cases hq⟩
  | some q =>
      obtain ⟨info, hinfo, hgrants⟩ := h.next q hcmd
      have horder := hc.lt_iff hold hinfo hserver (server_of_grants hgrants)
      show _ ↔ i < q
      rw [horder]
      constructor
      · intro hall
        exact hall q info rfl hinfo
      · intro hlt q' info' hq' hinfo'
        cases hq'
        rw [hinfo] at hinfo'
        rw [← Option.some.inj hinfo']
        exact hlt

theorem granted_of_server {a : CCommand} (ha : a.m_Flags &&& CFGFLAG_SERVER ≠ 0) (Level : Int) :
    granted Level [a] = if Level ≤ a.m_AccessLevel then {a.m_pName} else 0 := by
  rw [granted_singleton]
  simp only [grants_iff ha]

theorem Synced.report (hc : c.Registered) (hold : c.commands[i]? = some old)
    (hserver : old.m_Flags &&& CFGFLAG_SERVER ≠ 0) (h : Synced c p)
    (hlevel : old.m_AccessLevel ≠ clampLevel AccessLevel)
    (hreported : Reported c pName old (clampLevel AccessLevel) p)
    (hstate : p.client.m_State ≠ .EMPTY) :
    Synced (c.changed i AccessLevel) ((c.changed i AccessLevel).reportAccess pName old.m_AccessLevel
      (old.SetAccessLevel AccessLevel) p) := by
  have hnext := h.next_changed hold hserver hreported
  have hpassed := h.passed_iff hc hold hserver
  have hlength : p.passed (c.changed i AccessLevel) = p.passed c := by
    unfold Slot.passed
    rw [length_changed]
  have hskips := skips_iff (c.changed i AccessLevel) pName old.m_AccessLevel
    (clampLevel AccessLevel) p fun q hq => by
      obtain ⟨info, hinfo, -⟩ := hnext q hq
      exact ⟨info, hinfo⟩
  rw [passed_changed, hreported.text] at hskips
  have hold₁ := granted_of_server hserver p.client.ConsoleAccessLevel
  have hnew₁ : granted p.client.ConsoleAccessLevel [old.SetAccessLevel AccessLevel] =
      if p.client.ConsoleAccessLevel ≤ clampLevel AccessLevel then {old.m_pName} else 0 :=
    granted_of_server (a := old.SetAccessLevel AccessLevel) hserver _
  have hcommands : (c.changed i AccessLevel).commands =
      c.commands.modify i fun info => info.SetAccessLevel AccessLevel := rfl
  unfold CConsole.reportAccess
  rw [if_neg hstate]
  by_cases hskip : (c.changed i AccessLevel).skips pName old.m_AccessLevel
      (clampLevel AccessLevel) p = true
  · rw [show (old.SetAccessLevel AccessLevel).m_AccessLevel = clampLevel AccessLevel from rfl,
      if_pos hskip]
    refine ⟨?_, hnext, h.ended⟩
    rw [h.held, hlength, hcommands]
    by_cases hi : i < p.passed c
    · obtain ⟨rest, hbefore, hafter⟩ := granted_modify p.client.ConsoleAccessLevel
        (fun info => info.SetAccessLevel AccessLevel) hold hi
      rw [hbefore, hafter, hold₁, hnew₁]
      rcases hskips.mp hskip with ⟨hn, ho⟩ | ⟨hn, ho⟩ | hnot
      · rw [if_pos (Int.le_of_lt ho), if_pos (Int.le_of_lt hn)]
      · rw [if_neg (Int.not_le.mpr ho), if_neg (Int.not_le.mpr hn)]
      · exact absurd (hpassed.mpr hi) hnot
    · rw [take_modify _ _ (Nat.le_of_not_lt hi)]
  · rw [show (old.SetAccessLevel AccessLevel).m_AccessLevel = clampLevel AccessLevel from rfl,
      if_neg hskip]
    rw [hskips] at hskip
    have hpass : p.Passed c old.m_pName := by
      by_contra hnot
      exact hskip (.inr (.inr hnot))
    obtain ⟨rest, hbefore, hafter⟩ := granted_modify p.client.ConsoleAccessLevel
      (fun info => info.SetAccessLevel AccessLevel) hold (hpassed.mp hpass)
    have hraised := hreported.raised hpass
    have hlowered := hreported.lowered hpass
    by_cases hadd : old.m_AccessLevel < clampLevel AccessLevel
    · have hlow : old.m_AccessLevel < p.client.ConsoleAccessLevel := by
        by_contra hge
        exact hskip (.inl ⟨by omega, by omega⟩)
      have hhigh : p.client.ConsoleAccessLevel ≤ clampLevel AccessLevel := by
        by_contra hlt
        exact hskip (.inr (.inl ⟨by omega, hlow⟩))
      rw [if_pos hadd]
      refine ⟨?_, hnext, fun hmem => ?_⟩
      · show heldCommands (p.sent ++ [.RCON_CMD_ADD old.m_pName old.m_pHelp old.m_pParams]) =
          granted p.client.ConsoleAccessLevel ((c.changed i AccessLevel).commands.take
            (p.passed (c.changed i AccessLevel)))
        rw [heldCommands_concat, h.held, hlength, hcommands, hbefore, hafter, hold₁, hnew₁,
          if_neg (Int.not_le.mpr hlow), if_pos hhigh, Multiset.add_zero, Multiset.add_comm,
          Multiset.singleton_add]
        rfl
      · rcases List.mem_append.mp hmem with hmem | hmem
        · exact h.ended hmem
        · cases List.mem_singleton.mp hmem
    · have hlow : clampLevel AccessLevel < p.client.ConsoleAccessLevel := by
        by_contra hge
        exact hskip (.inl ⟨by omega, by omega⟩)
      have hhigh : p.client.ConsoleAccessLevel ≤ old.m_AccessLevel := by
        by_contra hlt
        exact hskip (.inr (.inl ⟨hlow, by omega⟩))
      rw [if_neg hadd]
      refine ⟨?_, hnext, fun hmem => ?_⟩
      · show heldCommands (p.sent ++ [.RCON_CMD_REM old.m_pName]) =
          granted p.client.ConsoleAccessLevel ((c.changed i AccessLevel).commands.take
            (p.passed (c.changed i AccessLevel)))
        rw [heldCommands_concat, h.held, hlength, hcommands, hbefore, hafter, hold₁, hnew₁,
          if_pos hhigh, if_neg (Int.not_le.mpr hlow), Multiset.add_zero, Multiset.add_comm,
          Multiset.singleton_add]
        exact Multiset.erase_cons_head _ _
      · rcases List.mem_append.mp hmem with hmem | hmem
        · exact h.ended hmem
        · cases List.mem_singleton.mp hmem

end

/-! ## Runs -/

theorem map_changed {α : Type} (c : CConsole) (i : Nat) (AccessLevel : Int) (f : CCommand → α)
    (hf : ∀ info : CCommand, f (info.SetAccessLevel AccessLevel) = f info) :
    (c.changed i AccessLevel).commands.map f = c.commands.map f := by
  apply List.ext_getElem?
  intro q
  rw [List.getElem?_map, List.getElem?_map, getElem?_changed, Option.map_map]
  congr 1
  funext info
  show f (if i = q then _ else _) = f info
  split
  · exact hf info
  · rfl

theorem CConsole.Registered.changed {c : CConsole} (h : c.Registered) (i : Nat) (AccessLevel : Int) :
    (c.changed i AccessLevel).Registered where
  sorted := by
    have hnames := map_changed c i AccessLevel CCommand.m_pName fun _ => rfl
    have hsorted : (c.commands.map CCommand.m_pName).Pairwise fun a b => str_comp a b ≤ 0 :=
      List.pairwise_map.mpr h.sorted
    rw [← hnames] at hsorted
    exact List.pairwise_map.mp hsorted
  distinct := by
    have hkeys := map_changed c i AccessLevel (fun info => (info.m_Flags, info.m_pName)) fun _ => rfl
    have hdistinct : (c.commands.map fun info => (info.m_Flags, info.m_pName)).Pairwise fun a b =>
        a.1 &&& CFGFLAG_SERVER ≠ 0 → b.1 &&& CFGFLAG_SERVER ≠ 0 → str_comp_nocase a.2 b.2 ≠ 0 :=
      List.pairwise_map.mpr h.distinct
    rw [← hkeys] at hdistinct
    exact List.pairwise_map.mp hdistinct
  permanent := by
    have htemp := map_changed c i AccessLevel CCommand.m_Temp fun _ => rfl
    intro a ha
    have hmem : a.m_Temp ∈ (c.changed i AccessLevel).commands.map CCommand.m_Temp :=
      List.mem_map_of_mem ha
    rw [htemp] at hmem
    obtain ⟨b, hb, hab⟩ := List.mem_map.mp hmem
    rw [← hab]
    exact h.permanent b hb

theorem getCommandInfo_eq {c : CConsole} (h : c.Registered) (pName : CString) :
    c.GetCommandInfo pName CFGFLAG_SERVER false = c.FindCommand pName CFGFLAG_SERVER := by
  unfold CConsole.GetCommandInfo CConsole.FindCommand
  have hcongr : ∀ l : List CCommand, (∀ a ∈ l, a.m_Temp = false) →
      (l.findIdx? fun pCommand => (pCommand.m_Flags &&& CFGFLAG_SERVER ≠ 0 &&
        pCommand.m_Temp = false) && str_comp_nocase pCommand.m_pName pName = 0) =
      l.findIdx? fun pCommand => pCommand.m_Flags &&& CFGFLAG_SERVER ≠ 0 &&
        str_comp_nocase pCommand.m_pName pName = 0 := by
    intro l hl
    induction l with
    | nil => rfl
    | cons a l ih =>
        rw [List.findIdx?_cons, List.findIdx?_cons, ih fun b hb => hl b (by simp [hb])]
        simp [hl a (by simp)]
  exact hcongr c.commands h.permanent

theorem findCommand_spec {c : CConsole} {pName : CString} {i : Nat}
    (h : c.FindCommand pName CFGFLAG_SERVER = some i) :
    ∃ old, c.commands[i]? = some old ∧ old.m_Flags &&& CFGFLAG_SERVER ≠ 0 := by
  obtain ⟨hi, hfound, -⟩ := List.findIdx?_eq_some_iff_getElem.mp h
  refine ⟨c.commands[i], List.getElem?_eq_getElem hi, ?_⟩
  simp at hfound
  simpa using hfound.1

theorem changed_self {c : CConsole} {i : Nat} {old : CCommand} {AccessLevel : Int}
    (hold : c.commands[i]? = some old) (hlevel : old.m_AccessLevel = clampLevel AccessLevel) :
    c.changed i AccessLevel = c := by
  have hsame : old.SetAccessLevel AccessLevel = old := by
    show { old with m_AccessLevel := clampLevel AccessLevel } = old
    rw [← hlevel]
  have hcommands : (c.changed i AccessLevel).commands = c.commands := by
    apply List.ext_getElem?
    intro q
    rw [getElem?_changed]
    by_cases heq : i = q
    · rw [← heq, hold]
      simp [hsame]
    · simp [heq]
  cases c
  exact congrArg CConsole.mk hcommands

namespace Rcon

variable {r r' : Rcon} {pName : CString} {AccessLevel : Int}

/-- What a change of an access level does. -/
inductive Change (r : Rcon) (pName : CString) (AccessLevel : Int) : Rcon → Prop
  | same : Change r pName AccessLevel r
  | changed (i : Nat) (old : CCommand)
      (hfound : r.Console.GetCommandInfo pName CFGFLAG_SERVER false = some i)
      (hold : r.Console.commands[i]? = some old) (hserver : old.m_Flags &&& CFGFLAG_SERVER ≠ 0)
      (hlevel : old.m_AccessLevel ≠ clampLevel AccessLevel) :
      Change r pName AccessLevel
        { Console := r.Console.changed i AccessLevel
          m_aClients := r.m_aClients.map ((r.Console.changed i AccessLevel).reportAccess pName
            old.m_AccessLevel (old.SetAccessLevel AccessLevel)) }

theorem change_spec (hc : r.Console.Registered) (pName : CString) (AccessLevel : Int) :
    Change r pName AccessLevel (r.ConchainCommandAccessUpdate pName AccessLevel) := by
  have heq := getCommandInfo_eq hc pName
  unfold ConchainCommandAccessUpdate CConsole.ConCommandAccess
  cases hfind : r.Console.FindCommand pName CFGFLAG_SERVER with
  | none =>
      rw [hfind] at heq
      simp only [heq]
      exact .same
  | some i =>
      rw [hfind] at heq
      obtain ⟨old, hold, hserver⟩ := findCommand_spec hfind
      have hchanged : (r.Console.changed i AccessLevel).commands[i]? =
          some (old.SetAccessLevel AccessLevel) := by
        rw [getElem?_changed, hold]
        simp
      have hnew : (r.Console.commands.modify i fun info => info.SetAccessLevel AccessLevel)[i]? =
          some (old.SetAccessLevel AccessLevel) := hchanged
      have hconsole : ({ commands := r.Console.commands.modify i fun info =>
          info.SetAccessLevel AccessLevel } : CConsole) = r.Console.changed i AccessLevel := rfl
      simp only [heq, hconsole, Option.bind_some, hold, hnew]
      by_cases hlevel : old.m_AccessLevel = (old.SetAccessLevel AccessLevel).m_AccessLevel
      · rw [if_neg (not_not.mpr hlevel), changed_self hold hlevel]
        exact .same
      · rw [if_pos hlevel]
        exact .changed i old heq hold hserver hlevel

/-- The changes of access levels that are reported correctly to client `ClientId`, and to no client
that is not authenticated. -/
structure Clean (r : Rcon) (ClientId : Nat) (pName : CString) (AccessLevel : Int) (old : CCommand) :
    Prop where
  silent : ∀ p ∈ r.m_aClients, p.client.m_State ≠ .EMPTY → p.client.m_Authed = .NO →
    (ACCESS_LEVEL_HELPER < clampLevel AccessLevel ∧ ACCESS_LEVEL_HELPER < old.m_AccessLevel) ∨
    (clampLevel AccessLevel < ACCESS_LEVEL_HELPER ∧ old.m_AccessLevel < ACCESS_LEVEL_HELPER)
  reported : ∀ p, r.m_aClients[ClientId]? = some p →
    Reported r.Console pName old (clampLevel AccessLevel) p

/-- The condition on a step. -/
def Allowed (ClientId : Nat) (r : Rcon) : Event → Prop
  | .update _ => True
  | .access_level pName AccessLevel => ∀ i old,
      r.Console.GetCommandInfo pName CFGFLAG_SERVER false = some i →
      r.Console.commands[i]? = some old → old.m_AccessLevel ≠ clampLevel AccessLevel →
      r.Clean ClientId pName AccessLevel old

structure Inv (ClientId : Nat) (r : Rcon) : Prop where
  registered : r.Console.Registered
  synced : ∃ p, r.m_aClients[ClientId]? = some p ∧ p.client.m_State ≠ .EMPTY ∧ Synced r.Console p
  silent : ∀ p ∈ r.m_aClients, p.client.m_Authed = .NO → p.sent = []

/-- A client that is not authenticated is told nothing. -/
theorem reportAccess_silent {c : CConsole} {p : Slot} {old : CCommand}
    (h : p.client.m_State ≠ .EMPTY →
      (ACCESS_LEVEL_HELPER < clampLevel AccessLevel ∧ ACCESS_LEVEL_HELPER < old.m_AccessLevel) ∨
      (clampLevel AccessLevel < ACCESS_LEVEL_HELPER ∧ old.m_AccessLevel < ACCESS_LEVEL_HELPER))
    (hauthed : p.client.m_Authed = .NO) :
    c.reportAccess pName old.m_AccessLevel (old.SetAccessLevel AccessLevel) p = p := by
  unfold CConsole.reportAccess
  by_cases hstate : p.client.m_State = .EMPTY
  · rw [if_pos hstate]
  · have hlevel : p.client.ConsoleAccessLevel = ACCESS_LEVEL_HELPER := by
      unfold CClient.ConsoleAccessLevel
      rw [hauthed]
      rfl
    have hskip : c.skips pName old.m_AccessLevel (old.SetAccessLevel AccessLevel).m_AccessLevel p =
        true := by
      unfold CConsole.skips
      rw [hlevel]
      have hnew : (old.SetAccessLevel AccessLevel).m_AccessLevel = clampLevel AccessLevel := rfl
      rw [hnew]
      rcases h hstate with ⟨hn, ho⟩ | ⟨hn, ho⟩
      · simp [hn, ho]
      · simp [hn, ho]
    rw [if_neg hstate, if_pos hskip]

theorem reportAccess_client (c : CConsole) (pName : CString) (Old : Int) (info : CCommand)
    (p : Slot) : (c.reportAccess pName Old info p).client = p.client := by
  unfold CConsole.reportAccess
  split
  · rfl
  split
  · rfl
  split
  · rfl
  · rfl

theorem Inv.change {ClientId : Nat} (h : Inv ClientId r)
    (hallowed : Allowed ClientId r (.access_level pName AccessLevel)) :
    Inv ClientId (r.ConchainCommandAccessUpdate pName AccessLevel) := by
  have hspec := change_spec h.registered pName AccessLevel
  generalize r.ConchainCommandAccessUpdate pName AccessLevel = r' at hspec ⊢
  cases hspec with
  | same => exact h
  | changed i old hfound hold hserver hlevel =>
      obtain ⟨hsilent, hreported⟩ := hallowed i old hfound hold hlevel
      obtain ⟨p, hp, hstate, hsynced⟩ := h.synced
      refine ⟨h.registered.changed i AccessLevel,
        ⟨(r.Console.changed i AccessLevel).reportAccess pName old.m_AccessLevel
          (old.SetAccessLevel AccessLevel) p, ?_, ?_, ?_⟩, fun s hs hauthed => ?_⟩
      · rw [List.getElem?_map, hp]
        rfl
      · rw [reportAccess_client]
        exact hstate
      · exact hsynced.report h.registered hold hserver hlevel (hreported p hp) hstate
      · obtain ⟨q, hq, rfl⟩ := List.mem_map.mp hs
        rw [reportAccess_client] at hauthed
        rw [reportAccess_silent (hsilent q hq · hauthed) hauthed]
        exact h.silent q hq hauthed

theorem authed_sendCommands {c : CConsole} {Level : Int} {n : Nat} {p p' : Slot}
    (h : c.sendCommands Level n p = .ok p') : p'.client.m_Authed = p.client.m_Authed := by
  induction n generalizing p with
  | zero =>
      cases h
      rfl
  | succ n ih =>
      unfold CConsole.sendCommands at h
      split at h
      · cases h
        rfl
      split at h
      · cases h
      · rw [ih h, Slot.endGroup_client]
        rfl

theorem authed_update {c : CConsole} {p p' : Slot} (h : c.UpdateClientRconCommands p = .ok p') :
    p'.client.m_Authed = p.client.m_Authed := by
  unfold CConsole.UpdateClientRconCommands at h
  split at h
  · cases h
    rfl
  · exact authed_sendCommands h

theorem Inv.update {ClientId i : Nat} (h : Inv ClientId r) (hrun : r.step (.update i) = .ok r') :
    Inv ClientId r' := by
  unfold step at hrun
  cases hq : r.m_aClients[i]? with
  | none =>
      simp only [hq] at hrun
      cases hrun
  | some q =>
      simp only [hq] at hrun
      cases hupdate : r.Console.UpdateClientRconCommands q with
      | error e =>
          rw [hupdate] at hrun
          cases hrun
      | ok q' =>
          rw [hupdate] at hrun
          cases hrun
          obtain ⟨hi, hqi⟩ := List.getElem?_eq_some_iff.mp hq
          obtain ⟨p, hp, hstate, hsynced⟩ := h.synced
          refine ⟨h.registered, ?_, fun s hs hauthed => ?_⟩
          · by_cases heq : i = ClientId
            · rw [← heq, hq] at hp
              cases hp
              obtain ⟨q'', hrun, hq'', pCmd, hclient⟩ := hsynced.update
              rw [hupdate] at hrun
              cases hrun
              refine ⟨q', ?_, ?_, hq''⟩
              · rw [← heq]
                exact List.getElem?_set_self hi
              · rw [hclient]
                exact hstate
            · refine ⟨p, ?_, hstate, hsynced⟩
              show (r.m_aClients.set i q')[ClientId]? = some p
              rw [List.getElem?_set_ne heq]
              exact hp
          · rcases List.mem_or_eq_of_mem_set hs with hs | hs
            · exact h.silent s hs hauthed
            · rw [hs] at hauthed ⊢
              rw [authed_update hupdate] at hauthed
              unfold CConsole.UpdateClientRconCommands at hupdate
              rw [if_pos (.inr (.inl hauthed))] at hupdate
              cases hupdate
              exact h.silent q (List.mem_of_getElem? hq) hauthed

/-- The server at which client `ClientId` requested the list and no list was sent before. -/
structure Started (ClientId : Nat) (r : Rcon) : Prop where
  registered : r.Console.Registered
  requested : ∃ p AuthLevel, AuthLevel ≠ Authed.NO ∧ p.client.m_State ≠ .EMPTY ∧
    p.client.m_Sixup = false ∧ p.sent = [] ∧
    r.m_aClients[ClientId]? = some (r.Console.requestCommands p AuthLevel)
  silent : ∀ p ∈ r.m_aClients, p.client.m_Authed = .NO → p.sent = []

theorem Started.inv {ClientId : Nat} (h : Started ClientId r) : Inv ClientId r := by
  obtain ⟨p, AuthLevel, hauth, hstate, -, hsent, hp⟩ := h.requested
  refine ⟨h.registered, ⟨_, hp, ?_, synced_requestCommands r.Console p AuthLevel hsent⟩, h.silent⟩
  unfold CConsole.requestCommands
  rw [Slot.endGroup_client]
  exact hstate

end Rcon

end Fex.Engine.Server
