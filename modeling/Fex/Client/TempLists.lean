import Fex.Client.WarList
import Fex.Lib.Loop

/-!
# Temporary lists and mutes

Model of the temporary lists of `CFex` and of the mutes of `CWarList`.  Reading an element behind
the end of a vector, or one that was erased, is a fault.  The messages to the player are left out.
-/

namespace Fex.Client.TempLists

open Fex.Base Fex.Engine.Server Fex.Lib

def TEMP_REASON_LENGTH : Nat := 128

structure CTempEntry where
  m_aTempWar : CString
  m_aTempHelper : CString
  m_aTempMute : CString
  m_aReason : CString
  deriving DecidableEq

/-- The type is 0 for the wars, 1 for the helpers and 2 for the mutes. -/
def CTempEntry.new (type : Nat) (pName pReason : CString) : CTempEntry where
  m_aTempWar := if type = 0 then str_copy pName MAX_NAME_LENGTH else []
  m_aTempHelper := if type = 1 then str_copy pName MAX_NAME_LENGTH else []
  m_aTempMute := if type = 2 then str_copy pName MAX_NAME_LENGTH else []
  m_aReason := if pReason = [] then str_copy pReason TEMP_REASON_LENGTH else []

/-- `operator==` -/
def CTempEntry.equals (e Other : CTempEntry) : Bool :=
  let TempWarMatch := e.m_aTempWar = Other.m_aTempWar ∧ e.m_aTempWar ≠ []
  let TempHelperMatch := e.m_aTempHelper = Other.m_aTempHelper ∧ e.m_aTempHelper ≠ []
  -- the name of the helper is compared
  let TempMuteMatch := e.m_aTempMute = Other.m_aTempMute ∧ e.m_aTempHelper ≠ []
  TempWarMatch ∨ TempHelperMatch ∨ TempMuteMatch

structure CTempData where
  IsTempWar : Bool
  IsTempHelper : Bool
  IsTempMute : Bool
  m_aReason : CString

structure State where
  m_TempEntries : List CTempEntry
  m_TempPlayers : List CTempData
  m_MuteEntries : List CString

/-! ## Temporary lists -/

section

variable (m_aClients : Nat → CClientData)

/-- The body of the loop over the entries, for a client with a name. -/
def markEntry (m_aName : CString) (player : CTempData) (Entry : CTempEntry) : CTempData :=
  let player :=
    if m_aName = Entry.m_aTempWar ∧ Entry.m_aTempWar ≠ [] then
      { player with m_aReason := str_copy Entry.m_aReason TEMP_REASON_LENGTH, IsTempWar := true }
    else player
  let player :=
    if m_aName = Entry.m_aTempHelper ∧ Entry.m_aTempHelper ≠ [] then
      { player with m_aReason := str_copy Entry.m_aReason TEMP_REASON_LENGTH, IsTempHelper := true }
    else player
  if m_aName = Entry.m_aTempMute ∧ Entry.m_aTempMute ≠ [] then
    { player with m_aReason := str_copy Entry.m_aReason TEMP_REASON_LENGTH, IsTempMute := true }
  else player

def UpdateTempPlayers (s : State) : State :=
  { s with
    m_TempPlayers := s.m_TempPlayers.mapIdx fun i player =>
      if (m_aClients i).m_Active then
        s.m_TempEntries.foldl (markEntry (m_aClients i).m_aName) ⟨false, false, false, []⟩
      else player }

/-- The loop of the removal, with the entries before `it2` and the ones from it on.  The entry that
`it2` is moved to is read before the end is checked. -/
def removeLoop (name : CTempEntry → CString) (pName : CString) (front : List CTempEntry) :
    List CTempEntry → Bool → Exec (List CTempEntry × Bool)
  | [], Removed => .ok (front, Removed)
  | it2 :: behind, Removed =>
      let IsDuplicate := name it2 = pName
      match behind with
      | [] => .error .outOfBounds
      | next :: behind =>
          removeLoop name pName (if IsDuplicate then front else front ++ [it2]) (next :: behind)
            (if name next = pName then true else Removed)

def UnTemp (type : Nat) (name : CTempEntry → CString) (m_TempEntries : List CTempEntry)
    (pName : CString) : Exec (List CTempEntry × Bool) :=
  if pName = [] then .ok (m_TempEntries, false)
  else if m_TempEntries.any fun e => e.equals (.new type pName []) then
    removeLoop name pName [] m_TempEntries false
  else .ok (m_TempEntries, false)

def UnTempWar : List CTempEntry → CString → Exec (List CTempEntry × Bool) :=
  UnTemp 0 CTempEntry.m_aTempWar

def UnTempHelper : List CTempEntry → CString → Exec (List CTempEntry × Bool) :=
  UnTemp 1 CTempEntry.m_aTempHelper

def UnTempMute : List CTempEntry → CString → Exec (List CTempEntry × Bool) :=
  UnTemp 2 CTempEntry.m_aTempMute

def TempWar (s : State) (pName pReason : CString) : Exec State := do
  -- remove previous reason
  let removed ← UnTempWar s.m_TempEntries pName
  let Entry := { CTempEntry.new 0 pName pReason with
    m_aTempWar := str_copy pName MAX_NAME_LENGTH
    m_aReason := str_copy pReason TEMP_REASON_LENGTH }
  let removed ← UnTempHelper (removed.1 ++ [Entry]) pName
  return UpdateTempPlayers m_aClients { s with m_TempEntries := removed.1 }

def TempHelper (s : State) (pName pReason : CString) : Exec State := do
  -- remove previous reason
  let removed ← UnTempHelper s.m_TempEntries pName
  let Entry := { CTempEntry.new 1 pName pReason with
    m_aTempHelper := str_copy pName MAX_NAME_LENGTH
    m_aReason := str_copy pReason TEMP_REASON_LENGTH }
  let removed ← UnTempWar (removed.1 ++ [Entry]) pName
  return UpdateTempPlayers m_aClients { s with m_TempEntries := removed.1 }

def TempMute (s : State) (pName : CString) : State :=
  let Entry := { CTempEntry.new 2 pName [] with m_aTempMute := str_copy pName MAX_NAME_LENGTH }
  UpdateTempPlayers m_aClients { s with m_TempEntries := s.m_TempEntries ++ [Entry] }

end

/-! ## Mutes -/

/-- The inner loop of `DelMute`; `Entries` is the element at `i` of the vector as it was at first. -/
def delInner (pName : CString) (i : Nat) (front : List CString) :
    List CString → Exec (List CString)
  | [] => .ok front
  | it2 :: behind =>
      let front := if it2 = pName then front else front ++ [it2]
      match (front ++ behind)[i]? with
      | none => .error .outOfBounds
      | some _ => delInner pName i front behind

/-- The name of `DelMute` and the vector behind it. -/
def removeMute (m_MuteEntries : List CString) (pName : CString) : Exec (List CString) :=
  if m_MuteEntries.contains (str_copy pName MAX_NAME_LENGTH) then
    (List.range m_MuteEntries.length).foldlM
      (fun m_MuteEntries i => delInner pName i [] m_MuteEntries) m_MuteEntries
  else .ok m_MuteEntries

def DelMute (s : State) (pName : CString) : Exec State := do
  if pName = [] then return s
  else
    let m_MuteEntries ← removeMute s.m_MuteEntries pName
    let removed ← UnTempMute s.m_TempEntries pName
    return { s with m_MuteEntries, m_TempEntries := removed.1 }

def AddMute (s : State) (pName : CString) : Exec State := do
  if pName = [] then return s
  else
    let s ← DelMute s pName
    let removed ← UnTempMute s.m_TempEntries pName
    return { s with
      m_MuteEntries := s.m_MuteEntries ++ [str_copy pName MAX_NAME_LENGTH]
      m_TempEntries := removed.1 }

inductive Op
  | TempWar (pName pReason : CString)
  | UnTempWar (pName : CString)
  | TempHelper (pName pReason : CString)
  | UnTempHelper (pName : CString)
  | TempMute (pName : CString)
  | UnTempMute (pName : CString)
  | AddMute (pName : CString)
  | DelMute (pName : CString)
  | UpdateTempPlayers

/-- A removal leaves the other fields as they are. -/
def State.remove (s : State) (un : List CTempEntry → CString → Exec (List CTempEntry × Bool))
    (pName : CString) : Exec (State × Option Bool) := do
  let removed ← un s.m_TempEntries pName
  return ({ s with m_TempEntries := removed.1 }, some removed.2)

/-- The state behind a call, and what it returns. -/
def step (m_aClients : Nat → CClientData) (s : State) : Op → Exec (State × Option Bool)
  | .TempWar pName pReason => do return (← TempWar m_aClients s pName pReason, none)
  | .UnTempWar pName => s.remove UnTempWar pName
  | .TempHelper pName pReason => do return (← TempHelper m_aClients s pName pReason, none)
  | .UnTempHelper pName => s.remove UnTempHelper pName
  | .TempMute pName => .ok (TempMute m_aClients s pName, none)
  | .UnTempMute pName => s.remove UnTempMute pName
  | .AddMute pName => do return (← AddMute s pName, none)
  | .DelMute pName => do return (← DelMute s pName, none)
  | .UpdateTempPlayers => .ok (UpdateTempPlayers m_aClients s, none)

/-! ## Sets of names -/

def OnList (name : CTempEntry → CString) (m_TempEntries : List CTempEntry) (pName : CString) :
    Prop := pName ≠ [] ∧ ∃ e ∈ m_TempEntries, name e = pName

instance (name : CTempEntry → CString) (m_TempEntries : List CTempEntry) (pName : CString) :
    Decidable (OnList name m_TempEntries pName) :=
  inferInstanceAs (Decidable (pName ≠ [] ∧ ∃ e ∈ m_TempEntries, name e = pName))

/-- The entries without a name. -/
def without (name : CTempEntry → CString) (m_TempEntries : List CTempEntry) (pName : CString) :
    List CTempEntry := m_TempEntries.filter fun e => name e ≠ pName

/-- The flags of the active clients say on which lists their names are. -/
def Flags (m_aClients : Nat → CClientData) (s : State) : Prop :=
  ∀ i < MAX_CLIENTS, (m_aClients i).m_Active = true → ∃ player, s.m_TempPlayers[i]? = some player ∧
    (player.IsTempWar = true ↔
      OnList CTempEntry.m_aTempWar s.m_TempEntries (m_aClients i).m_aName) ∧
    (player.IsTempHelper = true ↔
      OnList CTempEntry.m_aTempHelper s.m_TempEntries (m_aClients i).m_aName) ∧
    (player.IsTempMute = true ↔
      OnList CTempEntry.m_aTempMute s.m_TempEntries (m_aClients i).m_aName)

/-- The call removes the name from one of the temporary lists and says whether it was there. -/
def Removes (name : CTempEntry → CString) (pName : CString) (s s' : State) (r : Option Bool) :
    Prop :=
  s'.m_TempEntries = without name s.m_TempEntries pName ∧ s'.m_MuteEntries = s.m_MuteEntries ∧
    r = some (decide (OnList name s.m_TempEntries pName))

/-- The call leaves the entry as the only one of its name on the lists of wars and helpers. -/
def Adds (m_aClients : Nat → CClientData) (pName : CString) (Entry : CTempEntry) (s s' : State) :
    Prop :=
  s'.m_TempEntries = without CTempEntry.m_aTempHelper
    (without CTempEntry.m_aTempWar s.m_TempEntries pName) pName ++ [Entry] ∧
  s'.m_MuteEntries = s.m_MuteEntries ∧ Flags m_aClients s'

/-- What a call does to sets of names. -/
def Behaves (m_aClients : Nat → CClientData) (s s' : State) (r : Option Bool) : Op → Prop
  | .TempWar pName pReason =>
      Adds m_aClients pName ⟨pName, [], [], str_copy pReason TEMP_REASON_LENGTH⟩ s s'
  | .UnTempWar pName => Removes CTempEntry.m_aTempWar pName s s' r
  | .TempHelper pName pReason =>
      Adds m_aClients pName ⟨[], pName, [], str_copy pReason TEMP_REASON_LENGTH⟩ s s'
  | .UnTempHelper pName => Removes CTempEntry.m_aTempHelper pName s s' r
  | .TempMute pName =>
      s'.m_TempEntries = s.m_TempEntries ++ [⟨[], [], pName, []⟩] ∧
      s'.m_MuteEntries = s.m_MuteEntries ∧ Flags m_aClients s'
  | .UnTempMute pName => Removes CTempEntry.m_aTempMute pName s s' r
  | .AddMute pName =>
      s'.m_MuteEntries = s.m_MuteEntries.filter (· ≠ pName) ++ [pName] ∧
      s'.m_TempEntries = without CTempEntry.m_aTempMute s.m_TempEntries pName
  | .DelMute pName =>
      s'.m_MuteEntries = s.m_MuteEntries.filter (· ≠ pName) ∧
      s'.m_TempEntries = without CTempEntry.m_aTempMute s.m_TempEntries pName
  | .UpdateTempPlayers =>
      s'.m_TempEntries = s.m_TempEntries ∧ s'.m_MuteEntries = s.m_MuteEntries ∧ Flags m_aClients s'

/-- A name is stored as it is. -/
def Fits (pName : CString) : Prop := str_copy pName MAX_NAME_LENGTH = pName

/-- A call that the code gets right: nothing has to be removed, and no helper is added. -/
def Meets (s : State) : Op → Prop
  | .TempWar pName _ => Fits pName ∧ ¬OnList CTempEntry.m_aTempWar s.m_TempEntries pName
  | .UnTempWar pName =>
      ¬OnList CTempEntry.m_aTempWar s.m_TempEntries (str_copy pName MAX_NAME_LENGTH)
  | .TempHelper _ _ => False
  | .UnTempHelper _ => True
  | .TempMute pName => Fits pName
  | .UnTempMute pName => ¬OnList CTempEntry.m_aTempMute s.m_TempEntries pName
  | .AddMute pName => Fits pName ∧ pName ∉ s.m_MuteEntries ∧
      ¬OnList CTempEntry.m_aTempMute s.m_TempEntries pName
  | .DelMute pName => pName ∉ s.m_MuteEntries ∧
      ¬OnList CTempEntry.m_aTempMute s.m_TempEntries pName
  | .UpdateTempPlayers => True

/-- A name of 1 to 15 bytes. -/
def IsName (pName : CString) : Prop := pName ≠ [] ∧ pName.length ≤ 15

instance (pName : CString) : Decidable (IsName pName) := inferInstanceAs (Decidable (_ ∧ _))

def Op.Named : Op → Prop
  | .TempWar pName _ | .UnTempWar pName | .TempHelper pName _ | .UnTempHelper pName
  | .TempMute pName | .UnTempMute pName | .AddMute pName | .DelMute pName => IsName pName
  | .UpdateTempPlayers => True

/-- The calls of a run, each with the clients at that time. -/
abbrev Calls := List ((Nat → CClientData) × Op)

/-- Every call runs and behaves as on sets of names. -/
def AllBehave (s : State) : Calls → Prop
  | [] => True
  | call :: calls => ∃ s' r, step call.1 s call.2 = .ok (s', r) ∧
      Behaves call.1 s s' r call.2 ∧ AllBehave s' calls

/-- Every call up to a fault meets its condition. -/
def AllMeet (s : State) : Calls → Prop
  | [] => True
  | call :: calls => Meets s call.2 ∧
      match step call.1 s call.2 with
      | .ok (s', _) => AllMeet s' calls
      | .error _ => True

/-- The lists of a new client. -/
def State.new : State where
  m_TempEntries := []
  m_TempPlayers := List.replicate MAX_CLIENTS ⟨false, false, false, []⟩
  m_MuteEntries := []

/-! ## The lists -/

/-- An entry of a run without a helper. -/
structure Plain (e : CTempEntry) : Prop where
  helper : e.m_aTempHelper = []
  war : Fits e.m_aTempWar

theorem without_eq_self {name : CTempEntry → CString} {m_TempEntries : List CTempEntry}
    {pName : CString} (h : ∀ e ∈ m_TempEntries, name e ≠ pName) :
    without name m_TempEntries pName = m_TempEntries := by
  apply List.filter_eq_self.mpr
  intro e he
  exact decide_eq_true (h e he)

theorem without_of_not_onList {name : CTempEntry → CString} {m_TempEntries : List CTempEntry}
    {pName : CString} (hne : pName ≠ []) (h : ¬OnList name m_TempEntries pName) :
    without name m_TempEntries pName = m_TempEntries :=
  without_eq_self fun e he hname => h ⟨hne, e, he, hname⟩

theorem not_onList_of_without {name : CTempEntry → CString} {m_TempEntries : List CTempEntry}
    {pName : CString} (h : m_TempEntries = without name m_TempEntries pName) :
    ¬OnList name m_TempEntries pName := by
  rintro ⟨-, e, he, hname⟩
  rw [h] at he
  exact of_decide_eq_true (List.mem_filter.mp he).2 hname

theorem not_onList_helper {m_TempEntries : List CTempEntry} (h : ∀ e ∈ m_TempEntries, e.m_aTempHelper = [])
    (pName : CString) : ¬OnList CTempEntry.m_aTempHelper m_TempEntries pName := by
  rintro ⟨hne, e, he, hname⟩
  exact hne (hname ▸ h e he)

/-- The loop of a removal always reads the end of the vector. -/
theorem removeLoop_faults (name : CTempEntry → CString) (pName : CString) (it2 : CTempEntry)
    (front behind : List CTempEntry) (Removed : Bool) :
    removeLoop name pName front (it2 :: behind) Removed = .error .outOfBounds := by
  induction behind generalizing it2 front Removed with
  | nil => rfl
  | cons next behind ih => exact ih next _ _

theorem UnTemp_of_any {type : Nat} {name : CTempEntry → CString} {m_TempEntries : List CTempEntry}
    {pName : CString} (hne : pName ≠ [])
    (h : m_TempEntries.any (fun e => e.equals (.new type pName [])) = true) :
    UnTemp type name m_TempEntries pName = .error .outOfBounds := by
  rw [UnTemp, if_neg hne, if_pos h]
  cases m_TempEntries with
  | nil => cases h
  | cons e m_TempEntries => exact removeLoop_faults name pName e [] m_TempEntries false

theorem UnTemp_of_not_any {type : Nat} {name : CTempEntry → CString}
    {m_TempEntries : List CTempEntry} {pName : CString}
    (h : m_TempEntries.any (fun e => e.equals (.new type pName [])) = false) :
    UnTemp type name m_TempEntries pName = .ok (m_TempEntries, false) := by
  rw [UnTemp]
  split
  · rfl
  · rw [if_neg (by simp [h])]

theorem any_equals_war {m_TempEntries : List CTempEntry} (h : ∀ e ∈ m_TempEntries, e.m_aTempHelper = [])
    (pName : CString) :
    m_TempEntries.any (fun e => e.equals (.new 0 pName [])) = true ↔
      OnList CTempEntry.m_aTempWar m_TempEntries (str_copy pName MAX_NAME_LENGTH) := by
  rw [List.any_eq_true]
  constructor
  · rintro ⟨e, he, hequals⟩
    have hhelper := h e he
    simp only [CTempEntry.equals, CTempEntry.new, hhelper] at hequals
    obtain ⟨hname, hne⟩ : e.m_aTempWar = str_copy pName MAX_NAME_LENGTH ∧ e.m_aTempWar ≠ [] := by
      simpa using hequals
    exact ⟨hname ▸ hne, e, he, hname⟩
  · rintro ⟨hne, e, he, hname⟩
    exact ⟨e, he, by simp [CTempEntry.equals, CTempEntry.new, hname, hne]⟩

/-- Without a helper an entry equals none of the other two types. -/
theorem any_equals_other {m_TempEntries : List CTempEntry} (h : ∀ e ∈ m_TempEntries, e.m_aTempHelper = [])
    {type : Nat} (htype : type ≠ 0) (pName : CString) :
    m_TempEntries.any (fun e => e.equals (.new type pName [])) = false := by
  apply List.any_eq_false.mpr
  intro e he
  simp [CTempEntry.equals, CTempEntry.new, htype, h e he]

theorem UnTempHelper_eq {m_TempEntries : List CTempEntry} (h : ∀ e ∈ m_TempEntries, e.m_aTempHelper = [])
    (pName : CString) : UnTempHelper m_TempEntries pName = .ok (m_TempEntries, false) :=
  UnTemp_of_not_any (any_equals_other h Nat.one_ne_zero pName)

theorem UnTempMute_eq {m_TempEntries : List CTempEntry} (h : ∀ e ∈ m_TempEntries, e.m_aTempHelper = [])
    (pName : CString) : UnTempMute m_TempEntries pName = .ok (m_TempEntries, false) :=
  UnTemp_of_not_any (any_equals_other h (Nat.succ_ne_zero 1) pName)

theorem UnTempWar_of_onList {m_TempEntries : List CTempEntry} (h : ∀ e ∈ m_TempEntries, e.m_aTempHelper = [])
    {pName : CString} (hne : pName ≠ [])
    (hon : OnList CTempEntry.m_aTempWar m_TempEntries (str_copy pName MAX_NAME_LENGTH)) :
    UnTempWar m_TempEntries pName = .error .outOfBounds :=
  UnTemp_of_any hne ((any_equals_war h pName).mpr hon)

theorem UnTempWar_of_not_onList {m_TempEntries : List CTempEntry}
    (h : ∀ e ∈ m_TempEntries, e.m_aTempHelper = []) {pName : CString}
    (hon : ¬OnList CTempEntry.m_aTempWar m_TempEntries (str_copy pName MAX_NAME_LENGTH)) :
    UnTempWar m_TempEntries pName = .ok (m_TempEntries, false) :=
  UnTemp_of_not_any (Bool.eq_false_iff.mpr (mt (any_equals_war h pName).mp hon))

/-- A name that is stored is its own copy. -/
theorem not_onList_of_copy {m_TempEntries : List CTempEntry} (h : ∀ e ∈ m_TempEntries, Plain e)
    {pName : CString}
    (hon : ¬OnList CTempEntry.m_aTempWar m_TempEntries (str_copy pName MAX_NAME_LENGTH)) :
    ¬OnList CTempEntry.m_aTempWar m_TempEntries pName := by
  rintro ⟨hne, e, he, hname⟩
  have hfits : str_copy pName MAX_NAME_LENGTH = pName := hname ▸ (h e he).war
  exact hon (hfits.symm ▸ ⟨hne, e, he, hname⟩)

/-- The entry of a helper is taken for the name of a war, so that the removal reads the end. -/
theorem UnTempWar_behind_helper {m_TempEntries : List CTempEntry} {pName : CString}
    (hne : pName ≠ []) {Entry : CTempEntry} (hwar : Entry.m_aTempMute = [])
    (hhelper : Entry.m_aTempHelper ≠ []) :
    UnTempWar (m_TempEntries ++ [Entry]) pName = .error .outOfBounds := by
  apply UnTemp_of_any hne
  apply List.any_eq_true.mpr
  exact ⟨Entry, by simp, by simp [CTempEntry.equals, CTempEntry.new, hwar, hhelper]⟩

/-! ## Mutes -/

/-- The pass reads the element at `i` last when only the kept elements are left. -/
theorem delInner_cons (pName : CString) (i : Nat) (it2 : CString) (front behind : List CString) :
    delInner pName i front (it2 :: behind) =
      if i < (front ++ (it2 :: behind).filter (· ≠ pName)).length then
        .ok (front ++ (it2 :: behind).filter (· ≠ pName))
      else .error .outOfBounds := by
  have hkept : front ++ (it2 :: behind).filter (· ≠ pName) =
      (if it2 = pName then front else front ++ [it2]) ++ behind.filter (· ≠ pName) := by
    by_cases heq : it2 = pName
    · simp [heq]
    · simp [heq]
  rw [hkept, delInner]
  generalize (if it2 = pName then front else front ++ [it2]) = front
  have hle : (front ++ behind.filter (· ≠ pName)).length ≤ (front ++ behind).length := by
    simpa using List.length_filter_le _ behind
  by_cases hi : i < (front ++ behind).length
  · rw [List.getElem?_eq_getElem hi]
    cases behind with
    | nil =>
        rw [List.filter_nil, if_pos hi]
        exact congrArg Except.ok (List.append_nil front).symm
    | cons next behind => exact delInner_cons pName i next front behind
  · rw [List.getElem?_eq_none (Nat.le_of_not_lt hi), if_neg (by omega)]
termination_by behind.length

/-- While fewer passes are made than elements are kept, they all run. -/
theorem passes_run {m_MuteEntries : List CString} {pName : CString} (hne : m_MuteEntries ≠ [])
    {n : Nat} (hn : n ≤ (m_MuteEntries.filter (· ≠ pName)).length) :
    ∃ l, (List.range n).foldlM (fun l i => delInner pName i [] l) m_MuteEntries = .ok l ∧
      l ≠ [] ∧ l.filter (· ≠ pName) = m_MuteEntries.filter (· ≠ pName) := by
  induction n with
  | zero => exact ⟨m_MuteEntries, rfl, hne, rfl⟩
  | succ n ih =>
      obtain ⟨l, hl, hlne, hfilter⟩ := ih (by omega)
      obtain ⟨it2, behind, rfl⟩ := List.exists_cons_of_ne_nil hlne
      refine ⟨(it2 :: behind).filter (· ≠ pName), ?_, ?_, ?_⟩
      · rw [List.range_succ, List.foldlM_append, hl]
        simp only [List.foldlM_cons, List.foldlM_nil]
        change (delInner pName n [] (it2 :: behind) >>= pure) = _
        rw [delInner_cons, List.nil_append, hfilter, if_pos (by omega)]
        rfl
      · rw [hfilter]
        exact List.ne_nil_of_length_pos (by omega)
      · rw [hfilter, List.filter_filter]
        simp

/-- Where the name is on the list the loop reads an erased element. -/
theorem removeMute_of_mem {m_MuteEntries : List CString} {pName : CString} (hfits : Fits pName)
    (h : pName ∈ m_MuteEntries) : ∃ fault, removeMute m_MuteEntries pName = .error fault := by
  have hlt : (m_MuteEntries.filter (· ≠ pName)).length < m_MuteEntries.length := by
    apply List.length_filter_lt_length_iff_exists.mpr
    exact ⟨pName, h, by simp⟩
  obtain ⟨l, hl, hlne, hfilter⟩ := passes_run (List.ne_nil_of_mem h) (Nat.le_refl _)
  obtain ⟨it2, behind, rfl⟩ := List.exists_cons_of_ne_nil hlne
  obtain ⟨k, hk⟩ := Nat.exists_eq_add_of_lt hlt
  have hrange : List.range m_MuteEntries.length =
      List.range (m_MuteEntries.filter (· ≠ pName)).length ++
        (m_MuteEntries.filter (· ≠ pName)).length ::
          (List.range k).map ((m_MuteEntries.filter (· ≠ pName)).length + 1 + ·) := by
    rw [hk, Nat.add_right_comm, List.range_add, List.range_succ, List.append_assoc]
    rfl
  refine ⟨.outOfBounds, ?_⟩
  rw [removeMute, if_pos (List.contains_iff_mem.mpr (hfits.symm ▸ h)), hrange]
  apply foldlM_faults hl
  rw [delInner_cons, List.nil_append, hfilter, if_neg (Nat.lt_irrefl _)]

theorem filter_ne_of_not_mem {m_MuteEntries : List CString} {pName : CString}
    (h : pName ∉ m_MuteEntries) : m_MuteEntries.filter (· ≠ pName) = m_MuteEntries := by
  apply List.filter_eq_self.mpr
  intro it2 hit2
  exact decide_eq_true fun heq => h (heq ▸ hit2)

theorem removeMute_of_not_mem {m_MuteEntries : List CString} {pName : CString}
    (h : pName ∉ m_MuteEntries) : removeMute m_MuteEntries pName = .ok m_MuteEntries := by
  have hfilter := filter_ne_of_not_mem h
  have hpass (i : Nat) (hi : i < m_MuteEntries.length) :
      delInner pName i [] m_MuteEntries = .ok m_MuteEntries := by
    obtain ⟨it2, behind, rfl⟩ := List.exists_cons_of_length_pos (Nat.zero_lt_of_lt hi)
    rw [delInner_cons, List.nil_append, hfilter, if_pos hi]
  rw [removeMute]
  split
  · obtain ⟨l, hl, rfl⟩ := foldlM_range'_spec (a := 0) (n := m_MuteEntries.length)
      (f := fun l i => delInner pName i [] l) (fun _ l => l = m_MuteEntries)
      (fun i l _ hi hl => ⟨m_MuteEntries, hl ▸ hpass i (by omega), rfl⟩)
      (rfl : m_MuteEntries = m_MuteEntries)
    rw [List.range_eq_range', hl]
  · rfl

/-! ## Flags -/

/-- A flag that each entry of a list of names may set says in the end whether the name is there. -/
theorem foldl_flag {m_aName : CString} {flag : CTempData → Bool} {name : CTempEntry → CString}
    (hmark : ∀ player e, flag (markEntry m_aName player e) = true ↔
      flag player = true ∨ m_aName ≠ [] ∧ name e = m_aName)
    (m_TempEntries : List CTempEntry) (player : CTempData) :
    flag (m_TempEntries.foldl (markEntry m_aName) player) = true ↔
      flag player = true ∨ OnList name m_TempEntries m_aName := by
  induction m_TempEntries generalizing player with
  | nil => simp [OnList]
  | cons e m_TempEntries ih =>
      rw [List.foldl_cons, ih, hmark, or_assoc]
      simp [OnList, ← and_or_left]

theorem IsTempWar_markEntry (m_aName : CString) (player : CTempData) (e : CTempEntry) :
    (markEntry m_aName player e).IsTempWar = true ↔
      player.IsTempWar = true ∨ m_aName ≠ [] ∧ e.m_aTempWar = m_aName := by
  rw [markEntry]
  split <;> split <;> split <;> grind

theorem IsTempHelper_markEntry (m_aName : CString) (player : CTempData) (e : CTempEntry) :
    (markEntry m_aName player e).IsTempHelper = true ↔
      player.IsTempHelper = true ∨ m_aName ≠ [] ∧ e.m_aTempHelper = m_aName := by
  rw [markEntry]
  split <;> split <;> split <;> grind

theorem IsTempMute_markEntry (m_aName : CString) (player : CTempData) (e : CTempEntry) :
    (markEntry m_aName player e).IsTempMute = true ↔
      player.IsTempMute = true ∨ m_aName ≠ [] ∧ e.m_aTempMute = m_aName := by
  rw [markEntry]
  split <;> split <;> split <;> grind

/-- Whatever the entries are, the flags follow them. -/
theorem flags_update (m_aClients : Nat → CClientData) {s : State}
    (h : s.m_TempPlayers.length = MAX_CLIENTS) :
    Flags m_aClients (UpdateTempPlayers m_aClients s) := by
  intro i hi hactive
  have hlt : i < s.m_TempPlayers.length := h.symm ▸ hi
  refine ⟨s.m_TempEntries.foldl (markEntry (m_aClients i).m_aName) ⟨false, false, false, []⟩,
    ?_, ?_, ?_, ?_⟩
  · rw [UpdateTempPlayers, List.getElem?_mapIdx, List.getElem?_eq_getElem hlt, Option.map_some,
      if_pos hactive]
  · exact (foldl_flag (IsTempWar_markEntry _) s.m_TempEntries _).trans (by simp [UpdateTempPlayers])
  · exact (foldl_flag (IsTempHelper_markEntry _) s.m_TempEntries _).trans (by simp [UpdateTempPlayers])
  · exact (foldl_flag (IsTempMute_markEntry _) s.m_TempEntries _).trans (by simp [UpdateTempPlayers])

/-! ## Runs -/

/-- The states of the runs whose calls behave. -/
structure Inv (s : State) : Prop where
  entries : ∀ e ∈ s.m_TempEntries, Plain e
  mutes : ∀ pName ∈ s.m_MuteEntries, Fits pName
  players : s.m_TempPlayers.length = MAX_CLIENTS

theorem Inv.helpers {s : State} (h : Inv s) : ∀ e ∈ s.m_TempEntries, e.m_aTempHelper = [] :=
  fun e he => (h.entries e he).helper

theorem inv_new : Inv State.new where
  entries := by simp [State.new]
  mutes := by simp [State.new]
  players := List.length_replicate

theorem Inv.update {s : State} (h : Inv s) (m_aClients : Nat → CClientData)
    {m_TempEntries : List CTempEntry} (hentries : ∀ e ∈ m_TempEntries, Plain e) :
    Inv (UpdateTempPlayers m_aClients { s with m_TempEntries }) where
  entries := hentries
  mutes := h.mutes
  players := by rw [UpdateTempPlayers, List.length_mapIdx, h.players]

theorem Inv.append {s : State} (h : Inv s) {Entry : CTempEntry} (hEntry : Plain Entry) :
    ∀ e ∈ s.m_TempEntries ++ [Entry], Plain e := by
  intro e he
  rcases List.mem_append.mp he with he | he
  · exact h.entries e he
  · exact List.mem_singleton.mp he ▸ hEntry

theorem adds_update {m_aClients : Nat → CClientData} {s : State} (h : Inv s) {pName : CString}
    (hne : pName ≠ []) (hon : ¬OnList CTempEntry.m_aTempWar s.m_TempEntries pName)
    (Entry : CTempEntry) :
    Adds m_aClients pName Entry s (UpdateTempPlayers m_aClients
      { s with m_TempEntries := s.m_TempEntries ++ [Entry] }) := by
  refine ⟨?_, rfl, flags_update m_aClients h.players⟩
  rw [without_of_not_onList hne hon, without_of_not_onList hne (not_onList_helper h.helpers pName)]
  rfl

theorem helpers_append {m_TempEntries : List CTempEntry} {Entry : CTempEntry}
    (h : ∀ e ∈ m_TempEntries, e.m_aTempHelper = []) (hEntry : Entry.m_aTempHelper = []) :
    ∀ e ∈ m_TempEntries ++ [Entry], e.m_aTempHelper = [] := by
  intro e he
  rcases List.mem_append.mp he with he | he
  · exact h e he
  · rw [List.mem_singleton.mp he, hEntry]

theorem str_copy_nil (dst_size : Nat) : str_copy [] dst_size = [] :=
  Text.nil.str_copy_self (Nat.zero_le _)

/-- Without the name on the list its entry is pushed back. -/
theorem TempWar_eq (m_aClients : Nat → CClientData) {s : State} (h : Inv s) {pName : CString}
    (pReason : CString)
    (hon : ¬OnList CTempEntry.m_aTempWar s.m_TempEntries (str_copy pName MAX_NAME_LENGTH)) :
    TempWar m_aClients s pName pReason = .ok (UpdateTempPlayers m_aClients
      { s with m_TempEntries := s.m_TempEntries ++
        [⟨str_copy pName MAX_NAME_LENGTH, [], [], str_copy pReason TEMP_REASON_LENGTH⟩] }) := by
  unfold TempWar
  rw [UnTempWar_of_not_onList h.helpers hon]
  change (do
    let removed ← UnTempHelper (s.m_TempEntries ++
      [(⟨str_copy pName MAX_NAME_LENGTH, [], [], str_copy pReason TEMP_REASON_LENGTH⟩ :
        CTempEntry)]) pName
    return UpdateTempPlayers m_aClients { s with m_TempEntries := removed.1 }) = _
  rw [UnTempHelper_eq (helpers_append h.helpers rfl)]
  rfl

theorem TempWar_faults (m_aClients : Nat → CClientData) {s : State} (h : Inv s) {pName : CString}
    (hne : pName ≠ []) (pReason : CString)
    (hon : OnList CTempEntry.m_aTempWar s.m_TempEntries (str_copy pName MAX_NAME_LENGTH)) :
    TempWar m_aClients s pName pReason = .error .outOfBounds := by
  unfold TempWar
  rw [UnTempWar_of_onList h.helpers hne hon]
  rfl

/-- A helper whose name is not cut to nothing always faults. -/
theorem TempHelper_faults (m_aClients : Nat → CClientData) {s : State} (h : Inv s)
    {pName : CString} (hne : pName ≠ []) (pReason : CString)
    (hcopy : str_copy pName MAX_NAME_LENGTH ≠ []) :
    TempHelper m_aClients s pName pReason = .error .outOfBounds := by
  unfold TempHelper
  rw [UnTempHelper_eq h.helpers]
  change (do
    let removed ← UnTempWar (s.m_TempEntries ++
      [(⟨[], str_copy pName MAX_NAME_LENGTH, [], str_copy pReason TEMP_REASON_LENGTH⟩ :
        CTempEntry)]) pName
    return UpdateTempPlayers m_aClients { s with m_TempEntries := removed.1 }) = _
  rw [UnTempWar_behind_helper hne rfl hcopy]
  rfl

/-- A name that is cut to nothing is stored as that. -/
theorem TempHelper_eq (m_aClients : Nat → CClientData) {s : State} (h : Inv s) {pName : CString}
    (pReason : CString) (hcopy : str_copy pName MAX_NAME_LENGTH = []) :
    TempHelper m_aClients s pName pReason = .ok (UpdateTempPlayers m_aClients
      { s with m_TempEntries :=
        s.m_TempEntries ++ [⟨[], [], [], str_copy pReason TEMP_REASON_LENGTH⟩] }) := by
  unfold TempHelper
  rw [UnTempHelper_eq h.helpers, hcopy]
  change (do
    let removed ← UnTempWar (s.m_TempEntries ++
      [(⟨[], [], [], str_copy pReason TEMP_REASON_LENGTH⟩ : CTempEntry)]) pName
    return UpdateTempPlayers m_aClients { s with m_TempEntries := removed.1 }) = _
  rw [UnTempWar_of_not_onList (helpers_append h.helpers rfl) fun hon => hon.1 hcopy]
  rfl

theorem DelMute_eq {s : State} (h : Inv s) {pName : CString} (hmute : pName ∉ s.m_MuteEntries) :
    DelMute s pName = .ok s := by
  unfold DelMute
  split
  · rfl
  · rw [removeMute_of_not_mem hmute, UnTempMute_eq h.helpers]
    rfl

theorem DelMute_faults {s : State} (h : Inv s) {pName : CString} (hne : pName ≠ [])
    (hmute : pName ∈ s.m_MuteEntries) : ∃ fault, DelMute s pName = .error fault := by
  obtain ⟨fault, hfault⟩ := removeMute_of_mem (h.mutes pName hmute) hmute
  refine ⟨fault, ?_⟩
  rw [DelMute, if_neg hne, hfault]
  rfl

theorem AddMute_eq {s : State} (h : Inv s) {pName : CString} (hne : pName ≠ [])
    (hmute : pName ∉ s.m_MuteEntries) :
    AddMute s pName = .ok
      { s with m_MuteEntries := s.m_MuteEntries ++ [str_copy pName MAX_NAME_LENGTH] } := by
  rw [AddMute, if_neg hne, DelMute_eq h hmute]
  change (do
    let removed ← UnTempMute s.m_TempEntries pName
    return { s with
      m_MuteEntries := s.m_MuteEntries ++ [str_copy pName MAX_NAME_LENGTH]
      m_TempEntries := removed.1 }) = _
  rw [UnTempMute_eq h.helpers]
  rfl

theorem AddMute_faults {s : State} (h : Inv s) {pName : CString} (hne : pName ≠ [])
    (hmute : pName ∈ s.m_MuteEntries) : ∃ fault, AddMute s pName = .error fault := by
  obtain ⟨fault, hfault⟩ := DelMute_faults h hne hmute
  refine ⟨fault, ?_⟩
  rw [AddMute, if_neg hne, hfault]
  rfl

theorem remove_eq {s : State} {un : List CTempEntry → CString → Exec (List CTempEntry × Bool)}
    {pName : CString} (h : un s.m_TempEntries pName = .ok (s.m_TempEntries, false)) :
    s.remove un pName = .ok (s, some false) := by
  rw [State.remove, h]
  rfl

/-- Removing nothing is right where the name is not on the list. -/
theorem removes_nothing {name : CTempEntry → CString} {pName : CString} (hne : pName ≠ [])
    {s : State} : Removes name pName s s (some false) ↔ ¬OnList name s.m_TempEntries pName := by
  constructor
  · rintro ⟨hentries, -, -⟩
    exact not_onList_of_without hentries
  · intro hon
    exact ⟨(without_of_not_onList hne hon).symm, rfl, by rw [decide_eq_false hon]⟩

/-- A call that meets its condition behaves. -/
theorem Meets.behaves {m_aClients : Nat → CClientData} {s : State} (h : Inv s) {op : Op}
    (hnamed : op.Named) (hmeets : Meets s op) :
    ∃ s' r, step m_aClients s op = .ok (s', r) ∧ Behaves m_aClients s s' r op ∧ Inv s' := by
  cases op with
  | TempWar pName pReason =>
      obtain ⟨hfits, hon⟩ := hmeets
      have hcopy : str_copy pName MAX_NAME_LENGTH = pName := hfits
      refine ⟨_, none, ?_, adds_update h hnamed.1 hon _, h.update m_aClients (h.append ⟨rfl, hfits⟩)⟩
      rw [step, TempWar_eq m_aClients h pReason (hcopy.symm ▸ hon), hcopy]
      rfl
  | UnTempWar pName =>
      refine ⟨s, some false, remove_eq (UnTempWar_of_not_onList h.helpers hmeets), ?_, h⟩
      exact (removes_nothing hnamed.1).mpr (not_onList_of_copy h.entries hmeets)
  | TempHelper pName pReason => exact hmeets.elim
  | UnTempHelper pName =>
      refine ⟨s, some false, remove_eq (UnTempHelper_eq h.helpers pName), ?_, h⟩
      exact (removes_nothing hnamed.1).mpr (not_onList_helper h.helpers pName)
  | TempMute pName =>
      have hcopy : str_copy pName MAX_NAME_LENGTH = pName := hmeets
      refine ⟨_, none, rfl, ⟨?_, rfl, flags_update m_aClients h.players⟩,
        h.update m_aClients (h.append ⟨rfl, ?_⟩)⟩
      · simp [TempMute, UpdateTempPlayers, CTempEntry.new, hcopy, str_copy_nil]
      · exact str_copy_nil MAX_NAME_LENGTH
  | UnTempMute pName =>
      refine ⟨s, some false, remove_eq (UnTempMute_eq h.helpers pName), ?_, h⟩
      exact (removes_nothing hnamed.1).mpr hmeets
  | AddMute pName =>
      obtain ⟨hfits, hmute, hon⟩ := hmeets
      have hcopy : str_copy pName MAX_NAME_LENGTH = pName := hfits
      refine ⟨{ s with m_MuteEntries := s.m_MuteEntries ++ [pName] }, none, ?_, ⟨?_, ?_⟩, ?_⟩
      · rw [step, AddMute_eq h hnamed.1 hmute, hcopy]
        rfl
      · rw [filter_ne_of_not_mem hmute]
      · exact (without_of_not_onList hnamed.1 hon).symm
      · refine ⟨h.entries, ?_, h.players⟩
        intro n hn
        rcases List.mem_append.mp hn with hn | hn
        · exact h.mutes n hn
        · exact List.mem_singleton.mp hn ▸ hfits
  | DelMute pName =>
      obtain ⟨hmute, hon⟩ := hmeets
      refine ⟨s, none, ?_, ⟨(filter_ne_of_not_mem hmute).symm, ?_⟩, h⟩
      · rw [step, DelMute_eq h hmute]
        rfl
      · exact (without_of_not_onList hnamed.1 hon).symm
  | UpdateTempPlayers =>
      exact ⟨_, none, rfl, ⟨rfl, rfl, flags_update m_aClients h.players⟩,
        h.update m_aClients h.entries⟩

/-- A call that behaves meets its condition. -/
theorem Behaves.meets {m_aClients : Nat → CClientData} {s s' : State} (h : Inv s) {op : Op}
    (hnamed : op.Named) {r : Option Bool} (hstep : step m_aClients s op = .ok (s', r))
    (hbehaves : Behaves m_aClients s s' r op) : Meets s op := by
  cases op with
  | TempWar pName pReason =>
      by_cases hon : OnList CTempEntry.m_aTempWar s.m_TempEntries (str_copy pName MAX_NAME_LENGTH)
      · rw [step, TempWar_faults m_aClients h hnamed.1 pReason hon] at hstep
        cases hstep
      · rw [step, TempWar_eq m_aClients h pReason hon] at hstep
        cases hstep
        have hentry := List.append_inj_right' hbehaves.1 rfl
        have hfits : str_copy pName MAX_NAME_LENGTH = pName := by simpa using hentry
        exact ⟨hfits, not_onList_of_copy h.entries hon⟩
  | UnTempWar pName =>
      intro hon
      rw [step, State.remove, UnTempWar_of_onList h.helpers hnamed.1 hon] at hstep
      cases hstep
  | TempHelper pName pReason =>
      by_cases hcopy : str_copy pName MAX_NAME_LENGTH = []
      · rw [step, TempHelper_eq m_aClients h pReason hcopy] at hstep
        cases hstep
        have hentry := List.append_inj_right' hbehaves.1 rfl
        have hname : [] = pName := by simpa using hentry
        exact hnamed.1 hname.symm
      · rw [step, TempHelper_faults m_aClients h hnamed.1 pReason hcopy] at hstep
        cases hstep
  | UnTempHelper pName => trivial
  | TempMute pName =>
      cases hstep
      have hentry := List.append_inj_right' hbehaves.1 rfl
      have hfits : str_copy pName MAX_NAME_LENGTH = pName := by
        simpa [CTempEntry.new, str_copy_nil] using hentry
      exact hfits
  | UnTempMute pName =>
      rw [step, remove_eq (UnTempMute_eq h.helpers pName)] at hstep
      cases hstep
      exact (removes_nothing hnamed.1).mp hbehaves
  | AddMute pName =>
      by_cases hmute : pName ∈ s.m_MuteEntries
      · obtain ⟨fault, hfault⟩ := AddMute_faults h hnamed.1 hmute
        rw [step, hfault] at hstep
        cases hstep
      · rw [step, AddMute_eq h hnamed.1 hmute] at hstep
        cases hstep
        have hname := List.append_inj_right' hbehaves.1 rfl
        exact ⟨(List.cons.inj hname).1, hmute, not_onList_of_without hbehaves.2⟩
  | DelMute pName =>
      by_cases hmute : pName ∈ s.m_MuteEntries
      · obtain ⟨fault, hfault⟩ := DelMute_faults h hnamed.1 hmute
        rw [step, hfault] at hstep
        cases hstep
      · rw [step, DelMute_eq h hmute] at hstep
        cases hstep
        exact ⟨hmute, not_onList_of_without hbehaves.2⟩
  | UpdateTempPlayers => trivial

def clientA : CClientData where
  m_Active := true
  m_aName := CServer.ascii "a"
  m_aClan := []

/-- The calls of a run behave as on sets of names if and only if nothing has to be removed and no
helper is added. -/
theorem behave_iff_meet (calls : Calls) (hnamed : ∀ call ∈ calls, call.2.Named) :
    AllBehave State.new calls ↔ AllMeet State.new calls := by
  suffices hrun : ∀ s, Inv s → (AllBehave s calls ↔ AllMeet s calls) by exact hrun _ inv_new
  induction calls with
  | nil => exact fun s _ => Iff.rfl
  | cons call calls ih =>
      intro s h
      have hcall := hnamed call List.mem_cons_self
      have hrest := ih fun next hnext => hnamed next (List.mem_cons_of_mem call hnext)
      constructor
      · rintro ⟨s', r, hstep, hbehaves, hall⟩
        have hmeets := hbehaves.meets h hcall hstep
        obtain ⟨t, r', ht, -, hinv⟩ := hmeets.behaves h hcall
        rw [hstep] at ht
        cases ht
        refine ⟨hmeets, ?_⟩
        rw [hstep]
        exact (hrest s' hinv).mp hall
      · rintro ⟨hmeets, hall⟩
        obtain ⟨s', r, hstep, hbehaves, hinv⟩ := hmeets.behaves h hcall
        rw [hstep] at hall
        exact ⟨s', r, hstep, hbehaves, (hrest s' hinv).mpr hall⟩

/-- A war, a temporary mute and a mute without a removal. -/
theorem behave_iff_meet_added :
    AllBehave State.new [(fun _ => clientA, .TempWar (CServer.ascii "a") []),
      (fun _ => clientA, .TempMute (CServer.ascii "a")),
      (fun _ => clientA, .AddMute (CServer.ascii "b")), (fun _ => clientA, .UpdateTempPlayers)] :=
  (behave_iff_meet _ (by
    intro call hcall
    simp only [List.mem_cons, List.not_mem_nil, or_false] at hcall
    rcases hcall with rfl | rfl | rfl | rfl
    · exact ⟨by decide, by decide⟩
    · exact ⟨by decide, by decide⟩
    · exact ⟨by decide, by decide⟩
    · trivial)).mpr
    ⟨⟨rfl, by decide⟩, rfl, ⟨rfl, by decide, by decide⟩, trivial, trivial⟩

/-- The removal of the only name on the list of wars reads the end of the vector. -/
theorem not_sets_of_names :
    ¬∀ calls : Calls, (∀ call ∈ calls, call.2.Named) → AllBehave State.new calls := by
  intro h
  obtain ⟨s, r, hadd, -, s', r', hremove, -⟩ :=
    h [(fun _ => clientA, .TempWar (CServer.ascii "a") []),
      (fun _ => clientA, .UnTempWar (CServer.ascii "a"))] (by
    intro call hcall
    simp only [List.mem_cons, List.not_mem_nil, or_false] at hcall
    rcases hcall with rfl | rfl
    · exact ⟨by decide, by decide⟩
    · exact ⟨by decide, by decide⟩)
  cases hadd
  cases hremove

end Fex.Client.TempLists
