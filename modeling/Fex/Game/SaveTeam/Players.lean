import Fex.Base.Strings
import Mathlib.Data.List.Perm.Subperm
import Mathlib.Data.List.Nodup

/-!
# Players of a saved team

Model of `MatchPlayers`.  The saved tees are those of any text: their names, and the indices of the
tees they hook, are what the text says.
-/

namespace Fex.Game.SaveTeam

open Fex.Lib Fex.Base

structure CSaveTee where
  m_aName : List UInt8
  m_ClientId : Int
  m_HookedPlayer : Int

/-- An element of `paNames` and the one of `pClientId`. -/
structure Player where
  Name : List UInt8
  ClientId : Int

/-- What `MatchPlayers` returns, the message it writes and the tees it leaves. -/
structure Matched where
  result : Bool
  pMessage : Option (List UInt8)
  m_pSavedTees : List CSaveTee

def ofText (s : String) : List UInt8 := s.toUTF8.toList

/-- The client id of the first player of a name. -/
def clientIdOf (players : List Player) (Name : List UInt8) : Option Int :=
  (players.find? fun p => p.Name = Name).map Player.ClientId

/-- The loop that looks for missing players: the tees it leaves, and the name it stops at. -/
def findPlayers (players : List Player) : List CSaveTee → List CSaveTee × Option (List UInt8)
  | [] => ([], none)
  | tee :: tees =>
      match clientIdOf players tee.m_aName with
      | none => (tee :: tees, some tee.m_aName)
      | some ClientId =>
          let r := findPlayers players tees
          ({ tee with m_ClientId := ClientId } :: r.1, r.2)

def CSaveTee.LoadHookedPlayer (tee : CSaveTee) (m_pSavedTees : List CSaveTee) : Exec CSaveTee :=
  if tee.m_HookedPlayer = -1 then .ok tee
  else if tee.m_HookedPlayer < 0 then .error .outOfBounds
  else
    match m_pSavedTees[tee.m_HookedPlayer.toNat]? with
    | none => .error .outOfBounds
    | some hooked => .ok { tee with m_HookedPlayer := hooked.m_ClientId }

/-- The loop over the hooks, behind the tees that it has changed. -/
def loadHooks (done : List CSaveTee) : List CSaveTee → Exec (List CSaveTee)
  | [] => .ok done
  | tee :: tees => do
      let changed ← tee.LoadHookedPlayer (done ++ tee :: tees)
      loadHooks (done ++ [changed]) tees

def MatchPlayers (m_pSavedTees : List CSaveTee) (players : List Player) (MessageLen : Nat) :
    Exec Matched := do
  let refuse (text : List UInt8) (tees : List CSaveTee) : Matched :=
    { result := false, pMessage := some (str_copy text MessageLen), m_pSavedTees := tees }
  if players.length > m_pSavedTees.length then
    return refuse (ofText "Too many players in this team, should be " ++
      formatInt m_pSavedTees.length) m_pSavedTees
  -- check for wrong players
  match players.find? fun p => !m_pSavedTees.any fun tee => p.Name = tee.m_aName with
  | some p =>
      return refuse (ofText "'" ++ p.Name ++ ofText "' doesn't belong to this team") m_pSavedTees
  | none =>
      -- check for missing players
      match findPlayers players m_pSavedTees with
      | (tees, some Name) =>
          return refuse (ofText "'" ++ Name ++ ofText "' has to be in this team") tees
      | (tees, none) => do
          -- match hook to correct ClientId
          let tees ← loadHooks [] tees
          return { result := true, pMessage := none, m_pSavedTees := tees }

/-! ## One to one -/

/-- The players are those of the tees, by name. -/
def SameNames (m_pSavedTees : List CSaveTee) (players : List Player) : Prop :=
  ∀ Name, Name ∈ players.map Player.Name ↔ Name ∈ m_pSavedTees.map CSaveTee.m_aName

/-- A tee with the client id of the player of its name, and the hook as that of the tee it referred
to. -/
structure Assigned (m_pSavedTees : List CSaveTee) (players : List Player) (tee tee' : CSaveTee) :
    Prop where
  name : tee'.m_aName = tee.m_aName
  player : ∃ p ∈ players, p.Name = tee.m_aName ∧ tee'.m_ClientId = p.ClientId
  free : tee.m_HookedPlayer = -1 → tee'.m_HookedPlayer = -1
  hooked : tee.m_HookedPlayer ≠ -1 → 0 ≤ tee.m_HookedPlayer ∧
    ∃ other p, m_pSavedTees[tee.m_HookedPlayer.toNat]? = some other ∧ p ∈ players ∧
      p.Name = other.m_aName ∧ tee'.m_HookedPlayer = p.ClientId

/-- Nothing outside the tees is accessed, the players match exactly if they are those of the tees,
one for each, and then each tee is assigned. -/
def OneToOne (m_pSavedTees : List CSaveTee) (players : List Player) (MessageLen : Nat) : Prop :=
  ∃ r, MatchPlayers m_pSavedTees players MessageLen = .ok r ∧
    (r.result = true ↔
      SameNames m_pSavedTees players ∧ players.length = m_pSavedTees.length) ∧
    (r.result = true →
      List.Forall₂ (Assigned m_pSavedTees players) m_pSavedTees r.m_pSavedTees)

/-- The hooked player is none or one of the tees. -/
def CSaveTee.HookOf (tee : CSaveTee) (m_pSavedTees : List CSaveTee) : Prop :=
  tee.m_HookedPlayer = -1 ∨
    0 ≤ tee.m_HookedPlayer ∧ tee.m_HookedPlayer < m_pSavedTees.length

/-- If the players are those of the tees, no name is there twice and the hooks are those of tees. -/
def Sound (m_pSavedTees : List CSaveTee) (players : List Player) : Prop :=
  SameNames m_pSavedTees players →
    (m_pSavedTees.map CSaveTee.m_aName).Nodup ∧ ∀ tee ∈ m_pSavedTees, tee.HookOf m_pSavedTees

variable {players : List Player} {m_pSavedTees : List CSaveTee}

/-! ## Names -/

theorem clientIdOf_eq_none {Name : List UInt8} :
    clientIdOf players Name = none ↔ Name ∉ players.map Player.Name := by
  unfold clientIdOf
  rw [Option.map_eq_none_iff, List.find?_eq_none, List.mem_map]
  constructor
  · rintro h ⟨p, hp, rfl⟩
    exact h p hp (decide_eq_true rfl)
  · intro h p hp hname
    exact h ⟨p, hp, of_decide_eq_true hname⟩

theorem clientIdOf_eq_some {Name : List UInt8} {ClientId : Int}
    (h : clientIdOf players Name = some ClientId) :
    ∃ p ∈ players, p.Name = Name ∧ ClientId = p.ClientId := by
  unfold clientIdOf at h
  obtain ⟨p, hp, rfl⟩ := Option.map_eq_some_iff.mp h
  have hname := List.find?_some hp
  exact ⟨p, List.mem_of_find?_eq_some hp, of_decide_eq_true hname, rfl⟩

/-- No player is wrong and none is missing. -/
theorem sameNames_iff : SameNames m_pSavedTees players ↔
    (players.find? fun p => !m_pSavedTees.any fun tee => p.Name = tee.m_aName) = none ∧
      ∀ tee ∈ m_pSavedTees, clientIdOf players tee.m_aName ≠ none := by
  rw [List.find?_eq_none]
  constructor
  · intro h
    constructor
    · intro p hp hwrong
      obtain ⟨tee, htee, hname⟩ := List.mem_map.mp ((h p.Name).mp (List.mem_map_of_mem hp))
      rw [Bool.not_eq_true', List.any_eq_false] at hwrong
      exact hwrong tee htee (decide_eq_true hname.symm)
    · intro tee htee hmissing
      exact clientIdOf_eq_none.mp hmissing ((h tee.m_aName).mpr (List.mem_map_of_mem htee))
  · rintro ⟨hwrong, hmissing⟩ Name
    constructor
    · intro hmem
      obtain ⟨p, hp, rfl⟩ := List.mem_map.mp hmem
      have hright := hwrong p hp
      rw [Bool.not_eq_true', Bool.not_eq_false, List.any_eq_true] at hright
      obtain ⟨tee, htee, hname⟩ := hright
      exact List.mem_map.mpr ⟨tee, htee, (of_decide_eq_true hname).symm⟩
    · intro hmem
      obtain ⟨tee, htee, rfl⟩ := List.mem_map.mp hmem
      by_contra hnot
      exact hmissing tee htee (clientIdOf_eq_none.mpr hnot)

/-- As many tees as players, exactly if no name is there twice. -/
theorem length_eq_iff (hplayers : (players.map Player.Name).Nodup)
    (hsame : SameNames m_pSavedTees players) :
    players.length = m_pSavedTees.length ↔ (m_pSavedTees.map CSaveTee.m_aName).Nodup := by
  have hsub : (players.map Player.Name).Subperm (m_pSavedTees.map CSaveTee.m_aName) :=
    hplayers.subperm fun Name hmem => (hsame Name).mp hmem
  constructor
  · intro hlen
    have hperm := hsub.perm_of_length_le (by rw [List.length_map, List.length_map, hlen])
    exact hperm.nodup_iff.mp hplayers
  · intro htees
    have hperm := (List.perm_ext_iff_of_nodup hplayers htees).mpr hsame
    simpa using hperm.length_eq

theorem length_le (hplayers : (players.map Player.Name).Nodup)
    (hsame : SameNames m_pSavedTees players) : players.length ≤ m_pSavedTees.length := by
  have hsub : (players.map Player.Name).Subperm (m_pSavedTees.map CSaveTee.m_aName) :=
    hplayers.subperm fun Name hmem => (hsame Name).mp hmem
  simpa using hsub.length_le

/-! ## Client ids -/

/-- The tee with the client id of its player. -/
def CSaveTee.seated (players : List Player) (tee : CSaveTee) : CSaveTee :=
  { tee with m_ClientId := (clientIdOf players tee.m_aName).getD tee.m_ClientId }

theorem findPlayers_all (h : ∀ tee ∈ m_pSavedTees, clientIdOf players tee.m_aName ≠ none) :
    findPlayers players m_pSavedTees = (m_pSavedTees.map (CSaveTee.seated players), none) := by
  induction m_pSavedTees with
  | nil => rfl
  | cons tee tees ih =>
      obtain ⟨ClientId, hid⟩ := Option.ne_none_iff_exists'.mp (h tee List.mem_cons_self)
      rw [findPlayers, hid]
      simp only
      rw [ih fun tee' htee' => h tee' (List.mem_cons_of_mem _ htee'), List.map_cons,
        CSaveTee.seated, hid]
      rfl

theorem findPlayers_missing {tee : CSaveTee} (hmem : tee ∈ m_pSavedTees)
    (hmissing : clientIdOf players tee.m_aName = none) :
    ∃ tees Name, findPlayers players m_pSavedTees = (tees, some Name) := by
  induction m_pSavedTees with
  | nil => cases hmem
  | cons head tees ih =>
      rw [findPlayers]
      cases hid : clientIdOf players head.m_aName with
      | none => exact ⟨_, _, rfl⟩
      | some ClientId =>
          rcases List.mem_cons.mp hmem with rfl | hmem
          · rw [hmissing] at hid
            cases hid
          · obtain ⟨tees', Name, hfind⟩ := ih hmem
            simp only [hfind]
            exact ⟨_, _, rfl⟩

/-! ## Hooks -/

/-- The tee with its hook replaced by the client id of the tee it referred to. -/
structure Hooks (team : List CSaveTee) (tee tee' : CSaveTee) : Prop where
  name : tee'.m_aName = tee.m_aName
  player : tee'.m_ClientId = tee.m_ClientId
  free : tee.m_HookedPlayer = -1 → tee'.m_HookedPlayer = -1
  hooked : tee.m_HookedPlayer ≠ -1 → 0 ≤ tee.m_HookedPlayer ∧
    (team.map CSaveTee.m_ClientId)[tee.m_HookedPlayer.toNat]? = some tee'.m_HookedPlayer

theorem LoadHookedPlayer_ok {tee : CSaveTee} {team : List CSaveTee} (h : tee.HookOf team) :
    ∃ tee', tee.LoadHookedPlayer team = .ok tee' ∧ Hooks team tee tee' := by
  unfold CSaveTee.LoadHookedPlayer
  by_cases hfree : tee.m_HookedPlayer = -1
  · rw [if_pos hfree]
    exact ⟨tee, rfl, rfl, rfl, id, fun hhooked => absurd hfree hhooked⟩
  · rw [if_neg hfree]
    obtain ⟨hpos, hlt⟩ := h.resolve_left hfree
    have hget := List.getElem?_eq_getElem (show tee.m_HookedPlayer.toNat < team.length by omega)
    rw [if_neg (by omega), hget]
    exact ⟨_, rfl, rfl, rfl, fun hnone => absurd hnone hfree,
      fun _ => ⟨hpos, by rw [List.getElem?_map, hget]; rfl⟩⟩

theorem LoadHookedPlayer_fault {tee : CSaveTee} {team : List CSaveTee} (h : ¬tee.HookOf team) :
    tee.LoadHookedPlayer team = .error .outOfBounds := by
  unfold CSaveTee.HookOf at h
  unfold CSaveTee.LoadHookedPlayer
  rw [if_neg fun hfree => h (.inl hfree)]
  by_cases hneg : tee.m_HookedPlayer < 0
  · rw [if_pos hneg]
  · rw [if_neg hneg, List.getElem?_eq_none (by omega)]

/-- The client ids stay, so that each hook is replaced as if it were the first. -/
theorem loadHooks_ok {team done tees : List CSaveTee}
    (hteam : (done ++ tees).map CSaveTee.m_ClientId = team.map CSaveTee.m_ClientId)
    (h : ∀ tee ∈ tees, tee.HookOf team) :
    ∃ tees', loadHooks done tees = .ok (done ++ tees') ∧ List.Forall₂ (Hooks team) tees tees' := by
  induction tees generalizing done with
  | nil => exact ⟨[], by rw [loadHooks, List.append_nil], .nil⟩
  | cons tee tees ih =>
      have hlen : (done ++ tee :: tees).length = team.length := by
        have := congrArg List.length hteam
        rwa [List.length_map, List.length_map] at this
      have hhook : tee.HookOf (done ++ tee :: tees) := by
        have := h tee List.mem_cons_self
        unfold CSaveTee.HookOf at this ⊢
        rwa [hlen]
      obtain ⟨tee', hload, hname, hplayer, hfree, hhooked⟩ := LoadHookedPlayer_ok hhook
      have hrest : ((done ++ [tee']) ++ tees).map CSaveTee.m_ClientId =
          team.map CSaveTee.m_ClientId := by
        rw [← hteam]
        simp [hplayer]
      obtain ⟨tees', hrun, hall⟩ := ih hrest fun t ht => h t (List.mem_cons_of_mem _ ht)
      refine ⟨tee' :: tees', ?_, .cons ⟨hname, hplayer, hfree, ?_⟩ hall⟩
      · rw [loadHooks, hload]
        show loadHooks (done ++ [tee']) tees = _
        rw [hrun, List.append_assoc]
        rfl
      · rw [← hteam]
        exact hhooked

theorem loadHooks_fault {done tees : List CSaveTee} {n : Nat} (hlen : (done ++ tees).length = n)
    {tee : CSaveTee} (hmem : tee ∈ tees)
    (h : ¬(tee.m_HookedPlayer = -1 ∨ 0 ≤ tee.m_HookedPlayer ∧ tee.m_HookedPlayer < n)) :
    loadHooks done tees = .error .outOfBounds := by
  induction tees generalizing done with
  | nil => cases hmem
  | cons head tees ih =>
      rw [loadHooks]
      by_cases hhook : head.HookOf (done ++ head :: tees)
      · obtain ⟨head', hload, -⟩ := LoadHookedPlayer_ok hhook
        rw [hload]
        show loadHooks (done ++ [head']) tees = _
        refine ih (by simpa using hlen) ?_
        rcases List.mem_cons.mp hmem with rfl | hmem
        · unfold CSaveTee.HookOf at hhook
          rw [hlen] at hhook
          exact absurd hhook h
        · exact hmem
      · rw [LoadHookedPlayer_fault hhook]
        rfl

/-! ## Players -/

/-- Players that are not those of the tees do not match. -/
theorem matchPlayers_refuses (MessageLen : Nat)
    (h : m_pSavedTees.length < players.length ∨ ¬SameNames m_pSavedTees players) :
    ∃ r, MatchPlayers m_pSavedTees players MessageLen = .ok r ∧ r.result = false := by
  unfold MatchPlayers
  by_cases hmany : players.length > m_pSavedTees.length
  · simp only [if_pos hmany]
    exact ⟨_, rfl, rfl⟩
  · have hother := h.resolve_left hmany
    rw [sameNames_iff] at hother
    simp only [if_neg hmany]
    cases hwrong : players.find? fun p => !m_pSavedTees.any fun tee => p.Name = tee.m_aName with
    | some p => exact ⟨_, rfl, rfl⟩
    | none =>
        have hmissing : ∃ tee ∈ m_pSavedTees, clientIdOf players tee.m_aName = none := by
          by_contra hnone
          exact hother ⟨hwrong, fun tee htee hid => hnone ⟨tee, htee, hid⟩⟩
        obtain ⟨tee, htee, hid⟩ := hmissing
        obtain ⟨tees, Name, hfind⟩ := findPlayers_missing htee hid
        simp only [hfind]
        exact ⟨_, rfl, rfl⟩

/-- What is left to do for players that are those of the tees. -/
theorem matchPlayers_hooks (MessageLen : Nat) (hlen : players.length ≤ m_pSavedTees.length)
    (hsame : SameNames m_pSavedTees players) :
    MatchPlayers m_pSavedTees players MessageLen =
      (loadHooks [] (m_pSavedTees.map (CSaveTee.seated players))).bind fun tees =>
        .ok { result := true, pMessage := none, m_pSavedTees := tees } := by
  obtain ⟨hwrong, hmissing⟩ := sameNames_iff.mp hsame
  unfold MatchPlayers
  simp only [if_neg (Nat.not_lt.mpr hlen), hwrong, findPlayers_all hmissing]
  rfl

theorem seated_spec (h : ∀ tee ∈ m_pSavedTees, clientIdOf players tee.m_aName ≠ none)
    {tee : CSaveTee} (hmem : tee ∈ m_pSavedTees) :
    ∃ p ∈ players, p.Name = tee.m_aName ∧ (tee.seated players).m_ClientId = p.ClientId := by
  obtain ⟨ClientId, hid⟩ := Option.ne_none_iff_exists'.mp (h tee hmem)
  obtain ⟨p, hp, hname, hclient⟩ := clientIdOf_eq_some hid
  refine ⟨p, hp, hname, ?_⟩
  unfold CSaveTee.seated
  rw [hid]
  exact hclient

theorem assigned_of_hooks (h : ∀ tee ∈ m_pSavedTees, clientIdOf players tee.m_aName ≠ none)
    {tee tee' : CSaveTee} (hmem : tee ∈ m_pSavedTees)
    (hhooks : Hooks (m_pSavedTees.map (CSaveTee.seated players)) (tee.seated players) tee') :
    Assigned m_pSavedTees players tee tee' := by
  obtain ⟨hname, hplayer, hfree, hhooked⟩ := hhooks
  refine ⟨hname, ?_, hfree, fun hhook => ?_⟩
  · obtain ⟨p, hp, hpname, hid⟩ := seated_spec h hmem
    exact ⟨p, hp, hpname, hplayer.trans hid⟩
  · obtain ⟨hpos, hget⟩ := hhooked hhook
    rw [List.getElem?_map, List.getElem?_map, Option.map_map] at hget
    obtain ⟨other, hother, hid⟩ := Option.map_eq_some_iff.mp hget
    obtain ⟨p, hp, hpname, hclient⟩ := seated_spec h (List.mem_of_getElem? hother)
    exact ⟨hpos, other, p, hother, hp, hpname, hid.symm.trans hclient⟩

/-- Players match one to one exactly if the saved tees are sound for them. -/
theorem oneToOne_iff (hplayers : (players.map Player.Name).Nodup) (MessageLen : Nat) :
    OneToOne m_pSavedTees players MessageLen ↔ Sound m_pSavedTees players := by
  by_cases hsame : SameNames m_pSavedTees players
  swap
  · obtain ⟨r, hrun, hfalse⟩ := matchPlayers_refuses MessageLen (.inr hsame)
    refine ⟨fun _ h => absurd h hsame, fun _ => ⟨r, hrun, ?_, ?_⟩⟩
    · rw [hfalse]
      exact ⟨fun h => absurd h Bool.false_ne_true, fun h => absurd h.1 hsame⟩
    · rw [hfalse]
      exact fun h => absurd h Bool.false_ne_true
  have hrun := matchPlayers_hooks MessageLen (length_le hplayers hsame) hsame
  have hmissing := (sameNames_iff.mp hsame).2
  have hlen := length_eq_iff hplayers hsame
  unfold OneToOne Sound
  rw [hrun]
  constructor
  · rintro ⟨r, hok, hresult, -⟩ -
    have hhooks : ∀ tee ∈ m_pSavedTees, tee.HookOf m_pSavedTees := by
      intro tee htee
      by_contra hbad
      have hfault := @loadHooks_fault [] (m_pSavedTees.map (CSaveTee.seated players))
        m_pSavedTees.length (by simp) (tee.seated players) (List.mem_map_of_mem htee) hbad
      rw [hfault] at hok
      cases hok
    cases hload : loadHooks [] (m_pSavedTees.map (CSaveTee.seated players)) with
    | error fault =>
        rw [hload] at hok
        cases hok
    | ok tees =>
        rw [hload] at hok
        obtain rfl := Except.ok.inj hok
        exact ⟨hlen.mp (hresult.mp rfl).2, hhooks⟩
  · intro hsound
    obtain ⟨hnodup, hhooks⟩ := hsound hsame
    have hseated : ∀ tee ∈ m_pSavedTees.map (CSaveTee.seated players),
        tee.HookOf (m_pSavedTees.map (CSaveTee.seated players)) := by
      intro tee htee
      obtain ⟨tee, hmem, rfl⟩ := List.mem_map.mp htee
      have hhook := hhooks tee hmem
      unfold CSaveTee.HookOf at hhook ⊢
      rw [List.length_map]
      exact hhook
    obtain ⟨tees', hload, hall⟩ := @loadHooks_ok _ [] _ rfl hseated
    rw [hload]
    refine ⟨_, rfl, ⟨fun _ => ⟨hsame, hlen.mpr hnodup⟩, fun _ => rfl⟩, fun _ => ?_⟩
    rw [List.forall₂_map_left_iff] at hall
    exact List.forall₂_iff_get.mpr ⟨hall.length_eq, fun i hi hi' =>
      assigned_of_hooks hmissing (List.get_mem _ _) (hall.get hi hi')⟩

/-- Two tees that hook each other. -/
def hookedTees : List CSaveTee :=
  [{ m_aName := [97], m_ClientId := 0, m_HookedPlayer := 1 },
    { m_aName := [98], m_ClientId := 0, m_HookedPlayer := 0 }]

theorem oneToOne_iff_hooked :
    OneToOne hookedTees [⟨[98], 7⟩, ⟨[97], 3⟩] 256 ↔ Sound hookedTees [⟨[98], 7⟩, ⟨[97], 3⟩] :=
  oneToOne_iff (by decide) 256

/-- A hook index beyond the tees, and a name that is there twice. -/
theorem not_oneToOne :
    ¬OneToOne [{ m_aName := [97], m_ClientId := 0, m_HookedPlayer := 5 }] [⟨[97], 3⟩] 256 ∧
    ¬OneToOne [{ m_aName := [97], m_ClientId := 0, m_HookedPlayer := -1 },
      { m_aName := [97], m_ClientId := 0, m_HookedPlayer := -1 }] [⟨[97], 3⟩] 256 := by
  constructor
  · rintro ⟨r, hrun, -⟩
    cases hrun
  · rintro ⟨r, hrun, hresult, -⟩
    obtain rfl := Except.ok.inj hrun
    exact absurd (hresult.mp rfl).2 (by decide)

end Fex.Game.SaveTeam
