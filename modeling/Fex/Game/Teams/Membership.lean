import Fex.Game.Teams
import Fex.Lib.Run
import Mathlib.Data.List.Nodup
import Mathlib.Data.List.Perm.Subperm

/-!
# Team states and members

The state of a team is empty exactly while nobody is in it.  Every operation keeps this; only a
request for the team behind the last one leaves the arrays.
-/

namespace Fex.Game.Teams

open Fex.Lib CGameTeams

/-- A client is in the team. -/
def Occupied (s : CGameTeams) (Team : Int) : Prop :=
  ∃ i < MAX_CLIENTS, s.m_aTeam i = Team

/-- A team that clients are put together in. -/
def IsGroup (Team : Int) : Prop := TEAM_FLOCK < Team ∧ Team < TEAM_SUPER

/-- Empty teams have no members, and teams without members are neither locked nor like team 0. -/
structure Matches (s : CGameTeams) : Prop where
  range : ∀ i, TEAM_FLOCK ≤ s.m_aTeam i ∧ s.m_aTeam i ≤ TEAM_SUPER
  empty : ∀ t, IsGroup t → (s.m_aTeamState t = .EMPTY ↔ ¬ Occupied s t)
  free : ∀ t, IsGroup t → ¬ Occupied s t → s.m_aTeamLocked t = false ∧ s.m_aTeamFlock t = false

/-- The members that decide about teams are the same. -/
structure SameTeams (s s' : CGameTeams) : Prop where
  team : s'.m_aTeam = s.m_aTeam
  state : s'.m_aTeamState = s.m_aTeamState
  locked : s'.m_aTeamLocked = s.m_aTeamLocked
  flock : s'.m_aTeamFlock = s.m_aTeamFlock

theorem SameTeams.refl (s : CGameTeams) : SameTeams s s := ⟨rfl, rfl, rfl, rfl⟩

theorem SameTeams.trans {s s₁ s₂ : CGameTeams} (h : SameTeams s s₁) (h' : SameTeams s₁ s₂) :
    SameTeams s s₂ where
  team := h'.team.trans h.team
  state := h'.state.trans h.state
  locked := h'.locked.trans h.locked
  flock := h'.flock.trans h.flock

theorem Matches.of_same {s s' : CGameTeams} (h : Matches s) (hsame : SameTeams s s') :
    Matches s' := by
  obtain ⟨hteam, hstate, hlocked, hflock⟩ := hsame
  have hoccupied : ∀ t, Occupied s' t ↔ Occupied s t := by
    intro t
    unfold Occupied
    rw [hteam]
  refine ⟨?_, fun t ht => ?_, fun t ht hfree => ?_⟩
  · rw [hteam]
    exact h.range
  · rw [hstate, hoccupied]
    exact h.empty t ht
  · rw [hlocked, hflock]
    exact h.free t ht ((hoccupied t).not.mp hfree)

section Basics

variable {s : CGameTeams} {α : Type} {Team : Int} {ClientId : Nat}

theorem element_ok (a : Int → α) (h : IsTeam Team) : element a Team = .ok (a Team) := if_pos h

theorem store_ok (a : Int → α) (h : IsTeam Team) (v : α) :
    store a Team v = .ok (Function.update a Team v) := if_pos h

theorem access_ok (h : IsTeam Team) : access Team = .ok () := if_pos h

theorem isTeam_of_range (h : TEAM_FLOCK ≤ Team ∧ Team ≤ TEAM_SUPER) : IsTeam Team := by
  unfold IsTeam NUM_DDRACE_TEAMS
  unfold TEAM_FLOCK TEAM_SUPER at *
  omega

theorem Matches.isTeam (h : Matches s) (i : Nat) : IsTeam (s.m_aTeam i) :=
  isTeam_of_range (h.range i)

theorem mem_members {i : Nat} : i ∈ s.members Team ↔ i < MAX_CLIENTS ∧ s.m_aTeam i = Team := by
  unfold members
  rw [List.mem_filter, List.mem_range, decide_eq_true_iff]

/-- A client is alone in its team when the team counts at most one. -/
theorem count_le_one_iff (hsuper : Team ≠ TEAM_SUPER) (hid : ClientId < MAX_CLIENTS)
    (hteam : s.m_aTeam ClientId = Team) :
    s.Count Team ≤ 1 ↔ ∀ i < MAX_CLIENTS, i ≠ ClientId → s.m_aTeam i ≠ Team := by
  have hmem : ClientId ∈ s.members Team := mem_members.mpr ⟨hid, hteam⟩
  have hnodup : (s.members Team).Nodup := List.nodup_range.filter _
  rw [Count, if_neg hsuper]
  constructor
  · intro hle i hi hne hi'
    have hpair : [ClientId, i].Nodup :=
      List.nodup_cons.mpr ⟨fun hmem' => hne (List.mem_singleton.mp hmem').symm,
        List.nodup_singleton i⟩
    have hsub : [ClientId, i] ⊆ s.members Team :=
      List.cons_subset.mpr ⟨hmem, List.cons_subset.mpr
        ⟨mem_members.mpr ⟨hi, hi'⟩, List.nil_subset _⟩⟩
    have hlength : 2 ≤ (s.members Team).length := (hpair.subperm hsub).length_le
    omega
  · intro hother
    have hsub : s.members Team ⊆ [ClientId] := by
      intro i hi
      obtain ⟨hlt, hi⟩ := mem_members.mp hi
      by_contra hne
      exact hother i hlt (fun heq => hne (List.mem_singleton.mpr heq)) hi
    have hle := (hnodup.subperm hsub).length_le
    rw [List.length_singleton] at hle
    omega

theorem changeTeamState_ok (h : IsTeam Team) (State : ETeamState) :
    s.ChangeTeamState Team State =
      .ok { s with m_aTeamState := Function.update s.m_aTeamState Team State } := by
  unfold ChangeTeamState
  rw [store_ok _ h]
  rfl

theorem setTeamLock_group (h : IsGroup Team) (Lock : Bool) :
    s.SetTeamLock Team Lock =
      { s with m_aTeamLocked := Function.update s.m_aTeamLocked Team Lock } := if_pos h

theorem setTeamFlock_group (h : IsGroup Team) (Mode : Bool) :
    s.SetTeamFlock Team Mode =
      { s with m_aTeamFlock := Function.update s.m_aTeamFlock Team Mode } := if_pos h

/-- A team with members gets another state. -/
theorem Matches.change (h : Matches s) (State : ETeamState) (hState : State ≠ .EMPTY)
    (hoccupied : Occupied s Team) :
    Matches { s with m_aTeamState := Function.update s.m_aTeamState Team State } := by
  refine ⟨h.range, fun t ht => ?_, h.free⟩
  show Function.update s.m_aTeamState Team State t = .EMPTY ↔ ¬ Occupied s t
  by_cases heq : t = Team
  · rw [heq, Function.update_self]
    exact ⟨fun hempty => absurd hempty hState, fun hfree => absurd hoccupied hfree⟩
  · rw [Function.update_of_ne heq]
    exact h.empty t ht

theorem sameTeams_setCharacter (s : CGameTeams) (i : Nat) (m_pCharacter : Option CCharacter) :
    SameTeams s (s.setCharacter i m_pCharacter) := ⟨rfl, rfl, rfl, rfl⟩

theorem sameTeams_setDDRaceState (s : CGameTeams) (i : Nat) (DDRaceState : ERaceState) :
    SameTeams s (s.SetDDRaceState i DDRaceState) := by
  unfold SetDDRaceState
  split
  · exact sameTeams_setCharacter ..
  · exact .refl s

theorem sameTeams_setStartTime (s : CGameTeams) (i : Nat) (StartTime : Int) :
    SameTeams s (s.SetStartTime i StartTime) := by
  unfold SetStartTime
  split
  · exact sameTeams_setCharacter ..
  · exact .refl s

theorem sameTeams_onFinish (s : CGameTeams) (i : Nat) : SameTeams s (s.OnFinish i) := by
  unfold OnFinish
  split
  · exact sameTeams_setDDRaceState ..
  · exact .refl s

theorem sameTeams_foldl {f : CGameTeams → Nat → CGameTeams} (h : ∀ s i, SameTeams s (f s i))
    (l : List Nat) (s : CGameTeams) : SameTeams s (l.foldl f s) := by
  induction l generalizing s with
  | nil => exact .refl s
  | cons i l ih => exact (h s i).trans (ih (f s i))

end Basics

/-! ## Changing the team of a client -/

section Change

variable {g_Config : CConfig} {s : CGameTeams} {ClientId : Nat} {OldTeam Team : Int}

/-- A client besides this one is in the team. -/
def Others (s : CGameTeams) (ClientId : Nat) (t : Int) : Prop :=
  ∃ i < MAX_CLIENTS, i ≠ ClientId ∧ s.m_aTeam i = t

/-- The teams without regard to one client. -/
structure Left (s : CGameTeams) (ClientId : Nat) : Prop where
  empty : ∀ t, IsGroup t → (s.m_aTeamState t = .EMPTY ↔ ¬ Others s ClientId t)
  free : ∀ t, IsGroup t → ¬ Others s ClientId t →
    s.m_aTeamLocked t = false ∧ s.m_aTeamFlock t = false

theorem occupied_iff (hid : ClientId < MAX_CLIENTS) (t : Int) :
    Occupied s t ↔ s.m_aTeam ClientId = t ∨ Others s ClientId t := by
  constructor
  · rintro ⟨i, hi, ht⟩
    by_cases heq : i = ClientId
    · exact .inl (heq ▸ ht)
    · exact .inr ⟨i, hi, heq, ht⟩
  · rintro (ht | ⟨i, hi, -, ht⟩)
    · exact ⟨ClientId, hid, ht⟩
    · exact ⟨i, hi, ht⟩

theorem resetPractice_ok (g_Config : CConfig) (s : CGameTeams) (h : IsTeam Team) :
    ∃ s', s.ResetPractice g_Config Team = .ok s' ∧ SameTeams s s' := by
  unfold ResetPractice
  split
  · exact ⟨s, rfl, .refl s⟩
  · rw [store_ok _ h]
    exact ⟨_, rfl, ⟨rfl, rfl, rfl, rfl⟩⟩

theorem resetRoundState_ok (g_Config : CConfig) (s : CGameTeams) (h : IsTeam Team) :
    ∃ s', s.ResetRoundState g_Config Team = .ok s' ∧ SameTeams s s' := by
  unfold ResetRoundState
  rw [access_ok h]
  exact resetPractice_ok g_Config s h

theorem Left.of_same {s' : CGameTeams} (h : Left s ClientId) (hsame : SameTeams s s') :
    Left s' ClientId := by
  obtain ⟨hteam, hstate, hlocked, hflock⟩ := hsame
  have hothers : ∀ t, Others s' ClientId t ↔ Others s ClientId t := by
    intro t
    unfold Others
    rw [hteam]
  refine ⟨fun t ht => ?_, fun t ht hfree => ?_⟩
  · rw [hstate, hothers]
    exact h.empty t ht
  · rw [hlocked, hflock]
    exact h.free t ht ((hothers t).not.mp hfree)

/-- The team that its last client has left. -/
def cleared (s : CGameTeams) (Team : Int) : CGameTeams :=
  { s with
    m_aTeamState := Function.update s.m_aTeamState Team .EMPTY
    m_aTeamLocked := Function.update s.m_aTeamLocked Team false
    m_aTeamFlock := Function.update s.m_aTeamFlock Team false }

/-- What holds of the other teams holds without regard to the client. -/
theorem Matches.others (h : Matches s) (hid : ClientId < MAX_CLIENTS) {t : Int} (ht : IsGroup t)
    (hne : s.m_aTeam ClientId ≠ t ∨ Others s ClientId t) :
    (s.m_aTeamState t = .EMPTY ↔ ¬ Others s ClientId t) ∧
      (¬ Others s ClientId t → s.m_aTeamLocked t = false ∧ s.m_aTeamFlock t = false) := by
  have hiff : Occupied s t ↔ Others s ClientId t := (occupied_iff hid t).trans
    ⟨fun hor => hor.elim (fun heq => hne.resolve_left (not_not_intro heq)) id, .inr⟩
  exact ⟨(h.empty t ht).trans hiff.not, fun hfree => h.free t ht (hiff.not.mpr hfree)⟩

theorem left_cleared (h : Matches s) (hid : ClientId < MAX_CLIENTS)
    (halone : ¬ Others s ClientId (s.m_aTeam ClientId)) :
    Left (cleared s (s.m_aTeam ClientId)) ClientId := by
  have hothers : ∀ t, t ≠ s.m_aTeam ClientId → IsGroup t →
      (s.m_aTeamState t = .EMPTY ↔ ¬ Others s ClientId t) ∧
        (¬ Others s ClientId t → s.m_aTeamLocked t = false ∧ s.m_aTeamFlock t = false) :=
    fun t hne ht => h.others hid ht (.inl (Ne.symm hne))
  refine ⟨fun t ht => ?_, fun t ht hfree => ?_⟩
  · show Function.update s.m_aTeamState (s.m_aTeam ClientId) .EMPTY t = .EMPTY ↔
      ¬ Others s ClientId t
    by_cases heq : t = s.m_aTeam ClientId
    · rw [heq, Function.update_self]
      exact ⟨fun _ => halone, fun _ => rfl⟩
    · rw [Function.update_of_ne heq]
      exact (hothers t heq ht).1
  · show Function.update s.m_aTeamLocked (s.m_aTeam ClientId) false t = false ∧
      Function.update s.m_aTeamFlock (s.m_aTeam ClientId) false t = false
    by_cases heq : t = s.m_aTeam ClientId
    · rw [heq, Function.update_self, Function.update_self]
      exact ⟨rfl, rfl⟩
    · rw [Function.update_of_ne heq, Function.update_of_ne heq]
      exact (hothers t heq ht).2 hfree

/-- The old team is given up by its last client. -/
theorem leave_spec (g_Config : CConfig) (h : Matches s) (hid : ClientId < MAX_CLIENTS)
    (hne : Team ≠ s.m_aTeam ClientId) :
    ∃ s', leave g_Config s (s.m_aTeam ClientId) Team = .ok s' ∧ s'.m_aTeam = s.m_aTeam ∧
      Left s' ClientId ∧ ∀ t, Others s ClientId t → s'.m_aTeamState t = s.m_aTeamState t := by
  have hteam := h.isTeam ClientId
  unfold leave
  by_cases hgroup : IsGroup (s.m_aTeam ClientId)
  · have hstate : s.m_aTeamState (s.m_aTeam ClientId) ≠ .EMPTY := fun hempty =>
      (h.empty _ hgroup).mp hempty ⟨ClientId, hid, rfl⟩
    have hsuper := Int.ne_of_lt hgroup.2
    have hcount := count_le_one_iff hsuper hid rfl
    rw [if_pos ⟨hne, Int.ne_of_gt hgroup.1, hsuper⟩, element_ok _ hteam]
    simp only [bind, Except.bind]
    by_cases hlast : s.Count (s.m_aTeam ClientId) ≤ 1
    · have halone : ¬ Others s ClientId (s.m_aTeam ClientId) := by
        rintro ⟨i, hi, hother, ht⟩
        exact hcount.mp hlast i hi hother ht
      rw [if_pos ⟨hstate, hlast⟩, store_ok _ hteam]
      simp only
      rw [setTeamLock_group hgroup, setTeamFlock_group hgroup]
      obtain ⟨s', hreset, hsame⟩ :=
        resetRoundState_ok g_Config (cleared s (s.m_aTeam ClientId)) hteam
      refine ⟨s', hreset, hsame.team, (left_cleared h hid halone).of_same hsame, fun t ht => ?_⟩
      have htne : t ≠ s.m_aTeam ClientId := fun heq => halone (heq ▸ ht)
      rw [hsame.state]
      exact Function.update_of_ne htne _ _
    · have hother : Others s ClientId (s.m_aTeam ClientId) := by
        by_contra halone
        exact hlast (hcount.mpr fun i hi hother ht => halone ⟨i, hi, hother, ht⟩)
      rw [if_neg fun hand => hlast hand.2]
      have hothers : ∀ t, IsGroup t → s.m_aTeam ClientId ≠ t ∨ Others s ClientId t := by
        intro t _
        by_cases heq : s.m_aTeam ClientId = t
        · exact .inr (heq ▸ hother)
        · exact .inl heq
      exact ⟨s, rfl, rfl, ⟨fun t ht => (h.others hid ht (hothers t ht)).1,
        fun t ht => (h.others hid ht (hothers t ht)).2⟩, fun _ _ => rfl⟩
  · have hrange := h.range ClientId
    have hcond : ¬ (Team ≠ s.m_aTeam ClientId ∧ s.m_aTeam ClientId ≠ TEAM_FLOCK ∧
        s.m_aTeam ClientId ≠ TEAM_SUPER) := by
      rintro ⟨-, hflock, hsuper⟩
      exact hgroup ⟨Int.lt_iff_le_and_ne.mpr ⟨hrange.1, Ne.symm hflock⟩,
        Int.lt_iff_le_and_ne.mpr ⟨hrange.2, hsuper⟩⟩
    have hothers : ∀ t, IsGroup t → s.m_aTeam ClientId ≠ t := fun t ht heq => hgroup (heq ▸ ht)
    rw [if_neg hcond]
    exact ⟨s, rfl, rfl, ⟨fun t ht => (h.others hid ht (.inl (hothers t ht))).1,
      fun t ht => (h.others hid ht (.inl (hothers t ht))).2⟩, fun _ _ => rfl⟩

/-- The new team is opened if it was empty. -/
theorem enter_spec (hrange : TEAM_FLOCK ≤ Team ∧ Team ≤ TEAM_SUPER) :
    ∃ s', s.enter Team = .ok s' ∧
      (SameTeams s s' ∧
          (Team = TEAM_SUPER ∨ s.m_aTeamState Team ≠ .EMPTY ∨ s.m_aTeamLocked Team = true) ∨
        s.m_aTeamState Team = .EMPTY ∧
          SameTeams { s with m_aTeamState := Function.update s.m_aTeamState Team .OPEN } s') := by
  have hteam := isTeam_of_range hrange
  unfold enter
  by_cases hsuper : Team = TEAM_SUPER
  · rw [if_pos hsuper]
    exact ⟨s, rfl, .inl ⟨.refl s, .inl hsuper⟩⟩
  rw [if_neg hsuper, element_ok _ hteam, element_ok _ hteam, element_ok _ hteam, access_ok hteam,
    changeTeamState_ok hteam]
  simp only [bind, Except.bind]
  cases hlocked : s.m_aTeamLocked Team with
  | true =>
      refine ⟨s, ?_, .inl ⟨.refl s, .inr (.inr rfl)⟩⟩
      simp only [Bool.true_eq_false, if_false, ite_self]
  | false =>
      by_cases hempty : s.m_aTeamState Team = .EMPTY
      · rw [if_pos (.inl hempty), if_pos rfl]
        exact ⟨_, rfl, .inr ⟨hempty, .refl _⟩⟩
      · rw [if_neg (by simp [hempty])]
        exact ⟨s, rfl, .inl ⟨.refl s, .inr (.inl hempty)⟩⟩

/-- With the client in its new team the teams match again. -/
theorem Left.joined (hleft : Left s ClientId) (hid : ClientId < MAX_CLIENTS)
    (hrange : TEAM_FLOCK ≤ Team ∧ Team ≤ TEAM_SUPER)
    (h : ∀ i, TEAM_FLOCK ≤ s.m_aTeam i ∧ s.m_aTeam i ≤ TEAM_SUPER) (m_aTeamState : Int → ETeamState)
    (hjoined : IsGroup Team → m_aTeamState Team ≠ .EMPTY)
    (hothers : ∀ t, t ≠ Team → m_aTeamState t = s.m_aTeamState t) :
    Matches { s with m_aTeamState, m_aTeam := Function.update s.m_aTeam ClientId Team } := by
  have hoccupied : ∀ t, Occupied
      { s with m_aTeamState, m_aTeam := Function.update s.m_aTeam ClientId Team } t ↔
        Team = t ∨ Others s ClientId t := by
    intro t
    rw [occupied_iff hid]
    refine or_congr ?_ ⟨?_, ?_⟩
    · show Function.update s.m_aTeam ClientId Team ClientId = t ↔ Team = t
      rw [Function.update_self]
    · rintro ⟨i, hi, hne, ht⟩
      exact ⟨i, hi, hne, (Function.update_of_ne hne Team s.m_aTeam).symm.trans ht⟩
    · rintro ⟨i, hi, hne, ht⟩
      exact ⟨i, hi, hne, (Function.update_of_ne hne Team s.m_aTeam).trans ht⟩
  refine ⟨fun i => ?_, fun t ht => ?_, fun t ht hfree => ?_⟩
  · show TEAM_FLOCK ≤ Function.update s.m_aTeam ClientId Team i ∧
      Function.update s.m_aTeam ClientId Team i ≤ TEAM_SUPER
    by_cases hi : i = ClientId
    · rw [hi, Function.update_self]
      exact hrange
    · rw [Function.update_of_ne hi]
      exact h i
  · rw [hoccupied]
    by_cases heq : t = Team
    · subst heq
      exact ⟨fun hempty => absurd hempty (hjoined ht), fun hnot => absurd (.inl rfl) hnot⟩
    · show m_aTeamState t = .EMPTY ↔ _
      rw [hothers t heq, hleft.empty t ht, or_iff_right (Ne.symm heq)]
  · exact hleft.free t ht fun hother => hfree ((hoccupied t).mpr (.inr hother))

/-- A client that is moved. -/
structure Moved (s s' : CGameTeams) (ClientId : Nat) (Team : Int) : Prop where
  teams : Matches s'
  team : s'.m_aTeam = Function.update s.m_aTeam ClientId Team
  state : ∀ t, s.m_aTeamState t ≠ .EMPTY → Others s ClientId t ∨ s.m_aTeam ClientId = Team →
    s'.m_aTeamState t = s.m_aTeamState t

theorem enter_joined (hleft : Left s ClientId) (hid : ClientId < MAX_CLIENTS)
    (hrange : TEAM_FLOCK ≤ Team ∧ Team ≤ TEAM_SUPER)
    (h : ∀ i, TEAM_FLOCK ≤ s.m_aTeam i ∧ s.m_aTeam i ≤ TEAM_SUPER) :
    ∃ s', enter { s with m_aTeam := Function.update s.m_aTeam ClientId Team } Team = .ok s' ∧
      Matches s' ∧ s'.m_aTeam = Function.update s.m_aTeam ClientId Team ∧
        ∀ t, s.m_aTeamState t ≠ .EMPTY → s'.m_aTeamState t = s.m_aTeamState t := by
  obtain ⟨s', hrun, ⟨hsame, hkept⟩ | ⟨hempty, hsame⟩⟩ :=
    enter_spec (s := { s with m_aTeam := Function.update s.m_aTeam ClientId Team }) hrange
  · refine ⟨s', hrun, ?_, hsame.team, fun t _ => congrFun hsame.state t⟩
    refine (hleft.joined hid hrange h s.m_aTeamState (fun hgroup hempty => ?_)
      fun _ _ => rfl).of_same hsame
    -- an empty team is not locked
    have hlocked := (hleft.free Team hgroup ((hleft.empty Team hgroup).mp hempty)).1
    rcases hkept with hsuper | hstate | hlocked'
    · exact Int.ne_of_lt hgroup.2 hsuper
    · exact hstate hempty
    · rw [show s.m_aTeamLocked Team = true from hlocked'] at hlocked
      cases hlocked
  · refine ⟨s', hrun, ?_, hsame.team, fun t ht => ?_⟩
    · refine (hleft.joined hid hrange h (Function.update s.m_aTeamState Team .OPEN)
        (fun _ => ?_) fun t hne => Function.update_of_ne hne _ _).of_same hsame
      rw [Function.update_self]
      decide
    · have hne : t ≠ Team := by
        rintro rfl
        exact ht hempty
      rw [hsame.state]
      exact Function.update_of_ne hne _ _

/-- Nothing but an opened team changes for a client that stays. -/
theorem enter_stayed (h : Matches s) (hid : ClientId < MAX_CLIENTS)
    (hteam : s.m_aTeam ClientId = Team) :
    ∃ s', enter s Team = .ok s' ∧ Matches s' ∧ s'.m_aTeam = s.m_aTeam ∧
      ∀ t, s.m_aTeamState t ≠ .EMPTY → s'.m_aTeamState t = s.m_aTeamState t := by
  obtain ⟨s', hrun, ⟨hsame, -⟩ | ⟨hempty, hsame⟩⟩ := enter_spec (s := s) (hteam ▸ h.range ClientId)
  · exact ⟨s', hrun, h.of_same hsame, hsame.team, fun t _ => congrFun hsame.state t⟩
  · have hopen := h.change .OPEN (by decide) ⟨ClientId, hid, hteam⟩
    refine ⟨s', hrun, hopen.of_same hsame, hsame.team, fun t ht => ?_⟩
    have hne : t ≠ Team := by
      rintro rfl
      exact ht hempty
    rw [hsame.state]
    exact Function.update_of_ne hne _ _

theorem setForceCharacterTeam_spec (g_Config : CConfig) (h : Matches s)
    (hid : ClientId < MAX_CLIENTS) (hrange : TEAM_FLOCK ≤ Team ∧ Team ≤ TEAM_SUPER) :
    ∃ s', s.SetForceCharacterTeam g_Config ClientId Team = .ok s' ∧ Moved s s' ClientId Team := by
  unfold SetForceCharacterTeam
  simp only
  generalize hs₁ : ({ s with
      m_aTeeStarted := Function.update s.m_aTeeStarted ClientId false
      m_aTeeFinished := Function.update s.m_aTeeFinished ClientId false } : CGameTeams) = s₁
  have hsame : SameTeams s s₁ := by
    rw [← hs₁]
    exact ⟨rfl, rfl, rfl, rfl⟩
  have h₁ := h.of_same hsame
  have hteam₁ := hsame.team
  have hstate₁ := hsame.state
  rw [← hteam₁]
  by_cases heq : s₁.m_aTeam ClientId = Team
  · obtain ⟨s', hrun, hmatches, hteam, hstate⟩ := enter_stayed h₁ hid heq
    have hleave : leave g_Config s₁ (s₁.m_aTeam ClientId) Team = .ok s₁ :=
      if_neg fun hand => hand.1 heq.symm
    have hupdate : Function.update s₁.m_aTeam ClientId Team = s₁.m_aTeam := by
      rw [← heq, Function.update_eq_self]
    rw [hleave]
    simp only [bind, Except.bind, if_pos hrange, hupdate]
    refine ⟨s', hrun, hmatches, ?_, fun t ht _ => ?_⟩
    · rw [hteam, ← hteam₁, hupdate]
    · rw [← hstate₁] at ht ⊢
      exact hstate t ht
  · obtain ⟨s₂, hleave, hteam₂, hleft, hstate₂⟩ :=
      leave_spec g_Config h₁ hid (Ne.symm heq)
    obtain ⟨s', hrun, hmatches, hteam, hstate⟩ :=
      enter_joined hleft hid hrange (hteam₂ ▸ h₁.range)
    rw [hleave]
    simp only [bind, Except.bind, if_pos hrange]
    refine ⟨s', hrun, hmatches, ?_, fun t ht hkept => ?_⟩
    · rw [hteam, hteam₂, hteam₁]
    · rw [← hteam₁] at hkept
      have hother : Others s₁ ClientId t := by
        have hkept := hkept.resolve_right heq
        unfold Others at hkept ⊢
        rwa [hteam₁]
      have hsame := hstate₂ t hother
      rw [← hstate₁] at ht ⊢
      rw [hstate t (hsame ▸ ht), hsame]

end Change

/-! ## Calls -/

section Calls

variable {g_Config : CConfig} {s : CGameTeams} {ClientId : Nat} {Team : Int}

theorem range_flock : TEAM_FLOCK ≤ TEAM_FLOCK ∧ TEAM_FLOCK ≤ TEAM_SUPER := by decide

theorem isLocked_ok (s : CGameTeams) (h : IsTeam Team) : ∃ b, s.IsLocked Team = .ok b := by
  unfold IsLocked
  split
  · exact ⟨false, rfl⟩
  · exact ⟨_, element_ok _ h⟩

theorem rejoin_spec (h : Matches s) (hid : ClientId < MAX_CLIENTS) :
    ∃ s', s.rejoin g_Config ClientId = .ok s' ∧ Matches s' := by
  obtain ⟨s', hrun, hmoved⟩ := setForceCharacterTeam_spec g_Config h hid range_flock
  obtain ⟨Locked, hlocked⟩ := isLocked_ok s (h.isTeam ClientId)
  unfold rejoin
  split
  · rw [hlocked, hrun]
    cases Locked with
    | true => exact ⟨s, rfl, h⟩
    | false => exact ⟨s', rfl, hmoved.teams⟩
  · exact ⟨s, rfl, h⟩

theorem onTeamFinish_spec (h : Matches s) {Players : List Nat}
    (hPlayers : ∀ i ∈ Players, i < MAX_CLIENTS) :
    ∃ s', s.OnTeamFinish g_Config Players = .ok s' ∧ Matches s' :=
  foldlM_ok Matches (fun _ i hi hs => rejoin_spec hs (hPlayers i hi)) h

theorem finishTeam_spec (h : Matches s) {Players : List Nat}
    (hPlayers : ∀ i ∈ Players, i < MAX_CLIENTS ∧ s.m_aTeam i = Team) :
    ∃ s', s.finishTeam g_Config Team Players = .ok s' ∧ Matches s' := by
  cases Players with
  | nil => exact ⟨s, rfl, h⟩
  | cons first rest =>
      obtain ⟨hfirst, hteam⟩ := hPlayers first List.mem_cons_self
      have hisTeam : IsTeam Team := hteam ▸ h.isTeam first
      have hfinished : (.FINISHED : ETeamState) ≠ .EMPTY := by decide
      unfold finishTeam
      simp only
      split
      · exact ⟨s, rfl, h⟩
      · rw [element_ok _ hisTeam]
        simp only [bind, Except.bind]
        split
        · rw [changeTeamState_ok hisTeam]
          have hchanged := h.change .FINISHED hfinished ⟨first, hfirst, hteam⟩
          exact ⟨_, rfl, hchanged.of_same
            (sameTeams_foldl (fun s i => sameTeams_setDDRaceState s i .FINISHED) _ _)⟩
        · rw [changeTeamState_ok hisTeam]
          have hsame := sameTeams_foldl sameTeams_onFinish (first :: rest) s
          have hteam' : Occupied ((first :: rest).foldl OnFinish s) Team := by
            refine ⟨first, hfirst, ?_⟩
            rw [hsame.team]
            exact hteam
          exact onTeamFinish_spec ((h.of_same hsame).change .FINISHED hfinished hteam')
            fun i hi => (hPlayers i hi).1

theorem checkTeamFinished_spec (g_Config : CConfig) (h : Matches s) (hteam : IsTeam Team) :
    ∃ s', s.CheckTeamFinished g_Config Team = .ok s' ∧ Matches s' ∧
      (s.m_aTeamState Team ≠ .STARTED → s' = s) := by
  unfold CheckTeamFinished TeamFinished
  rw [element_ok _ hteam]
  simp only [bind, Except.bind, pure, Except.pure]
  split
  next hfinished =>
    have hstarted := of_decide_eq_true (Bool.and_eq_true_iff.mp hfinished).1
    have hsame : SameTeams s (s.clearFlags ((s.members Team).filter s.IsPlaying)) :=
      ⟨rfl, rfl, rfl, rfl⟩
    obtain ⟨s', hrun, hs'⟩ := finishTeam_spec (h.of_same hsame) fun i hi =>
      mem_members.mp (List.mem_of_mem_filter hi)
    exact ⟨s', hrun, hs', fun hnot => absurd hstarted hnot⟩
  next => exact ⟨s, rfl, h, fun _ => rfl⟩

theorem hasStarted_ok (s : CGameTeams) (h : IsTeam Team) : ∃ b, s.hasStarted Team = .ok b := by
  unfold hasStarted
  split
  · exact ⟨false, rfl⟩
  · rw [element_ok _ h, element_ok _ h, element_ok _ h]
    exact ⟨_, rfl⟩

theorem rejection_ok (g_Config : CConfig) (h : Matches s) (ClientId : Nat)
    (hrange : TEAM_FLOCK ≤ Team ∧ Team ≤ TEAM_SUPER) :
    ∃ error, s.rejection g_Config ClientId Team = .ok error := by
  obtain ⟨started, hstarted⟩ := hasStarted_ok s (isTeam_of_range hrange)
  unfold rejection
  rw [hstarted, element_ok _ (h.isTeam ClientId)]
  simp only [bind, Except.bind, pure, Except.pure]
  split
  · exact ⟨_, rfl⟩
  · split
    · exact ⟨_, rfl⟩
    · split
      · exact ⟨_, rfl⟩
      · split
        · exact ⟨_, rfl⟩
        · split
          · exact ⟨_, rfl⟩
          · exact ⟨_, rfl⟩

theorem setCharacterTeam_spec (g_Config : CConfig) {ClientId Team : Int} (h : Matches s)
    (hteam : 0 ≤ ClientId → ClientId < MAX_CLIENTS → Team ≠ NUM_DDRACE_TEAMS) :
    ∃ r, s.SetCharacterTeam g_Config ClientId Team = .ok r ∧ Matches r.2 := by
  unfold SetCharacterTeam
  split
  · exact ⟨_, rfl, h⟩
  next hclient =>
    split
    · exact ⟨_, rfl, h⟩
    next hnumber =>
      obtain ⟨hlow, hhigh⟩ := not_or.mp hclient
      have hid : ClientId.toNat < MAX_CLIENTS := by omega
      have hrange : TEAM_FLOCK ≤ Team ∧ Team ≤ TEAM_SUPER := by
        have hne := hteam (by omega) (by omega)
        unfold NUM_DDRACE_TEAMS at *
        unfold TEAM_FLOCK TEAM_SUPER at *
        omega
      obtain ⟨error, hrejection⟩ := rejection_ok g_Config h ClientId.toNat hrange
      rw [hrejection]
      cases error with
      | some error => exact ⟨_, rfl, h⟩
      | none =>
          obtain ⟨s', hrun, hmoved⟩ := setForceCharacterTeam_spec g_Config h hid hrange
          simp only [bind, Except.bind, hrun]
          exact ⟨_, rfl, hmoved.teams⟩

theorem onCharacterFinish_spec (h : Matches s) :
    ∃ s', s.OnCharacterFinish g_Config ClientId = .ok s' ∧ Matches s' := by
  have hteam := h.isTeam ClientId
  unfold OnCharacterFinish
  simp only
  rw [element_ok _ hteam]
  simp only [bind, Except.bind, pure, Except.pure]
  split
  · split
    · exact ⟨_, rfl, h.of_same (sameTeams_onFinish s ClientId)⟩
    · exact ⟨s, rfl, h⟩
  · have hsame : SameTeams s
        { s with
          m_aTeeFinished :=
            if s.m_aTeeStarted ClientId then Function.update s.m_aTeeFinished ClientId true
            else s.m_aTeeFinished } := ⟨rfl, rfl, rfl, rfl⟩
    obtain ⟨s', hrun, hs', -⟩ := checkTeamFinished_spec g_Config (h.of_same hsame) hteam
    exact ⟨s', hrun, hs'⟩

theorem finishUnlessFlock_spec (g_Config : CConfig) (h : Matches s) {FlockTeam : Int}
    (hflock : IsTeam FlockTeam) (hteam : IsTeam Team) :
    ∃ s', s.finishUnlessFlock g_Config FlockTeam Team = .ok s' ∧ Matches s' ∧
      (s.m_aTeamState Team ≠ .STARTED → s' = s) := by
  unfold finishUnlessFlock
  rw [element_ok _ hflock]
  simp only [bind, Except.bind]
  split
  · exact ⟨s, rfl, h, fun _ => rfl⟩
  · exact checkTeamFinished_spec g_Config h hteam

theorem onCharacterSpawn_spec (h : Matches s) (hid : ClientId < MAX_CLIENTS) :
    ∃ s', s.OnCharacterSpawn g_Config ClientId = .ok s' ∧ Matches s' := by
  have hteam := h.isTeam ClientId
  obtain ⟨s', hrun, hmoved⟩ := setForceCharacterTeam_spec g_Config h hid range_flock
  obtain ⟨s₂, hrun₂, hs₂, -⟩ := finishUnlessFlock_spec g_Config hmoved.teams hteam hteam
  obtain ⟨Locked, hlocked⟩ := isLocked_ok s hteam
  unfold OnCharacterSpawn
  simp only
  split
  · exact ⟨s, rfl, h⟩
  · rw [hlocked, hrun]
    cases Locked with
    | true => exact ⟨s, rfl, h⟩
    | false => exact ⟨s₂, hrun₂, hs₂⟩

theorem occupied_self (s : CGameTeams) (hid : ClientId < MAX_CLIENTS) :
    Occupied s (s.m_aTeam ClientId) := ⟨ClientId, hid, rfl⟩

/-- The flags and the race of a client that starts. -/
theorem sameTeams_started (s : CGameTeams) (ClientId : Nat) :
    SameTeams s (CGameTeams.SetStartTime
      (SetDDRaceState { s with m_aTeeStarted := Function.update s.m_aTeeStarted ClientId true }
        ClientId .STARTED) ClientId s.Tick) :=
  have hflags : SameTeams s
    { s with m_aTeeStarted := Function.update s.m_aTeeStarted ClientId true } :=
    ⟨rfl, rfl, rfl, rfl⟩
  (hflags.trans (sameTeams_setDDRaceState ..)).trans (sameTeams_setStartTime ..)

theorem startFlock_spec (h : Matches s) (hid : ClientId < MAX_CLIENTS) :
    ∃ s', s.startFlock ClientId = .ok s' ∧ Matches s' := by
  have hteam := h.isTeam ClientId
  unfold startFlock
  simp only
  rw [element_ok _ hteam, changeTeamState_ok hteam]
  simp only [bind, Except.bind, pure, Except.pure]
  split
  · have hchanged := h.change .STARTED (by decide) (occupied_self s hid)
    exact ⟨_, rfl, hchanged.of_same (sameTeams_started ..)⟩
  · exact ⟨_, rfl, h.of_same (sameTeams_started ..)⟩

theorem startTeam_spec (h : Matches s) (hid : ClientId < MAX_CLIENTS) :
    ∃ s', s.startTeam ClientId = .ok s' ∧ Matches s' := by
  have hteam := h.isTeam ClientId
  unfold startTeam
  simp only
  rw [element_ok _ hteam, access_ok hteam, changeTeamState_ok hteam]
  simp only [bind, Except.bind, pure, Except.pure]
  split
  · exact ⟨_, rfl, h.of_same (sameTeams_setDDRaceState ..)⟩
  · have hflags : SameTeams s
      { s with m_aTeeStarted := Function.update s.m_aTeeStarted ClientId true } :=
      ⟨rfl, rfl, rfl, rfl⟩
    split
    · have hchanged := (h.of_same hflags).change .STARTED (by decide)
        (occupied_self _ hid)
      refine ⟨_, rfl, hchanged.of_same (sameTeams_foldl (fun s i => ?_) _ _)⟩
      exact (sameTeams_setDDRaceState ..).trans (sameTeams_setStartTime ..)
    · exact ⟨_, rfl, h.of_same hflags⟩

theorem onCharacterStart_spec (h : Matches s) (hid : ClientId < MAX_CLIENTS) :
    ∃ s', s.OnCharacterStart ClientId = .ok s' ∧ Matches s' := by
  unfold OnCharacterStart
  simp only
  split
  · exact ⟨s, rfl, h⟩
  · rw [element_ok _ (h.isTeam ClientId)]
    simp only [bind, Except.bind, pure, Except.pure]
    split
    · exact ⟨s, rfl, h⟩
    · split
      · exact startFlock_spec h hid
      · exact startTeam_spec h hid

end Calls

/-! ## Deaths -/

section Deaths

variable {g_Config : CConfig} {s : CGameTeams} {ClientId : Nat} {Team : Int}

/-- A team with members is locked or unlocked. -/
theorem Matches.setTeamLock (h : Matches s) (hoccupied : Occupied s Team) (Lock : Bool) :
    Matches (s.SetTeamLock Team Lock) := by
  unfold SetTeamLock
  split
  · refine ⟨h.range, h.empty, fun t ht hfree => ?_⟩
    have hne : t ≠ Team := fun heq => hfree (heq ▸ hoccupied)
    have hkept : Function.update s.m_aTeamLocked Team Lock t = s.m_aTeamLocked t :=
      Function.update_of_ne hne _ _
    exact ⟨hkept.trans (h.free t ht hfree).1, (h.free t ht hfree).2⟩
  · exact h

theorem Matches.setTeamFlock (h : Matches s) (hoccupied : Occupied s Team) (Mode : Bool) :
    Matches (s.SetTeamFlock Team Mode) := by
  unfold SetTeamFlock
  split
  · refine ⟨h.range, h.empty, fun t ht hfree => ?_⟩
    have hne : t ≠ Team := fun heq => hfree (heq ▸ hoccupied)
    have hkept : Function.update s.m_aTeamFlock Team Mode t = s.m_aTeamFlock t :=
      Function.update_of_ne hne _ _
    exact ⟨(h.free t ht hfree).1, hkept.trans (h.free t ht hfree).2⟩
  · exact h

/-- While a team is killed its state stays open, and the client that died first stays in it. -/
structure Dying (s : CGameTeams) (ClientId : Nat) (Team : Int) : Prop where
  teams : Matches s
  opened : s.m_aTeamState Team = .OPEN
  survivor : s.m_aTeam ClientId = Team

theorem Dying.of_same {s' : CGameTeams} (h : Dying s ClientId Team) (hsame : SameTeams s s') :
    Dying s' ClientId Team where
  teams := h.teams.of_same hsame
  opened := (congrFun hsame.state Team).trans h.opened
  survivor := (congrFun hsame.team ClientId).trans h.survivor

theorem Dying.moved {s' : CGameTeams} {i : Nat} {NewTeam : Int} (h : Dying s ClientId Team)
    (hid : ClientId < MAX_CLIENTS) (hne : i ≠ ClientId) (hmoved : Moved s s' i NewTeam) :
    Dying s' ClientId Team where
  teams := hmoved.teams
  opened := by
    have hopen : s.m_aTeamState Team ≠ .EMPTY := by
      rw [h.opened]
      decide
    rw [hmoved.state Team hopen (.inl ⟨ClientId, hid, hne.symm, h.survivor⟩)]
    exact h.opened
  survivor := by
    rw [hmoved.team, Function.update_of_ne hne.symm]
    exact h.survivor

/-- Another death in a team that is killed kills nobody else. -/
theorem death_nested (g_Config : CConfig) (depth : Nat) (h : Dying s ClientId Team)
    (hid : ClientId < MAX_CLIENTS) {i : Nat} (hi : i < MAX_CLIENTS) (hne : i ≠ ClientId)
    (hteam : s.m_aTeam i = Team) :
    ∃ s', OnCharacterDeath g_Config (depth + 1) s i WEAPON_SELF = .ok s' ∧
      Dying s' ClientId Team := by
  have hisTeam : IsTeam Team := hteam ▸ h.teams.isTeam i
  unfold OnCharacterDeath
  simp only [hteam]
  split
  · exact ⟨s, rfl, h⟩
  · split
    · obtain ⟨s', hrun, hmoved⟩ :=
        setForceCharacterTeam_spec g_Config h.teams hi (hteam ▸ h.teams.range i)
      have hdying := h.moved hid hne hmoved
      unfold dieLocked GetTeamState
      rw [hrun]
      simp only [bind, Except.bind]
      rw [element_ok _ hisTeam, element_ok _ (hmoved.teams.isTeam i), hdying.opened]
      exact ⟨s', if_neg fun hand => hand.1 rfl, hdying⟩
    · obtain ⟨s', hrun, hmoved⟩ := setForceCharacterTeam_spec g_Config h.teams hi range_flock
      have hdying := h.moved hid hne hmoved
      obtain ⟨s₂, hrun₂, -, hsame⟩ := finishUnlessFlock_spec g_Config hmoved.teams
        (hmoved.teams.isTeam i) hisTeam
      have hopen : s'.m_aTeamState Team ≠ .STARTED := by
        rw [hdying.opened]
        decide
      have hmark : s.markUnfinishable i Team = .ok s := by
        unfold markUnfinishable
        rw [element_ok _ hisTeam, element_ok _ hisTeam, h.opened]
        rfl
      unfold dieUnlocked
      rw [hmark]
      simp only [bind, Except.bind, hrun]
      rw [hrun₂, hsame hopen]
      exact ⟨s', rfl, hdying⟩

theorem killTeam_spec (g_Config : CConfig) (depth : Nat) (h : Dying s ClientId Team)
    (hid : ClientId < MAX_CLIENTS) :
    ∃ s', KillTeam (fun s i => OnCharacterDeath g_Config (depth + 1) s i WEAPON_SELF) s Team
      ClientId = .ok s' ∧ Dying s' ClientId Team := by
  refine foldlM_ok (fun s => Dying s ClientId Team) (fun s i hi hs => ?_) h
  split
  next hmember =>
    obtain ⟨hteam, hne⟩ := hmember
    unfold KillCharacter
    split
    · exact ⟨s, rfl, hs⟩
    next pChar _ =>
      obtain ⟨s', hrun, hdying⟩ := death_nested g_Config depth
        (hs.of_same (sameTeams_setCharacter s i (some { pChar with m_Alive := false }))) hid
        (List.mem_range.mp hi) hne hteam
      simp only [bind, Except.bind, hrun]
      exact ⟨_, rfl, hdying.of_same (sameTeams_setCharacter ..)⟩
  next => exact ⟨s, rfl, hs⟩

theorem killRest_spec (g_Config : CConfig) (depth : Nat) (h : Dying s ClientId Team)
    (hid : ClientId < MAX_CLIENTS) :
    ∃ s', s.killRest g_Config
        (fun s i => OnCharacterDeath g_Config (depth + 1) s i WEAPON_SELF) ClientId Team = .ok s' ∧
      Matches s' := by
  unfold killRest
  split
  · split
    · have hunlocked : Dying (s.SetTeamLock Team false) ClientId Team :=
        { teams := h.teams.setTeamLock ⟨ClientId, hid, h.survivor⟩ false
          opened := by
            unfold SetTeamLock
            split
            · exact h.opened
            · exact h.opened
          survivor := by
            unfold SetTeamLock
            split
            · exact h.survivor
            · exact h.survivor }
      obtain ⟨s', hrun, hs'⟩ := killTeam_spec g_Config depth hunlocked hid
      exact ⟨s', hrun, hs'.teams⟩
    · obtain ⟨s', hrun, hs'⟩ := killTeam_spec g_Config depth h hid
      exact ⟨s', hrun, hs'.teams⟩
  · exact ⟨s, rfl, h.teams⟩

theorem dieLocked_spec (depth : Nat) (h : Matches s) (hid : ClientId < MAX_CLIENTS)
    (hteam : s.m_aTeam ClientId = Team) :
    ∃ s', s.dieLocked g_Config
        (fun s i => OnCharacterDeath g_Config (depth + 1) s i WEAPON_SELF) ClientId Team = .ok s' ∧
      Matches s' := by
  have hrange := hteam ▸ h.range ClientId
  have hisTeam := isTeam_of_range hrange
  obtain ⟨s₁, hrun, hmoved⟩ := setForceCharacterTeam_spec g_Config h hid hrange
  have hteam₁ : s₁.m_aTeam ClientId = Team := by rw [hmoved.team, Function.update_self]
  unfold dieLocked GetTeamState
  rw [hrun]
  simp only [bind, Except.bind]
  rw [element_ok _ hisTeam, element_ok _ (hmoved.teams.isTeam ClientId), changeTeamState_ok hisTeam]
  simp only
  split
  · have hopened : Dying
        { s₁ with m_aTeamState := Function.update s₁.m_aTeamState Team .OPEN } ClientId Team :=
      { teams := hmoved.teams.change .OPEN (by decide) ⟨ClientId, hid, hteam₁⟩
        opened := Function.update_self ..
        survivor := hteam₁ }
    obtain ⟨s₂, hpractice, hsame⟩ := resetPractice_ok g_Config
      { s₁ with m_aTeamState := Function.update s₁.m_aTeamState Team .OPEN } hisTeam
    rw [hpractice]
    exact killRest_spec g_Config depth (hopened.of_same hsame) hid
  · exact ⟨s₁, rfl, hmoved.teams⟩

theorem dieUnlocked_spec (h : Matches s) (hid : ClientId < MAX_CLIENTS)
    (hteam : s.m_aTeam ClientId = Team) :
    ∃ s', s.dieUnlocked g_Config ClientId Team = .ok s' ∧ Matches s' := by
  have hisTeam : IsTeam Team := hteam ▸ h.isTeam ClientId
  have hmark : ∃ s₁, s.markUnfinishable ClientId Team = .ok s₁ ∧ Matches s₁ := by
    unfold markUnfinishable
    rw [element_ok _ hisTeam, element_ok _ hisTeam, access_ok hisTeam, changeTeamState_ok hisTeam]
    simp only [bind, Except.bind]
    split
    · exact ⟨_, rfl, h.change .STARTED_UNFINISHABLE (by decide) ⟨ClientId, hid, hteam⟩⟩
    · exact ⟨s, rfl, h⟩
  obtain ⟨s₁, hrun₁, hs₁⟩ := hmark
  obtain ⟨s₂, hrun₂, hmoved⟩ := setForceCharacterTeam_spec g_Config hs₁ hid range_flock
  obtain ⟨s', hrun', hs', -⟩ :=
    finishUnlessFlock_spec g_Config hmoved.teams (hmoved.teams.isTeam ClientId) hisTeam
  unfold dieUnlocked
  rw [hrun₁]
  simp only [bind, Except.bind, hrun₂]
  exact ⟨s', hrun', hs'⟩

theorem onCharacterDeath_spec (depth : Nat) (h : Matches s) (hid : ClientId < MAX_CLIENTS)
    (Weapon : Int) :
    ∃ s', OnCharacterDeath g_Config (depth + 2) s ClientId Weapon = .ok s' ∧ Matches s' := by
  unfold OnCharacterDeath
  simp only
  split
  · exact ⟨s, rfl, h⟩
  · split
    · exact dieLocked_spec depth h hid rfl
    · exact dieUnlocked_spec h hid rfl

end Deaths

/-! ## Runs -/

/-- The clients are valid, a client is forced into a team that exists, and only a team with members
is locked, unlocked or made like team 0. -/
def Called (s : CGameTeams) : Op → Prop
  | .SetCharacterTeam _ _ => True
  | .SetForceCharacterTeam ClientId Team =>
      ClientId < MAX_CLIENTS ∧ TEAM_FLOCK ≤ Team ∧ Team ≤ TEAM_SUPER
  | .OnCharacterStart ClientId => ClientId < MAX_CLIENTS
  | .OnCharacterFinish ClientId => ClientId < MAX_CLIENTS
  | .OnCharacterSpawn ClientId => ClientId < MAX_CLIENTS
  | .OnCharacterDeath ClientId _ => ClientId < MAX_CLIENTS
  | .SetTeamLock Team _ => Occupied s Team
  | .SetTeamFlock Team _ => Occupied s Team
  | .world _ _ _ _ => True

/-- No valid client asks for the team behind the last one. -/
def Avoids : Op → Prop
  | .SetCharacterTeam ClientId Team =>
      0 ≤ ClientId → ClientId < MAX_CLIENTS → Team ≠ NUM_DDRACE_TEAMS
  | _ => True

/-- The states that calls lead to behind a reset. -/
abbrev Run (g_Config : CConfig) (depth : Nat) (s₀ s : CGameTeams) : Prop :=
  Reachable (step g_Config depth) (fun s op => Called s op ∧ Avoids op) (s₀.Reset g_Config) s

section

variable {g_Config : CConfig} {s : CGameTeams}

theorem step_spec (g_Config : CConfig) (depth : Nat) (h : Matches s) {op : Op}
    (hcalled : Called s op) (havoids : Avoids op) :
    ∃ s', step g_Config (depth + 2) s op = .ok s' ∧ Matches s' := by
  cases op with
  | SetCharacterTeam ClientId Team =>
      obtain ⟨r, hrun, hr⟩ := setCharacterTeam_spec g_Config h havoids
      exact ⟨r.2, by rw [step, hrun]; rfl, hr⟩
  | SetForceCharacterTeam ClientId Team =>
      obtain ⟨s', hrun, hmoved⟩ := setForceCharacterTeam_spec g_Config h hcalled.1 hcalled.2
      exact ⟨s', hrun, hmoved.teams⟩
  | OnCharacterStart ClientId => exact onCharacterStart_spec h hcalled
  | OnCharacterFinish ClientId => exact onCharacterFinish_spec h
  | OnCharacterSpawn ClientId => exact onCharacterSpawn_spec h hcalled
  | OnCharacterDeath ClientId Weapon => exact onCharacterDeath_spec depth h hcalled Weapon
  | SetTeamLock Team Lock => exact ⟨_, rfl, h.setTeamLock hcalled Lock⟩
  | SetTeamFlock Team Mode => exact ⟨_, rfl, h.setTeamFlock hcalled Mode⟩
  | world m_apPlayers Tick m_aPractice m_apSaveTeamResult =>
      exact ⟨_, rfl, h.of_same ⟨rfl, rfl, rfl, rfl⟩⟩

theorem matches_reset (g_Config : CConfig) (s : CGameTeams) : Matches (s.Reset g_Config) := by
  refine ⟨fun i => range_flock, fun t ht => ⟨fun _ => ?_, fun _ => rfl⟩, fun t _ _ => ⟨rfl, rfl⟩⟩
  rintro ⟨i, -, hteam⟩
  exact Int.ne_of_lt ht.1 hteam

theorem Run.teams {depth : Nat} {s₀ : CGameTeams} (h : Run g_Config (depth + 2) s₀ s) :
    Matches s := by
  refine h.invariant (matches_reset g_Config s₀) fun s t op hs hop hstep => ?_
  obtain ⟨s', hrun, hs'⟩ := step_spec g_Config depth hs hop.1 hop.2
  rw [hstep] at hrun
  cases hrun
  exact hs'

/-- A valid client that asks for the team behind the last one reads behind the array. -/
theorem setCharacterTeam_behind {ClientId : Int} (hid : 0 ≤ ClientId ∧ ClientId < MAX_CLIENTS) :
    s.SetCharacterTeam g_Config ClientId NUM_DDRACE_TEAMS = .error .outOfBounds := by
  have hclient : ¬ (ClientId < 0 ∨ ClientId ≥ MAX_CLIENTS) := by omega
  unfold SetCharacterTeam rejection
  rw [if_neg hclient]
  rfl

end

/-- In every run in which no valid client asks for the team behind the last one, a team is empty
exactly when it has no members, teams without members are neither locked nor like team 0, and the
next call succeeds as long as it does not ask for that team either. -/
theorem teams_match {g_Config : CConfig} {depth : Nat} {s₀ s : CGameTeams}
    (h : Run g_Config (depth + 2) s₀ s) :
    (∀ t, TEAM_FLOCK < t → t < TEAM_SUPER →
      (s.m_aTeamState t = .EMPTY ↔ ∀ i < MAX_CLIENTS, s.m_aTeam i ≠ t) ∧
      ((∀ i < MAX_CLIENTS, s.m_aTeam i ≠ t) →
        s.m_aTeamLocked t = false ∧ s.m_aTeamFlock t = false)) ∧
    ∀ op, Called s op →
      ((∃ s', step g_Config (depth + 2) s op = .ok s') ↔ Avoids op) := by
  have hmatches := Run.teams h
  have hfree : ∀ t, ¬ Occupied s t ↔ ∀ i < MAX_CLIENTS, s.m_aTeam i ≠ t := by
    intro t
    constructor
    · exact fun hfree i hi hteam => hfree ⟨i, hi, hteam⟩
    · rintro hfree ⟨i, hi, hteam⟩
      exact hfree i hi hteam
  constructor
  · intro t hlow hhigh
    rw [← hfree]
    exact ⟨hmatches.empty t ⟨hlow, hhigh⟩, hmatches.free t ⟨hlow, hhigh⟩⟩
  · intro op hcalled
    constructor
    · rintro ⟨s', hstep⟩
      cases op with
      | SetCharacterTeam ClientId Team =>
          rintro hlow hhigh rfl
          rw [step, setCharacterTeam_behind ⟨hlow, hhigh⟩] at hstep
          cases hstep
      | _ => trivial
    · intro havoids
      obtain ⟨s', hrun, -⟩ := step_spec g_Config depth hmatches hcalled havoids
      exact ⟨s', hrun⟩

/-- A game without players. -/
def nobody : CGameTeams where
  m_aTeam := fun _ => 0
  m_aTeeStarted := fun _ => false
  m_aTeeFinished := fun _ => false
  m_aTeamState := fun _ => .EMPTY
  m_aTeamLocked := fun _ => false
  m_aTeamFlock := fun _ => false
  m_aPractice := fun _ => false
  m_apSaveTeamResult := fun _ => false
  m_apPlayers := fun _ => none
  Tick := 0

def someConfig : CConfig where
  m_SvRejoinTeam0 := true
  m_SvMaxTeamSize := 64
  PracticeByDefault := false

/-- Client 0 was put into team 5. -/
def inTeamFive : CGameTeams :=
  ((step someConfig 2 (nobody.Reset someConfig) (.SetForceCharacterTeam 0 5)).toOption).getD nobody

theorem teams_match_five :
    inTeamFive.m_aTeamState 5 = .EMPTY ↔ ∀ i < MAX_CLIENTS, inTeamFive.m_aTeam i ≠ 5 := by
  have hrun : Run someConfig (0 + 2) nobody inTeamFive :=
    .next (.SetForceCharacterTeam 0 5) .init ⟨⟨by decide, by decide, by decide⟩, trivial⟩ rfl
  exact ((teams_match hrun).1 5 (by decide) (by decide)).1

/-- The team behind the last one is not refused. -/
theorem team_behind_not_refused :
    Run someConfig 2 nobody (nobody.Reset someConfig) ∧
      step someConfig 2 (nobody.Reset someConfig) (.SetCharacterTeam 0 65) = .error .outOfBounds :=
  ⟨.init, rfl⟩

end Fex.Game.Teams
