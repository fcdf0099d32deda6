import Fex.Game.TeeHistorian.Invariant

/-!
# Runs of the recorder

The stream of every run decodes to the records of its calls, each at the tick that was begun last.
Only the record of the end is written without its tick.
-/

namespace Fex.Game.TeeHistorian

open Fex.Lib Fex.Engine.Packer CTeeHistorian
open Fex.Engine.Snapshot (CUuid)

variable (CalculateUuid : String → CUuid)

/-- The tick behind a call. -/
def Call.tick (tick : Int) : Call → Int
  | .BeginTick Tick => Tick
  | _ => tick

/-- What is asked of a call: ticks increase, an unique id is not zero, which means no id, and what
is recorded fits the packer. -/
def Allowed (tick : Int) (s : CTeeHistorian) : Call → Prop
  | .BeginTick Tick => tick < Tick ∧ Tick ≤ intMax
  | .RecordPlayer _ m_X m_Y => IsInt32 m_X ∧ IsInt32 m_Y
  | .RecordPlayerInput _ UniqueClientId _ => UniqueClientId ≠ 0
  | c => ∀ k ∈ packets CalculateUuid s c, k.Fits

/-- Runs of calls that no assertion stops, with the tick begun last, the records that were written
and what was recorded about the clients. -/
inductive Run : Int → List (Int × Record) → Clients → CTeeHistorian → Prop
  | start (s₀ : CTeeHistorian) {s : CTeeHistorian} (h : s₀.Reset = .ok s) : Run 0 [] .start s
  | call {tick : Int} {log : List (Int × Record)} {clients : Clients} {s s' : CTeeHistorian}
      (c : Call) (hrun : Run tick log clients s) (hallowed : Allowed CalculateUuid tick s c)
      (hstep : step CalculateUuid s c = .ok s') :
      Run (c.tick tick)
        (log ++ (packets CalculateUuid s c).map fun k => (c.tick tick, k.record))
        (clients.call c) s'

/-- The record of the end. -/
def finish : Record := { type := -TEEHISTORIAN_FINISH, values := [] }

section

variable {CalculateUuid : String → CUuid} {s s' : CTeeHistorian} {log : List (Int × Record)}
  {clients : Clients} {tick : Int} {c : Call}

theorem Call.Other.quiet (h : c.Other) (clients : Clients) (tick : Int) :
    clients.call c = clients ∧ c.tick tick = tick := by
  cases c <;> first | exact h.elim | exact ⟨rfl, rfl⟩

theorem Call.Other.type_le (h : c.Other) (CalculateUuid : String → CUuid) (s : CTeeHistorian) :
    ∀ k ∈ packets CalculateUuid s c, k.record.type ≤ -TEEHISTORIAN_MESSAGE := by
  have hextra : (-11 : Int) ≤ -7 := by decide
  intro k hk
  cases c with
  | RecordPlayerMessage ClientId pMsg => exact List.mem_singleton.mp hk ▸ Int.le_refl (-7)
  | RecordPlayerDrop ClientId pReason =>
      exact List.mem_singleton.mp hk ▸ show (-9 : Int) ≤ -7 by decide
  | RecordConsoleCommand ClientId FlagMask pCmd pResult =>
      exact List.mem_singleton.mp hk ▸ show (-10 : Int) ≤ -7 by decide
  | RecordPlayerTeam ClientId Team =>
      simp only [packets] at hk
      split at hk
      · cases hk
      · exact List.mem_singleton.mp hk ▸ hextra
  | RecordTeamPractice Team Practice =>
      simp only [packets] at hk
      split at hk
      · cases hk
      · exact List.mem_singleton.mp hk ▸ hextra
  | RecordPlayerJoin ClientId Protocol7 =>
      rcases List.mem_cons.mp hk with rfl | hjoin
      · exact hextra
      · exact List.mem_singleton.mp hjoin ▸ show (-8 : Int) ≤ -7 by decide
  | _ => first | exact h.elim | exact List.mem_singleton.mp hk ▸ hextra

theorem Call.Other.fits (h : c.Other) (hallowed : Allowed CalculateUuid tick s c) :
    ∀ k ∈ packets CalculateUuid s c, k.Fits := by
  cases c <;> first | exact h.elim | exact hallowed

theorem inv_reset {s₀ : CTeeHistorian} (h : s₀.Reset = .ok s) :
    Inv s [] .start ∧ s.m_Tick = 0 := by
  unfold CTeeHistorian.Reset at h
  split at h
  next =>
    cases h
    refine ⟨⟨⟨.start, decodes_nil, ?_⟩, fun i => ?_, rfl⟩, rfl⟩
    · refine ⟨rfl, Int.le_refl 0, show (0 : Int) ≤ 2147483647 by decide, fun _ => ?_,
        fun hw => Bool.noConfusion hw⟩
      exact ⟨rfl, fun hstate => EState.noConfusion hstate, fun hstate => EState.noConfusion hstate,
        fun _ => .inr (Int.le_refl _)⟩
    · exact ⟨rfl, fun halive => Bool.noConfusion halive, fun hunique => absurd rfl hunique⟩
  next => cases h

/-- One call keeps the invariant. -/
theorem Inv.step (h : Inv s log clients) (htick : s.m_Tick = tick)
    (hallowed : Allowed CalculateUuid tick s c)
    (hstep : TeeHistorian.step CalculateUuid s c = .ok s') :
    Inv s' (log ++ (packets CalculateUuid s c).map fun k => (c.tick tick, k.record))
      (clients.call c) ∧ s'.m_Tick = c.tick tick := by
  subst htick
  by_cases hother : c.Other
  · obtain ⟨hclients, htick⟩ := hother.quiet clients s.m_Tick
    have hle := hother.type_le CalculateUuid s
    rw [hclients, htick]
    rcases other_spec CalculateUuid hother (hother.fits hallowed) hstep with
      ⟨hnone, rfl⟩ | hrecorded
    · rw [hnone, List.map_nil, List.append_nil]
      exact ⟨h, rfl⟩
    · have hinv := h.recorded hrecorded (List.forall_mem_map.mpr hle)
      rw [List.map_map] at hinv
      exact hinv
  · cases c with
    | BeginTick Tick =>
        obtain ⟨hinv, htick⟩ := inv_beginTick h hallowed.1 hallowed.2 hstep
        exact ⟨(List.append_nil log).symm ▸ hinv, htick⟩
    | BeginPlayers =>
        obtain ⟨hinv, htick⟩ := inv_beginPlayers h hstep
        exact ⟨(List.append_nil log).symm ▸ hinv, htick⟩
    | RecordPlayer ClientId m_X m_Y => exact inv_recordPlayer h hallowed.1 hallowed.2 hstep
    | RecordDeadPlayer ClientId => exact inv_recordDeadPlayer h hstep
    | EndPlayers =>
        obtain ⟨hinv, htick⟩ := h.behind (by decide) (by decide) (by decide) hstep
        exact ⟨(List.append_nil log).symm ▸ hinv, htick⟩
    | BeginInputs =>
        obtain ⟨hinv, htick⟩ := h.behind (by decide) (by decide) (by decide) hstep
        exact ⟨(List.append_nil log).symm ▸ hinv, htick⟩
    | RecordPlayerInput ClientId UniqueClientId pInput =>
        exact inv_recordPlayerInput h hallowed hstep
    | EndInputs =>
        obtain ⟨hinv, htick⟩ := h.behind (by decide) (by decide) (by decide) hstep
        exact ⟨(List.append_nil log).symm ▸ hinv, htick⟩
    | EndTick =>
        obtain ⟨hinv, htick⟩ := h.behind (by decide) (by decide) (by decide) hstep
        exact ⟨(List.append_nil log).symm ▸ hinv, htick⟩
    | _ => exact absurd trivial hother

/-- The invariant holds all along a run. -/
theorem Run.inv (h : Run CalculateUuid tick log clients s) :
    Inv s log clients ∧ s.m_Tick = tick := by
  induction h with
  | start s₀ h => exact inv_reset h
  | call c hrun hallowed hstep ih => exact ih.1.step ih.2 hallowed hstep

/-- At the end only one byte is written. -/
theorem finish_spec (h : s.Finish = .ok s') :
    ∃ bytes, s'.written = s.written ++ bytes ∧ Encodes bytes finish := by
  obtain ⟨bytes, hpacked, hencodes⟩ := encodes_packed fits_finish shaped_finish
  refine ⟨bytes, ?_, hencodes⟩
  unfold CTeeHistorian.Finish CTeeHistorian.EndInputs CTeeHistorian.EndTick at h
  rw [hpacked] at h
  obtain ⟨m_State, m_LastWrittenTick, m_TickWritten, m_Tick, m_PrevMaxClientId, m_MaxClientId,
    m_aPrevPlayers, m_aPrevTeams, written⟩ := s
  cases m_State with
  | START =>
      cases h
      rfl
  | BEFORE_TICK =>
      cases h
      rfl
  | INPUTS =>
      cases h
      rfl
  | BEFORE_ENDTICK =>
      cases h
      rfl
  | BEFORE_PLAYERS => cases h
  | PLAYERS => cases h
  | BEFORE_INPUTS => cases h

/-- The end is decoded at the tick of the last record. -/
theorem Inv.finish (h : Inv s log clients) (hrun : s.Finish = .ok s') :
    decode s'.written = some (log ++ [(lastTick log, TeeHistorian.finish)]) ∧
      replayed s'.written = some clients := by
  obtain ⟨c, ⟨rs, hstream, hlog, hclock, hclients⟩, hticks⟩ := h.decodes
  obtain ⟨bytes, hwritten, hencodes⟩ := finish_spec hrun
  have hread := hstream.finish hencodes rfl
  constructor
  · have htick : c.tick = lastTick log := hticks.tick.trans h.last.symm
    rw [decode, hwritten, hread, Option.map_some, timed_append, hlog, hclock, ← htick]
    rfl
  · rw [replayed, hwritten, hread, Option.map_some, List.foldl_append, hclients]
    rfl

theorem Inv.decode (h : Inv s log clients) :
    TeeHistorian.decode s.written = some log ∧ replayed s.written = some clients := by
  obtain ⟨c, ⟨rs, hstream, hlog, hclock, hclients⟩, hticks⟩ := h.decodes
  constructor
  · rw [TeeHistorian.decode, hstream.read, Option.map_some, hlog]
  · rw [replayed, hstream.read, Option.map_some, hclients]

end

/-- Nothing is known before the first reset. -/
def fresh : CTeeHistorian :=
  { m_State := .START
    m_LastWrittenTick := 0
    m_TickWritten := true
    m_Tick := 0
    m_PrevMaxClientId := 0
    m_MaxClientId := MAX_CLIENTS
    m_aPrevPlayers := fun _ =>
      { m_Alive := false
        m_X := 0
        m_Y := 0
        m_Input :=
          { ints := List.replicate 10 0, length_ints := rfl
            isInt32 := fun _ hi => List.eq_of_mem_replicate hi ▸ (by decide) }
        m_UniqueClientId := 0
        m_Team := 0 }
    m_aPrevTeams := fun _ => false
    written := [] }

end Fex.Game.TeeHistorian
