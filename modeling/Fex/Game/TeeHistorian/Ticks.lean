import Fex.Game.TeeHistorian.Packets

/-!
# The ticks of the decoder

The clock of the decoder shows the last written tick.  A player record may leave out its tick only
where the decoder counts one.
-/

namespace Fex.Game.TeeHistorian

open Fex.Lib Fex.Engine.Packer CTeeHistorian

/-! ## Decoding piece by piece -/

theorem timed_append (c : Clock) (rs rs' : List Record) :
    timed c (rs ++ rs') = timed c rs ++ timed (rs.foldl Clock.advance c) rs' := by
  induction rs generalizing c with
  | nil => rfl
  | cons r rs ih =>
      rw [List.cons_append, timed, timed, List.foldl_cons, ih]
      split
      · rfl
      · rfl

/-- Decoding the bytes yields the log and ends with this clock and these clients. -/
def Decodes (bytes : List UInt8) (log : List (Int × Record)) (c : Clock) (clients : Clients) :
    Prop :=
  ∃ rs, Stream bytes rs ∧ timed .start rs = log ∧ rs.foldl Clock.advance .start = c ∧
    rs.foldl Clients.replay .start = clients

theorem decodes_nil : Decodes [] [] .start .start := ⟨[], .nil, rfl, rfl, rfl⟩

theorem Decodes.append {bytes bytes' : List UInt8} {log : List (Int × Record)} {c : Clock}
    {clients : Clients} {rs : List Record} (h : Decodes bytes log c clients)
    (h' : Stream bytes' rs) :
    Decodes (bytes ++ bytes') (log ++ timed c rs) (rs.foldl Clock.advance c)
      (rs.foldl Clients.replay clients) := by
  obtain ⟨rs', hstream, hlog, hclock, hclients⟩ := h
  refine ⟨rs' ++ rs, hstream.append h', ?_, ?_, ?_⟩
  · rw [timed_append, hlog, hclock]
  · rw [List.foldl_append, hclock]
  · rw [List.foldl_append, hclients]

/-! ## Kinds of records -/

/-- A record of inputs, of messages or of anything behind these keeps the clock. -/
theorem advance_of_le {r : Record} (h : r.type ≤ -TEEHISTORIAN_INPUT_DIFF) (c : Clock) :
    c.advance r = c := by
  have h : r.type ≤ -5 := h
  have hplayer : r.player = none := by
    have hold : ¬ (r.type = -3 ∨ r.type = -4) := by omega
    exact (if_neg (by omega)).trans (if_neg hold)
  have hskip : r.type ≠ -TEEHISTORIAN_TICK_SKIP := by
    show r.type ≠ -2
    omega
  unfold Clock.advance
  rw [hplayer]
  simp only
  split
  · exact if_neg hskip
  · rfl

theorem replay_of_le {r : Record} (h : r.type ≤ -TEEHISTORIAN_MESSAGE) (clients : Clients) :
    clients.replay r = clients := by
  have h : r.type ≤ -7 := h
  have hnew : r.type ≠ -TEEHISTORIAN_PLAYER_NEW := show r.type ≠ -3 by omega
  have hold : r.type ≠ -TEEHISTORIAN_PLAYER_OLD := show r.type ≠ -4 by omega
  have hinput : r.type ≠ -TEEHISTORIAN_INPUT_NEW := show r.type ≠ -6 by omega
  have hdiff : r.type ≠ -TEEHISTORIAN_INPUT_DIFF := show r.type ≠ -5 by omega
  unfold Clients.replay
  rw [if_neg (by omega), if_neg hnew, if_neg hold, if_neg hinput, if_neg hdiff]

theorem advance_player {r : Record} {ClientId : Int} (h : r.player = some ClientId) (c : Clock) :
    c.advance r =
      { tick := if ClientId ≤ c.lastPlayerId then c.tick + 1 else c.tick
        lastPlayerId := ClientId } := by
  unfold Clock.advance
  rw [h]

theorem ne_skip_of_player {r : Record} {ClientId : Int} (h : r.player = some ClientId) :
    r.type ≠ -TEEHISTORIAN_TICK_SKIP := by
  intro htype
  have hplayer : r.player = none := by
    unfold Record.player
    rw [htype]
    rfl
  rw [hplayer] at h
  cases h

/-- Records that keep the clock are all at its tick. -/
theorem timed_of_le {rs : List Record} (h : ∀ r ∈ rs, r.type ≤ -TEEHISTORIAN_INPUT_DIFF)
    (c : Clock) : timed c rs = rs.map (c.tick, ·) ∧ rs.foldl Clock.advance c = c := by
  induction rs with
  | nil => exact ⟨rfl, rfl⟩
  | cons r rs ih =>
      obtain ⟨hr, hrs⟩ := List.forall_mem_cons.mp h
      obtain ⟨hlog, hclock⟩ := ih hrs
      have hskip : r.type ≠ -TEEHISTORIAN_TICK_SKIP := by
        have hr : r.type ≤ -5 := hr
        show r.type ≠ -2
        omega
      constructor
      · rw [timed, if_neg hskip, advance_of_le hr, hlog, List.map_cons]
      · rw [List.foldl_cons, advance_of_le hr, hclock]

/-- The skip to the current tick. -/
def skip (s : CTeeHistorian) : Record :=
  { type := -TEEHISTORIAN_TICK_SKIP, values := [.int (s.m_Tick - s.m_LastWrittenTick - 1)] }

/-! ## The clock and the recorder -/

/-- The next tick may be counted at a client up to `m`, or is not the next one. -/
def Follows (s : CTeeHistorian) (m : Int) (c : Clock) : Prop :=
  m < 0 ∨ m ≤ c.lastPlayerId ∨ s.m_LastWrittenTick + 1 < s.m_Tick

/-- The tick is written. -/
structure Written (s : CTeeHistorian) (c : Clock) : Prop where
  lastWritten : s.m_LastWrittenTick = s.m_Tick
  before : s.m_State = .BEFORE_PLAYERS → c.lastPlayerId = -1
  players : s.m_State = .PLAYERS → c.lastPlayerId ≤ s.m_MaxClientId
  behind : s.m_State ≠ .BEFORE_PLAYERS → s.m_MaxClientId < 0 ∨ s.m_MaxClientId ≤ c.lastPlayerId

/-- The tick is not written yet. -/
structure Unwritten (s : CTeeHistorian) (c : Clock) : Prop where
  lastWritten : s.m_LastWrittenTick < s.m_Tick
  before : s.m_State = .BEFORE_PLAYERS → Follows s s.m_MaxClientId c
  players : s.m_State = .PLAYERS → Follows s s.m_PrevMaxClientId c
  behind : s.m_State ≠ .BEFORE_PLAYERS → s.m_MaxClientId = -1

/-- The decoder follows the recorder. -/
structure Ticks (s : CTeeHistorian) (c : Clock) : Prop where
  tick : c.tick = s.m_LastWrittenTick
  nonneg : 0 ≤ s.m_LastWrittenTick
  le_max : s.m_Tick ≤ intMax
  written : s.m_TickWritten = true → Written s c
  unwritten : s.m_TickWritten = false → Unwritten s c

theorem Ticks.of_same {s s' : CTeeHistorian} {c : Clock} (h : Ticks s c) (hsame : SameTicks s s') :
    Ticks s' c := by
  obtain ⟨hstate, hlast, hwritten, htick, hprev, hmax⟩ := hsame
  refine ⟨?_, ?_, ?_, fun hw => ?_, fun hw => ?_⟩
  · rw [hlast]
    exact h.tick
  · rw [hlast]
    exact h.nonneg
  · rw [htick]
    exact h.le_max
  · obtain ⟨hlastWritten, hbefore, hplayers, hbehind⟩ := h.written (hwritten ▸ hw)
    refine ⟨?_, ?_, ?_, ?_⟩
    · rw [hlast, htick]
      exact hlastWritten
    · rw [hstate]
      exact hbefore
    · rw [hstate, hmax]
      exact hplayers
    · rw [hstate, hmax]
      exact hbehind
  · obtain ⟨hlastWritten, hbefore, hplayers, hbehind⟩ := h.unwritten (hwritten ▸ hw)
    refine ⟨?_, ?_, ?_, ?_⟩
    · rw [hlast, htick]
      exact hlastWritten
    · unfold Follows at hbefore ⊢
      rw [hstate, hmax, hlast, htick]
      exact hbefore
    · unfold Follows at hplayers ⊢
      rw [hstate, hprev, hlast, htick]
      exact hplayers
    · rw [hstate, hmax]
      exact hbehind

namespace CTeeHistorian

/-- The state with its tick written by these bytes. -/
def ticked (s : CTeeHistorian) (bytes : List UInt8) : CTeeHistorian :=
  { s with m_LastWrittenTick := s.m_Tick, m_TickWritten := true, written := s.written ++ bytes }

end CTeeHistorian

section Spec

variable {s s₁ : CTeeHistorian} {c : Clock}

theorem ticked_nil (hwritten : s.m_TickWritten = true) (h : Written s c) : s.ticked [] = s := by
  unfold ticked
  rw [List.append_nil]
  exact congrArg₂ (fun t w => { s with m_LastWrittenTick := t, m_TickWritten := w })
    h.lastWritten.symm hwritten.symm

theorem writeTick_spec (htick : c.tick = s.m_LastWrittenTick) (hnonneg : 0 ≤ s.m_LastWrittenTick)
    (hlt : s.m_LastWrittenTick < s.m_Tick) (hmax : s.m_Tick ≤ intMax) :
    ∃ bytes, Stream bytes [skip s] ∧ s.WriteTick = .ok (s.ticked bytes) ∧
      c.advance (skip s) = { tick := s.m_Tick, lastPlayerId := -1 } := by
  have hdt : IsInt32 (s.m_Tick - s.m_LastWrittenTick - 1) := by
    have hmax : s.m_Tick ≤ 2147483647 := hmax
    unfold IsInt32
    omega
  obtain ⟨bytes, hpacked, hencodes⟩ := encodes_packed (fits_skip hdt) (shaped_skip _)
  refine ⟨bytes, hencodes.stream (show (-2 : Int) ≠ -1 by decide), ?_, ?_⟩
  · unfold CTeeHistorian.WriteTick
    simp only [hpacked]
    rfl
  · have htick : c.tick + (s.m_Tick - s.m_LastWrittenTick - 1) + 1 = s.m_Tick := by
      rw [htick]
      omega
    exact congrArg (fun t => (⟨t, -1⟩ : Clock)) htick

/-- What ensures that the tick is written keeps the decoder in step. -/
theorem ensureTickWritten_spec (h : Ticks s c) (hrun : s.EnsureTickWritten = .ok s₁) :
    ∃ bytes rs, Stream bytes rs ∧ timed c rs = [] ∧ s₁ = s.ticked bytes ∧
      Ticks s₁ (rs.foldl Clock.advance c) ∧
      ∀ clients : Clients, rs.foldl Clients.replay clients = clients := by
  unfold CTeeHistorian.EnsureTickWritten at hrun
  by_cases hwritten : s.m_TickWritten = true
  · rw [if_pos hwritten] at hrun
    cases hrun
    exact ⟨[], [], .nil, rfl, (ticked_nil hwritten (h.written hwritten)).symm, h, fun _ => rfl⟩
  · rw [if_neg hwritten] at hrun
    rw [Bool.not_eq_true] at hwritten
    have hunwritten := h.unwritten hwritten
    obtain ⟨bytes, hstream, hticked, hclock⟩ :=
      writeTick_spec h.tick h.nonneg hunwritten.lastWritten h.le_max
    rw [hticked] at hrun
    cases hrun
    refine ⟨bytes, [skip s], hstream, rfl, rfl, ?_, fun _ => rfl⟩
    rw [List.foldl_cons, List.foldl_nil, hclock]
    refine ⟨rfl, ?_, h.le_max, fun _ => ?_, fun hw => Bool.noConfusion hw⟩
    · exact Int.le_trans h.nonneg (Int.le_of_lt hunwritten.lastWritten)
    · refine ⟨rfl, fun _ => rfl, fun hstate => ?_, fun hstate => .inl ?_⟩
      · have hmax : s.m_MaxClientId = -1 := hunwritten.behind fun heq => by
          have hstate : s.m_State = .PLAYERS := hstate
          rw [heq] at hstate
          cases hstate
        exact Int.le_of_eq hmax.symm
      · have hmax : s.m_MaxClientId = -1 := hunwritten.behind hstate
        show s.m_MaxClientId < 0
        omega

/-- Where the tick is left out, the decoder counts it at the player record. -/
theorem ensureTickWrittenPlayerData_spec (h : Ticks s c) (hstate : s.m_State = .PLAYERS)
    {ClientId : Int} (hid : 0 ≤ ClientId) {r : Record} (hr : r.player = some ClientId)
    (hrun : s.EnsureTickWrittenPlayerData ClientId = .ok s₁) :
    ∃ bytes rs, Stream bytes rs ∧ timed c rs = [] ∧
      s₁ = { s.ticked bytes with m_MaxClientId := ClientId } ∧
      (rs.foldl Clock.advance c).advance r = { tick := s.m_Tick, lastPlayerId := ClientId } ∧
      ∀ clients : Clients, rs.foldl Clients.replay clients = clients := by
  unfold CTeeHistorian.EnsureTickWrittenPlayerData at hrun
  by_cases horder : ClientId ≤ s.m_MaxClientId
  · rw [if_pos horder] at hrun
    cases hrun
  rw [if_neg horder] at hrun
  simp only at hrun
  split at hrun
  next hexplicit =>
    have hlt := (h.unwritten hexplicit.1).lastWritten
    obtain ⟨bytes, hstream, hticked, hclock⟩ :=
      writeTick_spec (s := { s with m_MaxClientId := ClientId }) h.tick h.nonneg hlt h.le_max
    rw [hticked] at hrun
    cases hrun
    refine ⟨bytes, [skip s], hstream, rfl, rfl, ?_, fun _ => rfl⟩
    have hclock : c.advance (skip s) = { tick := s.m_Tick, lastPlayerId := -1 } := hclock
    rw [List.foldl_cons, List.foldl_nil, hclock, advance_player hr]
    simp only
    rw [if_neg (by omega)]
  next himplicit =>
    cases hrun
    refine ⟨[], [], .nil, rfl, ?_, ?_, fun _ => rfl⟩
    · unfold ticked
      rw [List.append_nil]
    · rw [List.foldl_nil, advance_player hr]
      have htick : (if ClientId ≤ c.lastPlayerId then c.tick + 1 else c.tick) = s.m_Tick := by
        by_cases hwritten : s.m_TickWritten = true
        · have hw := h.written hwritten
          have hlast := hw.players hstate
          rw [if_neg (by omega), h.tick, hw.lastWritten]
        · -- the next tick, at a client that the decoder has passed
          rw [Bool.not_eq_true] at hwritten
          obtain ⟨hprev, hnext⟩ := not_or.mp fun hor => himplicit ⟨hwritten, hor⟩
          have hfollows : s.m_PrevMaxClientId < 0 ∨ s.m_PrevMaxClientId ≤ c.lastPlayerId ∨
              s.m_LastWrittenTick + 1 < s.m_Tick := (h.unwritten hwritten).players hstate
          rw [if_pos (by omega), h.tick]
          omega
      exact congrArg (fun t => (⟨t, ClientId⟩ : Clock)) htick

end Spec

end Fex.Game.TeeHistorian
