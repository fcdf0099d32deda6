import Fex.Engine.Snapshot.Loops
import Fex.Game.TeeHistorian.Ticks

/-!
# The invariant of the recorder

The stream decodes to the records so far at their ticks, and the replayed clients are the recorded
ones.  Every call about ticks, players and inputs keeps this.
-/

namespace Fex.Game.TeeHistorian

open Fex.Lib Fex.Engine.Packer CTeeHistorian
open Fex.Engine.Snapshot (CUuid DiffItem UndiffItem undiffItem_diffItem isInt32_of_mem_diffItem
  length_diffItem)

/-! ## Decoding what a call writes -/

section Write

variable {s s₁ : CTeeHistorian} {log : List (Int × Record)} {c : Clock} {clients : Clients}
  {bytes : List UInt8}

theorem Ticks.write (h : Ticks s c) (bytes : List UInt8) : Ticks (s.Write bytes) c :=
  h.of_same ⟨rfl, rfl, rfl, rfl, rfl, rfl⟩

/-- Records behind the tick are decoded at it. -/
theorem decodes_behind (h : Ticks s c) (hdecodes : Decodes s.written log c clients)
    (hrun : s.EnsureTickWritten = .ok s₁) {rs : List Record} (hstream : Stream bytes rs)
    (hle : ∀ r ∈ rs, r.type ≤ -TEEHISTORIAN_INPUT_DIFF) :
    ∃ before c₁, s₁ = s.ticked before ∧ Ticks (s₁.Write bytes) c₁ ∧
      Decodes (s₁.Write bytes).written (log ++ rs.map (s.m_Tick, ·)) c₁
        (rs.foldl Clients.replay clients) := by
  obtain ⟨before, skips, hskips, htimed, rfl, hticks, hreplay⟩ := ensureTickWritten_spec h hrun
  have hlog := (hdecodes.append hskips).append hstream
  obtain ⟨hrecords, hclock⟩ := timed_of_le hle (skips.foldl Clock.advance c)
  have htick : (skips.foldl Clock.advance c).tick = s.m_Tick := hticks.tick
  rw [htimed, List.append_nil, hreplay, hrecords, hclock, htick] at hlog
  exact ⟨before, _, rfl, hticks.write bytes, hlog⟩

/-- A player record is decoded at its tick. -/
theorem decodes_player (h : Ticks s c) (hdecodes : Decodes s.written log c clients)
    (hstate : s.m_State = .PLAYERS) {ClientId : Int} (hid : 0 ≤ ClientId) {r : Record}
    (hr : r.player = some ClientId) (hrun : s.EnsureTickWrittenPlayerData ClientId = .ok s₁)
    (hstream : Stream bytes [r]) :
    ∃ before c₁, s₁ = { s.ticked before with m_MaxClientId := ClientId } ∧
      Ticks (s₁.Write bytes) c₁ ∧
      Decodes (s₁.Write bytes).written (log ++ [(s.m_Tick, r)]) c₁ (clients.replay r) := by
  obtain ⟨before, skips, hskips, htimed, rfl, hclock, hreplay⟩ :=
    ensureTickWrittenPlayerData_spec h hstate hid hr hrun
  have hlog := (hdecodes.append hskips).append hstream
  rw [htimed, List.append_nil, hreplay, timed, if_neg (ne_skip_of_player hr), timed,
    List.foldl_cons, List.foldl_nil, List.foldl_cons, List.foldl_nil, hclock] at hlog
  refine ⟨before, _, rfl, ?_, hlog⟩
  refine ⟨rfl, ?_, h.le_max, fun _ => ?_, fun hw => Bool.noConfusion hw⟩
  · show 0 ≤ s.m_Tick
    have hnonneg := h.nonneg
    cases hwritten : s.m_TickWritten with
    | true =>
        rw [← (h.written hwritten).lastWritten]
        exact hnonneg
    | false => exact Int.le_trans hnonneg (Int.le_of_lt (h.unwritten hwritten).lastWritten)
  · refine ⟨rfl, fun hbefore => ?_, fun _ => Int.le_refl _, fun _ => .inr (Int.le_refl _)⟩
    have hbefore : s.m_State = .BEFORE_PLAYERS := hbefore
    rw [hstate] at hbefore
    cases hbefore

end Write

/-! ## The invariant -/

/-- What is known about a client is what the recorder keeps of it. -/
structure Knows (clients : Clients) (ClientId : Int) (p : CTeehistorianPlayer) : Prop where
  alive : clients.alive ClientId = p.m_Alive
  position : p.m_Alive = true → clients.position ClientId = (p.m_X, p.m_Y)
  input : p.m_UniqueClientId ≠ 0 → clients.input ClientId = p.m_Input.ints

/-- The tick of the last record. -/
def lastTick (log : List (Int × Record)) : Int := (log.getLast?.map Prod.fst).getD 0

theorem lastTick_append (log : List (Int × Record)) (Tick : Int) {rs : List Record} (h : rs ≠ []) :
    lastTick (log ++ rs.map (Tick, ·)) = Tick := by
  obtain ⟨rs, r, rfl⟩ := List.eq_nil_or_concat rs |>.resolve_left h
  unfold lastTick
  rw [List.concat_eq_append, List.map_append, ← List.append_assoc, List.map_singleton,
    List.getLast?_concat]
  rfl

structure Inv (s : CTeeHistorian) (log : List (Int × Record)) (clients : Clients) : Prop where
  decodes : ∃ c, Decodes s.written log c clients ∧ Ticks s c
  knows : ∀ i, Knows clients i (s.m_aPrevPlayers i)
  last : lastTick log = s.m_LastWrittenTick

section Calls

variable {CalculateUuid : String → CUuid} {s s' : CTeeHistorian} {log : List (Int × Record)}
  {clients : Clients}

theorem Knows.congr {i : Int} {p p' : CTeehistorianPlayer} (h : Knows clients i p)
    (hknown : p'.known = p.known) : Knows clients i p' := by
  obtain ⟨hstate, hrest⟩ := Prod.mk.inj hknown
  obtain ⟨halive, hposition⟩ := Prod.mk.inj hstate
  obtain ⟨hx, hy⟩ := Prod.mk.inj hposition
  obtain ⟨hinput, hunique⟩ := Prod.mk.inj hrest
  refine ⟨?_, ?_, ?_⟩
  · rw [halive]
    exact h.alive
  · rw [halive, hx, hy]
    exact h.position
  · rw [hunique, hinput]
    exact h.input

/-- Other records are about no client. -/
theorem Inv.recorded (h : Inv s log clients) {rs : List Record} (hrecorded : Recorded s s' rs)
    (hle : ∀ r ∈ rs, r.type ≤ -TEEHISTORIAN_MESSAGE) :
    Inv s' (log ++ rs.map (s.m_Tick, ·)) clients ∧ s'.m_Tick = s.m_Tick := by
  obtain ⟨hne, s₀, s₁, bytes, hsame, hensure, hstream, rfl⟩ := hrecorded
  obtain ⟨c, hdecodes, hticks⟩ := h.decodes
  have htick := hsame.tick
  have hinput : ∀ r ∈ rs, r.type ≤ -TEEHISTORIAN_INPUT_DIFF := fun r hr =>
    Int.le_trans (hle r hr) (show (-7 : Int) ≤ -5 by decide)
  rw [← hsame.written] at hdecodes
  obtain ⟨before, c₁, rfl, hticks', hdecodes'⟩ :=
    decodes_behind (hticks.of_same hsame.toSameTicks) hdecodes hensure hstream hinput
  have hreplay : rs.foldl Clients.replay clients = clients := by
    clear hdecodes' hstream hne hinput
    induction rs with
    | nil => rfl
    | cons r rs ih =>
        obtain ⟨hr, hrs⟩ := List.forall_mem_cons.mp hle
        rw [List.foldl_cons, replay_of_le hr]
        exact ih hrs
  rw [htick, hreplay] at hdecodes'
  refine ⟨⟨⟨c₁, hdecodes', hticks'⟩, fun i => (h.knows i).congr (hsame.players i), ?_⟩, htick⟩
  rw [lastTick_append log s.m_Tick hne]
  exact htick.symm

/-- A call that only moves on keeps the stream. -/
theorem Inv.moved (h : Inv s log clients) (hwritten : s'.written = s.written)
    (hplayers : s'.m_aPrevPlayers = s.m_aPrevPlayers)
    (hlast : s'.m_LastWrittenTick = s.m_LastWrittenTick)
    (hticks : ∀ c, Ticks s c → Ticks s' c) : Inv s' log clients := by
  obtain ⟨c, hdecodes, hc⟩ := h.decodes
  refine ⟨⟨c, ?_, hticks c hc⟩, ?_, ?_⟩
  · rw [hwritten]
    exact hdecodes
  · rw [hplayers]
    exact h.knows
  · rw [hlast]
    exact h.last

/-! ## Ticks, players and inputs -/

theorem inv_beginTick {Tick : Int} (h : Inv s log clients) (hlt : s.m_Tick < Tick)
    (hmax : Tick ≤ intMax) (hrun : s.BeginTick Tick = .ok s') :
    Inv s' log clients ∧ s'.m_Tick = Tick := by
  unfold CTeeHistorian.BeginTick at hrun
  split at hrun
  next hstate =>
    cases hrun
    refine ⟨h.moved rfl rfl rfl fun c hc => ?_, rfl⟩
    have hbehind : s.m_State ≠ .BEFORE_PLAYERS := by
      intro heq
      rw [heq] at hstate
      rcases hstate with hstart | hbefore
      · cases hstart
      · cases hbefore
    refine ⟨hc.tick, hc.nonneg, hmax, fun hw => Bool.noConfusion hw, fun _ => ?_⟩
    refine ⟨?_, fun _ => ?_, fun hplayers => EState.noConfusion hplayers,
      fun hne => absurd rfl hne⟩
    · show s.m_LastWrittenTick < Tick
      cases hwritten : s.m_TickWritten with
      | true =>
          have hlast := (hc.written hwritten).lastWritten
          omega
      | false =>
          have hlast := (hc.unwritten hwritten).lastWritten
          omega
    · show s.m_MaxClientId < 0 ∨ s.m_MaxClientId ≤ c.lastPlayerId ∨ s.m_LastWrittenTick + 1 < Tick
      cases hwritten : s.m_TickWritten with
      | true => exact ((hc.written hwritten).behind hbehind).imp_right .inl
      | false =>
          have hlast := (hc.unwritten hwritten).lastWritten
          omega
  next => cases hrun

theorem inv_beginPlayers (h : Inv s log clients) (hrun : s.BeginPlayers = .ok s') :
    Inv s' log clients ∧ s'.m_Tick = s.m_Tick := by
  unfold CTeeHistorian.BeginPlayers at hrun
  split at hrun
  next hstate =>
    cases hrun
    refine ⟨h.moved rfl rfl rfl fun c hc => ?_, rfl⟩
    refine ⟨hc.tick, hc.nonneg, hc.le_max, fun hw => ?_, fun hw => ?_⟩
    · have hwritten := hc.written hw
      refine ⟨hwritten.lastWritten, fun hbefore => EState.noConfusion hbefore, fun _ => ?_,
        fun _ => .inl (show (-1 : Int) < 0 by decide)⟩
      exact Int.le_of_eq (hwritten.before hstate)
    · have hunwritten := hc.unwritten hw
      exact ⟨hunwritten.lastWritten, fun hbefore => EState.noConfusion hbefore,
        fun _ => hunwritten.before hstate, fun _ => rfl⟩
  next => cases hrun

/-- Behind the players the ticks do not depend on the state. -/
theorem Ticks.behind {c : Clock} (h : Ticks s c) (hstate : s.m_State ≠ .BEFORE_PLAYERS)
    {state : EState} (hbefore : state ≠ .BEFORE_PLAYERS) (hplayers : state ≠ .PLAYERS) :
    Ticks { s with m_State := state } c := by
  refine ⟨h.tick, h.nonneg, h.le_max, fun hw => ?_, fun hw => ?_⟩
  · have hwritten := h.written hw
    exact ⟨hwritten.lastWritten, fun heq => absurd heq hbefore, fun heq => absurd heq hplayers,
      fun _ => hwritten.behind hstate⟩
  · have hunwritten := h.unwritten hw
    exact ⟨hunwritten.lastWritten, fun heq => absurd heq hbefore, fun heq => absurd heq hplayers,
      fun _ => hunwritten.behind hstate⟩

/-- The step to the next part of a tick. -/
theorem Inv.behind (h : Inv s log clients) {state next : EState}
    (hbefore : state ≠ .BEFORE_PLAYERS) (hnext : next ≠ .BEFORE_PLAYERS)
    (hplayers : next ≠ .PLAYERS)
    (hrun : (if s.m_State = state then .ok { s with m_State := next }
      else .error .assertion : Exec CTeeHistorian) = .ok s') :
    Inv s' log clients ∧ s'.m_Tick = s.m_Tick := by
  split at hrun
  next hstate =>
    cases hrun
    exact ⟨h.moved rfl rfl rfl fun c hc => hc.behind (hstate ▸ hbefore) hnext hplayers, rfl⟩
  next => cases hrun

/-- A change of one client. -/
theorem knows_update {p : CTeehistorianPlayer} {clients' : Clients} {ClientId : Int}
    (hothers : ∀ i, i ≠ ClientId → Knows clients' i (s.m_aPrevPlayers i))
    (hclient : Knows clients' ClientId p) :
    ∀ i, Knows clients' i (Function.update s.m_aPrevPlayers ClientId p i) := by
  intro i
  by_cases hi : i = ClientId
  · rw [hi, Function.update_self]
    exact hclient
  · rw [Function.update_of_ne hi]
    exact hothers i hi

/-- A client whose number is no index faults. -/
theorem prevPlayer_ok {ClientId : Int} {p : CTeehistorianPlayer}
    (h : s.prevPlayer ClientId = .ok p) :
    0 ≤ ClientId ∧ ClientId < MAX_CLIENTS ∧ p = s.m_aPrevPlayers ClientId := by
  unfold CTeeHistorian.prevPlayer at h
  split at h
  next hid =>
    cases h
    exact ⟨hid.1, hid.2, rfl⟩
  next => cases h

/-- What a player record leaves. -/
theorem Inv.player (h : Inv s log clients) {s₁ : CTeeHistorian} (hstate : s.m_State = .PLAYERS)
    {ClientId : Int} (hid : 0 ≤ ClientId)
    (hensure : s.EnsureTickWrittenPlayerData ClientId = .ok s₁) {bytes : List UInt8} {r : Record}
    (hr : r.player = some ClientId) (hstream : Stream bytes [r]) (p : CTeehistorianPlayer)
    (hothers : ∀ i, i ≠ ClientId → Knows (clients.replay r) i (s.m_aPrevPlayers i))
    (hclient : Knows (clients.replay r) ClientId p) :
    Inv ((s₁.Write bytes).setPrevPlayer ClientId p) (log ++ [(s.m_Tick, r)]) (clients.replay r) ∧
      ((s₁.Write bytes).setPrevPlayer ClientId p).m_Tick = s.m_Tick := by
  obtain ⟨c, hdecodes, hticks⟩ := h.decodes
  obtain ⟨before, c₁, rfl, hticks', hdecodes'⟩ :=
    decodes_player hticks hdecodes hstate hid hr hensure hstream
  refine ⟨⟨⟨c₁, hdecodes', ?_⟩, knows_update hothers hclient, ?_⟩, rfl⟩
  · exact hticks'.of_same ⟨rfl, rfl, rfl, rfl, rfl, rfl⟩
  · exact lastTick_append log s.m_Tick (List.cons_ne_nil r [])

/-- A client that nothing is written for. -/
theorem Inv.kept (h : Inv s log clients) {ClientId : Int} {p : CTeehistorianPlayer}
    (hclient : Knows clients ClientId p) : Inv (s.setPrevPlayer ClientId p) log clients := by
  obtain ⟨c, hdecodes, hticks⟩ := h.decodes
  exact ⟨⟨c, hdecodes, hticks.of_same ⟨rfl, rfl, rfl, rfl, rfl, rfl⟩⟩,
    knows_update (fun i _ => h.knows i) hclient, h.last⟩

theorem player_playerPacket {pPrev : CTeehistorianPlayer} {ClientId m_X m_Y : Int}
    (hid : 0 ≤ ClientId) : (playerPacket pPrev ClientId m_X m_Y).record.player = some ClientId := by
  unfold playerPacket
  split
  · exact if_pos hid
  · rfl

/-- A difference is added to the position it was taken from. -/
theorem replay_playerPacket {pPrev : CTeehistorianPlayer} {ClientId m_X m_Y : Int}
    (hid : 0 ≤ ClientId) (hx : IsInt32 m_X) (hy : IsInt32 m_Y) (h : Knows clients ClientId pPrev) :
    clients.replay (playerPacket pPrev ClientId m_X m_Y).record =
      clients.call (.RecordPlayer ClientId m_X m_Y) := by
  unfold playerPacket
  split
  next halive =>
    have hsum : ∀ {a b : Int}, IsInt32 b → wrap32 (a + (b - a)) = b := fun {a b} hb => by
      rw [Int.add_comm a, Int.sub_add_cancel]
      exact wrap32_of_isInt32 hb
    have hupdate : Function.update clients.alive ClientId true = clients.alive := by
      rw [← halive, ← h.alive, Function.update_eq_self]
    unfold Clients.replay
    rw [if_pos (show 0 ≤ (Packet.plain ClientId _).record.type from hid)]
    show ({ clients with
      position := Function.update clients.position ClientId
        (wrap32 ((clients.position ClientId).1 + (m_X - pPrev.m_X)),
          wrap32 ((clients.position ClientId).2 + (m_Y - pPrev.m_Y))) } : Clients) = _
    rw [h.position halive]
    simp only [hsum hx, hsum hy, Clients.call, hupdate]
  next => rfl

theorem sub_ok {a b d : Int} (h : sub a b = .ok d) : IsInt32 (a - b) ∧ d = a - b := by
  unfold sub at h
  split at h
  next hint =>
    cases h
    exact ⟨hint, rfl⟩
  next => cases h

theorem isInt32_client {ClientId : Int} (h : 0 ≤ ClientId ∧ ClientId < MAX_CLIENTS) :
    IsInt32 ClientId := by
  have hlt : ClientId < 128 := h.2
  unfold IsInt32
  omega

theorem writePlayer_spec {s₂ : CTeeHistorian} {pPrev : CTeehistorianPlayer} {ClientId m_X m_Y : Int}
    (hid : 0 ≤ ClientId ∧ ClientId < MAX_CLIENTS) (hx : IsInt32 m_X) (hy : IsInt32 m_Y)
    (hrun : s.WritePlayer pPrev ClientId m_X m_Y = .ok s₂) :
    ∃ s₁ bytes, s.EnsureTickWrittenPlayerData ClientId = .ok s₁ ∧ s₂ = s₁.Write bytes ∧
      Stream bytes [(playerPacket pPrev ClientId m_X m_Y).record] := by
  have hclient := isInt32_client hid
  unfold CTeeHistorian.WritePlayer at hrun
  cases hensure : s.EnsureTickWrittenPlayerData ClientId with
  | error e =>
      rw [hensure] at hrun
      cases hrun
  | ok s₁ =>
      rw [hensure] at hrun
      simp only [bind, Except.bind, pure, Except.pure] at hrun
      unfold playerPacket
      by_cases halive : pPrev.m_Alive = true
      · rw [if_pos halive] at hrun ⊢
        cases hdx : sub m_X pPrev.m_X with
        | error e =>
            rw [hdx] at hrun
            cases hrun
        | ok dx =>
            cases hdy : sub m_Y pPrev.m_Y with
            | error e =>
                rw [hdx, hdy] at hrun
                cases hrun
            | ok dy =>
                obtain ⟨hdx', rfl⟩ := sub_ok hdx
                obtain ⟨hdy', rfl⟩ := sub_ok hdy
                have hints : ∀ i ∈ [ClientId, m_X - pPrev.m_X, m_Y - pPrev.m_Y], IsInt32 i := by
                  simp only [List.forall_mem_cons, List.not_mem_nil, false_imp_iff, implies_true,
                    and_true]
                  exact ⟨hclient, hdx', hdy'⟩
                obtain ⟨bytes, hpacked, hencodes⟩ := encodes_packed
                  (fits_ints _ hints (Nat.le_of_ble_eq_true rfl)) (shaped_player hid.1 _ _)
                have hpacked : packed [.int ClientId, .int (m_X - pPrev.m_X),
                    .int (m_Y - pPrev.m_Y)] = .ok bytes := hpacked
                rw [hdx, hdy] at hrun
                simp only [hpacked] at hrun
                cases hrun
                refine ⟨s₁, bytes, rfl, rfl, hencodes.stream ?_⟩
                show ClientId ≠ -1
                omega
      · rw [if_neg halive] at hrun ⊢
        have hints : ∀ i ∈ [-TEEHISTORIAN_PLAYER_NEW, ClientId, m_X, m_Y], IsInt32 i := by
          simp only [List.forall_mem_cons, List.not_mem_nil, false_imp_iff, implies_true, and_true]
          exact ⟨show IsInt32 (-3) by decide, hclient, hx, hy⟩
        obtain ⟨bytes, hpacked, hencodes⟩ := encodes_packed
          (fits_ints _ hints (Nat.le_of_ble_eq_true rfl)) (shaped_new ClientId m_X m_Y)
        have hpacked : packed [.int (-TEEHISTORIAN_PLAYER_NEW), .int ClientId, .int m_X, .int m_Y] =
            .ok bytes := hpacked
        rw [hpacked] at hrun
        cases hrun
        exact ⟨s₁, bytes, rfl, rfl, hencodes.stream (show (-3 : Int) ≠ -1 by decide)⟩

theorem writeDeadPlayer_spec {s₂ : CTeeHistorian} {ClientId : Int}
    (hid : 0 ≤ ClientId ∧ ClientId < MAX_CLIENTS) (hrun : s.WriteDeadPlayer ClientId = .ok s₂) :
    ∃ s₁ bytes, s.EnsureTickWrittenPlayerData ClientId = .ok s₁ ∧ s₂ = s₁.Write bytes ∧
      Stream bytes [(Packet.plain (-TEEHISTORIAN_PLAYER_OLD) [.int ClientId]).record] := by
  unfold CTeeHistorian.WriteDeadPlayer at hrun
  cases hensure : s.EnsureTickWrittenPlayerData ClientId with
  | error e =>
      rw [hensure] at hrun
      cases hrun
  | ok s₁ =>
      have hints : ∀ i ∈ [-TEEHISTORIAN_PLAYER_OLD, ClientId], IsInt32 i := by
        simp only [List.forall_mem_cons, List.not_mem_nil, false_imp_iff, implies_true, and_true]
        exact ⟨show IsInt32 (-4) by decide, isInt32_client hid⟩
      obtain ⟨bytes, hpacked, hencodes⟩ := encodes_packed
        (fits_ints _ hints (Nat.le_of_ble_eq_true rfl)) (shaped_old ClientId)
      have hpacked : packed [.int (-TEEHISTORIAN_PLAYER_OLD), .int ClientId] = .ok bytes := hpacked
      rw [hensure] at hrun
      simp only [bind, Except.bind, hpacked] at hrun
      cases hrun
      exact ⟨s₁, bytes, rfl, rfl, hencodes.stream (show (-4 : Int) ≠ -1 by decide)⟩

theorem inv_recordPlayer {ClientId m_X m_Y : Int} (h : Inv s log clients) (hx : IsInt32 m_X)
    (hy : IsInt32 m_Y) (hrun : s.RecordPlayer ClientId m_X m_Y = .ok s') :
    Inv s' (log ++ (packets CalculateUuid s (.RecordPlayer ClientId m_X m_Y)).map
      fun k => (s.m_Tick, k.record)) (clients.call (.RecordPlayer ClientId m_X m_Y)) ∧
        s'.m_Tick = s.m_Tick := by
  unfold CTeeHistorian.RecordPlayer at hrun
  by_cases hstate : s.m_State = .PLAYERS
  swap
  · rw [if_pos hstate] at hrun
    cases hrun
  rw [if_neg (not_not_intro hstate)] at hrun
  cases hprev : s.prevPlayer ClientId with
  | error e =>
      rw [hprev] at hrun
      cases hrun
  | ok pPrev =>
      obtain ⟨hid, hid', rfl⟩ := prevPlayer_ok hprev
      rw [hprev] at hrun
      simp only [bind, Except.bind, pure, Except.pure] at hrun
      have hknows := h.knows ClientId
      have hothers : ∀ i, i ≠ ClientId → Knows (clients.call (.RecordPlayer ClientId m_X m_Y)) i
          (s.m_aPrevPlayers i) := fun i hi =>
        { alive := (Function.update_of_ne hi ..).trans (h.knows i).alive
          position := fun halive =>
            (Function.update_of_ne hi ..).trans ((h.knows i).position halive)
          input := (h.knows i).input }
      have hclient : Knows (clients.call (.RecordPlayer ClientId m_X m_Y)) ClientId
          { s.m_aPrevPlayers ClientId with m_X, m_Y, m_Alive := true } :=
        { alive := Function.update_self ..
          position := fun _ => Function.update_self ..
          input := hknows.input }
      split at hrun
      next hmoved =>
        have hpackets : packets CalculateUuid s (.RecordPlayer ClientId m_X m_Y) =
          [playerPacket (s.m_aPrevPlayers ClientId) ClientId m_X m_Y] := if_pos hmoved
        cases hwrite : s.WritePlayer (s.m_aPrevPlayers ClientId) ClientId m_X m_Y with
        | error e =>
            rw [hwrite] at hrun
            cases hrun
        | ok s₂ =>
            obtain ⟨s₁, bytes, hensure, rfl, hstream⟩ := writePlayer_spec ⟨hid, hid'⟩ hx hy hwrite
            rw [hwrite] at hrun
            cases hrun
            have hreplay := replay_playerPacket hid hx hy hknows
            rw [hpackets]
            have hinv := h.player hstate hid hensure (player_playerPacket hid) hstream
              { s.m_aPrevPlayers ClientId with m_X, m_Y, m_Alive := true }
              (hreplay ▸ hothers) (hreplay ▸ hclient)
            rw [hreplay] at hinv
            exact hinv
      next hsame =>
        have hpackets : packets CalculateUuid s (.RecordPlayer ClientId m_X m_Y) = [] :=
          if_neg hsame
        rw [not_or, not_or, not_ne_iff, not_ne_iff, Bool.not_eq_false] at hsame
        obtain ⟨halive, hsameX, hsameY⟩ := hsame
        have hcall : clients.call (.RecordPlayer ClientId m_X m_Y) = clients := by
          have hlives : Function.update clients.alive ClientId true = clients.alive := by
            rw [← halive, ← hknows.alive, Function.update_eq_self]
          have hstays : Function.update clients.position ClientId (m_X, m_Y) =
              clients.position := by
            rw [← hsameX, ← hsameY, ← hknows.position halive, Function.update_eq_self]
          simp only [Clients.call, hlives, hstays]
        cases hrun
        rw [hcall] at hclient ⊢
        rw [hpackets, List.map_nil, List.append_nil]
        exact ⟨h.kept hclient, rfl⟩

theorem inv_recordDeadPlayer {ClientId : Int} (h : Inv s log clients)
    (hrun : s.RecordDeadPlayer ClientId = .ok s') :
    Inv s' (log ++ (packets CalculateUuid s (.RecordDeadPlayer ClientId)).map
      fun k => (s.m_Tick, k.record)) (clients.call (.RecordDeadPlayer ClientId)) ∧
        s'.m_Tick = s.m_Tick := by
  unfold CTeeHistorian.RecordDeadPlayer at hrun
  by_cases hstate : s.m_State = .PLAYERS
  swap
  · rw [if_pos hstate] at hrun
    cases hrun
  rw [if_neg (not_not_intro hstate)] at hrun
  cases hprev : s.prevPlayer ClientId with
  | error e =>
      rw [hprev] at hrun
      cases hrun
  | ok pPrev =>
      obtain ⟨hid, hid', rfl⟩ := prevPlayer_ok hprev
      rw [hprev] at hrun
      simp only [bind, Except.bind, pure, Except.pure] at hrun
      have hknows := h.knows ClientId
      have hothers : ∀ i, i ≠ ClientId → Knows (clients.call (.RecordDeadPlayer ClientId)) i
          (s.m_aPrevPlayers i) := fun i hi =>
        { alive := (Function.update_of_ne hi ..).trans (h.knows i).alive
          position := (h.knows i).position
          input := (h.knows i).input }
      have hclient : Knows (clients.call (.RecordDeadPlayer ClientId)) ClientId
          { s.m_aPrevPlayers ClientId with m_Alive := false } :=
        { alive := Function.update_self ..
          position := fun halive => Bool.noConfusion halive
          input := hknows.input }
      split at hrun
      next halive =>
        have hpackets : packets CalculateUuid s (.RecordDeadPlayer ClientId) =
          [.plain (-TEEHISTORIAN_PLAYER_OLD) [.int ClientId]] := if_pos halive
        cases hwrite : s.WriteDeadPlayer ClientId with
        | error e =>
            rw [hwrite] at hrun
            cases hrun
        | ok s₂ =>
            obtain ⟨s₁, bytes, hensure, rfl, hstream⟩ := writeDeadPlayer_spec ⟨hid, hid'⟩ hwrite
            rw [hwrite] at hrun
            cases hrun
            rw [hpackets]
            exact h.player hstate hid hensure rfl hstream
              { s.m_aPrevPlayers ClientId with m_Alive := false } hothers hclient
      next hdead =>
        have hpackets : packets CalculateUuid s (.RecordDeadPlayer ClientId) = [] := if_neg hdead
        have hcall : clients.call (.RecordDeadPlayer ClientId) = clients := by
          have hstays : Function.update clients.alive ClientId false = clients.alive := by
            rw [← (Bool.not_eq_true _).mp hdead, ← hknows.alive, Function.update_eq_self]
          simp only [Clients.call, hstays]
        cases hrun
        rw [hcall] at hclient ⊢
        rw [hpackets, List.map_nil, List.append_nil]
        exact ⟨h.kept hclient, rfl⟩

theorem intsOf_valuesOf (is : List Int) : intsOf (valuesOf (is.map .int)) = is := by
  induction is with
  | nil => rfl
  | cons i is ih => exact congrArg (i :: ·) ih

theorem replay_inputPacket {pPrev : CTeehistorianPlayer} {ClientId : Int} {UniqueClientId : Nat}
    {pInput : CNetObj_PlayerInput} (h : Knows clients ClientId pPrev)
    (hunique : UniqueClientId ≠ 0) :
    clients.replay (inputPacket pPrev ClientId UniqueClientId pInput).record =
      clients.call (.RecordPlayerInput ClientId UniqueClientId pInput) := by
  unfold inputPacket
  split
  next heq =>
    -- the input of the same client is known
    have hknown := h.input (heq ▸ hunique)
    have hlength : pPrev.m_Input.ints.length = pInput.ints.length :=
      pPrev.m_Input.length_ints.trans pInput.length_ints.symm
    show ({ clients with
      input := Function.update clients.input ClientId
        (UndiffItem (clients.input ClientId)
          (intsOf (valuesOf ((DiffItem pPrev.m_Input.ints pInput.ints).map .int)))) } : Clients) = _
    rw [intsOf_valuesOf, hknown, undiffItem_diffItem hlength pInput.isInt32]
    rfl
  next =>
    show ({ clients with
      input := Function.update clients.input ClientId
        (intsOf (valuesOf (pInput.ints.map .int))) } : Clients) = _
    rw [intsOf_valuesOf]
    rfl

theorem input_type_le (pPrev : CTeehistorianPlayer) (ClientId : Int) (UniqueClientId : Nat)
    (pInput : CNetObj_PlayerInput) :
    (inputPacket pPrev ClientId UniqueClientId pInput).record.type ≤ -TEEHISTORIAN_INPUT_DIFF := by
  unfold inputPacket
  split
  · exact Int.le_refl _
  · exact show (-6 : Int) ≤ -5 by decide

/-- A record of ten ints behind a client. -/
theorem stream_input {type ClientId : Int} {is : List Int} (hlength : is.length = 10)
    (his : ∀ i ∈ is, IsInt32 i) (hid : 0 ≤ ClientId ∧ ClientId < MAX_CLIENTS)
    (htype : type = -TEEHISTORIAN_INPUT_DIFF ∨ type = -TEEHISTORIAN_INPUT_NEW) :
    ∃ bytes, packed (.int type :: .int ClientId :: is.map .int) = .ok bytes ∧
      Stream bytes [(Packet.plain type (.int ClientId :: is.map .int)).record] := by
  have hints : ∀ i ∈ type :: ClientId :: is, IsInt32 i := by
    refine List.forall_mem_cons.mpr ⟨?_, List.forall_mem_cons.mpr ⟨isInt32_client hid, his⟩⟩
    rcases htype with rfl | rfl
    · exact show IsInt32 (-5) by decide
    · exact show IsInt32 (-6) by decide
  have hsize : (type :: ClientId :: is).length ≤ 12 := by
    rw [List.length_cons, List.length_cons, hlength]
  obtain ⟨bytes, hpacked, hencodes⟩ :=
    encodes_packed (fits_ints _ hints hsize) (shaped_input hlength htype)
  refine ⟨bytes, hpacked, hencodes.stream ?_⟩
  rcases htype with rfl | rfl
  · exact show (-5 : Int) ≠ -1 by decide
  · exact show (-6 : Int) ≠ -1 by decide

theorem inputBuffer_spec (pPrev : CTeehistorianPlayer) {ClientId : Int} (UniqueClientId : Nat)
    (pInput : CNetObj_PlayerInput) (hid : 0 ≤ ClientId ∧ ClientId < MAX_CLIENTS) :
    ∃ bytes, InputBuffer pPrev ClientId UniqueClientId pInput = .ok bytes ∧
      Stream bytes [(inputPacket pPrev ClientId UniqueClientId pInput).record] := by
  unfold InputBuffer inputPacket
  split
  · have hlength : (DiffItem pPrev.m_Input.ints pInput.ints).length = 10 := by
      rw [length_diffItem, pPrev.m_Input.length_ints, pInput.length_ints]
      rfl
    exact stream_input hlength (fun i hi => isInt32_of_mem_diffItem hi) hid (.inl rfl)
  · exact stream_input pInput.length_ints pInput.isInt32 hid (.inr rfl)

theorem inv_recordPlayerInput {ClientId : Int} {UniqueClientId : Nat} {pInput : CNetObj_PlayerInput}
    (h : Inv s log clients) (hunique : UniqueClientId ≠ 0)
    (hrun : s.RecordPlayerInput ClientId UniqueClientId pInput = .ok s') :
    Inv s' (log ++ (packets CalculateUuid s
      (.RecordPlayerInput ClientId UniqueClientId pInput)).map fun k => (s.m_Tick, k.record))
        (clients.call (.RecordPlayerInput ClientId UniqueClientId pInput)) ∧
      s'.m_Tick = s.m_Tick := by
  unfold CTeeHistorian.RecordPlayerInput at hrun
  cases hprev : s.prevPlayer ClientId with
  | error e =>
      rw [hprev] at hrun
      cases hrun
  | ok pPrev =>
      obtain ⟨hid, hid', rfl⟩ := prevPlayer_ok hprev
      rw [hprev] at hrun
      simp only [bind, Except.bind, pure, Except.pure] at hrun
      have hknows := h.knows ClientId
      split at hrun
      next hsame =>
        have hpackets : packets CalculateUuid s
          (.RecordPlayerInput ClientId UniqueClientId pInput) = [] := if_pos hsame
        have hcall :
            clients.call (.RecordPlayerInput ClientId UniqueClientId pInput) = clients := by
          have hstays : Function.update clients.input ClientId pInput.ints = clients.input := by
            rw [← hsame.2, ← hknows.input (hsame.1 ▸ hunique), Function.update_eq_self]
          simp only [Clients.call, hstays]
        cases hrun
        rw [hcall, hpackets, List.map_nil, List.append_nil]
        exact ⟨h, rfl⟩
      next hchanged =>
        have hpackets : packets CalculateUuid s
            (.RecordPlayerInput ClientId UniqueClientId pInput) =
          [inputPacket (s.m_aPrevPlayers ClientId) ClientId UniqueClientId pInput] :=
            if_neg hchanged
        cases hensure : s.EnsureTickWritten with
        | error e =>
            rw [hensure] at hrun
            cases hrun
        | ok s₁ =>
            rw [hensure] at hrun
            obtain ⟨bytes, hpacked, hstream⟩ := inputBuffer_spec (s.m_aPrevPlayers ClientId)
              UniqueClientId pInput ⟨hid, hid'⟩
            simp only [hpacked] at hrun
            cases hrun
            obtain ⟨c, hdecodes, hticks⟩ := h.decodes
            obtain ⟨before, c₁, rfl, hticks', hdecodes'⟩ := decodes_behind hticks hdecodes hensure
              hstream (List.forall_mem_singleton.mpr (input_type_le ..))
            have hreplay : ∀ r, [r].foldl Clients.replay clients = clients.replay r := fun _ => rfl
            rw [hreplay, replay_inputPacket hknows hunique] at hdecodes'
            rw [hpackets]
            refine ⟨⟨⟨c₁, hdecodes', ?_⟩, knows_update (fun i hi => ?_) ?_, ?_⟩, rfl⟩
            · exact hticks'.of_same ⟨rfl, rfl, rfl, rfl, rfl, rfl⟩
            · exact
                { alive := (h.knows i).alive
                  position := (h.knows i).position
                  input := fun hi' => (Function.update_of_ne hi ..).trans ((h.knows i).input hi') }
            · exact
                { alive := hknows.alive
                  position := hknows.position
                  input := fun _ => Function.update_self .. }
            · exact lastTick_append log s.m_Tick (List.cons_ne_nil _ [])

end Calls

end Fex.Game.TeeHistorian
