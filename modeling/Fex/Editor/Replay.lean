import Fex.Editor.History

/-!
# Replaying the history

The map is what the kept actions make of the map before them, as long as nothing
is undone, redone or begun while the actions of a bulk wait to be recorded.
-/

namespace Fex.Editor

open Fex.Lib Fex.Base

variable {σ : Type}

/-- `Undo` takes back what `Redo` did. -/
def IEditorAction.Inverts (a : IEditorAction σ) : Prop := ∀ map, a.Undo (a.Redo map) = map

/-! ## Bulks -/

theorem bulk_one (a : IEditorAction σ) (pDisplay : List UInt8) :
    ∃ r, CEditorActionBulk [a] (some pDisplay) false = .ok r ∧
      (∀ map, r.Undo map = a.Undo map) ∧ ∀ map, r.Redo map = a.Redo map :=
  ⟨_, rfl, fun _ => rfl, fun _ => rfl⟩

theorem undo_reverse {actions : List (IEditorAction σ)} (h : ∀ a ∈ actions, a.Inverts) (map : σ) :
    actions.reverse.foldl (fun map pAction => pAction.Undo map) (Session.replay map actions) =
      map := by
  induction actions generalizing map with
  | nil => rfl
  | cons a actions ih =>
      rw [List.reverse_cons, List.foldl_append]
      show a.Undo (actions.reverse.foldl (fun map pAction => pAction.Undo map)
        (Session.replay (a.Redo map) actions)) = map
      rw [ih fun b hb => h b (List.mem_cons_of_mem a hb)]
      exact h a List.mem_cons_self map

theorem bulk_reverse {actions : List (IEditorAction σ)} (hne : actions ≠ [])
    (h : ∀ a ∈ actions, a.Inverts) (pDisplay : Option (List UInt8)) :
    ∃ r, CEditorActionBulk actions pDisplay true = .ok r ∧ r.Inverts ∧
      ∀ map, r.Redo map = Session.replay map actions := by
  have hbulk : ∃ r, CEditorActionBulk actions pDisplay true = .ok r ∧
      (∀ map, r.Undo map = actions.reverse.foldl (fun map pAction => pAction.Undo map) map) ∧
      ∀ map, r.Redo map = Session.replay map actions := by
    cases pDisplay with
    | some pDisplay => exact ⟨_, rfl, fun _ => rfl, fun _ => rfl⟩
    | none =>
        match actions, hne with
        | [_], _ => exact ⟨_, rfl, fun _ => rfl, fun _ => rfl⟩
        | _ :: _ :: _, _ => exact ⟨_, rfl, fun _ => rfl, fun _ => rfl⟩
  obtain ⟨r, hrun, hundo, hredo⟩ := hbulk
  refine ⟨r, hrun, fun map => ?_, hredo⟩
  rw [hredo, hundo]
  exact undo_reverse h map

theorem replay_append (map : σ) (actions actions' : List (IEditorAction σ)) :
    Session.replay map (actions ++ actions') =
      Session.replay (Session.replay map actions) actions' :=
  List.foldl_append

/-! ## The invariant -/

/-- The map is the replay of the kept actions, all of which can be taken back; limits are
positive and at most `M`. -/
structure Replays (M : Int) (s : Session σ) : Prop where
  map : s.map = Session.replay s.base (s.history.m_vpUndoActions ++ s.history.m_vpBulkActions)
  undo : ∀ a ∈ s.history.m_vpUndoActions, a.Inverts
  redo : ∀ a ∈ s.history.m_vpRedoActions, a.Inverts
  bulk : ∀ a ∈ s.history.m_vpBulkActions, a.Inverts
  closed : s.history.m_IsBulk = false → s.history.m_vpBulkActions = []
  limit : 1 ≤ s.m_ClEditorMaxHistory ∧ s.m_ClEditorMaxHistory ≤ M
  length : (s.history.m_vpUndoActions.length + s.history.m_vpRedoActions.length : Int) ≤ M

theorem replays_start (map : σ) {M : Int} (hM : 1 ≤ M) : Replays M (Session.start map M) where
  map := rfl
  undo := fun _ ha => absurd ha List.not_mem_nil
  redo := fun _ ha => absurd ha List.not_mem_nil
  bulk := fun _ ha => absurd ha List.not_mem_nil
  closed := fun _ => rfl
  limit := ⟨hM, Int.le_refl M⟩
  length := by
    show (0 + 0 : Int) ≤ M
    omega

/-- The recorded action stands for the one that was applied. -/
theorem displayed_spec {a : IEditorAction σ} (ha : a.Inverts) (pDisplay : Option (List UInt8)) :
    ∃ r, CEditorHistory.displayed a pDisplay = .ok r ∧ r.Inverts ∧
      ∀ map, r.Redo map = a.Redo map := by
  cases pDisplay with
  | none => exact ⟨a, rfl, ha, fun _ => rfl⟩
  | some pDisplay =>
      obtain ⟨r, hrun, hundo, hredo⟩ := bulk_one a pDisplay
      refine ⟨r, hrun, fun map => ?_, hredo⟩
      rw [hredo, hundo]
      exact ha map

/-- The actions left when there is room for one more. -/
theorem Replays.dropped {M : Int} {s : Session σ} (h : Replays M s) :
    ∃ kept, (if s.history.m_vpUndoActions.length ≥ s.m_ClEditorMaxHistory then
        CEditorHistory.popFront s.history.m_vpUndoActions
      else pure s.history.m_vpUndoActions) = Except.ok kept ∧
      (∀ a ∈ kept, a ∈ s.history.m_vpUndoActions) ∧ (kept.length + 1 : Int) ≤ M ∧
      Session.replay s.droppedBase kept = Session.replay s.base s.history.m_vpUndoActions := by
  obtain ⟨hpos, hle⟩ := h.limit
  have hlength := h.length
  unfold Session.droppedBase
  cases hundo : s.history.m_vpUndoActions with
  | nil =>
      rw [if_neg (by rw [List.length_nil]; omega)]
      refine ⟨[], rfl, fun a ha => ha, ?_, rfl⟩
      rw [List.length_nil]
      omega
  | cons a actions =>
      rw [hundo, List.length_cons] at hlength
      simp only
      by_cases hfull : ((a :: actions).length : Int) ≥ s.m_ClEditorMaxHistory
      · rw [if_pos hfull, if_pos hfull]
        exact ⟨actions, rfl, fun b hb => List.mem_cons_of_mem a hb, by omega, rfl⟩
      · rw [if_neg hfull, if_neg hfull]
        refine ⟨a :: actions, rfl, fun b hb => hb, ?_, rfl⟩
        omega

/-- Recording outside of a bulk appends the action and drops the oldest one at the limit. -/
theorem Replays.recordAction {M : Int} {s : Session σ} (h : Replays M s)
    {history : CEditorHistory σ} (hbulk : history.m_IsBulk = false)
    (hundo : history.m_vpUndoActions = s.history.m_vpUndoActions) {a : IEditorAction σ}
    (ha : a.Inverts) (pDisplay : Option (List UInt8)) :
    ∃ undo, history.RecordAction s.m_ClEditorMaxHistory a pDisplay =
        .ok { history with m_vpUndoActions := undo, m_vpRedoActions := [] } ∧
      (∀ b ∈ undo, b.Inverts) ∧ (undo.length : Int) ≤ M ∧
      Session.replay s.droppedBase undo =
        a.Redo (Session.replay s.base s.history.m_vpUndoActions) := by
  obtain ⟨r, hr, hinverts, hredo⟩ := displayed_spec ha pDisplay
  obtain ⟨kept, hkept, hsub, hroom, hreplay⟩ := h.dropped
  refine ⟨kept ++ [r], ?_, fun b hb => ?_, ?_, ?_⟩
  · unfold CEditorHistory.RecordAction
    rw [hbulk, if_neg (by decide), hundo, hkept]
    simp only [bind, Except.bind]
    rw [hr]
    rfl
  · rcases List.mem_append.mp hb with hb | hb
    · exact h.undo b (hsub b hb)
    · rw [List.mem_singleton.mp hb]
      exact hinverts
  · rw [List.length_append, List.length_singleton]
    omega
  · rw [replay_append, hreplay]
    exact hredo _

/-! ## One call -/

/-- Recorded actions can be taken back.  Nothing is undone or redone and no bulk is begun while
the actions of a bulk are not recorded yet. -/
def Settled (M : Int) (s : Session σ) : Call σ → Prop
  | .Execute pAction _ => pAction.Inverts
  | .RecordAction pAction _ => pAction.Inverts
  | .BeginBulk => s.history.m_vpBulkActions = []
  | .Undo => s.history.m_vpBulkActions = [] ∨ s.history.m_vpUndoActions = []
  | .Redo => s.history.m_vpBulkActions = [] ∨ s.history.m_vpRedoActions = []
  | .SetMaxHistory m_ClEditorMaxHistory => 1 ≤ m_ClEditorMaxHistory ∧ m_ClEditorMaxHistory ≤ M
  | _ => True

section

variable {M : Int} {s : Session σ}

theorem Replays.record (h : Replays M s) {a : IEditorAction σ} (ha : a.Inverts)
    (pDisplay : Option (List UInt8)) :
    ∃ t, s.record a pDisplay = .ok t ∧ Replays M t ∧
      (s.history.m_IsBulk = false → t.history.m_vpRedoActions = []) := by
  unfold Session.record
  cases hbulk : s.history.m_IsBulk with
  | true =>
      have hrun : s.history.RecordAction s.m_ClEditorMaxHistory a pDisplay = .ok { s.history with
          m_vpBulkActions := s.history.m_vpBulkActions ++ [a] } := by
        unfold CEditorHistory.RecordAction
        rw [if_pos hbulk]
      rw [hrun]
      refine ⟨_, rfl, ⟨?_, h.undo, h.redo, fun b hb => ?_, fun hclosed => ?_, h.limit, h.length⟩,
        fun hclosed => by cases hclosed⟩
      · simp only [if_true]
        rw [h.map, ← List.append_assoc, replay_append _ _ [a]]
        rfl
      · rcases List.mem_append.mp hb with hb | hb
        · exact h.bulk b hb
        · rw [List.mem_singleton.mp hb]
          exact ha
      · rw [hbulk] at hclosed
        cases hclosed
  | false =>
      obtain ⟨undo, hrun, hinverts, hroom, hreplay⟩ := h.recordAction hbulk rfl ha pDisplay
      have hempty := h.closed hbulk
      rw [hrun]
      refine ⟨_, rfl, ⟨?_, hinverts, fun b hb => absurd hb List.not_mem_nil, h.bulk,
        fun _ => hempty, h.limit, ?_⟩, fun _ => rfl⟩
      · simp only [Bool.false_eq_true, if_false]
        rw [hempty, List.append_nil, hreplay, h.map, hempty, List.append_nil]
      · simp only [List.length_nil]
        omega

theorem Replays.endBulk (h : Replays M s) (pDisplay : Option (List UInt8)) :
    ∃ t, s.endBulk pDisplay = .ok t ∧ Replays M t ∧
      (s.history.m_vpBulkActions ≠ [] → t.history.m_vpRedoActions = []) := by
  unfold Session.endBulk CEditorHistory.EndBulk
  cases hbulk : s.history.m_IsBulk with
  | false =>
      refine ⟨s, ?_, h, fun hne => absurd (h.closed hbulk) hne⟩
      rw [if_pos rfl]
      simp
  | true =>
      rw [if_neg (by decide)]
      by_cases hempty : s.history.m_vpBulkActions = []
      · simp only [hempty, if_true, not_true_eq_false, ne_eq, and_false, if_false, IsEmpty.forall_iff,
          and_true]
        refine ⟨_, rfl, ⟨?_, h.undo, h.redo, fun b hb => absurd hb List.not_mem_nil,
          fun _ => rfl, h.limit, h.length⟩⟩
        rw [h.map, hempty]
      · obtain ⟨r, hr, hinverts, hredo⟩ := bulk_reverse hempty h.bulk pDisplay
        obtain ⟨undo, hrun, hinverts', hroom, hreplay⟩ :=
          @Replays.recordAction _ _ _ h { s.history with m_IsBulk := false } rfl rfl _ hinverts none
        simp only [if_neg hempty, hr, bind, Except.bind]
        rw [hrun]
        refine ⟨_, rfl, ⟨?_, hinverts', fun b hb => absurd hb List.not_mem_nil,
          fun b hb => absurd hb List.not_mem_nil, fun _ => rfl, h.limit, ?_⟩, fun _ => rfl⟩
        · simp only [hempty, ne_eq, not_false_eq_true, and_self, if_true, List.append_nil]
          rw [hreplay, hredo, h.map, replay_append]
        · simp only [List.length_nil]
          omega

/-- Undoing what was done last, and doing it again. -/
theorem Replays.undo_redo (h : Replays M s) (hbulk : s.history.m_vpBulkActions = [])
    (hne : s.history.m_vpUndoActions ≠ []) :
    ∃ t, s.step .Undo = .ok t ∧ Replays M t ∧ t.step .Redo = .ok s := by
  obtain ⟨actions, a, hundo⟩ : ∃ actions a, s.history.m_vpUndoActions = actions ++ [a] :=
    ⟨_, _, (List.dropLast_concat_getLast hne).symm⟩
  have ha : a.Inverts := h.undo a (by rw [hundo]; exact List.mem_concat_self)
  have hmap : s.map = a.Redo (Session.replay s.base actions) := by
    rw [h.map, hbulk, List.append_nil, hundo, replay_append]
    rfl
  have hlength := h.length
  rw [hundo, List.length_append, List.length_singleton] at hlength
  have hrun : s.step .Undo = .ok { s with
      history := { s.history with
        m_vpUndoActions := actions
        m_vpRedoActions := s.history.m_vpRedoActions ++ [a] }
      map := a.Undo s.map } := by
    simp only [Session.step, CEditorHistory.Undo, hundo, List.getLast?_concat, List.dropLast_concat]
  refine ⟨_, hrun, ⟨?_, fun b hb => ?_, fun b hb => ?_, h.bulk, h.closed, h.limit, ?_⟩, ?_⟩
  · simp only [hbulk, List.append_nil]
    rw [hmap, ha]
  · exact h.undo b (by rw [hundo]; exact List.mem_append_left _ hb)
  · rcases List.mem_append.mp hb with hb | hb
    · exact h.redo b hb
    · rw [List.mem_singleton.mp hb]
      exact ha
  · simp only [List.length_append, List.length_singleton]
    omega
  · simp only [Session.step, CEditorHistory.Redo, List.getLast?_concat, List.dropLast_concat]
    rw [← hundo, hmap, ha, ← hmap]

/-- Doing again what was undone last, and undoing it. -/
theorem Replays.redo_undo (h : Replays M s) (hbulk : s.history.m_vpBulkActions = [])
    (hne : s.history.m_vpRedoActions ≠ []) :
    ∃ t, s.step .Redo = .ok t ∧ Replays M t ∧ t.step .Undo = .ok s := by
  obtain ⟨actions, a, hredo⟩ : ∃ actions a, s.history.m_vpRedoActions = actions ++ [a] :=
    ⟨_, _, (List.dropLast_concat_getLast hne).symm⟩
  have ha : a.Inverts := h.redo a (by rw [hredo]; exact List.mem_concat_self)
  have hlength := h.length
  rw [hredo, List.length_append, List.length_singleton] at hlength
  have hrun : s.step .Redo = .ok { s with
      history := { s.history with
        m_vpRedoActions := actions
        m_vpUndoActions := s.history.m_vpUndoActions ++ [a] }
      map := a.Redo s.map } := by
    simp only [Session.step, CEditorHistory.Redo, hredo, List.getLast?_concat, List.dropLast_concat]
  refine ⟨_, hrun, ⟨?_, fun b hb => ?_, fun b hb => ?_, h.bulk, h.closed, h.limit, ?_⟩, ?_⟩
  · have hmap := h.map
    rw [hbulk, List.append_nil] at hmap
    simp only [hbulk, List.append_nil]
    rw [replay_append, ← hmap]
    rfl
  · rcases List.mem_append.mp hb with hb | hb
    · exact h.undo b hb
    · rw [List.mem_singleton.mp hb]
      exact ha
  · exact h.redo b (by rw [hredo]; exact List.mem_append_left _ hb)
  · simp only [List.length_append, List.length_singleton]
    omega
  · simp only [Session.step, CEditorHistory.Undo, List.getLast?_concat, List.dropLast_concat]
    rw [← hredo, ha]

theorem Replays.undo_call (h : Replays M s)
    (hsettled : s.history.m_vpBulkActions = [] ∨ s.history.m_vpUndoActions = []) :
    ∃ t, s.step .Undo = .ok t ∧ Replays M t := by
  by_cases hne : s.history.m_vpUndoActions = []
  · refine ⟨s, ?_, h⟩
    simp only [Session.step, CEditorHistory.Undo, hne, List.getLast?_nil]
  · obtain ⟨t, hrun, ht, -⟩ := h.undo_redo (hsettled.resolve_right hne) hne
    exact ⟨t, hrun, ht⟩

theorem Replays.redo_call (h : Replays M s)
    (hsettled : s.history.m_vpBulkActions = [] ∨ s.history.m_vpRedoActions = []) :
    ∃ t, s.step .Redo = .ok t ∧ Replays M t := by
  by_cases hne : s.history.m_vpRedoActions = []
  · refine ⟨s, ?_, h⟩
    simp only [Session.step, CEditorHistory.Redo, hne, List.getLast?_nil]
  · obtain ⟨t, hrun, ht, -⟩ := h.redo_undo (hsettled.resolve_right hne) hne
    exact ⟨t, hrun, ht⟩

theorem Replays.step (h : Replays M s) {call : Call σ} (hcall : Settled M s call) :
    ∃ t, s.step call = .ok t ∧ Replays M t := by
  cases call with
  | Execute a pDisplay =>
      obtain ⟨t, hrun, ht, -⟩ := h.record hcall pDisplay
      exact ⟨t, hrun, ht⟩
  | RecordAction a pDisplay =>
      obtain ⟨t, hrun, ht, -⟩ := h.record hcall pDisplay
      exact ⟨t, hrun, ht⟩
  | BeginBulk =>
      refine ⟨_, rfl, ⟨?_, h.undo, h.redo, fun b hb => absurd hb List.not_mem_nil, fun _ => rfl,
        h.limit, h.length⟩⟩
      have hmap := h.map
      rw [hcall] at hmap
      exact hmap
  | EndBulk pDisplay =>
      obtain ⟨t, hrun, ht, -⟩ := h.endBulk pDisplay
      exact ⟨t, hrun, ht⟩
  | EndBulkTo DisplayToUse =>
      obtain ⟨t, hrun, ht, -⟩ := h.endBulk (s.history.displayToUse DisplayToUse)
      exact ⟨t, hrun, ht⟩
  | Undo => exact h.undo_call hcall
  | Redo => exact h.redo_call hcall
  | Clear =>
      have hlength := h.length
      refine ⟨_, rfl, ⟨?_, fun b hb => absurd hb List.not_mem_nil,
        fun b hb => absurd hb List.not_mem_nil, h.bulk, h.closed, h.limit, ?_⟩⟩
      · rw [h.map, replay_append]
        rfl
      · show (0 + 0 : Int) ≤ M
        omega
  | SetMaxHistory m_ClEditorMaxHistory =>
      exact ⟨_, rfl, ⟨h.map, h.undo, h.redo, h.bulk, h.closed, hcall, h.length⟩⟩

/-! ## Runs -/

/-- `Undo` and `Redo` take each other back, the map and both stacks. -/
def Reverses (s : Session σ) : Prop :=
  s.history.m_vpBulkActions = [] →
    (s.history.m_vpUndoActions ≠ [] → ∃ t, s.step .Undo = .ok t ∧ t.step .Redo = .ok s) ∧
      (s.history.m_vpRedoActions ≠ [] → ∃ t, s.step .Redo = .ok t ∧ t.step .Undo = .ok s)

/-- Recording clears the redo stack: outside of a bulk at once, in a bulk at its end. -/
def ClearsRedo (s : Session σ) : Prop :=
  (s.history.m_IsBulk = false → ∀ (a : IEditorAction σ) pDisplay, a.Inverts →
    ∀ call ∈ [Call.Execute a pDisplay, .RecordAction a pDisplay],
      ∃ t, s.step call = .ok t ∧ t.history.m_vpRedoActions = []) ∧
  (s.history.m_vpBulkActions ≠ [] → ∀ pDisplay,
    ∃ t, s.step (.EndBulk pDisplay) = .ok t ∧ t.history.m_vpRedoActions = [])

/-- In every run the map is the replay of the kept actions and of the pending ones on the map
before the oldest kept action, and the stack of kept actions stays within the limit. -/
theorem history_runs {map : σ} (hM : 1 ≤ M)
    (h : Reachable Session.step (Settled M) (Session.start map M) s) :
    s.map = Session.replay s.base (s.history.m_vpUndoActions ++ s.history.m_vpBulkActions) ∧
      (s.history.m_vpUndoActions.length : Int) ≤ M ∧ Reverses s ∧ ClearsRedo s ∧
      ∀ call, Settled M s call → ∃ t, s.step call = .ok t := by
  have hreplays : Replays M s := by
    apply Reachable.invariant h (replays_start map hM)
    intro s t call hs hcall hstep
    obtain ⟨t', hstep', ht'⟩ := hs.step hcall
    rw [hstep] at hstep'
    rw [Except.ok.inj hstep']
    exact ht'
  refine ⟨hreplays.map, ?_, fun hbulk => ⟨fun hne => ?_, fun hne => ?_⟩,
    ⟨fun hbulk a pDisplay ha call hmem => ?_, fun hne pDisplay => ?_⟩, fun call hcall => ?_⟩
  · have hlength := hreplays.length
    omega
  · obtain ⟨t, hrun, -, hback⟩ := hreplays.undo_redo hbulk hne
    exact ⟨t, hrun, hback⟩
  · obtain ⟨t, hrun, -, hback⟩ := hreplays.redo_undo hbulk hne
    exact ⟨t, hrun, hback⟩
  · obtain ⟨t, hrun, -, hclears⟩ := hreplays.record ha pDisplay
    refine ⟨t, ?_, hclears hbulk⟩
    rcases List.mem_cons.mp hmem with rfl | hmem
    · exact hrun
    · rw [List.mem_singleton.mp hmem]
      exact hrun
  · obtain ⟨t, hrun, -, hclears⟩ := hreplays.endBulk pDisplay
    exact ⟨t, hrun, hclears hne⟩
  · obtain ⟨t, hrun, -⟩ := hreplays.step hcall
    exact ⟨t, hrun⟩

end

/-- An action that puts a number in front of a list. -/
def push (n : Nat) : IEditorAction (List Nat) :=
  { Undo := List.tail, Redo := List.cons n, DisplayText := [] }

/-- Two actions recorded as one, undone, with a limit of one. -/
theorem history_runs_bulk :
    ∃ s, Reachable Session.step (Settled 1) (Session.start [] 1) s ∧ s.map = [1] ∧ s.base = [1] ∧
      s.map = Session.replay s.base (s.history.m_vpUndoActions ++ s.history.m_vpBulkActions) ∧
      (s.history.m_vpUndoActions.length : Int) ≤ 1 ∧ Reverses s ∧ ClearsRedo s ∧
      ∀ call, Settled 1 s call → ∃ t, s.step call = .ok t := by
  have h₀ : Reachable Session.step (Settled 1) (Session.start ([] : List Nat) 1) _ := .init
  have h₁ := Reachable.next (Call.Execute (push 1) (some [])) h₀ (fun _ => rfl) rfl
  have h₂ := Reachable.next Call.BeginBulk h₁ rfl rfl
  have h₃ := Reachable.next (Call.Execute (push 2) none) h₂ (fun _ => rfl) rfl
  have h₄ := Reachable.next (Call.RecordAction (push 3) none) h₃ (fun _ => rfl) rfl
  have h₅ := Reachable.next (Call.EndBulk none) h₄ trivial rfl
  have h₆ := Reachable.next Call.Undo h₅ (.inl rfl) rfl
  exact ⟨_, h₆, rfl, rfl, history_runs (by decide) h₆⟩

/-- Undoing and redoing while a bulk is open acts before its actions, beginning a bulk again
forgets them, and recording in a bulk leaves the redo stack. -/
theorem open_bulk :
    (∃ s, [Call.Execute (push 1) none, .BeginBulk, .Execute (push 2) none, .Undo].foldlM
        Session.step (Session.start [] 50) = .ok s ∧ s.map = [1] ∧
        Session.replay s.base (s.history.m_vpUndoActions ++ s.history.m_vpBulkActions) = [2]) ∧
      (∃ s, [Call.Execute (push 1) none, .Undo, .BeginBulk, .Execute (push 2) none, .Redo].foldlM
        Session.step (Session.start [] 50) = .ok s ∧ s.map = [1, 2] ∧
        Session.replay s.base (s.history.m_vpUndoActions ++ s.history.m_vpBulkActions) = [2, 1]) ∧
      (∃ s, [Call.BeginBulk, .Execute (push 1) none, .BeginBulk].foldlM
        Session.step (Session.start [] 50) = .ok s ∧ s.map = [1] ∧
        Session.replay s.base (s.history.m_vpUndoActions ++ s.history.m_vpBulkActions) = []) ∧
      ∃ s, [Call.Execute (push 1) none, .Undo, .BeginBulk, .Execute (push 2) none].foldlM
        Session.step (Session.start [] 50) = .ok s ∧ s.history.m_vpRedoActions.length = 1 :=
  ⟨⟨_, rfl, rfl, rfl⟩, ⟨_, rfl, rfl, rfl⟩, ⟨_, rfl, rfl, rfl⟩, ⟨_, rfl, rfl⟩⟩

end Fex.Editor
