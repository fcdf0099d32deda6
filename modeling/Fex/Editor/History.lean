import Fex.Base.Strings
import Fex.Lib.Run

/-!
# The history of the editor

Model of `CEditorHistory` and of `CEditorActionBulk`.  An action is a pair of
functions on the state of the map, `σ`.
-/

namespace Fex.Editor

open Fex.Lib Fex.Base

variable {σ : Type}

structure IEditorAction (σ : Type) where
  Undo : σ → σ
  Redo : σ → σ
  DisplayText : List UInt8

/-- `m_aDisplayText` -/
def DISPLAY_TEXT_SIZE : Nat := 256

/-- `"%s (x%d)"` -/
def timesText (pBaseDisplay : List UInt8) (n : Nat) : List UInt8 :=
  pBaseDisplay ++ " (x".toUTF8.data.toList ++ formatInt n ++ ")".toUTF8.data.toList

/-- The constructor of a bulk, which takes its text from the first action if none is given. -/
def CEditorActionBulk (vpActions : List (IEditorAction σ)) (pDisplay : Option (List UInt8))
    (Reverse : Bool) : Exec (IEditorAction σ) := do
  let m_aDisplayText ←
    match pDisplay, vpActions with
    -- Assuming we only use bulk for actions of same type, if no display was provided
    | none, [] => .error .outOfBounds
    | none, [pAction] => .ok (str_copy pAction.DisplayText DISPLAY_TEXT_SIZE)
    | none, pAction :: _ =>
        .ok (str_copy (timesText pAction.DisplayText vpActions.length) DISPLAY_TEXT_SIZE)
    | some pDisplay, _ => .ok (str_copy pDisplay DISPLAY_TEXT_SIZE)
  return {
    Undo := fun map =>
      if Reverse then vpActions.reverse.foldl (fun map pAction => pAction.Undo map) map
      else vpActions.foldl (fun map pAction => pAction.Undo map) map
    Redo := fun map => vpActions.foldl (fun map pAction => pAction.Redo map) map
    DisplayText := m_aDisplayText }

structure CEditorHistory (σ : Type) where
  m_vpUndoActions : List (IEditorAction σ)
  m_vpRedoActions : List (IEditorAction σ)
  m_vpBulkActions : List (IEditorAction σ)
  m_IsBulk : Bool

namespace CEditorHistory

def new : CEditorHistory σ :=
  { m_vpUndoActions := [], m_vpRedoActions := [], m_vpBulkActions := [], m_IsBulk := false }

/-- `pop_front` of a deque -/
def popFront : List (IEditorAction σ) → Exec (List (IEditorAction σ))
  | [] => .error .outOfBounds
  | _ :: actions => .ok actions

/-- An action that is recorded with a text of its own is wrapped in a bulk. -/
def displayed (pAction : IEditorAction σ) : Option (List UInt8) → Exec (IEditorAction σ)
  | none => .ok pAction
  | some pDisplay => CEditorActionBulk [pAction] (some pDisplay) false

def RecordAction (h : CEditorHistory σ) (m_ClEditorMaxHistory : Int) (pAction : IEditorAction σ)
    (pDisplay : Option (List UInt8)) : Exec (CEditorHistory σ) :=
  if h.m_IsBulk then .ok { h with m_vpBulkActions := h.m_vpBulkActions ++ [pAction] }
  else do
    let m_vpUndoActions ←
      (if h.m_vpUndoActions.length ≥ m_ClEditorMaxHistory then popFront h.m_vpUndoActions
        else pure h.m_vpUndoActions)
    return { h with
      m_vpUndoActions := m_vpUndoActions ++ [← displayed pAction pDisplay]
      m_vpRedoActions := [] }

/-- The history and the map after `Undo`. -/
def Undo (h : CEditorHistory σ) (map : σ) : CEditorHistory σ × σ :=
  match h.m_vpUndoActions.getLast? with
  | none => (h, map)
  | some pLastAction =>
      ({ h with
          m_vpUndoActions := h.m_vpUndoActions.dropLast
          m_vpRedoActions := h.m_vpRedoActions ++ [pLastAction] },
        pLastAction.Undo map)

def Redo (h : CEditorHistory σ) (map : σ) : CEditorHistory σ × σ :=
  match h.m_vpRedoActions.getLast? with
  | none => (h, map)
  | some pLastAction =>
      ({ h with
          m_vpRedoActions := h.m_vpRedoActions.dropLast
          m_vpUndoActions := h.m_vpUndoActions ++ [pLastAction] },
        pLastAction.Redo map)

def Clear (h : CEditorHistory σ) : CEditorHistory σ :=
  { h with m_vpUndoActions := [], m_vpRedoActions := [] }

def BeginBulk (h : CEditorHistory σ) : CEditorHistory σ :=
  { h with m_IsBulk := true, m_vpBulkActions := [] }

def EndBulk (h : CEditorHistory σ) (m_ClEditorMaxHistory : Int) (pDisplay : Option (List UInt8)) :
    Exec (CEditorHistory σ) :=
  if h.m_IsBulk = false then .ok h
  else do
    let h := { h with m_IsBulk := false }
    -- Record bulk action
    let h ←
      (if h.m_vpBulkActions = [] then pure h
        else do
          h.RecordAction m_ClEditorMaxHistory (← CEditorActionBulk h.m_vpBulkActions pDisplay true)
            none)
    return { h with m_vpBulkActions := [] }

/-- The text of an action of the bulk, for `EndBulk(int DisplayToUse)`. -/
def displayToUse (h : CEditorHistory σ) (DisplayToUse : Int) : Option (List UInt8) :=
  if DisplayToUse < 0 ∨ DisplayToUse ≥ h.m_vpBulkActions.length then none
  else h.m_vpBulkActions[DisplayToUse.toNat]?.map fun pAction => pAction.DisplayText

end CEditorHistory

/-! ## Sessions -/

/-- A history beside the map it records, with the map before the oldest kept action. -/
structure Session (σ : Type) where
  history : CEditorHistory σ
  map : σ
  base : σ
  m_ClEditorMaxHistory : Int

inductive Call (σ : Type)
  | Execute (pAction : IEditorAction σ) (pDisplay : Option (List UInt8))
  /-- The action was applied to the map before it is recorded. -/
  | RecordAction (pAction : IEditorAction σ) (pDisplay : Option (List UInt8))
  | BeginBulk
  | EndBulk (pDisplay : Option (List UInt8))
  /-- `EndBulk(int)` -/
  | EndBulkTo (DisplayToUse : Int)
  | Undo
  | Redo
  | Clear
  /-- `cl_editor_max_history` is set. -/
  | SetMaxHistory (m_ClEditorMaxHistory : Int)

namespace Session

def start (map : σ) (m_ClEditorMaxHistory : Int) : Session σ :=
  { history := .new, map := map, base := map, m_ClEditorMaxHistory := m_ClEditorMaxHistory }

/-- Applies actions, oldest first. -/
def replay (map : σ) (actions : List (IEditorAction σ)) : σ :=
  actions.foldl (fun map pAction => pAction.Redo map) map

/-- The base moves past the oldest action where recording drops it. -/
def droppedBase (s : Session σ) : σ :=
  match s.history.m_vpUndoActions with
  | [] => s.base
  | pAction :: _ =>
      if s.history.m_vpUndoActions.length ≥ s.m_ClEditorMaxHistory then pAction.Redo s.base
      else s.base

def record (s : Session σ) (pAction : IEditorAction σ) (pDisplay : Option (List UInt8)) :
    Exec (Session σ) := do
  let history ← s.history.RecordAction s.m_ClEditorMaxHistory pAction pDisplay
  return { s with
    history := history
    map := pAction.Redo s.map
    base := if s.history.m_IsBulk then s.base else s.droppedBase }

def endBulk (s : Session σ) (pDisplay : Option (List UInt8)) : Exec (Session σ) := do
  let history ← s.history.EndBulk s.m_ClEditorMaxHistory pDisplay
  return { s with
    history := history
    base :=
      if s.history.m_IsBulk = true ∧ s.history.m_vpBulkActions ≠ [] then s.droppedBase
      else s.base }

def step (s : Session σ) : Call σ → Exec (Session σ)
  | .Execute pAction pDisplay => s.record pAction pDisplay
  | .RecordAction pAction pDisplay => s.record pAction pDisplay
  | .BeginBulk => .ok { s with history := s.history.BeginBulk }
  | .EndBulk pDisplay => s.endBulk pDisplay
  | .EndBulkTo DisplayToUse => s.endBulk (s.history.displayToUse DisplayToUse)
  | .Undo =>
      let (history, map) := s.history.Undo s.map
      .ok { s with history := history, map := map }
  | .Redo =>
      let (history, map) := s.history.Redo s.map
      .ok { s with history := history, map := map }
  | .Clear =>
      .ok { s with history := s.history.Clear, base := replay s.base s.history.m_vpUndoActions }
  | .SetMaxHistory m_ClEditorMaxHistory =>
      .ok { s with m_ClEditorMaxHistory := m_ClEditorMaxHistory }

end Session

end Fex.Editor
