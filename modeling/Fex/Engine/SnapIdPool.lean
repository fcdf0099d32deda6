import Fex.Lib.CInt
import Fex.Lib.Links
import Mathlib.Logic.Function.Basic

/-!
# The snapshot id pool

Model of `snap_id_pool.cpp`.  The array of ids is a function on indices below
`MAX_IDS`, and an access outside of it is a fault.  `Now` is the value that
`time_get` returns.
-/

namespace Fex.Engine.SnapIdPool

open Fex.Lib

abbrev MAX_IDS : Nat := 32 * 1024

/-- `time_freq`, in nanoseconds. -/
def time_freq : Int := 1000000000

/-- Conversion to a 16-bit `short`. -/
def wrap16 (x : Int) : Int := (x + 32768) % 65536 - 32768

/-- State of a snap id. -/
inductive IdState
  | ID_FREE
  | ID_ALLOCATED
  | ID_TIMED
  deriving DecidableEq, Repr

structure CID where
  m_Next : Int
  m_State : IdState
  m_Timeout : Int

structure CSnapIdPool where
  m_aIds : Nat → CID
  m_FirstFree : Int
  m_FirstTimed : Int
  m_LastTimed : Int
  m_Usage : Int
  m_InUsage : Int

namespace CSnapIdPool

/-- `m_aIds[Id]` -/
def get (s : CSnapIdPool) (Id : Int) : Exec CID :=
  if 0 ≤ Id ∧ Id < MAX_IDS then .ok (s.m_aIds Id.toNat) else .error .outOfBounds

def set (s : CSnapIdPool) (Id : Int) (f : CID → CID) : CSnapIdPool :=
  { s with m_aIds := Function.update s.m_aIds Id.toNat (f (s.m_aIds Id.toNat)) }

/-- The loop of `Reset` and the end of the list. -/
def ResetIds (m_aIds : Nat → CID) : Nat → CID := fun i =>
  if i + 1 = MAX_IDS then { m_aIds i with m_Next := -1, m_State := .ID_FREE }
  else if i < MAX_IDS then { m_aIds i with m_Next := wrap16 (i + 1), m_State := .ID_FREE }
  else m_aIds i

def Reset (s : CSnapIdPool) : CSnapIdPool :=
  { m_aIds := ResetIds s.m_aIds, m_FirstFree := 0, m_FirstTimed := -1, m_LastTimed := -1
    m_Usage := 0, m_InUsage := 0 }

def RemoveFirstTimeout (s : CSnapIdPool) : Exec CSnapIdPool := do
  let NextTimed := (← s.get s.m_FirstTimed).m_Next
  -- add it to the free list
  let s := s.set s.m_FirstTimed fun c =>
    { c with m_Next := wrap16 s.m_FirstFree, m_State := .ID_FREE }
  -- remove it from the timed list
  return { s with
    m_FirstFree := s.m_FirstTimed
    m_FirstTimed := NextTimed
    m_LastTimed := if NextTimed = -1 then -1 else s.m_LastTimed
    m_Usage := s.m_Usage - 1 }

/-- The loops that process timed ids, as long as the first one satisfies `due`. -/
def ProcessTimed (due : Int → Bool) : Nat → CSnapIdPool → Exec CSnapIdPool
  | 0, _ => .error .diverges
  | n + 1, s =>
      if s.m_FirstTimed = -1 then .ok s
      else do
        let c ← s.get s.m_FirstTimed
        if due c.m_Timeout then ProcessTimed due n (← s.RemoveFirstTimeout) else return s

/-- Returns the id, or -1. -/
def NewId (s : CSnapIdPool) (Now : Int) : Exec (CSnapIdPool × Int) := do
  let s ← ProcessTimed (fun m_Timeout => m_Timeout < Now) (MAX_IDS + 1) s
  let Id := s.m_FirstFree
  if Id = -1 then return (s, Id)
  let c ← s.get s.m_FirstFree
  let s := { s with m_FirstFree := c.m_Next }
  let s := s.set Id fun c => { c with m_State := .ID_ALLOCATED }
  return ({ s with m_Usage := s.m_Usage + 1, m_InUsage := s.m_InUsage + 1 }, Id)

def TimeoutIds (s : CSnapIdPool) : Exec CSnapIdPool := ProcessTimed (fun _ => true) (MAX_IDS + 1) s

/-- The end of `FreeId`: append to the timed list. -/
def AppendTimed (s : CSnapIdPool) (Id : Int) : Exec CSnapIdPool :=
  if s.m_LastTimed ≠ -1 then do
    let _ ← s.get s.m_LastTimed
    return { s.set s.m_LastTimed fun c => { c with m_Next := wrap16 Id } with m_LastTimed := Id }
  else .ok { s with m_FirstTimed := Id, m_LastTimed := Id }

def FreeId (s : CSnapIdPool) (Now Id : Int) : Exec CSnapIdPool :=
  if Id < 0 then .ok s
  else if ¬ Id < MAX_IDS then .error .assertion
  else if (s.m_aIds Id.toNat).m_State ≠ .ID_ALLOCATED then .error .assertion
  else
    let s := { s with m_InUsage := s.m_InUsage - 1 }
    let s := s.set Id fun _ =>
      { m_Next := -1, m_State := .ID_TIMED, m_Timeout := wrap32 (Now + time_freq * 5) }
    s.AppendTimed Id

end CSnapIdPool

end Fex.Engine.SnapIdPool
