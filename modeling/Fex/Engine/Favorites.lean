import Fex.Engine.NetBan
import Fex.Lib.Run
import Fex.Lib.SwapRemove
import Mathlib.Logic.Function.Basic

/-!
# Favorite servers

Model of `CFavorites`.  The entries are a vector, `m_ByAddr` maps each address to the
index of its entry.
-/

namespace Fex.Engine.Favorites

open Fex.Lib Fex.Engine.NetBan

def MAX_SERVER_ADDRESSES : Nat := 16

/-- The addresses are the first `m_NumAddrs` of `m_aAddrs`. -/
structure CEntry where
  m_aAddrs : List NETADDR
  m_AllowPing : Bool
  deriving DecidableEq

structure CFavorites where
  m_vEntries : List CEntry
  m_ByAddr : NETADDR → Option Nat

namespace CFavorites

def empty : CFavorites := { m_vEntries := [], m_ByAddr := fun _ => none }

/-- The index of the entry that `Entry` points to, it has to be one of the vector. -/
def Entry (f : CFavorites) (Addr : NETADDR) : Exec (Option (Nat × CEntry)) :=
  match f.m_ByAddr Addr with
  | none => .ok none
  | some second =>
      match f.m_vEntries[second]? with
      | none => .error .outOfBounds
      | some pEntry => .ok (some (second, pEntry))

/-- `m_ByAddr.at(Addr) = Index` for the addresses of an entry, `at` throws where there is none. -/
def relocate (Index : Nat) (m_ByAddr : NETADDR → Option Nat) :
    List NETADDR → Exec (NETADDR → Option Nat)
  | [] => .ok m_ByAddr
  | Addr :: addrs =>
      if (m_ByAddr Addr).isNone then .error .outOfBounds
      else relocate Index (Function.update m_ByAddr Addr (some Index)) addrs

/-- `pEntry` is the entry at an index of the vector. -/
def RemoveEntry (f : CFavorites) (Index : Nat) : Exec CFavorites :=
  match f.m_vEntries.getLast? with
  | none => .error .outOfBounds
  | some last => do
      -- Replace the entry
      let m_vEntries := swapRemove f.m_vEntries Index
      let m_ByAddr ←
        if Index ≠ m_vEntries.length then relocate Index f.m_ByAddr last.m_aAddrs
        else pure f.m_ByAddr
      return { m_vEntries := m_vEntries, m_ByAddr := m_ByAddr }

/-- An address that is added is taken from the entry that has it. -/
def clean (f : CFavorites) (Addr : NETADDR) : Exec CFavorites := do
  match ← f.Entry Addr with
  | none => return f
  | some (Index, pEntry) =>
      let addrs := swapErase pEntry.m_aAddrs Addr
      let f := { f with m_vEntries := f.m_vEntries.set Index { pEntry with m_aAddrs := addrs } }
      -- If the entry has become empty due to the cleaning, remove it completely.
      if addrs = [] then f.RemoveEntry Index else return f

def Add (f : CFavorites) (pAddrs : List NETADDR) : Exec CFavorites :=
  -- discarding empty favorite group
  if pAddrs = [] then .ok f
  else do
    let f ← pAddrs.foldlM clean f
    -- Add the new entry.
    let addrs := pAddrs.take MAX_SERVER_ADDRESSES
    return {
      m_vEntries := f.m_vEntries ++ [{ m_aAddrs := addrs, m_AllowPing := false }]
      m_ByAddr := addrs.foldl (fun by' Addr => Function.update by' Addr (some f.m_vEntries.length))
        f.m_ByAddr }

def allow (AllowPing : Bool) (f : CFavorites) (Addr : NETADDR) : Exec CFavorites := do
  match ← f.Entry Addr with
  | none => return f
  | some (Index, pEntry) =>
      return { f with
        m_vEntries := f.m_vEntries.set Index { pEntry with m_AllowPing := AllowPing } }

def AllowPing (f : CFavorites) (pAddrs : List NETADDR) (AllowPing : Bool) : Exec CFavorites :=
  pAddrs.foldlM (allow AllowPing) f

def drop (f : CFavorites) (Addr : NETADDR) : Exec CFavorites := do
  match ← f.Entry Addr with
  | none => return f
  | some (Index, pEntry) =>
      let m_ByAddr :=
        pEntry.m_aAddrs.foldl (fun by' Addr => Function.update by' Addr none) f.m_ByAddr
      { f with m_ByAddr := m_ByAddr }.RemoveEntry Index

def Remove (f : CFavorites) (pAddrs : List NETADDR) : Exec CFavorites := pAddrs.foldlM drop f

end CFavorites

/-! ## Calls -/

inductive Call
  | Add (pAddrs : List NETADDR)
  | AllowPing (pAddrs : List NETADDR) (AllowPing : Bool)
  | Remove (pAddrs : List NETADDR)

def step (f : CFavorites) : Call → Exec CFavorites
  | .Add pAddrs => f.Add pAddrs
  | .AllowPing pAddrs AllowPing => f.AllowPing pAddrs AllowPing
  | .Remove pAddrs => f.Remove pAddrs

end Fex.Engine.Favorites
