import Fex.Lib.CInt
import Fex.Mastersrv.Addr
import Mathlib.Data.List.AList
import Mathlib.Data.List.Sort
import Mathlib.Data.String.Basic

/-!
# The registry of the master server

Model of `Servers` and `Dump`.  A map is a list
of entries with distinct keys; a loop over a map follows the order of the list,
which is any order for a `HashMap`.  Panics are faults.
-/

namespace Fex.Mastersrv

open Fex.Lib

abbrev ShortString := String
abbrev Location := String

/-- The text of `json::value::RawValue`. -/
abbrev RawValue := String

abbrev HashMap (K V : Type) := AList fun _ : K => V

/-- A map whose entries are sorted. -/
abbrev BTreeMap (K V : Type) := AList fun _ : K => V

/-- `collect` into a `BTreeMap`. -/
def BTreeMap.collect {K V : Type} [LinearOrder K] (m : HashMap K V) : BTreeMap K V where
  entries := m.entries.insertionSort fun a b => a.1 ≤ b.1
  nodupKeys := (List.perm_nodupKeys (List.perm_insertionSort _ m.entries)).mpr m.nodupKeys

/-! ## Entries -/

abbrev Timestamp := Int

inductive EntryKind
  | Backcompat
  | Mastersrv
  deriving DecidableEq

def EntryKind.index : EntryKind → Nat
  | .Backcompat => 0
  | .Mastersrv => 1

instance : LT EntryKind := ⟨fun a b => a.index < b.index⟩

instance (a b : EntryKind) : Decidable (a < b) := inferInstanceAs (Decidable (a.index < b.index))

structure AddrInfo where
  kind : EntryKind
  ping_time : Timestamp
  location : Option Location
  secret : ShortString
  deriving DecidableEq

structure Server where
  addresses : List Addr
  info_serial : Int
  info : RawValue
  deriving DecidableEq

structure DumpServer where
  info_serial : Int
  info : RawValue
  deriving DecidableEq

def DumpServer.of (server : Server) : DumpServer :=
  { info_serial := server.info_serial, info := server.info }

structure Servers where
  addresses : HashMap Addr AddrInfo
  servers : HashMap ShortString Server

structure Dump where
  now : Timestamp
  addresses : BTreeMap Addr AddrInfo
  servers : BTreeMap ShortString DumpServer

/-- The values of a map changed. -/
def HashMap.map {K V W : Type} (f : V → W) (m : HashMap K V) : HashMap K W where
  entries := m.entries.map fun e => ⟨e.1, f e.2⟩
  nodupKeys := by
    have hkeys : (m.entries.map fun e => (⟨e.1, f e.2⟩ : Sigma fun _ : K => W)).keys = m.entries.keys := by
      simp [List.keys, Function.comp_def]
    exact (congrArg List.Nodup hkeys).mpr m.nodupKeys

def Dump.new (now : Timestamp) (servers : Servers) : Dump :=
  { now := now
    addresses := BTreeMap.collect servers.addresses
    servers := BTreeMap.collect (HashMap.map DumpServer.of servers.servers) }

inductive AddResult
  | Added
  | Refreshed
  | NeedInfo
  | Obsolete
  deriving DecidableEq

inductive RemoveResult
  | Removed
  | NotFound
  deriving DecidableEq

namespace Servers

def new : Servers := { addresses := ∅, servers := ∅ }

/-- The server loses the address and goes with its last one. -/
def release (servers : HashMap ShortString Server) (secret : ShortString) (addr : Addr) :
    Exec (HashMap ShortString Server) :=
  match servers.lookup secret with
  | none => .error .assertion
  | some server =>
      let addresses := server.addresses.filter (· ≠ addr)
      if addresses.isEmpty then .ok (servers.erase secret)
      else .ok (servers.insert secret { server with addresses := addresses })

/-- The second half of `add`: the entry of the server. -/
def addServer (s : Servers) (addr : Addr) (secret : ShortString) (info_serial : Int)
    (info : Option RawValue) (insert_addr : Bool) : Exec (Servers × AddResult) :=
  let result := if insert_addr then AddResult.Added else AddResult.Refreshed
  let put (server : Server) : Exec (Servers × AddResult) :=
    .ok ({ s with servers := s.servers.insert secret server }, result)
  match s.servers.lookup secret with
  | none =>
      if insert_addr = false then .error .assertion
      else
        match info with
        | none => .error .assertion
        | some info => put { addresses := [addr], info_serial := info_serial, info := info }
  | some server =>
      let addresses :=
        if insert_addr then (server.addresses ++ [addr]).insertionSort (· ≤ ·) else server.addresses
      if info_serial > server.info_serial then
        match info with
        | none => .error .assertion
        | some info => put { addresses := addresses, info_serial := info_serial, info := info }
      else put { server with addresses := addresses }

/-- The server of the secret needs info that is newer than the one it has. -/
def needInfo (s : Servers) (secret : ShortString) (info_serial : Int) : Bool :=
  match s.servers.lookup secret with
  | some entry => info_serial > entry.info_serial
  | none => true

def add (s : Servers) (addr : Addr) (a_info : AddrInfo) (info_serial : Int)
    (info : Option RawValue) : Exec (Servers × AddResult) :=
  if s.needInfo a_info.secret info_serial ∧ info = none then .ok (s, .NeedInfo)
  else
    match s.addresses.lookup addr with
    | none =>
        addServer { s with addresses := s.addresses.insert addr a_info } addr a_info.secret info_serial
          info true
    | some o =>
        -- Don't replace masterserver entries with stuff from backcompat.
        if a_info.kind < o.kind then .ok (s, .Obsolete)
        -- Don't replace address info with older one.
        else if a_info.ping_time < o.ping_time then .ok (s, .Obsolete)
        else if o.secret ≠ a_info.secret then do
          let servers ← release s.servers o.secret addr
          addServer { addresses := s.addresses.insert addr a_info, servers := servers } addr
            a_info.secret info_serial info true
        else
          addServer { s with addresses := s.addresses.insert addr a_info } addr a_info.secret
            info_serial info false

def remove (s : Servers) (addr : Addr) (secret : ShortString) : Exec (Servers × RemoveResult) :=
  match s.addresses.lookup addr with
  | none => .ok (s, .NotFound)
  | some a_info =>
      if secret = a_info.secret then do
        let servers ← release s.servers secret addr
        return ({ addresses := s.addresses.erase addr, servers := servers }, .Removed)
      else .ok (s, .NotFound)

/-- The second loop of `prune_before`. -/
def removeAll : List Addr → Servers → Exec Servers
  | [], s => .ok s
  | addr :: addrs, s =>
      match s.addresses.lookup addr with
      | none => .error .assertion
      | some a_info => do
          let servers ← release s.servers a_info.secret addr
          removeAll addrs { addresses := s.addresses.erase addr, servers := servers }

def prune_before (s : Servers) (time : Timestamp) : Exec Servers :=
  removeAll ((s.addresses.entries.filter fun e => e.2.ping_time < time).map Sigma.fst) s

/-- The loop of `merge` over the addresses of the other dump. -/
def mergeLoop (other : Dump) : List (Sigma fun _ : Addr => AddrInfo) → Servers → Exec Servers
  | [], s => .ok s
  | ⟨addr, a_info⟩ :: entries, s =>
      match other.servers.lookup a_info.secret with
      | none => .error .assertion
      | some server => do
          let (s, _) ← s.add addr a_info server.info_serial (some server.info)
          mergeLoop other entries s

def merge (s : Servers) (other : Dump) : Exec Servers := mergeLoop other other.addresses.entries s

/-- The loop of `from_dump` that fixes up the addresses, `none` is an error. -/
def fixup : List (Sigma fun _ : Addr => AddrInfo) → HashMap ShortString Server →
    Option (HashMap ShortString Server)
  | [], servers => some servers
  | ⟨addr, a_info⟩ :: entries, servers =>
      match servers.lookup a_info.secret with
      | none => none
      | some server =>
          fixup entries
            (servers.insert a_info.secret { server with addresses := server.addresses ++ [addr] })

/-- `none` is `FromDumpError`. -/
def from_dump (dump : Dump) : Option Servers := do
  let servers ← fixup dump.addresses.entries (HashMap.map
    (fun server : DumpServer =>
      { addresses := [], info_serial := server.info_serial, info := server.info : Server })
    dump.servers)
  if servers.entries.any fun e => e.2.addresses.isEmpty then none
  else
    some
      { addresses := dump.addresses
        servers := HashMap.map
          (fun server : Server =>
            { server with addresses := server.addresses.insertionSort (· ≤ ·) }) servers }

end Servers

end Fex.Mastersrv
