import Fex.Game.TeeHistorian

/-!
# Decoding the stream

The decoder reads one record after the other and counts the ticks.  What was packed for a record
is read back as that record, whatever follows it.
-/

namespace Fex.Game.TeeHistorian

open Fex.Lib Fex.Engine.Packer

/-- A record is its first `int` with the values behind it. -/
structure Record where
  type : Int
  values : List Value
  deriving DecidableEq

/-! ## Reading a record -/

def readInts : Nat → CUnpacker → List Value × CUnpacker
  | 0, u => ([], u)
  | n + 1, u => (.int u.GetInt.1 :: (readInts n u.GetInt.2).1, (readInts n u.GetInt.2).2)

def readStrings : Nat → CUnpacker → List Value × CUnpacker
  | 0, u => ([], u)
  | n + 1, u =>
      (.string u.GetString.1 :: (readStrings n u.GetString.2).1, (readStrings n u.GetString.2).2)

/-- A size and as many bytes. -/
def readBlock (u : CUnpacker) : List Value × CUnpacker :=
  let Size := u.GetInt
  let pData := Size.2.GetRaw Size.1
  ([.int Size.1, .raw pData.1], pData.2)

/-- The values of one read and of another one behind it. -/
def readThen (first : List Value × CUnpacker) (next : CUnpacker → List Value × CUnpacker) :
    List Value × CUnpacker :=
  (first.1 ++ (next first.2).1, (next first.2).2)

/-- A number and as many strings. -/
def readArguments (u : CUnpacker) : List Value × CUnpacker :=
  let Num := u.GetInt
  readThen ([.int Num.1], Num.2) (readStrings Num.1.toNat)

/-- The values of a record of this type. -/
def readValues (type : Int) (u : CUnpacker) : List Value × CUnpacker :=
  if 0 ≤ type then readInts 2 u
  else if type = -TEEHISTORIAN_FINISH then ([], u)
  else if type = -TEEHISTORIAN_TICK_SKIP then readInts 1 u
  else if type = -TEEHISTORIAN_PLAYER_NEW then readInts 3 u
  else if type = -TEEHISTORIAN_PLAYER_OLD then readInts 1 u
  else if type = -TEEHISTORIAN_INPUT_DIFF ∨ type = -TEEHISTORIAN_INPUT_NEW then readInts 11 u
  else if type = -TEEHISTORIAN_MESSAGE then readThen (readInts 1 u) readBlock
  else if type = -TEEHISTORIAN_JOIN then readInts 1 u
  else if type = -TEEHISTORIAN_DROP then readThen (readInts 1 u) (readStrings 1)
  else if type = -TEEHISTORIAN_CONSOLE_COMMAND then
    readThen (readThen (readInts 2 u) (readStrings 1)) readArguments
  else if type = -TEEHISTORIAN_EX then
    readThen ([.raw (u.GetRaw 16).1], (u.GetRaw 16).2) readBlock
  else ([], { u with m_Error := true })

def readRecord (bytes : List UInt8) : Option (Record × List UInt8) :=
  let type := (CUnpacker.Reset bytes).GetInt
  let values := readValues type.1 type.2
  if values.2.m_Error then none
  else some ({ type := type.1, values := values.1 }, values.2.m_pCurrent)

/-- All records up to the end of the stream. -/
def readRecords (bytes : List UInt8) : Option (List Record) :=
  if bytes = [] then some []
  else
    match readRecord bytes with
    | none => none
    | some (r, rest) =>
        if r.type = -TEEHISTORIAN_FINISH then some [r]
        else if rest.length < bytes.length then (readRecords rest).map (r :: ·)
        else none
termination_by bytes.length

/-! ## Ticks -/

structure Clock where
  tick : Int
  lastPlayerId : Int

/-- The client of a player record. -/
def Record.player (r : Record) : Option Int :=
  if 0 ≤ r.type then some r.type
  else if r.type = -TEEHISTORIAN_PLAYER_NEW ∨ r.type = -TEEHISTORIAN_PLAYER_OLD then
    match r.values with
    | .int ClientId :: _ => some ClientId
    | _ => none
  else none

def Clock.advance (c : Clock) (r : Record) : Clock :=
  match r.player with
  | some ClientId =>
      { tick := if ClientId ≤ c.lastPlayerId then c.tick + 1 else c.tick, lastPlayerId := ClientId }
  | none =>
      match r.values with
      | [.int dt] =>
          if r.type = -TEEHISTORIAN_TICK_SKIP then
            { tick := c.tick + dt + 1, lastPlayerId := -1 }
          else c
      | _ => c

def Clock.start : Clock := { tick := 0, lastPlayerId := MAX_CLIENTS }

/-- The records that are no skips, with their ticks. -/
def timed : Clock → List Record → List (Int × Record)
  | _, [] => []
  | c, r :: rs =>
      if r.type = -TEEHISTORIAN_TICK_SKIP then timed (c.advance r) rs
      else ((c.advance r).tick, r) :: timed (c.advance r) rs

def decode (bytes : List UInt8) : Option (List (Int × Record)) :=
  (readRecords bytes).map (timed .start)

/-! ## Replaying -/

/-- What is known about the clients. -/
structure Clients where
  alive : Int → Bool
  position : Int → Int × Int
  input : Int → List Int

/-- The ints of values. -/
def intsOf : List Value → List Int
  | .int i :: values => i :: intsOf values
  | _ => []

def Clients.replay (c : Clients) (r : Record) : Clients :=
  if 0 ≤ r.type then
    match r.values with
    | [.int dx, .int dy] =>
        { c with
          position := Function.update c.position r.type
            (wrap32 ((c.position r.type).1 + dx), wrap32 ((c.position r.type).2 + dy)) }
    | _ => c
  else if r.type = -TEEHISTORIAN_PLAYER_NEW then
    match r.values with
    | [.int ClientId, .int x, .int y] =>
        { c with
          alive := Function.update c.alive ClientId true
          position := Function.update c.position ClientId (x, y) }
    | _ => c
  else if r.type = -TEEHISTORIAN_PLAYER_OLD then
    match r.values with
    | [.int ClientId] => { c with alive := Function.update c.alive ClientId false }
    | _ => c
  else if r.type = -TEEHISTORIAN_INPUT_NEW then
    match r.values with
    | .int ClientId :: values =>
        { c with input := Function.update c.input ClientId (intsOf values) }
    | _ => c
  else if r.type = -TEEHISTORIAN_INPUT_DIFF then
    match r.values with
    | .int ClientId :: values =>
        { c with
          input := Function.update c.input ClientId
            (Engine.Snapshot.UndiffItem (c.input ClientId) (intsOf values)) }
    | _ => c
  else c

/-- Nobody is alive. -/
def Clients.start : Clients :=
  { alive := fun _ => false, position := fun _ => (0, 0), input := fun _ => [] }

/-- The clients at the end of the stream. -/
def replayed (bytes : List UInt8) : Option Clients :=
  (readRecords bytes).map (·.foldl Clients.replay .start)

/-- What a call tells about the clients. -/
def Clients.call (c : Clients) : Call → Clients
  | .RecordPlayer ClientId m_X m_Y =>
      { c with
        alive := Function.update c.alive ClientId true
        position := Function.update c.position ClientId (m_X, m_Y) }
  | .RecordDeadPlayer ClientId => { c with alive := Function.update c.alive ClientId false }
  | .RecordPlayerInput ClientId _ pInput =>
      { c with input := Function.update c.input ClientId pInput.ints }
  | _ => c

end Fex.Game.TeeHistorian
