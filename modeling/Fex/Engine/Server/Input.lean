import Fex.Engine.Server
import Fex.Engine.Unpacker
import Fex.Lib.Run
import Mathlib.Data.Int.Bitwise
import Mathlib.Data.List.FinRange

/-!
# Input messages

Model of the input message in `ProcessClientPacket` and of the part of `Run` that applies inputs,
for one client.  What the clock says comes with a message.
-/

namespace Fex.Engine.Server.Input

open Fex.Lib Packer

def MIN_TICK : Int := 0
def MAX_TICK : Int := 0x6FFFFFFF
def MAX_INPUT_SIZE : Nat := 128

def SNAPRATE_INIT : Nat := 0
def SNAPRATE_FULL : Nat := 1

/-- The array of an input. -/
abbrev Data := Fin MAX_INPUT_SIZE → Int

structure CInput where
  m_aData : Data
  m_GameTick : Int

/-- `m_aTimings` are the messages about the timing that were sent. -/
structure CClient where
  m_State : State
  m_Latency : Int
  m_SnapRate : Nat
  m_LastAckedSnapshot : Int
  m_LastInputTick : Int
  m_LatestInput : CInput
  m_aInputs : Fin 200 → CInput
  m_CurrentInput : Fin 200
  m_Sixup : Bool
  m_aTimings : List (Int × Int)

/-- The latency, if the acked snapshot is stored, and the time that is left for the input. -/
structure Clock where
  Latency : Option Int
  TimeLeft : Int

def CClient.Reset (c : CClient) : CClient :=
  { c with
    m_aInputs := fun i => { c.m_aInputs i with m_GameTick := -1 }
    m_CurrentInput := 0
    m_LatestInput := { m_aData := fun _ => 0, m_GameTick := 0 }
    m_LastAckedSnapshot := -1
    m_LastInputTick := -1
    m_SnapRate := SNAPRATE_INIT }

/-- The flags of the newer protocol for chatting, the scoreboard and aiming. -/
def PlayerFlags_SevenToSix (Flags : Int) : Int :=
  let Six : Nat := 0
  let Six := if Flags.testBit 1 then Six ||| 1 <<< 2 else Six
  let Six := if Flags.testBit 2 then Six ||| 1 <<< 3 else Six
  let Six := if Flags.testBit 7 then Six ||| 1 <<< 4 else Six
  Six

/-- The index of `m_PlayerFlags` in the input of a player. -/
def playerFlags : Fin MAX_INPUT_SIZE := ⟨6, by decide⟩

def OnClientPrepareInput (Sixup : Bool) (pInput : Data) : Data :=
  if Sixup then Function.update pInput playerFlags (PlayerFlags_SevenToSix (pInput playerFlags))
  else pInput

/-! ## Messages -/

/-- The first three ints of a message. -/
structure Header where
  LastAckedSnapshot : Int
  IntendedTick : Int
  Size : Int

def getHeader (Unpacker : CUnpacker) : Header × CUnpacker :=
  let (LastAckedSnapshot, Unpacker) := Unpacker.GetInt
  let (IntendedTick, Unpacker) := Unpacker.GetInt
  let (Size, Unpacker) := Unpacker.GetInt
  ({ LastAckedSnapshot := LastAckedSnapshot, IntendedTick := IntendedTick, Size := Size }, Unpacker)

/-- The ints of the loop. -/
def getInts : Nat → CUnpacker → List Int × CUnpacker
  | 0, Unpacker => ([], Unpacker)
  | n + 1, Unpacker =>
      let (i, Unpacker) := Unpacker.GetInt
      let (ints, Unpacker) := getInts n Unpacker
      (i :: ints, Unpacker)

/-- The check of the first three ints. -/
def rejected (h : Header) (Unpacker : CUnpacker) : Bool :=
  Unpacker.m_Error || h.Size.tdiv 4 > MAX_INPUT_SIZE || h.IntendedTick < MIN_TICK ||
    h.IntendedTick ≥ MAX_TICK

/-- The snapshot that is acked, and the report of the timing. -/
def CClient.acknowledge (c : CClient) (h : Header) (clock : Clock) : CClient :=
  { c with
    m_LastAckedSnapshot := h.LastAckedSnapshot
    m_SnapRate := if h.LastAckedSnapshot > 0 then SNAPRATE_FULL else c.m_SnapRate
    m_Latency := clock.Latency.getD c.m_Latency
    m_aTimings :=
      if h.IntendedTick > c.m_LastInputTick then c.m_aTimings ++ [(h.IntendedTick, clock.TimeLeft)]
      else c.m_aTimings }

/-- The tick of an input. -/
def gameTick (IntendedTick Tick : Int) : Int :=
  if IntendedTick ≤ Tick then Tick + 1 else IntendedTick

/-- The input in the current slot is replaced. -/
def CClient.setInput (c : CClient) (Input : CInput) : CClient :=
  { c with m_aInputs := Function.update c.m_aInputs c.m_CurrentInput Input }

/-- The data of the current slot. -/
def CClient.slot (c : CClient) : CInput := c.m_aInputs c.m_CurrentInput

/-- The ints are written over the first ones of the data. -/
def overwrite (ints : List Int) (aData : Data) : Data := fun i => ints.getD i (aData i)

/-- The handler of the message; `true` if the input is passed to the game. -/
def CClient.ProcessInput (c : CClient) (Tick : Int) (clock : Clock) (pData : List UInt8) :
    CClient × Bool :=
  let (h, Unpacker) := getHeader (CUnpacker.Reset pData)
  if rejected h Unpacker then (c, false)
  else
    let c := c.acknowledge h clock
    let c := { c with m_LastInputTick := h.IntendedTick }
    let (ints, Unpacker) := getInts (h.Size.tdiv 4).toNat Unpacker
    let Input : CInput :=
      { m_aData := overwrite ints c.slot.m_aData, m_GameTick := gameTick h.IntendedTick Tick }
    let c := c.setInput Input
    if Unpacker.m_Error then (c, false)
    else
      let aData := OnClientPrepareInput c.m_Sixup Input.m_aData
      let c := c.setInput { Input with m_aData := aData }
      ({ c with
        m_LatestInput := { c.m_LatestInput with m_aData := aData }
        m_CurrentInput := c.m_CurrentInput + 1 }, true)

/-! ## Ticks -/

/-- The server with the client. -/
structure CServer where
  client : CClient
  m_CurrentGameTick : Int

/-- The inputs that the game gets in one tick: those that are applied early, and the one that is
applied, if any. -/
structure Applied where
  aEarly : List Data
  pInput : Option Data

/-- The inputs of a tick, in the order of the array. -/
def CClient.inputs (c : CClient) (Tick : Int) : List Data :=
  ((List.ofFn c.m_aInputs).filter fun Input => Input.m_GameTick = Tick).map CInput.m_aData

/-- One turn of the loop over ticks in `Run`; nothing is applied outside the game. -/
def CServer.tick (s : CServer) : CServer × Option Applied :=
  let aEarly := s.client.inputs (s.m_CurrentGameTick + 1)
  let s := { s with m_CurrentGameTick := s.m_CurrentGameTick + 1 }
  let pInput := (s.client.inputs s.m_CurrentGameTick).head?
  (s, if s.client.m_State = .INGAME then some { aEarly := aEarly, pInput := pInput } else none)

/-! ## Runs -/

inductive Event
  /-- An input message. -/
  | input (clock : Clock) (pData : List UInt8)
  | tick
  /-- The client connects, joins again or gets another map. -/
  | reset (State : State) (Sixup : Bool)
  | setState (State : State)
  /-- The ticks start again with a new map. -/
  | restart

/-- A message that was passed to the game, with the tick of its input. -/
structure Accepted where
  pData : List UInt8
  Sixup : Bool
  GameTick : Int

/-- The server and the messages that were accepted. -/
def step (s : CServer × List Accepted) : Event → Exec (CServer × List Accepted)
  | .input clock pData =>
      let r := s.1.client.ProcessInput s.1.m_CurrentGameTick clock pData
      let accepted : Accepted :=
        { pData := pData
          Sixup := s.1.client.m_Sixup
          GameTick := gameTick (getHeader (CUnpacker.Reset pData)).1.IntendedTick s.1.m_CurrentGameTick }
      .ok ({ s.1 with client := r.1 }, if r.2 then accepted :: s.2 else s.2)
  | .tick => .ok (s.1.tick.1, s.2)
  | .reset State Sixup =>
      .ok ({ s.1 with client := { s.1.client.Reset with m_State := State, m_Sixup := Sixup } }, s.2)
  | .setState State => .ok ({ s.1 with client := { s.1.client with m_State := State } }, s.2)
  | .restart => .ok ({ s.1 with m_CurrentGameTick := MIN_TICK }, s.2)

/-! ## Parts of a message -/

def header (pData : List UInt8) : Header := (getHeader (CUnpacker.Reset pData)).1

/-- The number of ints that the message says it has. -/
def count (pData : List UInt8) : Nat := ((header pData).Size.tdiv 4).toNat

/-- The ints behind the header, and the unpacker behind them. -/
def body (pData : List UInt8) : List Int × CUnpacker :=
  getInts (count pData) (getHeader (CUnpacker.Reset pData)).2

def Rejected (pData : List UInt8) : Prop :=
  rejected (header pData) (getHeader (CUnpacker.Reset pData)).2 = true

/-- Fewer ints than the message says. -/
def Truncated (pData : List UInt8) : Prop := (body pData).2.m_Error = true

/-- The ints of a message and then zeros, as the game prepares them. -/
def content (Sixup : Bool) (pData : List UInt8) : Data :=
  OnClientPrepareInput Sixup (overwrite (body pData).1 fun _ => 0)

instance (pData : List UInt8) : Decidable (Rejected pData) := inferInstanceAs (Decidable (_ = true))

instance (pData : List UInt8) : Decidable (Truncated pData) := inferInstanceAs (Decidable (_ = true))

theorem length_getInts (n : Nat) (Unpacker : CUnpacker) : (getInts n Unpacker).1.length = n := by
  induction n generalizing Unpacker with
  | zero => rfl
  | succ n ih => exact congrArg Nat.succ (ih _)

variable {c : CClient} {Tick : Int} {clock : Clock} {pData : List UInt8}

/-- The client when the ints of a message are written. -/
def CClient.written (c : CClient) (Tick : Int) (clock : Clock) (pData : List UInt8)
    (aData : Data) : CClient :=
  { c.acknowledge (header pData) clock with
    m_LastInputTick := (header pData).IntendedTick
    m_aInputs := Function.update c.m_aInputs c.m_CurrentInput
      { m_aData := aData, m_GameTick := gameTick (header pData).IntendedTick Tick } }

theorem ProcessInput_rejected (h : Rejected pData) : c.ProcessInput Tick clock pData = (c, false) :=
  if_pos h

theorem ProcessInput_truncated (h : ¬ Rejected pData) (ht : Truncated pData) :
    c.ProcessInput Tick clock pData =
      (c.written Tick clock pData (overwrite (body pData).1 c.slot.m_aData), false) :=
  (if_neg h).trans (if_pos ht)

theorem ProcessInput_accepted (h : ¬ Rejected pData) (ht : ¬ Truncated pData) :
    c.ProcessInput Tick clock pData =
      ({ c.written Tick clock pData (OnClientPrepareInput c.m_Sixup
          (overwrite (body pData).1 c.slot.m_aData)) with
        m_LatestInput := { c.m_LatestInput with
          m_aData := OnClientPrepareInput c.m_Sixup (overwrite (body pData).1 c.slot.m_aData) }
        m_CurrentInput := c.m_CurrentInput + 1 }, true) := by
  refine (if_neg h).trans ((if_neg ht).trans ?_)
  unfold CClient.setInput CClient.written
  simp only [Function.update_idem]
  rfl

/-! ## Data -/

theorem overwrite_of_lt {ints : List Int} {i : Fin MAX_INPUT_SIZE} (h : i.val < ints.length)
    (aData bData : Data) : overwrite ints aData i = overwrite ints bData i := by
  unfold overwrite
  rw [List.getD_eq_getElem _ _ h, List.getD_eq_getElem _ _ h]

theorem overwrite_of_le {ints : List Int} {i : Fin MAX_INPUT_SIZE} (h : ints.length ≤ i.val)
    (aData : Data) : overwrite ints aData i = aData i := List.getD_eq_default _ _ h

/-- Writing the ints changes nothing if they are there. -/
theorem overwrite_eq_self {ints : List Int} {aData : Data} :
    overwrite ints aData = aData ↔
      ∀ i : Fin MAX_INPUT_SIZE, i.val < ints.length → aData i = overwrite ints (fun _ => 0) i := by
  constructor
  · intro h i hi
    exact (congrFun h i).symm.trans (overwrite_of_lt hi _ _)
  · intro h
    funext i
    by_cases hi : i.val < ints.length
    · exact (overwrite_of_lt hi _ _).trans (h i hi).symm
    · exact overwrite_of_le (Nat.le_of_not_lt hi) _

/-- An int is lost when the game prepares the data. -/
def Dropped (Sixup : Bool) (i : Fin MAX_INPUT_SIZE) (x : Int) : Prop :=
  x = 0 ∨ Sixup = true ∧ i = playerFlags ∧ PlayerFlags_SevenToSix x = 0

theorem prepare_apply (Sixup : Bool) (aData : Data) (i : Fin MAX_INPUT_SIZE) :
    OnClientPrepareInput Sixup aData i =
      if Sixup = true ∧ i = playerFlags then PlayerFlags_SevenToSix (aData i) else aData i := by
  unfold OnClientPrepareInput
  cases Sixup with
  | false => rfl
  | true =>
      by_cases hi : i = playerFlags
      · rw [hi, if_pos rfl, if_pos ⟨rfl, rfl⟩, Function.update_self]
      · rw [if_pos rfl, if_neg fun h => hi h.2, Function.update_of_ne hi]

/-- The data does not depend on what was in the slot. -/
theorem prepare_overwrite_iff {Sixup : Bool} {ints : List Int} {aData : Data} :
    OnClientPrepareInput Sixup (overwrite ints aData) =
        OnClientPrepareInput Sixup (overwrite ints fun _ => 0) ↔
      ∀ i : Fin MAX_INPUT_SIZE, ints.length ≤ i.val → Dropped Sixup i (aData i) := by
  have hzero : PlayerFlags_SevenToSix 0 = 0 := by decide
  constructor
  · intro h i hi
    have hat := congrFun h i
    rw [prepare_apply, prepare_apply, overwrite_of_le hi, overwrite_of_le hi] at hat
    by_cases hflags : Sixup = true ∧ i = playerFlags
    · rw [if_pos hflags, if_pos hflags, hzero] at hat
      exact .inr ⟨hflags.1, hflags.2, hat⟩
    · rw [if_neg hflags, if_neg hflags] at hat
      exact .inl hat
  · intro h
    funext i
    rw [prepare_apply, prepare_apply]
    by_cases hi : i.val < ints.length
    · rw [overwrite_of_lt hi aData fun _ => 0]
    · have hle := Nat.le_of_not_lt hi
      rw [overwrite_of_le hle, overwrite_of_le hle]
      rcases h i hle with hx | ⟨hsixup, hi, hx⟩
      · rw [hx]
      · rw [if_pos ⟨hsixup, hi⟩, if_pos ⟨hsixup, hi⟩, hx, hzero]

/-! ## What a message does -/

/-- Without a call of the game the inputs are unchanged, and with one the data of the slot is the
content of the message. -/
def CClient.Meets (c : CClient) (Tick : Int) (clock : Clock) (pData : List UInt8) : Prop :=
  ((c.ProcessInput Tick clock pData).2 = false →
    (c.ProcessInput Tick clock pData).1.m_aInputs = c.m_aInputs ∧
    (c.ProcessInput Tick clock pData).1.m_CurrentInput = c.m_CurrentInput ∧
    (c.ProcessInput Tick clock pData).1.m_LatestInput = c.m_LatestInput ∧
    (c.ProcessInput Tick clock pData).1.m_LastInputTick = c.m_LastInputTick) ∧
  ((c.ProcessInput Tick clock pData).2 = true →
    ((c.ProcessInput Tick clock pData).1.m_aInputs c.m_CurrentInput).m_aData =
      content c.m_Sixup pData)

/-- The header is rejected, or the message has all its ints and those of the slot behind them are
zero, or it has not and what it writes is there. -/
def CClient.Clean (c : CClient) (Tick : Int) (pData : List UInt8) : Prop :=
  Rejected pData ∨
    ¬ Truncated pData ∧
      (∀ i : Fin MAX_INPUT_SIZE, count pData ≤ i.val → Dropped c.m_Sixup i (c.slot.m_aData i)) ∨
    Truncated pData ∧ c.m_LastInputTick = (header pData).IntendedTick ∧
      c.slot.m_GameTick = gameTick (header pData).IntendedTick Tick ∧
      ∀ i : Fin MAX_INPUT_SIZE, i.val < count pData →
        c.slot.m_aData i = overwrite (body pData).1 (fun _ => 0) i

theorem length_body (pData : List UInt8) : (body pData).1.length = count pData := length_getInts _ _

theorem meets_truncated (h : ¬ Rejected pData) (ht : Truncated pData) :
    c.Meets Tick clock pData ↔ c.m_LastInputTick = (header pData).IntendedTick ∧
      c.slot.m_GameTick = gameTick (header pData).IntendedTick Tick ∧
      ∀ i : Fin MAX_INPUT_SIZE, i.val < count pData →
        c.slot.m_aData i = overwrite (body pData).1 (fun _ => 0) i := by
  have hinput : ∀ Input : CInput, Function.update c.m_aInputs c.m_CurrentInput Input = c.m_aInputs ↔
      c.slot.m_aData = Input.m_aData ∧ c.slot.m_GameTick = Input.m_GameTick := by
    intro Input
    rw [Function.update_eq_self_iff]
    constructor
    · intro heq
      rw [heq]
      exact ⟨rfl, rfl⟩
    · rintro ⟨hdata, htick⟩
      show Input = c.slot
      cases Input
      cases hslot : c.slot
      rw [hslot] at hdata htick
      cases hdata
      cases htick
      rfl
  have hself := @overwrite_eq_self (body pData).1 c.slot.m_aData
  rw [length_body] at hself
  unfold CClient.Meets
  rw [ProcessInput_truncated h ht]
  constructor
  · rintro ⟨hkept, -⟩
    obtain ⟨hinputs, -, -, hlast⟩ := hkept rfl
    have heq := (hinput _).mp hinputs
    exact ⟨hlast.symm, heq.2, hself.mp heq.1.symm⟩
  · rintro ⟨hlast, htick, hdata⟩
    refine ⟨fun _ => ⟨(hinput _).mpr ⟨(hself.mpr hdata).symm, htick⟩, rfl, rfl, hlast.symm⟩, fun hc => ?_⟩
    cases hc

theorem meets_accepted (h : ¬ Rejected pData) (ht : ¬ Truncated pData) :
    c.Meets Tick clock pData ↔ ∀ i : Fin MAX_INPUT_SIZE, count pData ≤ i.val →
      Dropped c.m_Sixup i (c.slot.m_aData i) := by
  have hiff := @prepare_overwrite_iff c.m_Sixup (body pData).1 c.slot.m_aData
  rw [length_body] at hiff
  rw [← hiff]
  unfold CClient.Meets
  rw [ProcessInput_accepted h ht]
  have hslot : ∀ Input : CInput,
      Function.update c.m_aInputs c.m_CurrentInput Input c.m_CurrentInput = Input := fun _ =>
    Function.update_self ..
  constructor
  · rintro ⟨-, hdata⟩
    exact (congrArg CInput.m_aData (hslot _)).symm.trans (hdata rfl)
  · intro heq
    refine ⟨fun hc => ?_, fun _ => (congrArg CInput.m_aData (hslot _)).trans heq⟩
    cases hc

/-- The messages that meet the specification. -/
theorem meets_iff_clean : c.Meets Tick clock pData ↔ c.Clean Tick pData := by
  by_cases h : Rejected pData
  · apply iff_of_true
    · unfold CClient.Meets
      rw [ProcessInput_rejected h]
      refine ⟨fun _ => ⟨rfl, rfl, rfl, rfl⟩, fun hc => ?_⟩
      cases hc
    · exact .inl h
  · by_cases ht : Truncated pData
    · rw [meets_truncated h ht]
      exact ⟨fun hc => .inr (.inr ⟨ht, hc⟩), fun hc =>
        (hc.resolve_left h).elim (fun hc => absurd ht hc.1) fun hc => hc.2⟩
    · rw [meets_accepted h ht]
      exact ⟨fun hc => .inr (.inl ⟨ht, hc⟩), fun hc =>
        (hc.resolve_left h).elim (fun hc => hc.2) fun hc => absurd hc.1 ht⟩

/-! ## What is applied -/

/-- A slot was not used since the last reset, or has an accepted message. -/
def FromMessage (accepted : List Accepted) (Input : CInput) : Prop :=
  Input.m_GameTick = -1 ∨
    ∃ a ∈ accepted, Input.m_GameTick = a.GameTick ∧ Input.m_aData = content a.Sixup a.pData

structure Inv (s : CServer × List Accepted) : Prop where
  tick : MIN_TICK ≤ s.1.m_CurrentGameTick
  inputs : ∀ i, FromMessage s.2 (s.1.client.m_aInputs i)

/-- Every message of the run is clean. -/
def Guard (s : CServer × List Accepted) : Event → Prop
  | .input _ pData => s.1.client.Clean s.1.m_CurrentGameTick pData
  | _ => True

/-- A run from a client that is reset. -/
abbrev Run (c : CClient) : CServer × List Accepted → Prop :=
  Reachable step Guard ({ client := c.Reset, m_CurrentGameTick := MIN_TICK }, [])

theorem FromMessage.cons {accepted : List Accepted} {Input : CInput}
    (h : FromMessage accepted Input) (a : Accepted) : FromMessage (a :: accepted) Input :=
  h.imp id fun ⟨b, hb, hin⟩ => ⟨b, List.mem_cons_of_mem _ hb, hin⟩

theorem Inv.input {s : CServer × List Accepted} (hinv : Inv s) {clock : Clock} {pData : List UInt8}
    {t : CServer × List Accepted} (hclean : s.1.client.Clean s.1.m_CurrentGameTick pData)
    (hstep : step s (.input clock pData) = .ok t) : Inv t := by
  have hmeets := (@meets_iff_clean _ _ clock _).mpr hclean
  have htick : t.1.m_CurrentGameTick = s.1.m_CurrentGameTick := by
    rw [← Except.ok.inj hstep]
  refine ⟨htick ▸ hinv.tick, ?_⟩
  rw [← Except.ok.inj hstep]
  by_cases h : Rejected pData
  · simp only [ProcessInput_rejected h]
    exact hinv.inputs
  · by_cases ht : Truncated pData
    · have hkept := hmeets.1 (by rw [ProcessInput_truncated h ht])
      rw [hkept.1]
      simp only [ProcessInput_truncated h ht]
      exact hinv.inputs
    · have hdata := hmeets.2 (by rw [ProcessInput_accepted h ht])
      rw [ProcessInput_accepted h ht] at hdata
      simp only [ProcessInput_accepted h ht]
      intro i
      by_cases hi : i = s.1.client.m_CurrentInput
      · right
        refine ⟨_, List.mem_cons_self, ?_, ?_⟩
        · have hset : ∀ Input : CInput, Function.update s.1.client.m_aInputs
              s.1.client.m_CurrentInput Input s.1.client.m_CurrentInput = Input := fun _ =>
            Function.update_self ..
          rw [hi]
          exact congrArg CInput.m_GameTick (hset _)
        · rw [hi]
          exact hdata
      · apply FromMessage.cons
        have hsame : ∀ Input, Function.update s.1.client.m_aInputs s.1.client.m_CurrentInput Input i =
            s.1.client.m_aInputs i := fun _ => Function.update_of_ne hi _ _
        have hold := hinv.inputs i
        rw [← hsame] at hold
        exact hold

theorem Inv.step {s t : CServer × List Accepted} {e : Event} (hinv : Inv s) (hguard : Guard s e)
    (hstep : step s e = .ok t) : Inv t := by
  cases e with
  | input clock pData => exact hinv.input hguard hstep
  | tick =>
      rw [← Except.ok.inj hstep]
      refine ⟨?_, hinv.inputs⟩
      have htick := hinv.tick
      show MIN_TICK ≤ s.1.m_CurrentGameTick + 1
      omega
  | reset State Sixup =>
      rw [← Except.ok.inj hstep]
      exact ⟨hinv.tick, fun _ => .inl rfl⟩
  | setState State =>
      rw [← Except.ok.inj hstep]
      exact ⟨hinv.tick, hinv.inputs⟩
  | restart =>
      rw [← Except.ok.inj hstep]
      exact ⟨Int.le_refl _, hinv.inputs⟩

theorem Run.inv {c : CClient} {s : CServer × List Accepted} (h : Run c s) : Inv s :=
  h.invariant ⟨Int.le_refl _, fun _ => .inl rfl⟩ fun _ _ _ hinv hguard hstep =>
    hinv.step hguard hstep

/-- The input of a tick is the content of an accepted message for this tick. -/
theorem Inv.applied {s : CServer × List Accepted} (hinv : Inv s) {applied : Applied} {data : Data}
    (happlied : s.1.tick.2 = some applied) (hdata : applied.pInput = some data) :
    ∃ a ∈ s.2, a.GameTick = s.1.tick.1.m_CurrentGameTick ∧ data = content a.Sixup a.pData := by
  have htick := hinv.tick
  have hpInput : applied.pInput = (s.1.client.inputs (s.1.m_CurrentGameTick + 1)).head? := by
    unfold CServer.tick at happlied
    simp only at happlied
    split at happlied
    · rw [← Option.some.inj happlied]
    · cases happlied
  rw [hpInput] at hdata
  obtain ⟨Input, hmem, rfl⟩ := List.mem_map.mp (List.mem_of_mem_head? hdata)
  obtain ⟨hslot, hgame⟩ := List.mem_filter.mp hmem
  obtain ⟨i, rfl⟩ := (List.mem_ofFn' _ _).mp hslot
  have hgame := of_decide_eq_true hgame
  rcases hinv.inputs i with hfree | ⟨a, ha, hat, hcontent⟩
  · rw [hfree] at hgame
    unfold MIN_TICK at htick
    omega
  · exact ⟨a, ha, hat.symm.trans hgame, hcontent⟩

/-- A message meets the specification exactly if it is clean, and in a run of clean messages every
input that is applied is the content of an accepted message for its tick. -/
theorem input_messages (c : CClient) :
    (∀ (Tick : Int) (clock : Clock) (pData : List UInt8),
      c.Meets Tick clock pData ↔ c.Clean Tick pData) ∧
    ∀ s : CServer × List Accepted, Run c s → ∀ (applied : Applied) (data : Data),
      s.1.tick.2 = some applied → applied.pInput = some data →
      ∃ a ∈ s.2, a.GameTick = s.1.tick.1.m_CurrentGameTick ∧ data = content a.Sixup a.pData :=
  ⟨fun _ _ _ => meets_iff_clean, fun _ h _ _ happlied hdata => h.inv.applied happlied hdata⟩

/-- A client in the game with the same int everywhere in its inputs. -/
def filled (x : Int) : CClient :=
  { m_State := .INGAME
    m_Latency := 0
    m_SnapRate := SNAPRATE_INIT
    m_LastAckedSnapshot := -1
    m_LastInputTick := -1
    m_LatestInput := { m_aData := fun _ => 0, m_GameTick := 0 }
    m_aInputs := fun _ => { m_aData := fun _ => x, m_GameTick := -1 }
    m_CurrentInput := 0
    m_Sixup := false
    m_aTimings := [] }

theorem input_messages_one :
    ∃ s applied data, Run (filled 0) s ∧ s.1.tick.2 = some applied ∧ applied.pInput = some data ∧
      ∃ a ∈ s.2, a.GameTick = 1 ∧ data = content a.Sixup a.pData := by
  have hone : Run (filled 0) _ :=
    Reachable.next (.input { Latency := none, TimeLeft := 0 } [0, 1, 8, 5, 7]) Reachable.init
      (.inr (.inl ⟨by decide, fun _ _ => .inl rfl⟩)) rfl
  exact ⟨_, _, _, hone, rfl, rfl, (input_messages _).2 _ hone _ _ rfl rfl⟩

/-- A message without its int changes the state, and one without ints leaves those of the slot. -/
theorem not_meets :
    ¬ (filled 0).Meets 0 { Latency := none, TimeLeft := 0 } [0, 1, 4] ∧
    ¬ (filled 7).Meets 0 { Latency := none, TimeLeft := 0 } [0, 1, 0] := by
  constructor
  · rw [meets_truncated (by decide) (by decide)]
    rintro ⟨hlast, -⟩
    exact absurd hlast (by decide)
  · rw [meets_accepted (by decide) (by decide)]
    intro h
    rcases h ⟨0, by decide⟩ (by decide) with hx | ⟨hsixup, -⟩
    · exact absurd hx (by decide)
    · exact absurd hsixup (by decide)

end Fex.Engine.Server.Input
