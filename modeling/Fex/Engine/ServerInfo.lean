import Fex.Engine.Server.RconSync
import Fex.Base.Characters
import Fex.Lib.Cells
import Fex.Lib.Loop

/-!
# Server infos

Model of `CServerInfo2`: how it is read from JSON, compared and turned into a `CServerInfo`.  The
values are those of the JSON parser, whose strings and names end at their first NUL.
-/

namespace Fex.Engine.ServerInfo

open Fex.Lib Fex.Base Server

def key (s : String) : CString := s.toUTF8.data.toList

/-! ## JSON values -/

/-- What a `json_double` holds is not looked at. -/
inductive json_value
  | json_none
  | json_object (values : List (List UInt8 × json_value))
  | json_array (values : List json_value)
  | json_integer (integer : Int)
  | json_double
  | json_string (ptr : List UInt8)
  | json_boolean (boolean : Bool)
  | json_null

namespace json_value

def cstring (ptr : List UInt8) : CString := ptr.takeWhile (· ≠ 0)

/-- `operator[]` -/
def get (v : json_value) (index : String) : json_value :=
  match v with
  | json_object values =>
      match values.find? fun f => cstring f.1 = key index with
      | some f => f.2
      | none => json_none
  | _ => json_none

/-- `operator const char *` -/
def string : json_value → CString
  | json_string ptr => cstring ptr
  | _ => []

/-- `operator bool` -/
def bool : json_value → Bool
  | json_boolean boolean => boolean
  | _ => false

/-- `u.integer` as an `int` -/
def json_int_get : json_value → Int
  | json_integer integer => wrap32 integer
  | _ => 0

def isInteger : json_value → Bool
  | json_integer _ => true
  | _ => false

def isBoolean : json_value → Bool
  | json_boolean _ => true
  | _ => false

def isString : json_value → Bool
  | json_string _ => true
  | _ => false

def isObject : json_value → Bool
  | json_object _ => true
  | _ => false

def isNone : json_value → Bool
  | json_none => true
  | _ => false

def isArray : json_value → Bool
  | json_array _ => true
  | _ => false

/-- The elements that the loop goes through. -/
def elements : json_value → List json_value
  | json_array values => values
  | _ => []

end json_value

def str_has_cc (s : CString) : Bool := s.any (· < 32)

def str_startswith (str : CString) (start : String) : Bool := (key start).isPrefixOf str

/-! ## Data -/

def SERVERINFO_MAX_CLIENTS : Nat := 128
def MAX_NAME_LENGTH : Nat := 16
def MAX_CLAN_LENGTH : Nat := 12
def MAX_SKIN_LENGTH : Nat := 24
def MAX_MAP_LENGTH : Nat := 128
def SERVER_FLAG_PASSWORD : Int := 1

inductive EClientScoreKind
  | CLIENT_SCORE_KIND_UNSPECIFIED
  | CLIENT_SCORE_KIND_POINTS
  | CLIENT_SCORE_KIND_TIME
  | CLIENT_SCORE_KIND_TIME_BACKCOMPAT
  deriving DecidableEq

structure CClient where
  m_aName : CString
  m_aClan : CString
  m_Country : Int
  m_Score : Int
  m_IsPlayer : Bool
  m_IsAfk : Bool
  m_aSkin : CString
  m_CustomSkinColors : Bool
  m_CustomSkinColorBody : Int
  m_CustomSkinColorFeet : Int

structure CServerInfo2 where
  m_aClients : List CClient
  m_MaxClients : Int
  m_NumClients : Int
  m_MaxPlayers : Int
  m_NumPlayers : Int
  m_ClientScoreKind : EClientScoreKind
  m_Passworded : Bool
  m_aGameType : CString
  m_aName : CString
  m_aMapName : CString
  m_aVersion : CString
  m_RequiresLogin : Bool

/-- A client in memory that was cleared. -/
def clearClient : CClient := ⟨[], [], 0, 0, false, false, [], false, 0, 0⟩

/-- `mem_zero(pOut, sizeof(*pOut))` -/
def clear : CServerInfo2 :=
  ⟨List.replicate SERVERINFO_MAX_CLIENTS clearClient, 0, 0, 0, 0, .CLIENT_SCORE_KIND_UNSPECIFIED,
    false, [], [], [], [], false⟩

/-! ## Reading -/

/-- The errors of the fields of a server. -/
def fieldsError (ServerInfo : json_value) : Bool :=
  let GameType := ServerInfo.get "game_type"
  let Name := ServerInfo.get "name"
  let MapName := (ServerInfo.get "map").get "name"
  let Version := ServerInfo.get "version"
  let ClientScoreKind := ServerInfo.get "client_score_kind"
  !(ServerInfo.get "max_clients").isInteger || !(ServerInfo.get "max_players").isInteger ||
    !(ServerInfo.get "passworded").isBoolean ||
    (!ClientScoreKind.isNone && !ClientScoreKind.isString) ||
    !GameType.isString || str_has_cc GameType.string || !Name.isString || str_has_cc Name.string ||
    !MapName.isString || str_has_cc MapName.string || !Version.isString ||
    str_has_cc Version.string || !(ServerInfo.get "clients").isArray

/-- The fields of a server, no clients yet. -/
def readFields (pOut : CServerInfo2) (ServerInfo : json_value) : CServerInfo2 :=
  let ClientScoreKind := ServerInfo.get "client_score_kind"
  let RequiresLogin := ServerInfo.get "requires_login"
  { pOut with
    m_MaxClients := (ServerInfo.get "max_clients").json_int_get
    m_MaxPlayers := (ServerInfo.get "max_players").json_int_get
    m_ClientScoreKind :=
      if ClientScoreKind.isString && str_startswith ClientScoreKind.string "points" then
        .CLIENT_SCORE_KIND_POINTS
      else if ClientScoreKind.isString && str_startswith ClientScoreKind.string "time" then
        .CLIENT_SCORE_KIND_TIME
      else .CLIENT_SCORE_KIND_UNSPECIFIED
    m_RequiresLogin := if RequiresLogin.isBoolean then RequiresLogin.bool else false
    m_Passworded := (ServerInfo.get "passworded").bool
    m_aGameType := str_copy (ServerInfo.get "game_type").string 16
    m_aName := str_copy (ServerInfo.get "name").string 64
    m_aMapName := str_copy ((ServerInfo.get "map").get "name").string MAX_MAP_LENGTH
    m_aVersion := str_copy (ServerInfo.get "version").string 32
    m_NumClients := 0
    m_NumPlayers := 0 }

/-- The errors of a client.  The check of the clan looks at the name. -/
def clientError (Client : json_value) : Bool :=
  let ClientName := Client.get "name"
  !ClientName.isString || str_has_cc ClientName.string ||
    !(Client.get "clan").isString || str_has_cc ClientName.string ||
    !(Client.get "country").isInteger || !(Client.get "score").isInteger ||
    !(Client.get "is_player").isBoolean

/-- The fields of a client that is stored. -/
def readClient (pClient : CClient) (Client : json_value) : CClient :=
  let IsAfk := Client.get "afk"
  let pClient := { pClient with
    m_aName := str_copy (Client.get "name").string MAX_NAME_LENGTH
    m_aClan := str_copy (Client.get "clan").string MAX_CLAN_LENGTH
    m_Country := (Client.get "country").json_int_get
    m_Score := (Client.get "score").json_int_get
    m_IsPlayer := (Client.get "is_player").bool
    m_IsAfk := if IsAfk.isBoolean then IsAfk.bool else false }
  let SkinObj := Client.get "skin"
  let SkinName := SkinObj.get "name"
  let SkinBodyColor := SkinObj.get "color_body"
  let SkinFeetColor := SkinObj.get "color_feet"
  if SkinObj.isObject && SkinName.isString then
    let m_aSkin := str_copy SkinName.string MAX_SKIN_LENGTH
    -- if skin json value existed, then always at least default to "default"
    let pClient := { pClient with
      m_aSkin := if m_aSkin = [] then str_copy (key "default") MAX_SKIN_LENGTH else m_aSkin }
    -- if skin also has custom colors, add them
    if SkinBodyColor.isInteger && SkinFeetColor.isInteger then
      { pClient with
        m_CustomSkinColors := true
        m_CustomSkinColorBody := SkinBodyColor.json_int_get
        m_CustomSkinColorFeet := SkinFeetColor.json_int_get }
    -- else set custom colors off
    else { pClient with m_CustomSkinColors := false }
  -- else make it null terminated
  else { pClient with m_aSkin := [] }

/-- `++` of an `int` -/
def increment (n : Int) : Exec Int := if n = intMax then .error .overflow else .ok (n + 1)

def storeClient (m_aClients : List CClient) (i : Nat) (Client : json_value) :
    Exec (List CClient) :=
  if i < SERVERINFO_MAX_CLIENTS then do
    let pClient ← load m_aClients i
    store m_aClients i (readClient pClient Client)
  else .ok m_aClients

def countPlayer (m_NumPlayers : Int) (Client : json_value) : Exec Int :=
  if (Client.get "is_player").bool then increment m_NumPlayers else .ok m_NumPlayers

/-- The loop over the clients from number `i` on, `none` for an error. -/
def clientsLoop (i : Nat) (pOut : CServerInfo2) : List json_value → Exec (Option CServerInfo2)
  | [] => .ok (some pOut)
  | Client :: Clients =>
      if clientError Client then .ok none
      else do
        let m_aClients ← storeClient pOut.m_aClients i Client
        let m_NumClients ← increment pOut.m_NumClients
        let m_NumPlayers ← countPlayer pOut.m_NumPlayers Client
        clientsLoop (i + 1) { pOut with
          m_aClients := m_aClients
          m_NumClients := m_NumClients
          m_NumPlayers := m_NumPlayers } Clients

def FromJsonRaw (pJson : json_value) : Exec (Option CServerInfo2) :=
  if fieldsError pJson then .ok none
  else clientsLoop 0 (readFields clear pJson) (pJson.get "clients").elements

namespace CServerInfo2

/-- True is an error. -/
def Validate (info : CServerInfo2) : Bool :=
  info.m_MaxClients < info.m_MaxPlayers || info.m_NumClients < info.m_NumPlayers ||
    info.m_MaxClients < info.m_NumClients || info.m_MaxPlayers < info.m_NumPlayers

end CServerInfo2

def FromJson (pJson : json_value) : Exec (Option CServerInfo2) := do
  match ← FromJsonRaw pJson with
  | none => return none
  | some pOut => return if pOut.Validate then none else some pOut

/-! ## Comparing and converting -/

def differentFields (a b : CServerInfo2) : Bool :=
  a.m_MaxClients != b.m_MaxClients || a.m_NumClients != b.m_NumClients ||
    a.m_MaxPlayers != b.m_MaxPlayers || a.m_NumPlayers != b.m_NumPlayers ||
    a.m_ClientScoreKind != b.m_ClientScoreKind || a.m_Passworded != b.m_Passworded ||
    str_comp a.m_aGameType b.m_aGameType != 0 || str_comp a.m_aName b.m_aName != 0 ||
    str_comp a.m_aMapName b.m_aMapName != 0 || str_comp a.m_aVersion b.m_aVersion != 0 ||
    a.m_RequiresLogin != b.m_RequiresLogin

def differentClients (a b : CClient) : Bool :=
  str_comp a.m_aName b.m_aName != 0 || str_comp a.m_aClan b.m_aClan != 0 ||
    a.m_Country != b.m_Country || a.m_Score != b.m_Score || a.m_IsPlayer != b.m_IsPlayer ||
    a.m_IsAfk != b.m_IsAfk

/-- The loop over `n` clients from `i` on. -/
def equalLoop (a b : CServerInfo2) (i : Nat) : Nat → Exec Bool
  | 0 => .ok true
  | n + 1 => do
      let Client ← load a.m_aClients i
      let OtherClient ← load b.m_aClients i
      if differentClients Client OtherClient then return false
      equalLoop a b (i + 1) n

/-- `operator==` -/
def equal (a b : CServerInfo2) : Exec Bool :=
  if differentFields a b then .ok false else equalLoop a b 0 a.m_NumClients.toNat

/-- The fields that the conversion fills in, the others are zero. -/
structure CServerInfo where
  m_MaxClients : Int
  m_NumClients : Int
  m_MaxPlayers : Int
  m_NumPlayers : Int
  m_ClientScoreKind : EClientScoreKind
  m_RequiresLogin : Bool
  m_Flags : Int
  m_aGameType : CString
  m_aName : CString
  m_aMap : CString
  m_aVersion : CString
  /-- The first `m_NumReceivedClients`. -/
  m_aClients : List CClient
  m_NumReceivedClients : Int
  m_Latency : Int

def convertClient (c : CClient) : CClient := { c with
  m_aName := str_copy c.m_aName MAX_NAME_LENGTH
  m_aClan := str_copy c.m_aClan MAX_CLAN_LENGTH
  m_aSkin := str_copy c.m_aSkin MAX_SKIN_LENGTH }

/-- `operator CServerInfo` -/
def convert (info : CServerInfo2) : Exec CServerInfo := do
  let n := min info.m_NumClients SERVERINFO_MAX_CLIENTS
  let m_aClients ← (List.range n.toNat).mapM fun i => do
    let Client ← load info.m_aClients i
    return convertClient Client
  return {
    m_MaxClients := info.m_MaxClients
    m_NumClients := info.m_NumClients
    m_MaxPlayers := info.m_MaxPlayers
    m_NumPlayers := info.m_NumPlayers
    m_ClientScoreKind := info.m_ClientScoreKind
    m_RequiresLogin := info.m_RequiresLogin
    m_Flags := if info.m_Passworded then SERVER_FLAG_PASSWORD else 0
    m_aGameType := str_copy info.m_aGameType 16
    m_aName := str_copy info.m_aName 64
    m_aMap := str_copy info.m_aMapName MAX_MAP_LENGTH
    m_aVersion := str_copy info.m_aVersion 32
    m_aClients := m_aClients
    m_NumReceivedClients := n
    m_Latency := -1
  }

/-! ## The loop over the clients -/

/-- Number of players. -/
def numPlayers (Clients : List json_value) : Nat :=
  Clients.countP fun Client => (Client.get "is_player").bool

/-- What the loop leaves behind: the counts and the clients from `i` on. -/
structure Filled (i : Nat) (pOut : CServerInfo2) (Clients : List json_value)
    (info : CServerInfo2) : Prop where
  fields : info = { pOut with
    m_aClients := info.m_aClients
    m_NumClients := pOut.m_NumClients + Clients.length
    m_NumPlayers := pOut.m_NumPlayers + numPlayers Clients }
  length_eq : info.m_aClients.length = SERVERINFO_MAX_CLIENTS
  before : ∀ k < i, info.m_aClients[k]? = pOut.m_aClients[k]?
  stored : ∀ k Client, i + k < SERVERINFO_MAX_CLIENTS → Clients[k]? = some Client →
    ∃ pClient, info.m_aClients[i + k]? = some (readClient pClient Client)

theorem increment_eq {n : Int} {limit : Nat} (h : n + (limit + 1 : Nat) = intMax) :
    increment n = .ok (n + 1) := if_neg (by omega)

theorem storeClient_eq {m_aClients : List CClient}
    (hlength : m_aClients.length = SERVERINFO_MAX_CLIENTS) (i : Nat) (Client : json_value) :
    ∃ stored, storeClient m_aClients i Client = .ok stored ∧
      stored.length = SERVERINFO_MAX_CLIENTS ∧ (∀ k < i, stored[k]? = m_aClients[k]?) ∧
      (i < SERVERINFO_MAX_CLIENTS → ∃ pClient, stored[i]? = some (readClient pClient Client)) := by
  unfold storeClient
  by_cases hi : i < SERVERINFO_MAX_CLIENTS
  · have hin : i < m_aClients.length := hlength ▸ hi
    refine ⟨m_aClients.set i (readClient m_aClients[i] Client), ?_,
      (List.length_set ..).trans hlength, ?_, ?_⟩
    · rw [if_pos hi, load_eq (List.getElem?_eq_getElem hin)]
      exact store_eq hin _
    · intro k hk
      exact List.getElem?_set_ne (by omega)
    · intro _
      exact ⟨_, List.getElem?_set_self hin⟩
  · exact ⟨m_aClients, if_neg hi, hlength, fun _ _ => rfl, fun h => absurd h hi⟩

theorem countPlayer_eq {n : Int} (h : n < intMax) (Client : json_value) :
    countPlayer n Client = .ok (n + numPlayers [Client]) := by
  unfold countPlayer numPlayers
  rw [List.countP_singleton]
  split
  · exact if_neg (by omega)
  · rw [Int.natCast_zero, Int.add_zero]

/-- One turn for a client without errors. -/
theorem clientsLoop_cons {i : Nat} {pOut : CServerInfo2} {Client : json_value}
    {stored : List CClient} (hstored : storeClient pOut.m_aClients i Client = .ok stored)
    (hformed : clientError Client = false) {limit : Nat}
    (hlimit : pOut.m_NumClients + (limit + 1 : Nat) = intMax)
    (hplayers : pOut.m_NumPlayers ≤ pOut.m_NumClients) (Clients : List json_value) :
    clientsLoop i pOut (Client :: Clients) = clientsLoop (i + 1) { pOut with
      m_aClients := stored
      m_NumClients := pOut.m_NumClients + 1
      m_NumPlayers := pOut.m_NumPlayers + numPlayers [Client] } Clients := by
  rw [clientsLoop, hformed, hstored, increment_eq hlimit, countPlayer_eq (by omega)]
  rfl

theorem clientsLoop_overflow {i : Nat} {pOut : CServerInfo2} {Client : json_value}
    {stored : List CClient} (hstored : storeClient pOut.m_aClients i Client = .ok stored)
    (hformed : clientError Client = false) (hlimit : pOut.m_NumClients = intMax)
    (Clients : List json_value) :
    clientsLoop i pOut (Client :: Clients) = .error .overflow := by
  have hincrement : increment pOut.m_NumClients = .error .overflow := if_pos hlimit
  rw [clientsLoop, hformed, hstored, hincrement]
  rfl

/-- The loop ends at a client with an error, or behind the last one, unless there are too many
clients for an `int`. -/
theorem clientsLoop_cases (Clients : List json_value) : ∀ {i : Nat} {pOut : CServerInfo2}
    {limit : Nat}, pOut.m_aClients.length = SERVERINFO_MAX_CLIENTS →
    pOut.m_NumClients + limit = intMax → pOut.m_NumPlayers ≤ pOut.m_NumClients →
    ((∃ Client ∈ Clients.take (limit + 1), clientError Client = true) ∧
      clientsLoop i pOut Clients = .ok none) ∨
    ((∀ Client ∈ Clients, clientError Client = false) ∧ Clients.length ≤ limit ∧
      ∃ info, clientsLoop i pOut Clients = .ok (some info) ∧ Filled i pOut Clients info) ∨
    ((∀ Client ∈ Clients.take (limit + 1), clientError Client = false) ∧ limit < Clients.length ∧
      clientsLoop i pOut Clients = .error .overflow) := by
  induction Clients with
  | nil =>
      intro i pOut limit hlength _ _
      refine .inr (.inl ⟨nofun, Nat.zero_le limit, pOut, rfl, ?_, hlength, fun _ _ => rfl, nofun⟩)
      simp [numPlayers]
  | cons Client Clients ih =>
      intro i pOut limit hlength hlimit hplayers
      cases hformed : clientError Client with
      | true =>
          refine .inl ⟨⟨Client, by simp, hformed⟩, ?_⟩
          simp only [clientsLoop, hformed, if_true]
      | false =>
          obtain ⟨stored, hstore, hlength', hbefore, hstored⟩ := storeClient_eq hlength i Client
          cases limit with
          | zero =>
              rw [Int.natCast_zero, Int.add_zero] at hlimit
              refine .inr (.inr ⟨?_, Nat.succ_pos _, clientsLoop_overflow hstore hformed hlimit _⟩)
              intro c hc
              obtain rfl := List.mem_singleton.mp hc
              exact hformed
          | succ limit =>
              have hone : numPlayers [Client] ≤ 1 := List.countP_le_length
              rw [clientsLoop_cons hstore hformed hlimit hplayers]
              rcases @ih (i + 1) { pOut with
                  m_aClients := stored
                  m_NumClients := pOut.m_NumClients + 1
                  m_NumPlayers := pOut.m_NumPlayers + numPlayers [Client] } limit
                hlength' (by dsimp only; omega) (by dsimp only; omega) with
                ⟨⟨c, hc, herror⟩, hnone⟩ | ⟨hall, hle, info, hinfo, hfilled⟩ | ⟨hall, hlt, hover⟩
              · exact .inl ⟨⟨c, List.mem_cons_of_mem _ hc, herror⟩, hnone⟩
              · refine .inr (.inl ⟨List.forall_mem_cons.mpr ⟨hformed, hall⟩,
                  Nat.succ_le_succ hle, info, hinfo, ?_, hfilled.length_eq, ?_, ?_⟩)
                · have hsum : numPlayers ([Client] ++ Clients) =
                      numPlayers [Client] + numPlayers Clients := List.countP_append
                  rw [List.singleton_append] at hsum
                  refine hfilled.fields.trans ?_
                  rw [hsum, List.length_cons]
                  simp only [CServerInfo2.mk.injEq, true_and, and_true]
                  omega
                · intro k hk
                  exact (hfilled.before k (Nat.lt_succ_of_lt hk)).trans (hbefore k hk)
                · intro k c hk hc
                  cases k with
                  | zero =>
                      obtain rfl := Option.some.inj hc
                      obtain ⟨pClient, hget⟩ := hstored hk
                      exact ⟨pClient, (hfilled.before i (Nat.lt_succ_self i)).trans hget⟩
                  | succ k =>
                      have hnext := hfilled.stored k c (by omega) hc
                      rwa [Nat.add_right_comm] at hnext
              · exact .inr (.inr ⟨List.forall_mem_cons.mpr ⟨hformed, hall⟩,
                  Nat.succ_lt_succ hlt, hover⟩)

/-! ## Accepted documents -/

/-- No field and no client has an error and the counts fit. -/
structure Accepted (j : json_value) : Prop where
  fields : fieldsError j = false
  clients : ∀ Client ∈ (j.get "clients").elements, clientError Client = false
  max_le : (j.get "max_players").json_int_get ≤ (j.get "max_clients").json_int_get
  clients_le : ((j.get "clients").elements.length : Int) ≤ (j.get "max_clients").json_int_get
  players_le : (numPlayers (j.get "clients").elements : Int) ≤ (j.get "max_players").json_int_get

/-- More clients without errors than an `int` counts. -/
def Overflows (j : json_value) : Prop :=
  fieldsError j = false ∧ 2147483647 < (j.get "clients").elements.length ∧
    ∀ Client ∈ (j.get "clients").elements.take 2147483648, clientError Client = false

theorem json_int_get_le (v : json_value) : v.json_int_get ≤ 2147483647 := by
  cases v with
  | json_integer n => exact (isInt32_wrap32 n).2
  | _ => exact (by decide : (0 : Int) ≤ 2147483647)

theorem Accepted.not_overflows {j : json_value} (h : Accepted j) : ¬ Overflows j := by
  rintro ⟨-, hlt, -⟩
  have hle := h.clients_le
  have hmax := json_int_get_le (j.get "max_clients")
  omega

theorem CServerInfo2.validate_eq_false (info : CServerInfo2) : info.Validate = false ↔
    info.m_MaxPlayers ≤ info.m_MaxClients ∧ info.m_NumPlayers ≤ info.m_NumClients ∧
      info.m_NumClients ≤ info.m_MaxClients ∧ info.m_NumPlayers ≤ info.m_MaxPlayers := by
  simp only [Validate, Bool.or_eq_false_iff, decide_eq_false_iff_not, Int.not_lt, and_assoc]

/-- The counts of a document that was read. -/
theorem Filled.counts {j : json_value} {info : CServerInfo2}
    (h : Filled 0 (readFields clear j) (j.get "clients").elements info) :
    info.m_MaxClients = (j.get "max_clients").json_int_get ∧
      info.m_MaxPlayers = (j.get "max_players").json_int_get ∧
      info.m_NumClients = (j.get "clients").elements.length ∧
      info.m_NumPlayers = numPlayers (j.get "clients").elements := by
  rw [h.fields]
  exact ⟨rfl, rfl, Int.zero_add _, Int.zero_add _⟩

theorem Filled.validate_eq_false {j : json_value} {info : CServerInfo2}
    (h : Filled 0 (readFields clear j) (j.get "clients").elements info) :
    info.Validate = false ↔
      (j.get "max_players").json_int_get ≤ (j.get "max_clients").json_int_get ∧
      ((j.get "clients").elements.length : Int) ≤ (j.get "max_clients").json_int_get ∧
      (numPlayers (j.get "clients").elements : Int) ≤ (j.get "max_players").json_int_get := by
  have hcount : numPlayers (j.get "clients").elements ≤ (j.get "clients").elements.length :=
    List.countP_le_length
  obtain ⟨hmaxClients, hmaxPlayers, hclients, hplayers⟩ := h.counts
  rw [info.validate_eq_false, hmaxClients, hmaxPlayers, hclients, hplayers]
  omega

/-- What `FromJson` does with a document. -/
theorem fromJson_cases (j : json_value) :
    (¬ Accepted j ∧ ¬ Overflows j ∧ FromJson j = .ok none) ∨
    (Accepted j ∧ ∃ info, FromJson j = .ok (some info) ∧
      Filled 0 (readFields clear j) (j.get "clients").elements info) ∨
    (Overflows j ∧ FromJson j = .error .overflow) := by
  unfold FromJson FromJsonRaw
  cases hfields : fieldsError j with
  | true =>
      refine .inl ⟨fun h => ?_, fun h => ?_, rfl⟩
      · exact Bool.false_ne_true (h.fields.symm.trans hfields)
      · exact Bool.false_ne_true (h.1.symm.trans hfields)
  | false =>
      rw [if_neg Bool.false_ne_true]
      rcases @clientsLoop_cases (j.get "clients").elements 0 (readFields clear j)
        2147483647 rfl rfl (Int.le_refl _) with
        ⟨⟨c, hc, herror⟩, hnone⟩ | ⟨hall, hle, info, hinfo, hfilled⟩ | ⟨hall, hlt, hover⟩
      · rw [hnone]
        refine .inl ⟨fun h => ?_, fun h => ?_, rfl⟩
        · exact Bool.false_ne_true ((h.clients c (List.mem_of_mem_take hc)).symm.trans herror)
        · exact Bool.false_ne_true ((h.2.2 c hc).symm.trans herror)
      · rw [hinfo]
        have hvalid := hfilled.validate_eq_false
        cases hcheck : info.Validate with
        | true =>
            refine .inl ⟨fun h => ?_, fun h => ?_, ?_⟩
            · have := hvalid.mpr ⟨h.max_le, h.clients_le, h.players_le⟩
              exact Bool.false_ne_true (this.symm.trans hcheck)
            · have := h.2.1
              omega
            · change Except.ok (if info.Validate = true then none else some info) = _
              rw [hcheck, if_pos rfl]
        | false =>
            obtain ⟨hmax, hclients, hplayers⟩ := hvalid.mp hcheck
            refine .inr (.inl ⟨⟨hfields, hall, hmax, hclients, hplayers⟩, info, ?_, hfilled⟩)
            change Except.ok (if info.Validate = true then none else some info) = _
            rw [hcheck, if_neg Bool.false_ne_true]
      · rw [hover]
        exact .inr (.inr ⟨⟨hfields, hlt, hall⟩, rfl⟩)

/-! ## Sane infos -/

/-- Counts that fit, texts without control characters, and no access outside of the array. -/
structure Sane (info : CServerInfo2) : Prop where
  players_nonneg : 0 ≤ info.m_NumPlayers
  players_le : info.m_NumPlayers ≤ info.m_NumClients
  clients_le : info.m_NumClients ≤ info.m_MaxClients
  players_le_max : info.m_NumPlayers ≤ info.m_MaxPlayers
  max_le : info.m_MaxPlayers ≤ info.m_MaxClients
  gameType : str_has_cc info.m_aGameType = false
  name : str_has_cc info.m_aName = false
  mapName : str_has_cc info.m_aMapName = false
  version : str_has_cc info.m_aVersion = false
  clients : ∀ k : Nat, k < info.m_NumClients → ∀ c, info.m_aClients[k]? = some c →
    str_has_cc c.m_aName = false ∧ str_has_cc c.m_aClan = false
  comparable : ∀ Other : CServerInfo2, Other.m_aClients.length = SERVERINFO_MAX_CLIENTS →
    ∃ same, equal info Other = .ok same
  convertible : ∃ r, convert info = .ok r
  equal_self : equal info info = .ok true

def Behaves (j : json_value) : Prop :=
  ∃ r, FromJson j = .ok r ∧ ∀ info, r = some info → Sane info

theorem str_has_cc_str_copy {s : CString} (h : str_has_cc s = false) (n : Nat) :
    str_has_cc (str_copy s n) = false := by
  rw [str_has_cc, List.any_eq_false] at h ⊢
  intro c hc
  have htake := (prefix_fix_truncation (s.take (n - 1))).subset hc
  exact h c (List.mem_of_mem_take htake)

theorem readClient_m_aName (pClient : CClient) (Client : json_value) :
    (readClient pClient Client).m_aName =
      str_copy (Client.get "name").string MAX_NAME_LENGTH := by
  unfold readClient
  simp only
  split
  · split <;> rfl
  · rfl

theorem readClient_m_aClan (pClient : CClient) (Client : json_value) :
    (readClient pClient Client).m_aClan =
      str_copy (Client.get "clan").string MAX_CLAN_LENGTH := by
  unfold readClient
  simp only
  split
  · split <;> rfl
  · rfl

theorem str_has_cc_of_clientError {Client : json_value} (h : clientError Client = false) :
    str_has_cc (Client.get "name").string = false := by
  simp only [clientError, Bool.or_eq_false_iff] at h
  exact h.1.1.1.1.1.2

theorem differentClients_self (c : CClient) : differentClients c c = false := by
  simp [differentClients, str_comp_self]

theorem differentFields_self (info : CServerInfo2) : differentFields info info = false := by
  simp [differentFields, str_comp_self]

/-- A comparison stays inside of arrays that are long enough. -/
theorem equalLoop_inRange {a b : CServerInfo2} {i n : Nat} (ha : i + n ≤ a.m_aClients.length)
    (hb : i + n ≤ b.m_aClients.length) : ∃ same, equalLoop a b i n = .ok same := by
  induction n generalizing i with
  | zero => exact ⟨true, rfl⟩
  | succ n ih =>
      have hia : i < a.m_aClients.length := by omega
      have hib : i < b.m_aClients.length := by omega
      simp only [equalLoop, load_eq (List.getElem?_eq_getElem hia),
        load_eq (List.getElem?_eq_getElem hib), bind, Except.bind]
      split
      · exact ⟨false, rfl⟩
      · exact ih (by omega) (by omega)

theorem equalLoop_self {info : CServerInfo2} {i n : Nat}
    (h : i + n ≤ info.m_aClients.length) : equalLoop info info i n = .ok true := by
  induction n generalizing i with
  | zero => rfl
  | succ n ih =>
      have hi : i < info.m_aClients.length := by omega
      simp only [equalLoop, load_eq (List.getElem?_eq_getElem hi), bind, Except.bind,
        differentClients_self, Bool.false_eq_true, if_false]
      exact ih (by omega)

/-- Equal clients do not stop a comparison before the end of the array. -/
theorem equalLoop_outOfBounds {info : CServerInfo2} {i n : Nat}
    (hi : i ≤ info.m_aClients.length) (h : info.m_aClients.length < i + n) :
    equalLoop info info i n = .error .outOfBounds := by
  induction n generalizing i with
  | zero => omega
  | succ n ih =>
      by_cases hin : i < info.m_aClients.length
      · simp only [equalLoop, load_eq (List.getElem?_eq_getElem hin), bind, Except.bind,
          differentClients_self, Bool.false_eq_true, if_false]
        exact ih hin (by omega)
      · rw [equalLoop, load, List.getElem?_eq_none (by omega)]
        rfl

theorem convert_inRange {info : CServerInfo2}
    (h : info.m_aClients.length = SERVERINFO_MAX_CLIENTS) : ∃ r, convert info = .ok r := by
  unfold convert
  obtain ⟨m_aClients, hclients⟩ := mapM_succeeds (f := fun i => do
      let Client ← load info.m_aClients i
      return convertClient Client)
    (l := List.range (min info.m_NumClients SERVERINFO_MAX_CLIENTS).toNat) fun i hi => by
      rw [List.mem_range] at hi
      have hin : i < info.m_aClients.length := by omega
      rw [load_eq (List.getElem?_eq_getElem hin)]
      exact ⟨_, rfl⟩
  simp only [hclients]
  exact ⟨_, rfl⟩

/-! ## The condition -/

/-- Nothing but the clan of a stored client, the number of clients and an overflow goes wrong. -/
structure Fine (j : json_value) : Prop where
  not_overflows : ¬ Overflows j
  length_le : Accepted j → (j.get "clients").elements.length ≤ SERVERINFO_MAX_CLIENTS
  clans : Accepted j → ∀ Client ∈ (j.get "clients").elements,
    str_has_cc (str_copy (Client.get "clan").string MAX_CLAN_LENGTH) = false

theorem Filled.sane {j : json_value} {info : CServerInfo2} (h : Accepted j)
    (hfilled : Filled 0 (readFields clear j) (j.get "clients").elements info) (hfine : Fine j) :
    Sane info := by
  have hle := hfine.length_le h
  have hcount : numPlayers (j.get "clients").elements ≤ (j.get "clients").elements.length :=
    List.countP_le_length
  have hfields := h.fields
  simp only [fieldsError, Bool.or_eq_false_iff] at hfields
  obtain ⟨hmaxClients, hmaxPlayers, hclients, hplayers⟩ := hfilled.counts
  have hbounds := h.clients_le
  have hplayersLe := h.players_le
  have hmaxLe := h.max_le
  have hlength := hfilled.length_eq
  refine {
    players_nonneg := by omega
    players_le := by omega
    clients_le := by omega
    players_le_max := by omega
    max_le := by omega
    gameType := ?_
    name := ?_
    mapName := ?_
    version := ?_
    clients := ?_
    comparable := ?_
    convertible := convert_inRange hlength
    equal_self := ?_ }
  · rw [hfilled.fields]
    exact str_has_cc_str_copy (by tauto) 16
  · rw [hfilled.fields]
    exact str_has_cc_str_copy (by tauto) 64
  · rw [hfilled.fields]
    exact str_has_cc_str_copy (by tauto) MAX_MAP_LENGTH
  · rw [hfilled.fields]
    exact str_has_cc_str_copy (by tauto) 32
  · intro k hk c hc
    have hk' : k < (j.get "clients").elements.length := by omega
    have hClient := List.getElem?_eq_getElem hk'
    obtain ⟨pClient, hget⟩ := hfilled.stored k _ (by omega) hClient
    rw [Nat.zero_add] at hget
    obtain rfl := Option.some.inj (hc.symm.trans hget)
    have hmem := List.getElem_mem hk'
    rw [readClient_m_aName, readClient_m_aClan]
    exact ⟨str_has_cc_str_copy (str_has_cc_of_clientError (h.clients _ hmem)) _,
      hfine.clans h _ hmem⟩
  · intro Other hOther
    unfold equal
    split
    · exact ⟨false, rfl⟩
    · exact equalLoop_inRange (by omega) (by omega)
  · rw [equal, differentFields_self]
    exact equalLoop_self (by omega)

/-- The comparison of two infos with more clients than the array has reads behind it. -/
theorem Filled.equal_outOfBounds {j : json_value} {info : CServerInfo2}
    (h : Filled 0 (readFields clear j) (j.get "clients").elements info)
    (hgt : SERVERINFO_MAX_CLIENTS < (j.get "clients").elements.length) :
    equal info info = .error .outOfBounds := by
  have hlength := h.length_eq
  obtain ⟨-, -, hclients, -⟩ := h.counts
  rw [equal, differentFields_self, if_neg Bool.false_ne_true]
  exact equalLoop_outOfBounds (Nat.zero_le _) (by omega)

theorem behaves_iff_fine (j : json_value) : Behaves j ↔ Fine j := by
  rcases fromJson_cases j with ⟨hnot, hover, hnone⟩ | ⟨h, info, hinfo, hfilled⟩ | ⟨hover, herror⟩
  · refine iff_of_true ⟨none, hnone, nofun⟩ ⟨hover, fun h => absurd h hnot, fun h => absurd h hnot⟩
  · constructor
    · rintro ⟨r, hr, hsane⟩
      obtain rfl := Except.ok.inj (hr.symm.trans hinfo)
      have hsane := hsane info rfl
      obtain ⟨-, -, hclients, -⟩ := hfilled.counts
      have hle : (j.get "clients").elements.length ≤ SERVERINFO_MAX_CLIENTS := by
        by_contra hgt
        have hequal := hsane.equal_self
        rw [hfilled.equal_outOfBounds (by omega)] at hequal
        cases hequal
      refine ⟨h.not_overflows, fun _ => hle, fun _ Client hClient => ?_⟩
      obtain ⟨k, hk, rfl⟩ := List.mem_iff_getElem.mp hClient
      obtain ⟨pClient, hget⟩ := hfilled.stored k _ (by omega) (List.getElem?_eq_getElem hk)
      rw [Nat.zero_add] at hget
      have hclan := (hsane.clients k (by omega) _ hget).2
      rwa [readClient_m_aClan] at hclan
    · intro hfine
      refine ⟨some info, hinfo, fun info' heq => ?_⟩
      obtain rfl := Option.some.inj heq
      exact hfilled.sane h hfine
  · refine iff_of_false ?_ fun hfine => hfine.not_overflows hover
    rintro ⟨r, hr, -⟩
    rw [herror] at hr
    cases hr

/-! ## A document -/

/-- A server with one client of this clan. -/
def document (clan : List UInt8) : json_value := .json_object [
  (key "max_clients", .json_integer 64), (key "max_players", .json_integer 64),
  (key "passworded", .json_boolean false), (key "game_type", .json_string (key "DDraceNetwork")),
  (key "name", .json_string (key "server")),
  (key "map", .json_object [(key "name", .json_string (key "dm1"))]),
  (key "version", .json_string (key "0.6.4")),
  (key "clients", .json_array [.json_object [
    (key "name", .json_string (key "nameless tee")), (key "clan", .json_string clan),
    (key "country", .json_integer (-1)), (key "score", .json_integer 0),
    (key "is_player", .json_boolean true)]])]

/-- A line feed in the clan is accepted. -/
theorem clan_unchecked :
    Accepted (document [97, 10, 98]) ∧ ¬ Behaves (document [97, 10, 98]) := by
  have haccepted : Accepted (document [97, 10, 98]) := by
    refine ⟨by decide +kernel, ?_, by decide +kernel, by decide +kernel, by decide +kernel⟩
    exact List.forall_mem_singleton.mpr (by decide +kernel)
  refine ⟨haccepted, fun hbehaves => ?_⟩
  have hclans := ((behaves_iff_fine _).mp hbehaves).clans haccepted _ (List.mem_singleton_self _)
  revert hclans
  decide +kernel

end Fex.Engine.ServerInfo
