import Fex.Mastersrv.Servers.Dumps

/-!
# Registering at the master server

Model of `handle_register` and `handle_delete` with the challenges and the
configuration they use.  The hash and the decoding of hex digits are
parameters.
-/

namespace Fex.Mastersrv

open Fex.Lib

/-! ## Configuration -/

/-- `len` is the length of the prefix. -/
inductive IpNet
  | V4 (bits : BitVec 32) (len : Nat)
  | V6 (bits : BitVec 128) (len : Nat)

def IpNet.contains : IpNet → IpAddr → Bool
  | .V4 net len, .V4 bits => net >>> (32 - len) == bits >>> (32 - len)
  | .V6 net len, .V6 bits => net >>> (128 - len) == bits >>> (128 - len)
  | _, _ => false

inductive ConfigAddr
  | WithPort (ip : IpAddr) (port : UInt16)
  | OnlyIp (ip : IpAddr)
  | Range (net : IpNet)

def ConfigAddr.«matches» (c : ConfigAddr) (addr : Addr) : Bool :=
  match c with
  | .WithPort ip port => addr.ip == ip && addr.port == port
  | .OnlyIp ip => addr.ip == ip
  | .Range net => net.contains addr.ip

structure Ban where
  address : ConfigAddr
  reason : Option String

structure Config where
  default_ban_message : String
  bans : List Ban
  port_forward_check_exceptions : List ConfigAddr
  locations : IpAddr → Option Location

namespace Config

def is_banned (c : Config) (addr : Addr) : Option String :=
  (c.bans.find? fun ban => ban.address.matches addr).map fun ban =>
    ban.reason.getD c.default_ban_message

def is_exempt_from_port_forward_check (c : Config) (addr : Addr) : Bool :=
  c.port_forward_check_exceptions.any fun e => e.matches addr

end Config

/-! ## Challenges -/

abbrev Seed := Vector UInt8 16

structure Challenge where
  current : ShortString
  prev : ShortString

def Challenge.is_valid (c : Challenge) (challenge : ShortString) : Bool :=
  challenge == c.current || challenge == c.prev

structure Challenger where
  seed : Seed
  prev_seed : Seed

namespace Challenger

/-- `seed` is the random value. -/
def reseed (c : Challenger) (seed : Seed) : Challenger := { seed := seed, prev_seed := c.seed }

def for_addr (hash : List Char → Seed → ShortString) (c : Challenger) (addr : Addr) : Challenge :=
  { current := hash addr.fmt c.seed, prev := hash addr.fmt c.prev_seed }

end Challenger

/-! ## Requests -/

structure RegisterAddr where
  port : UInt16
  protocol : Protocol

def RegisterAddr.with_ip (a : RegisterAddr) (ip : IpAddr) : Addr :=
  { ip := ip, port := a.port, protocol := a.protocol }

/-- A JSON value, of an object the normalized text. -/
inductive Value
  | Object (raw : RawValue)
  | Other

structure Register where
  address : RegisterAddr
  secret : ShortString
  connless_request_token : Option ShortString
  challenge_secret : ShortString
  challenge_token : Option ShortString
  info_serial : Int
  info : Option Value

structure Delete where
  address : RegisterAddr
  secret : ShortString

structure RegisterError where
  is_unsupported_media_type : Bool
  message : String

def RegisterError.new (s : String) : RegisterError :=
  { is_unsupported_media_type := false, message := s }

inductive RegisterResponse
  | Success
  | NeedChallenge
  | NeedInfo
  deriving DecidableEq

/-- What `send_challenge` sends. -/
structure ChallengePacket where
  connless_request_token_7 : Option (Vector UInt8 4)
  target : IpAddr × UInt16
  challenge_secret : ShortString
  challenge : ShortString

/-- The shared state of the master server. -/
structure Master where
  challenger : Challenger
  servers : Servers

/-- What a request did: the state, the answer and the challenge that was sent. -/
structure Outcome where
  master : Master
  result : Except RegisterError RegisterResponse
  sent : Option ChallengePacket

namespace Master

variable (hash : List Char → Seed → ShortString)
  (decode_to_slice : ShortString → Except String (Vector UInt8 4))

/-- The token for the 0.7 protocol. -/
def connlessToken (register : Register) : Except RegisterError (Option (Vector UInt8 4)) :=
  match register.address.protocol with
  | .V7 =>
      match register.connless_request_token with
      | none => .error (.new "registering with tw-0.7+udp:// requires header Connless-Token")
      | some token_hex =>
          match decode_to_slice token_hex with
          | .ok token => .ok (some token)
          | .error e => .error (.new ("invalid hex in Connless-Request-Token: " ++ e))
  | .V5 => .ok none
  | .V6 => .ok none
  | .Ddper6 => .ok none

/-- The info of a request; it must be an object. -/
def rawInfo : Option Value → Except RegisterError (Option RawValue)
  | none => .ok none
  | some (.Object raw) => .ok (some raw)
  | some .Other => .error (.new "register info must be an object")

/-- The challenge is correct. -/
def correctChallenge (is_exempt : Bool) (challenge : Challenge) (challenge_token : Option ShortString) :
    Bool :=
  is_exempt || (challenge_token.map fun ct => challenge.is_valid ct).getD false

def shouldSendChallenge (is_exempt : Bool) (challenge : Challenge)
    (challenge_token : Option ShortString) : Bool :=
  !is_exempt && (challenge_token.map fun ct => ct != challenge.current).getD true

/-- `now` is the time of the timekeeper. -/
def handle_register (m : Master) (config : Config) (now : Timestamp) (remote_addr : IpAddr)
    (register : Register) : Exec Outcome :=
  match connlessToken decode_to_slice register with
  | .error e => .ok { master := m, result := .error e, sent := none }
  | .ok connless_request_token_7 =>
      let addr := register.address.with_ip remote_addr
      match config.is_banned addr with
      | some reason => .ok { master := m, result := .error (.new reason), sent := none }
      | none =>
          let is_exempt := config.is_exempt_from_port_forward_check addr
          let challenge := m.challenger.for_addr hash addr
          let sent :=
            if shouldSendChallenge is_exempt challenge register.challenge_token then
              some { connless_request_token_7 := connless_request_token_7
                     target := (addr.ip, addr.port)
                     challenge_secret := register.challenge_secret
                     challenge := challenge.current }
            else none
          if correctChallenge is_exempt challenge register.challenge_token then
            match rawInfo register.info with
            | .error e => .ok { master := m, result := .error e, sent := none }
            | .ok raw_info => do
                let (servers, add_result) ← m.servers.add addr
                  { kind := .Mastersrv, ping_time := now, location := config.locations addr.ip
                    secret := register.secret } register.info_serial raw_info
                let result := if add_result = .NeedInfo then .NeedInfo else .Success
                return { master := { m with servers := servers }, result := .ok result, sent := sent }
          else .ok { master := m, result := .ok .NeedChallenge, sent := sent }

def handle_delete (m : Master) (remote_addr : IpAddr) (delete : Delete) : Exec Outcome := do
  let addr := delete.address.with_ip remote_addr
  let (servers, r) ← m.servers.remove addr delete.secret
  let master := { m with servers := servers }
  match r with
  | .Removed => return { master := master, result := .ok .Success, sent := none }
  | .NotFound =>
      return { master := master, result := .error (.new "could not find registered server")
               sent := none }

end Master

end Fex.Mastersrv
