import Fex.Lib.Run
import Fex.Mastersrv.Register

/-!
# Challenged addresses

An address that has to answer challenges enters the registry with a token for
that address only, and a token is accepted until the second reseed after it was
sent.
-/

namespace Fex.Mastersrv

open Fex.Lib Function

variable {hash : List Char → Seed → ShortString}
  {decode_to_slice : ShortString → Except String (Vector UInt8 4)}

/-- What the request was refused for before any challenge. -/
structure Proceeds (decode_to_slice : ShortString → Except String (Vector UInt8 4)) (config : Config)
    (addr : Addr) (register : Register) : Prop where
  token : ∃ t, Master.connlessToken decode_to_slice register = .ok t
  allowed : config.is_banned addr = none

/-- What `handle_register` does. -/
inductive Handling (hash : List Char → Seed → ShortString)
    (decode_to_slice : ShortString → Except String (Vector UInt8 4)) (m : Master) (config : Config)
    (addr : Addr) (register : Register) : Outcome → Prop
  | refused (e : RegisterError) (h : ¬ Proceeds decode_to_slice config addr register) :
      Handling hash decode_to_slice m config addr register
        { master := m, result := .error e, sent := none }
  | noObject (e : RegisterError) (h : Proceeds decode_to_slice config addr register)
      (hcorrect : Master.correctChallenge (config.is_exempt_from_port_forward_check addr)
        (m.challenger.for_addr hash addr) register.challenge_token = true)
      (hinfo : register.info = some .Other) :
      Handling hash decode_to_slice m config addr register
        { master := m, result := .error e, sent := none }
  | added (o : Outcome) (h : Proceeds decode_to_slice config addr register)
      (hcorrect : Master.correctChallenge (config.is_exempt_from_port_forward_check addr)
        (m.challenger.for_addr hash addr) register.challenge_token = true)
      (hinfo : register.info ≠ some .Other)
      (hchallenger : o.master.challenger = m.challenger)
      (hconsistent : o.master.servers.Consistent)
      (hother : ∀ a, a ≠ addr →
        o.master.servers.addresses.lookup a = m.servers.addresses.lookup a)
      (hresult : o.result = .ok .Success ∨ o.result = .ok .NeedInfo)
      (hsent : Master.shouldSendChallenge (config.is_exempt_from_port_forward_check addr)
        (m.challenger.for_addr hash addr) register.challenge_token = true →
        ∃ p, o.sent = some p ∧ p.target = (addr.ip, addr.port) ∧
          p.challenge = (m.challenger.for_addr hash addr).current)
      (hsilent : ∀ p, o.sent = some p →
        p.challenge = (m.challenger.for_addr hash addr).current) :
      Handling hash decode_to_slice m config addr register o
  | challenged (o : Outcome) (h : Proceeds decode_to_slice config addr register)
      (hcorrect : Master.correctChallenge (config.is_exempt_from_port_forward_check addr)
        (m.challenger.for_addr hash addr) register.challenge_token = false)
      (hmaster : o.master = m) (hresult : o.result = .ok .NeedChallenge)
      (hsent : Master.shouldSendChallenge (config.is_exempt_from_port_forward_check addr)
        (m.challenger.for_addr hash addr) register.challenge_token = true →
        ∃ p, o.sent = some p ∧ p.target = (addr.ip, addr.port) ∧
          p.challenge = (m.challenger.for_addr hash addr).current)
      (hsilent : ∀ p, o.sent = some p →
        p.challenge = (m.challenger.for_addr hash addr).current) :
      Handling hash decode_to_slice m config addr register o

/-- Entries of other addresses are not touched by `add`. -/
theorem Servers.Adding.other {s t : Servers} {addr : Addr} {a_info : AddrInfo} {info_serial : Int}
    {info : Option RawValue} {r : AddResult} (h : Adding s addr a_info info_serial info t r) {a : Addr}
    (ha : a ≠ addr) : t.addresses.lookup a = s.addresses.lookup a := by
  cases h with
  | needInfo => rfl
  | obsolete => rfl
  | stored t r hr hinfo hnot hA server hS hserver =>
      have hpoint := congrFun hA a
      rw [update_of_ne ha] at hpoint
      exact hpoint

variable (hash decode_to_slice) in
theorem handle_register_spec (m : Master) (hm : m.servers.Consistent) (config : Config)
    (now : Timestamp) (remote_addr : IpAddr) (register : Register) :
    ∃ o, m.handle_register hash decode_to_slice config now remote_addr register = .ok o ∧
      Handling hash decode_to_slice m config (register.address.with_ip remote_addr) register o := by
  unfold Master.handle_register
  cases htoken : Master.connlessToken decode_to_slice register with
  | error e =>
      refine ⟨_, rfl, .refused e fun h => ?_⟩
      obtain ⟨t, ht⟩ := h.token
      rw [htoken] at ht
      cases ht
  | ok t =>
      simp only
      cases hban : config.is_banned (register.address.with_ip remote_addr) with
      | some reason =>
          refine ⟨_, rfl, .refused _ fun h => ?_⟩
          have hallowed := h.allowed
          rw [hban] at hallowed
          cases hallowed
      | none =>
          have hproceeds : Proceeds decode_to_slice config (register.address.with_ip remote_addr)
              register := ⟨⟨t, htoken⟩, hban⟩
          simp only
          by_cases hcorrect : Master.correctChallenge
              (config.is_exempt_from_port_forward_check (register.address.with_ip remote_addr))
              (m.challenger.for_addr hash (register.address.with_ip remote_addr))
              register.challenge_token = true
          · rw [if_pos hcorrect]
            cases hinfo : Master.rawInfo register.info with
            | error e =>
                have hother : register.info = some .Other := by
                  unfold Master.rawInfo at hinfo
                  split at hinfo
                  · cases hinfo
                  · cases hinfo
                  · assumption
                exact ⟨_, rfl, .noObject e hproceeds hcorrect hother⟩
            | ok raw_info =>
                have hobject : register.info ≠ some .Other := by
                  intro hother
                  rw [hother] at hinfo
                  cases hinfo
                obtain ⟨s, r, hadd, hs, hadding⟩ := hm.add (register.address.with_ip remote_addr)
                  { kind := .Mastersrv, ping_time := now
                    location := config.locations (register.address.with_ip remote_addr).ip
                    secret := register.secret } register.info_serial raw_info
                simp only [hadd, bind, Except.bind]
                refine ⟨_, rfl, .added _ hproceeds hcorrect hobject rfl hs
                  (fun a ha => hadding.other ha) ?_ (fun hsend => ?_) fun p hp => ?_⟩
                · by_cases hneed : r = .NeedInfo
                  · rw [if_pos hneed]
                    exact .inr rfl
                  · rw [if_neg hneed]
                    exact .inl rfl
                · rw [if_pos hsend]
                  exact ⟨_, rfl, rfl, rfl⟩
                · simp only at hp
                  split at hp
                  · cases hp
                    rfl
                  · cases hp
          · rw [if_neg hcorrect]
            refine ⟨_, rfl, .challenged _ hproceeds (by simpa using hcorrect) rfl rfl
              (fun hsend => ?_) fun p hp => ?_⟩
            · rw [if_pos hsend]
              exact ⟨_, rfl, rfl, rfl⟩
            · simp only at hp
              split at hp
              · cases hp
                rfl
              · cases hp

end Fex.Mastersrv

/-!
## Runs of the master server

Requests, deletes and reseeds in any order.  The record of the tokens that were
sent is kept beside the state.
-/

namespace Fex.Mastersrv

open Fex.Lib

variable {hash : List Char → Seed → ShortString}
  {decode_to_slice : ShortString → Except String (Vector UInt8 4)}

/-! ## What a request leaves -/

section

variable {m : Master} {config : Config} {addr : Addr} {register : Register} {o : Outcome}

theorem Handling.challenger (h : Handling hash decode_to_slice m config addr register o) :
    o.master.challenger = m.challenger := by
  cases h with
  | refused => rfl
  | noObject => rfl
  | added o h hcorrect hinfo hchallenger => exact hchallenger
  | challenged o h hcorrect hmaster => rw [hmaster]

theorem Handling.consistent (h : Handling hash decode_to_slice m config addr register o)
    (hm : m.servers.Consistent) : o.master.servers.Consistent := by
  cases h with
  | refused => exact hm
  | noObject => exact hm
  | added o h hcorrect hinfo hchallenger hconsistent => exact hconsistent
  | challenged o h hcorrect hmaster =>
      rw [hmaster]
      exact hm

theorem Handling.other (h : Handling hash decode_to_slice m config addr register o) {a : Addr}
    (ha : a ≠ addr) :
    o.master.servers.addresses.lookup a = m.servers.addresses.lookup a := by
  cases h with
  | refused => rfl
  | noObject => rfl
  | added o h hcorrect hinfo hchallenger hconsistent hother => exact hother a ha
  | challenged o h hcorrect hmaster => rw [hmaster]

/-- The entry of the address is written, or the answer says that it is. -/
def Listed (m : Master) (addr : Addr) (o : Outcome) : Prop :=
  o.master.servers.addresses.lookup addr ≠ m.servers.addresses.lookup addr ∨
    o.result = .ok .Success

theorem Handling.correct (h : Handling hash decode_to_slice m config addr register o)
    (hlisted : Listed m addr o) :
    Master.correctChallenge (config.is_exempt_from_port_forward_check addr)
      (m.challenger.for_addr hash addr) register.challenge_token = true := by
  cases h with
  | refused =>
      rcases hlisted with hlookup | hresult
      · exact absurd rfl hlookup
      · cases hresult
  | noObject e h hcorrect => exact hcorrect
  | added o h hcorrect => exact hcorrect
  | challenged o h hcorrect hmaster hresult =>
      rcases hlisted with hlookup | hsuccess
      · rw [hmaster] at hlookup
        exact absurd rfl hlookup
      · rw [hresult] at hsuccess
        cases hsuccess

theorem Handling.sent_current (h : Handling hash decode_to_slice m config addr register o)
    {p : ChallengePacket} (hp : o.sent = some p) :
    p.challenge = (m.challenger.for_addr hash addr).current := by
  cases h with
  | refused => cases hp
  | noObject => cases hp
  | added o h hcorrect hinfo hchallenger hconsistent hother hresult hsent hsilent =>
      exact hsilent p hp
  | challenged o h hcorrect hmaster hresult hsent hsilent => exact hsilent p hp

/-- An answered request without the current token causes a challenge. -/
theorem Handling.sends (h : Handling hash decode_to_slice m config addr register o)
    (hexempt : config.is_exempt_from_port_forward_check addr = false)
    {response : RegisterResponse} (hresponse : o.result = .ok response)
    (htoken : register.challenge_token ≠ some (m.challenger.for_addr hash addr).current) :
    ∃ p, o.sent = some p ∧ p.target = (addr.ip, addr.port) ∧
      p.challenge = (m.challenger.for_addr hash addr).current := by
  have hsend : Master.shouldSendChallenge (config.is_exempt_from_port_forward_check addr)
      (m.challenger.for_addr hash addr) register.challenge_token = true := by
    unfold Master.shouldSendChallenge
    rw [hexempt]
    cases hct : register.challenge_token with
    | none => rfl
    | some ct =>
        have hne : ct ≠ (m.challenger.for_addr hash addr).current := by
          intro heq
          rw [hct, heq] at htoken
          exact htoken rfl
        simpa using hne
  cases h with
  | refused => cases hresponse
  | noObject => cases hresponse
  | added o h hcorrect hinfo hchallenger hconsistent hother hresult hsent => exact hsent hsend
  | challenged o h hcorrect hmaster hresult hsent => exact hsent hsend

theorem Handling.accepted (h : Handling hash decode_to_slice m config addr register o)
    {token : ShortString} (htoken : register.challenge_token = some token)
    (hvalid : (m.challenger.for_addr hash addr).is_valid token = true) :
    o.result ≠ .ok .NeedChallenge := by
  have hcorrect : Master.correctChallenge (config.is_exempt_from_port_forward_check addr)
      (m.challenger.for_addr hash addr) register.challenge_token = true := by
    unfold Master.correctChallenge
    rw [htoken]
    simp [hvalid]
  cases h with
  | refused => exact nofun
  | noObject => exact nofun
  | added o h hcorrect hinfo hchallenger hconsistent hother hresult =>
      rcases hresult with hresult | hresult
      · rw [hresult]
        exact nofun
      · rw [hresult]
        exact nofun
  | challenged o h hwrong =>
      rw [hcorrect] at hwrong
      cases hwrong

end

/-- A delete inserts nothing. -/
theorem handle_delete_spec (m : Master) (hm : m.servers.Consistent) (remote_addr : IpAddr)
    (delete : Delete) :
    ∃ o, m.handle_delete remote_addr delete = .ok o ∧ o.master.challenger = m.challenger ∧
      o.master.servers.Consistent ∧
      ∀ a, o.master.servers.addresses.lookup a = m.servers.addresses.lookup a ∨
        o.master.servers.addresses.lookup a = none := by
  obtain ⟨s, r, hrun, hs⟩ := hm.remove (delete.address.with_ip remote_addr) delete.secret
  have hlookup := Servers.remove_lookup hrun
  unfold Master.handle_delete
  simp only [hrun, bind, Except.bind]
  cases r with
  | Removed => exact ⟨_, rfl, rfl, hs, hlookup⟩
  | NotFound => exact ⟨_, rfl, rfl, hs, hlookup⟩

/-! ## Runs -/

/-- A token, the address it was sent for and the reseeds before it. -/
structure Token where
  addr : Addr
  challenge : ShortString
  reseeds : Nat

structure World where
  master : Master
  sent : List Token
  reseeds : Nat

inductive Event
  | register (config : Config) (now : Timestamp) (remote_addr : IpAddr) (register : Register)
  | delete (remote_addr : IpAddr) (delete : Delete)
  | reseed (seed : Seed)

namespace World

/-- The token that a request for `addr` sent. -/
def tokens (w : World) (addr : Addr) : Option ChallengePacket → List Token
  | none => []
  | some p => [{ addr := addr, challenge := p.challenge, reseeds := w.reseeds }]

def step (hash : List Char → Seed → ShortString)
    (decode_to_slice : ShortString → Except String (Vector UInt8 4)) (w : World) :
    Event → Exec World
  | .register config now remote_addr register => do
      let o ← w.master.handle_register hash decode_to_slice config now remote_addr register
      return { w with
        master := o.master
        sent := w.sent ++ w.tokens (register.address.with_ip remote_addr) o.sent }
  | .delete remote_addr delete => do
      let o ← w.master.handle_delete remote_addr delete
      return { w with master := o.master }
  | .reseed seed =>
      return { w with
        master := { w.master with challenger := w.master.challenger.reseed seed }
        reseeds := w.reseeds + 1 }

/-- The seed a token was computed with. -/
structure Seeded (hash : List Char → Seed → ShortString) (w : World) (t : Token) : Prop where
  reseeds : t.reseeds ≤ w.reseeds
  current : t.reseeds = w.reseeds → t.challenge = hash t.addr.fmt w.master.challenger.seed
  prev : t.reseeds + 1 = w.reseeds → t.challenge = hash t.addr.fmt w.master.challenger.prev_seed

structure Inv (hash : List Char → Seed → ShortString) (w : World) : Prop where
  consistent : w.master.servers.Consistent
  seeded : ∀ t ∈ w.sent, Seeded hash w t

variable {w w' : World}

theorem Seeded.reseed {t : Token} (h : Seeded hash w t) (seed : Seed) :
    Seeded hash { w with
      master := { w.master with challenger := w.master.challenger.reseed seed }
      reseeds := w.reseeds + 1 } t where
  reseeds := Nat.le_succ_of_le h.reseeds
  current heq := by
    have hle := h.reseeds
    simp only at heq
    omega
  prev heq := h.current (Nat.succ.inj heq)

variable (decode_to_slice) in
/-- One event keeps the invariant, and only a request of the address lists it. -/
theorem Inv.step (h : Inv hash w) (event : Event) :
    ∃ w', w.step hash decode_to_slice event = .ok w' ∧ Inv hash w' ∧
      ∀ addr e, w'.master.servers.addresses.lookup addr = some e →
        w.master.servers.addresses.lookup addr ≠ some e →
        ∃ config now remote_addr register o,
          event = .register config now remote_addr register ∧
          register.address.with_ip remote_addr = addr ∧
          w.master.handle_register hash decode_to_slice config now remote_addr register = .ok o ∧
          Listed w.master addr o := by
  cases event with
  | register config now remote_addr register =>
      obtain ⟨o, hrun, ho⟩ := handle_register_spec hash decode_to_slice w.master h.consistent config now remote_addr register
      refine ⟨{ w with
        master := o.master
        sent := w.sent ++ w.tokens (register.address.with_ip remote_addr) o.sent }, ?_, ?_, ?_⟩
      · unfold World.step
        simp only [hrun, bind, Except.bind]
        rfl
      · refine ⟨ho.consistent h.consistent, fun t ht => ?_⟩
        rcases List.mem_append.mp ht with ht | ht
        · obtain ⟨hreseeds, hcurrent, hprev⟩ := h.seeded t ht
          refine ⟨hreseeds, fun heq => ?_, fun heq => ?_⟩
          · rw [hcurrent heq, ho.challenger]
          · rw [hprev heq, ho.challenger]
        · cases hsent : o.sent with
          | none =>
              rw [hsent] at ht
              cases ht
          | some p =>
              rw [hsent] at ht
              rw [List.mem_singleton.mp ht]
              refine ⟨Nat.le_refl _, fun _ => ?_, fun heq => absurd heq (Nat.succ_ne_self _)⟩
              rw [ho.challenger]
              exact ho.sent_current hsent
      · intro addr e hnew hold
        have haddr : register.address.with_ip remote_addr = addr := by
          by_contra hne
          rw [← ho.other fun heq => hne heq.symm] at hold
          exact hold hnew
        refine ⟨config, now, remote_addr, register, o, rfl, haddr, hrun, .inl fun heq => ?_⟩
        rw [← heq] at hold
        exact hold hnew
  | delete remote_addr delete =>
      obtain ⟨o, hrun, hchallenger, ho, hlookup⟩ := handle_delete_spec w.master h.consistent
        remote_addr delete
      refine ⟨{ w with master := o.master }, ?_, ⟨ho, fun t ht => ?_⟩, fun addr e hnew hold => ?_⟩
      · unfold World.step
        simp only [hrun, bind, Except.bind]
        rfl
      · obtain ⟨hreseeds, hcurrent, hprev⟩ := h.seeded t ht
        refine ⟨hreseeds, fun heq => ?_, fun heq => ?_⟩
        · rw [hcurrent heq, hchallenger]
        · rw [hprev heq, hchallenger]
      · rcases hlookup addr with heq | heq
        · exact absurd (heq.symm.trans hnew) hold
        · exact absurd (heq.symm.trans hnew) nofun
  | reseed seed =>
      exact ⟨_, rfl, ⟨h.consistent, fun t ht => (h.seeded t ht).reseed seed⟩,
        fun addr e hnew hold => absurd hnew hold⟩

/-- A token is valid until the second reseed after it was sent. -/
theorem Seeded.is_valid {t : Token} (h : Seeded hash w t) (hreseeds : w.reseeds < t.reseeds + 2) :
    (w.master.challenger.for_addr hash t.addr).is_valid t.challenge = true := by
  unfold Challenge.is_valid Challenger.for_addr
  have hle := h.reseeds
  rcases Nat.eq_or_lt_of_le hle with heq | hlt
  · simp [h.current heq]
  · simp [h.prev (by omega)]

def seedText (seed : Seed) : List Char := seed.toList.map fun b => Char.ofNat b.toNat

/-- A hash that is injective: the seed before the text. -/
def joined (text : List Char) (seed : Seed) : ShortString := String.ofList (seedText seed ++ text)

end World

end Fex.Mastersrv
