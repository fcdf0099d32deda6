import Fex.Engine.Auth.Keys

/-!
# Runs of the rcon keys

In runs that remove no key in use, and whose logins without a name meet default
keys of their level, every index is the one of the key it was set to.
-/

namespace Fex.Engine.Auth

open Fex.Lib Fex.Base Fex.Engine.Server

variable {HashPassword : CString → List UInt8 → List UInt8} {s : CServer}

/-! ## Slots that hold a key -/

theorem keyIdent_of {a : CAuthManager} {i : Nat} {k : CKey} (hi : a.m_vKeys[i]? = some k) :
    a.KeyIdent i = some k.m_aIdent := by
  unfold CAuthManager.KeyIdent
  rw [key_eq_some.mpr ⟨i, rfl, hi⟩, Option.map_some]

theorem keyLevel_of {a : CAuthManager} {i : Nat} {k : CKey} (hi : a.m_vKeys[i]? = some k) :
    a.KeyLevel i = k.m_Level := by
  unfold CAuthManager.KeyLevel
  rw [key_eq_some.mpr ⟨i, rfl, hi⟩]

theorem checkKey_some {a : CAuthManager} {Slot : Int} {pPw : CString}
    (h : a.CheckKey HashPassword Slot pPw = true) :
    ∃ (i : Nat) (k : CKey), Slot = i ∧ a.m_vKeys[i]? = some k := by
  unfold CAuthManager.CheckKey at h
  cases hkey : a.key Slot with
  | none =>
      rw [hkey] at h
      cases h
  | some k =>
      obtain ⟨i, hi, hget⟩ := key_eq_some.mp hkey
      exact ⟨i, k, hi, hget⟩

theorem getAuthLevel_ne {pLevel : CString} {level : Authed}
    (h : CServer.GetAuthLevel pLevel = some level) : level ≠ .NO := by
  rintro rfl
  unfold CServer.GetAuthLevel at h
  split at h
  · exact absurd (Option.some.inj h) (by decide)
  split at h
  · exact absurd (Option.some.inj h) (by decide)
  split at h
  · exact absurd (Option.some.inj h) (by decide)
  · cases h

/-! ## The invariant -/

/-- Every index is the one of the key it was set to, and every printed ident was the one of the
key the client had logged in with. -/
structure Bookkept (s : CServer) : Prop where
  keys : SoundKeys s.m_AuthManager
  clients : ∀ c ∈ s.m_aClients, Tracks s.m_AuthManager c
  printed : ∀ r ∈ s.printed, r.Right

/-- No client is logged in with the key of a slot. -/
def NotInUse (s : CServer) (Slot : Int) : Prop := ∀ c ∈ s.m_aClients, c.m_AuthKey ≠ Slot

instance (s : CServer) (Slot : Int) : Decidable (NotInUse s Slot) :=
  inferInstanceAs (Decidable (∀ c ∈ s.m_aClients, c.m_AuthKey ≠ Slot))

/-- Idents are valid UTF-8.  Keys are not in use when they are removed, and the default key that
accepts a password has the level of its slot, or the client has this level already. -/
def Careful (HashPassword : CString → List UInt8 → List UInt8) (s : CServer) : Call → Prop
  | .AuthAdd pIdent _ _ _ => Text pIdent
  | .AuthAddHashed pIdent _ _ _ => Text pIdent
  | .AuthRemove pIdent =>
      s.m_AuthManager.FindKey pIdent ≠ -1 → NotInUse s (s.m_AuthManager.FindKey pIdent)
  | .RconPasswordChange Level pCurrent pNew _ =>
      pCurrent ≠ pNew → pNew = [] → s.m_AuthManager.DefaultKey Level ≥ 0 →
        NotInUse s (s.m_AuthManager.DefaultKey Level)
  | .RconAuth ClientId pName pPw => pName = [] → ∀ Level : Authed,
      s.m_AuthManager.CheckKey HashPassword (s.m_AuthManager.DefaultKey Level) pPw = true →
      (∀ Level' : Authed, Level.toNat < Level'.toNat →
        s.m_AuthManager.CheckKey HashPassword (s.m_AuthManager.DefaultKey Level') pPw = false) →
      s.m_AuthManager.KeyLevel (s.m_AuthManager.DefaultKey Level) = Level ∨
        ∀ c, s.m_aClients[ClientId]? = some c → c.m_Authed = Level
  | _ => True

/-! ## One call -/

theorem Bookkept.logoutClient (h : Bookkept s) (ClientId : Nat) :
    Bookkept (s.LogoutClient ClientId) := by
  cases hc : s.m_aClients[ClientId]? with
  | none =>
      unfold CServer.LogoutClient
      rw [hc]
      exact h
  | some c =>
      rw [logoutClient_eq s hc]
      refine ⟨h.keys, fun c' hc' => ?_, fun r hr => ?_⟩
      · rcases List.mem_or_eq_of_mem_set hc' with hc' | rfl
        · exact h.clients c' hc'
        · exact tracks_loggedOut _
      · rcases List.mem_append.mp hr with hr | hr
        · exact h.printed r hr
        · rw [List.mem_singleton.mp hr]
          intro k hk
          rcases h.clients c (List.mem_of_getElem? hc) with ⟨-, -, hnone⟩ | ⟨i, k', hkey, hi, hlogin, -⟩
          · rw [hnone] at hk
            cases hk
          · simp only at hk ⊢
            rw [hlogin] at hk
            rw [hkey, keyIdent_of hi, Option.some.inj hk]

/-- Changing a key logs out whoever used it. -/
theorem Bookkept.updated (h : Bookkept s) {i : Nat} {k : CKey}
    (hi : s.m_AuthManager.m_vKeys[i]? = some k) (Hash aSalt : List UInt8) {level : Authed}
    (hlevel : level ≠ .NO) :
    Bookkept ({ s with m_AuthManager :=
      (s.m_AuthManager.UpdateKeyHash i Hash aSalt level) }.LogoutKey i) := by
  obtain ⟨hsound, hget⟩ := h.keys.updateKeyHash hi Hash aSalt hlevel
  obtain ⟨hmanager, hclients, hprinted⟩ := logoutKey_spec
    { s with m_AuthManager := (s.m_AuthManager.UpdateKeyHash i Hash aSalt level) } i
  have hat := hget i
  rw [if_pos rfl] at hat
  refine ⟨by rw [hmanager]; exact hsound, fun c hc => ?_, fun r hr => ?_⟩
  · rw [hclients] at hc
    obtain ⟨c, hmem, rfl⟩ := List.mem_map.mp hc
    rw [hmanager]
    unfold outOf
    split
    · exact tracks_loggedOut _
    next hkey =>
      rcases h.clients c hmem with hout | ⟨j, k', hj, hk', hrest⟩
      · exact .inl hout
      · have hne : j ≠ i := by
          rintro rfl
          exact hkey hj
        refine .inr ⟨j, k', hj, ?_, hrest⟩
        rw [hget, if_neg hne]
        exact hk'
  · rcases hprinted r hr with hr | ⟨c, hc, hkey, hident, hlogin⟩
    · exact h.printed r hr
    · intro k' hk'
      rcases h.clients c hc with ⟨-, hno, -⟩ | ⟨j, k'', hj, hget', hlogin', -⟩
      · rw [hno] at hkey
        omega
      · have heq : j = i := by omega
        rw [heq, hi] at hget'
        rw [hlogin, hlogin', ← hget'] at hk'
        rw [hident, keyIdent_of hat, ← Option.some.inj hk']

theorem tracks_shift {a : CAuthManager} {c : CClient} {i : Nat} (h : Tracks a c)
    (hne : c.m_AuthKey ≠ i) :
    Tracks (a.RemoveKey i) (if c.m_AuthKey = i then { c with m_AuthKey := -1 }
      else if c.m_AuthKey > i then { c with m_AuthKey := c.m_AuthKey - 1 } else c) := by
  rw [if_neg hne]
  rcases h with ⟨hno, hkey, hlogin⟩ | ⟨j, k, hj, hget, hrest⟩
  · rw [if_neg (by omega)]
    exact .inl ⟨hno, hkey, hlogin⟩
  · have hkeys : (a.RemoveKey i).m_vKeys = a.m_vKeys.eraseIdx i := rfl
    by_cases hgt : c.m_AuthKey > i
    · rw [if_pos hgt]
      refine .inr ⟨j - 1, k, ?_, ?_, hrest⟩
      · show c.m_AuthKey - 1 = _
        omega
      · rw [hkeys, List.getElem?_eraseIdx_of_ge (by omega), Nat.sub_add_cancel (by omega), hget]
    · rw [if_neg hgt]
      refine .inr ⟨j, k, hj, ?_, hrest⟩
      rw [hkeys, List.getElem?_eraseIdx_of_lt (by omega), hget]

/-- Removing a key that is not in use moves the indices behind it. -/
theorem Bookkept.removed (h : Bookkept s) {i : Nat} (hfree : NotInUse s i) :
    Bookkept (s.AuthRemoveKey i) := by
  obtain ⟨hmanager, hclients, hprinted⟩ := logoutKey_spec
    { s with m_AuthManager := s.m_AuthManager.RemoveKey i } i
  have hsame : s.m_aClients.map (outOf i) = s.m_aClients := by
    refine (List.map_congr_left fun c hc => ?_).trans (List.map_id _)
    unfold outOf
    rw [if_neg (hfree c hc)]
    rfl
  unfold CServer.AuthRemoveKey
  simp only
  rw [hclients, hmanager, hsame]
  refine ⟨h.keys.removeKey i, fun c hc => ?_, fun r hr => ?_⟩
  · obtain ⟨c, hmem, rfl⟩ := List.mem_map.mp hc
    exact tracks_shift (h.clients c hmem) (hfree c hmem)
  · rcases hprinted r hr with hr | ⟨c, hc, hkey, -⟩
    · exact h.printed r hr
    · exact absurd hkey (hfree c hc)

theorem Bookkept.keysGrow (h : Bookkept s) {a : CAuthManager} (hsound : SoundKeys a)
    (hkeys : ∀ (j : Nat) (k : CKey), s.m_AuthManager.m_vKeys[j]? = some k →
      a.m_vKeys[j]? = some k) : Bookkept { s with m_AuthManager := a } :=
  ⟨hsound, fun c hc => (h.clients c hc).mono hkeys, h.printed⟩

theorem Bookkept.addHashed (h : Bookkept s) {pIdent : CString} (hident : Text pIdent)
    (pLevel : CString) (Hash aSalt : List UInt8) :
    Bookkept (s.ConAuthAddHashed pIdent pLevel Hash aSalt) := by
  unfold CServer.ConAuthAddHashed
  split
  · exact h
  next hvalid =>
    cases hlevel : CServer.GetAuthLevel pLevel with
    | none => exact h
    | some level =>
        have hlength : pIdent.length < IDENT_SIZE := by
          unfold CAuthManager.IsValidIdent at hvalid
          simpa using hvalid
        rcases h.keys.addKeyHash (hident.str_copy_self (Nat.le_sub_one_of_lt hlength)) Hash aSalt
          (getAuthLevel_ne hlevel) with hsame | ⟨k, a', hadd, hkeys, -, -, -, hsound⟩
        · simp only [hsame]
          exact h
        · simp only [hadd]
          refine h.keysGrow hsound fun j k' hj => ?_
          rw [hkeys, List.getElem?_append_left (List.getElem?_eq_some_iff.mp hj).1]
          exact hj

theorem Bookkept.updateHashed (h : Bookkept s) (pIdent pLevel : CString)
    (Hash aSalt : List UInt8) : Bookkept (s.ConAuthUpdateHashed pIdent pLevel Hash aSalt) := by
  unfold CServer.ConAuthUpdateHashed
  rcases findKey_cases s.m_AuthManager pIdent with ⟨hfind, -⟩ | ⟨i, k, hfind, hi⟩
  · rw [if_pos hfind]
    exact h
  · rw [if_neg (by omega)]
    cases hlevel : CServer.GetAuthLevel pLevel with
    | none => exact h
    | some level =>
        simp only [hfind]
        exact h.updated hi Hash aSalt (getAuthLevel_ne hlevel)

theorem Bookkept.remove (h : Bookkept s) {pIdent : CString}
    (hcareful : Careful HashPassword s (.AuthRemove pIdent)) : Bookkept (s.ConAuthRemove pIdent) := by
  unfold CServer.ConAuthRemove
  rcases findKey_cases s.m_AuthManager pIdent with ⟨hfind, -⟩ | ⟨i, k, hfind, -⟩
  · rw [if_pos hfind]
    exact h
  · have hne : s.m_AuthManager.FindKey pIdent ≠ -1 := by omega
    have hfree := hcareful hne
    rw [hfind] at hfree
    rw [if_neg hne]
    simp only [hfind]
    exact h.removed hfree

theorem Bookkept.passwordChange (h : Bookkept s) {Level : Authed} {pCurrent pNew : CString}
    {aSalt : List UInt8}
    (hcareful : Careful HashPassword s (.RconPasswordChange Level pCurrent pNew aSalt)) :
    Bookkept (s.ConchainRconPasswordChangeGeneric HashPassword Level pCurrent pNew aSalt) := by
  unfold CServer.ConchainRconPasswordChangeGeneric
  by_cases hsame : pCurrent = pNew
  · rw [if_pos hsame]
    exact h
  rw [if_neg hsame]
  split
  · obtain ⟨hsound, hkeys⟩ := h.keys.addDefaultKey HashPassword Level pNew aSalt
    exact h.keysGrow hsound hkeys
  split
  next hset =>
    rcases h.keys.default Level with hno | ⟨i, k, hi, hget, -⟩
    · unfold CAuthManager.DefaultKey at hset
      omega
    · have hslot : s.m_AuthManager.DefaultKey Level = i := hi
      split
      next hempty =>
        have hfree := hcareful hsame hempty hset
        rw [hslot] at hfree ⊢
        exact h.removed hfree
      next =>
        have hlevel : Level ≠ .NO := by
          rintro rfl
          have hno := h.keys.noDefault
          omega
        rw [hslot]
        exact h.updated hget (HashPassword pNew aSalt) aSalt hlevel
  next => exact h

/-- What a name and a password are accepted for is a key, of the level of the login. -/
theorem accepted_spec {ClientId : Nat} {pName pPw : CString} {level : Authed} {Slot : Int}
    {c : CClient} (hcareful : Careful HashPassword s (.RconAuth ClientId pName pPw))
    (h : s.accepted HashPassword pName pPw = some (level, Slot))
    (hc : s.m_aClients[ClientId]? = some c) (hnew : c.m_Authed ≠ level) :
    ∃ (i : Nat) (k : CKey), Slot = i ∧ s.m_AuthManager.m_vKeys[i]? = some k ∧
      level = k.m_Level := by
  have hdefault : pName = [] → ∀ Level : Authed,
      s.m_AuthManager.CheckKey HashPassword (s.m_AuthManager.DefaultKey Level) pPw = true →
      (∀ Level' : Authed, Level.toNat < Level'.toNat →
        s.m_AuthManager.CheckKey HashPassword (s.m_AuthManager.DefaultKey Level') pPw = false) →
      (Level, s.m_AuthManager.DefaultKey Level) = (level, Slot) →
      ∃ (i : Nat) (k : CKey), Slot = i ∧ s.m_AuthManager.m_vKeys[i]? = some k ∧
        level = k.m_Level := by
    intro hname Level hcheck hhigher heq
    injection heq with hlevel hslot
    obtain ⟨i, k, hi, hget⟩ := checkKey_some hcheck
    refine ⟨i, k, by rw [← hslot, hi], hget, ?_⟩
    rcases hcareful hname Level hcheck hhigher with hlevel' | hsame
    · rw [hi, keyLevel_of hget] at hlevel'
      rw [← hlevel, hlevel']
    · exact absurd (hlevel ▸ hsame c hc) hnew
  unfold CServer.accepted at h
  by_cases hname : pName = []
  · rw [if_pos hname] at h
    by_cases hadmin : s.m_AuthManager.CheckKey HashPassword (s.m_AuthManager.DefaultKey .ADMIN) pPw =
        true
    · rw [if_pos hadmin] at h
      refine hdefault hname .ADMIN hadmin (fun l hl => ?_) (Option.some.inj h)
      cases l <;> exact absurd hl (by decide)
    rw [if_neg hadmin] at h
    by_cases hmod : s.m_AuthManager.CheckKey HashPassword (s.m_AuthManager.DefaultKey .MOD) pPw = true
    · rw [if_pos hmod] at h
      refine hdefault hname .MOD hmod (fun l hl => ?_) (Option.some.inj h)
      cases l with
      | ADMIN => exact eq_false_of_ne_true hadmin
      | MOD => exact absurd hl (by decide)
      | HELPER => exact absurd hl (by decide)
      | NO => exact absurd hl (by decide)
    rw [if_neg hmod] at h
    by_cases hhelper : s.m_AuthManager.CheckKey HashPassword
        (s.m_AuthManager.DefaultKey .HELPER) pPw = true
    · rw [if_pos hhelper] at h
      refine hdefault hname .HELPER hhelper (fun l hl => ?_) (Option.some.inj h)
      cases l with
      | ADMIN => exact eq_false_of_ne_true hadmin
      | MOD => exact eq_false_of_ne_true hmod
      | HELPER => exact absurd hl (by decide)
      | NO => exact absurd hl (by decide)
    · rw [if_neg hhelper] at h
      cases h
  · rw [if_neg hname] at h
    split at h
    next hcheck =>
      obtain ⟨i, k, hi, hget⟩ := checkKey_some hcheck
      injection Option.some.inj h with hlevel hslot
      refine ⟨i, k, by rw [← hslot, hi], hget, ?_⟩
      rw [← hlevel, hi, keyLevel_of hget]
    next => cases h

theorem Bookkept.rconAuth (h : Bookkept s) {ClientId : Nat} {pName pPw : CString}
    (hcareful : Careful HashPassword s (.RconAuth ClientId pName pPw)) :
    Bookkept (s.RconAuth HashPassword ClientId pName pPw) := by
  unfold CServer.RconAuth
  split
  next c level Slot hc haccepted =>
    split
    next hnew =>
      obtain ⟨i, k, hi, hget, hlevel⟩ := accepted_spec hcareful haccepted hc hnew
      refine ⟨h.keys, fun c' hc' => ?_, h.printed⟩
      rcases List.mem_or_eq_of_mem_set hc' with hc' | rfl
      · exact h.clients c' hc'
      · exact .inr ⟨i, k, hi, hget, key_eq_some.mpr ⟨i, hi, hget⟩, hlevel⟩
    next => exact h
  next => exact h

theorem Bookkept.step {t : CServer} (h : Bookkept s) {call : Call}
    (hcareful : Careful HashPassword s call) (hstep : step HashPassword s call = .ok t) :
    Bookkept t := by
  cases call with
  | Init pPw aSalt =>
      obtain ⟨hsound, hkeys⟩ := h.keys.addDefaultKey HashPassword .ADMIN pPw aSalt
      rw [← Except.ok.inj hstep]
      exact h.keysGrow hsound hkeys
  | AuthAdd pIdent pLevel pPw aSalt =>
      rw [← Except.ok.inj hstep]
      exact h.addHashed hcareful pLevel _ aSalt
  | AuthAddHashed pIdent pLevel Hash aSalt =>
      rw [← Except.ok.inj hstep]
      exact h.addHashed hcareful pLevel Hash aSalt
  | AuthUpdate pIdent pLevel pPw aSalt =>
      rw [← Except.ok.inj hstep]
      exact h.updateHashed pIdent pLevel _ aSalt
  | AuthUpdateHashed pIdent pLevel Hash aSalt =>
      rw [← Except.ok.inj hstep]
      exact h.updateHashed pIdent pLevel Hash aSalt
  | AuthRemove pIdent =>
      rw [← Except.ok.inj hstep]
      exact h.remove hcareful
  | RconPasswordChange Level pCurrent pNew aSalt =>
      rw [← Except.ok.inj hstep]
      exact h.passwordChange hcareful
  | RconAuth ClientId pName pPw =>
      rw [← Except.ok.inj hstep]
      exact h.rconAuth hcareful
  | Logout ClientId =>
      rw [← Except.ok.inj hstep]
      exact h.logoutClient ClientId
  | Reset ClientId =>
      rw [← Except.ok.inj hstep]
      refine ⟨h.keys, fun c hc => ?_, h.printed⟩
      rcases List.mem_or_eq_of_mem_set hc with hc | rfl
      · exact h.clients c hc
      · exact tracks_loggedOut _

/-! ## Runs -/

end Fex.Engine.Auth
