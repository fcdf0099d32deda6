import Fex.Base.Characters
import Fex.Engine.Auth

/-!
# Keys, default slots and clients

The default slots and the clients refer to keys by index.  `SoundKeys` and
`Tracks` say that the indices are those of the keys they were set to.
-/

namespace Fex.Engine.Auth

open Fex.Lib Fex.Base Fex.Engine.Server

/-! ## Slots -/

theorem key_eq_some {a : CAuthManager} {Slot : Int} {k : CKey} :
    a.key Slot = some k ↔ ∃ i : Nat, Slot = i ∧ a.m_vKeys[i]? = some k := by
  unfold CAuthManager.key
  constructor
  · intro h
    split at h
    · cases h
    next hrange => exact ⟨Slot.toNat, by omega, h⟩
  · rintro ⟨i, rfl, hi⟩
    have hlt := (List.getElem?_eq_some_iff.mp hi).1
    rw [if_neg (by omega)]
    exact hi

theorem findKey_cases (a : CAuthManager) (pIdent : CString) :
    (a.FindKey pIdent = -1 ∧ ∀ k ∈ a.m_vKeys, k.m_aIdent ≠ pIdent) ∨
      ∃ (i : Nat) (k : CKey), a.FindKey pIdent = i ∧ a.m_vKeys[i]? = some k := by
  unfold CAuthManager.FindKey
  cases hfind : a.m_vKeys.findIdx? fun k => k.m_aIdent = pIdent with
  | none =>
      refine .inl ⟨rfl, fun k hk => ?_⟩
      have hnone := List.findIdx?_eq_none_iff.mp hfind k hk
      simpa using hnone
  | some i =>
      obtain ⟨hi, -⟩ := List.findIdx?_eq_some_iff_getElem.mp hfind
      exact .inr ⟨i, _, rfl, List.getElem?_eq_getElem hi⟩

/-! ## Keys -/

/-- Idents and identities are unique, a default entry is `-1` or the index of the key it was set
to. -/
structure SoundKeys (a : CAuthManager) : Prop where
  idents : (a.m_vKeys.map fun k => k.m_aIdent).Nodup
  ids : (a.m_vKeys.map fun k => k.id).Nodup
  fresh : ∀ k ∈ a.m_vKeys, k.id < a.next ∧ k.revision < a.next
  level : ∀ k ∈ a.m_vKeys, k.m_Level ≠ .NO
  noDefault : a.m_aDefault .NO = -1
  default : ∀ level, a.m_aDefault level = -1 ∨
    ∃ (i : Nat) (k : CKey), a.m_aDefault level = i ∧ a.m_vKeys[i]? = some k ∧ k.id = a.setTo level

section

variable {a : CAuthManager}

/-- A key is appended, or there is one of this ident already. -/
theorem SoundKeys.addKeyHash (h : SoundKeys a) {pIdent : CString}
    (hident : str_copy pIdent IDENT_SIZE = pIdent) (Hash pSalt : List UInt8) {level : Authed}
    (hlevel : level ≠ .NO) :
    a.AddKeyHash pIdent Hash pSalt level = (a, -1) ∨
      ∃ k a', a.AddKeyHash pIdent Hash pSalt level = (a', (a.m_vKeys.length : Int)) ∧
        a'.m_vKeys = a.m_vKeys ++ [k] ∧ k.id = a.next ∧ a'.m_aDefault = a.m_aDefault ∧
        a'.setTo = a.setTo ∧ SoundKeys a' := by
  unfold CAuthManager.AddKeyHash
  rcases findKey_cases a pIdent with ⟨hfind, hnone⟩ | ⟨i, k, hfind, -⟩
  · have hadd : ¬ a.FindKey pIdent ≥ 0 := by omega
    simp only [if_neg hadd]
    refine .inr ⟨_, _, rfl, rfl, rfl, rfl, rfl, ⟨?_, ?_, fun k hk => ?_, fun k hk => ?_,
      h.noDefault, fun l => ?_⟩⟩
    · rw [List.map_append, List.map_singleton, hident]
      refine List.nodup_append.mpr ⟨h.idents, List.nodup_singleton _, fun x hx y hy => ?_⟩
      obtain ⟨k, hk, rfl⟩ := List.mem_map.mp hx
      rw [List.mem_singleton.mp hy]
      exact hnone k hk
    · rw [List.map_append, List.map_singleton]
      refine List.nodup_append.mpr ⟨h.ids, List.nodup_singleton _, fun x hx y hy => ?_⟩
      obtain ⟨k, hk, rfl⟩ := List.mem_map.mp hx
      rw [List.mem_singleton.mp hy]
      exact Nat.ne_of_lt (h.fresh k hk).1
    · rcases List.mem_append.mp hk with hk | hk
      · have hfresh := h.fresh k hk
        exact ⟨Nat.lt_succ_of_lt hfresh.1, Nat.lt_succ_of_lt hfresh.2⟩
      · rw [List.mem_singleton.mp hk]
        exact ⟨Nat.lt_succ_self _, Nat.lt_succ_self _⟩
    · rcases List.mem_append.mp hk with hk | hk
      · exact h.level k hk
      · rw [List.mem_singleton.mp hk]
        exact hlevel
    · rcases h.default l with hl | ⟨i, k, hl, hi, hk⟩
      · exact .inl hl
      · refine .inr ⟨i, k, hl, ?_, hk⟩
        rw [List.getElem?_append_left (List.getElem?_eq_some_iff.mp hi).1]
        exact hi
  · rw [if_pos (by omega)]
    exact .inl rfl

theorem SoundKeys.removeKey (h : SoundKeys a) (i : Nat) : SoundKeys (a.RemoveKey i) := by
  have hsub := List.eraseIdx_sublist a.m_vKeys i
  unfold CAuthManager.RemoveKey
  rw [Int.toNat_natCast]
  refine ⟨h.idents.sublist (hsub.map _), h.ids.sublist (hsub.map _),
    fun k hk => h.fresh k (hsub.subset hk), fun k hk => h.level k (hsub.subset hk), ?_,
    fun level => ?_⟩
  · simp only [h.noDefault]
    rw [if_neg (by omega), if_neg (by omega)]
  · simp only
    rcases h.default level with hl | ⟨j, k, hl, hj, hk⟩
    · rw [hl, if_neg (by omega), if_neg (by omega)]
      exact .inl rfl
    · rw [hl]
      rcases Nat.lt_trichotomy j i with hlt | heq | hgt
      · rw [if_neg (by omega), if_neg (by omega)]
        exact .inr ⟨j, k, rfl, by rw [List.getElem?_eraseIdx_of_lt hlt, hj], hk⟩
      · rw [if_pos (by omega)]
        exact .inl rfl
      · rw [if_neg (by omega), if_pos (by omega)]
        refine .inr ⟨j - 1, k, by omega, ?_, hk⟩
        rw [List.getElem?_eraseIdx_of_ge (by omega), Nat.sub_add_cancel (by omega), hj]

theorem map_modify_of_eq {α β : Type} {f : α → α} {g : α → β} (h : ∀ x, g (f x) = g x)
    (l : List α) (i : Nat) : (l.modify i f).map g = l.map g := by
  apply List.ext_getElem?
  intro j
  rw [List.getElem?_map, List.getElem?_map, List.getElem?_modify]
  cases l[j]? with
  | none => rfl
  | some x =>
      simp only [Option.map_eq_map, Option.map_some]
      split
      · rw [h]
      · rfl

theorem SoundKeys.updateKeyHash (h : SoundKeys a) {i : Nat} {k : CKey}
    (hi : a.m_vKeys[i]? = some k) (Hash pSalt : List UInt8) {level : Authed}
    (hlevel : level ≠ .NO) :
    SoundKeys (a.UpdateKeyHash i Hash pSalt level) ∧
      ∀ j, (a.UpdateKeyHash i Hash pSalt level).m_vKeys[j]? = if j = i then some { k with
          m_Pw := Hash, m_aSalt := pSalt, m_Level := level, revision := a.next }
        else a.m_vKeys[j]? := by
  have hlt := (List.getElem?_eq_some_iff.mp hi).1
  obtain ⟨change, hchange⟩ : ∃ change : CKey → CKey, change = fun k =>
      { k with m_Pw := Hash, m_aSalt := pSalt, m_Level := level, revision := a.next } := ⟨_, rfl⟩
  have hupdate : a.UpdateKeyHash i Hash pSalt level =
      { a with m_vKeys := a.m_vKeys.modify i change, next := a.next + 1 } := by
    unfold CAuthManager.UpdateKeyHash
    rw [if_neg (by omega), Int.toNat_natCast, hchange]
  have hget : ∀ j, (a.m_vKeys.modify i change)[j]? =
      if j = i then some (change k) else a.m_vKeys[j]? := by
    intro j
    rw [List.getElem?_modify]
    by_cases hj : j = i
    · rw [if_pos hj, hj, hi]
      simp
    · rw [if_neg hj]
      cases a.m_vKeys[j]? with
      | none => rfl
      | some x => simp [Ne.symm hj]
  have hmem : ∀ k' ∈ a.m_vKeys.modify i change, k' = change k ∨ k' ∈ a.m_vKeys := by
    intro k' hk'
    obtain ⟨j, hj⟩ := List.mem_iff_getElem?.mp hk'
    rw [hget] at hj
    split at hj
    · exact .inl (Option.some.inj hj).symm
    · exact .inr (List.mem_of_getElem? hj)
  rw [hupdate]
  refine ⟨⟨?_, ?_, fun k' hk' => ?_, fun k' hk' => ?_, h.noDefault, fun l => ?_⟩, ?_⟩
  · rw [map_modify_of_eq (by rw [hchange]; exact fun _ => rfl)]
    exact h.idents
  · rw [map_modify_of_eq (by rw [hchange]; exact fun _ => rfl)]
    exact h.ids
  · have hold := h.fresh k (List.mem_of_getElem? hi)
    rcases hmem k' hk' with rfl | hk'
    · rw [hchange]
      exact ⟨Nat.lt_succ_of_lt hold.1, Nat.lt_succ_self _⟩
    · have hfresh := h.fresh k' hk'
      exact ⟨Nat.lt_succ_of_lt hfresh.1, Nat.lt_succ_of_lt hfresh.2⟩
  · rcases hmem k' hk' with rfl | hk'
    · rw [hchange]
      exact hlevel
    · exact h.level k' hk'
  · rcases h.default l with hl | ⟨j, k', hl, hj, hk'⟩
    · exact .inl hl
    · refine .inr ?_
      by_cases heq : j = i
      · rw [heq, hi] at hj
        refine ⟨i, change k, by rw [← heq]; exact hl, ?_, ?_⟩
        · simp only [hget, if_true]
        · rw [← hk', ← Option.some.inj hj, hchange]
      · refine ⟨j, k', hl, ?_, hk'⟩
        simp only [hget, if_neg heq]
        exact hj
  · intro j
    refine (hget j).trans ?_
    rw [hchange]

theorem SoundKeys.addDefaultKey (h : SoundKeys a)
    (HashPassword : CString → List UInt8 → List UInt8) (level : Authed) (pPw : CString)
    (aSalt : List UInt8) :
    SoundKeys (a.AddDefaultKey HashPassword level pPw aSalt) ∧
      ∀ (j : Nat) (k : CKey), a.m_vKeys[j]? = some k →
        (a.AddDefaultKey HashPassword level pPw aSalt).m_vKeys[j]? = some k := by
  unfold CAuthManager.AddDefaultKey
  by_cases hno : level = .NO
  · rw [if_pos hno]
    exact ⟨h, fun _ _ hj => hj⟩
  rw [if_neg hno]
  by_cases hset : a.m_aDefault level ≥ 0
  · rw [if_pos hset]
    exact ⟨h, fun _ _ hj => hj⟩
  rw [if_neg hset]
  have hident : str_copy (CAuthManager.defaultIdent level) IDENT_SIZE =
      CAuthManager.defaultIdent level := by
    cases level <;> decide
  unfold CAuthManager.AddKey
  rcases h.addKeyHash hident (HashPassword pPw aSalt) aSalt hno with
    hsame | ⟨k, a', hadd, hkeys, hid, -, -, hsound⟩
  · rw [hsame]
    refine ⟨⟨h.idents, h.ids, h.fresh, h.level, ?_, fun l => ?_⟩, fun _ _ hj => hj⟩
    · simp only [Function.update_apply, h.noDefault, ite_self]
    · simp only [Function.update_apply]
      by_cases hl : l = level
      · rw [if_pos hl]
        exact .inl rfl
      · rw [if_neg hl, if_neg hl]
        exact h.default l
  · rw [hadd]
    refine ⟨⟨hsound.idents, hsound.ids, hsound.fresh, hsound.level, ?_, fun l => ?_⟩,
      fun j k' hj => ?_⟩
    · simp only [Function.update_apply]
      rw [if_neg (Ne.symm hno)]
      exact hsound.noDefault
    · simp only [Function.update_apply]
      by_cases hl : l = level
      · rw [if_pos hl, if_pos hl]
        refine .inr ⟨_, k, rfl, ?_, hid⟩
        rw [hkeys]
        exact List.getElem?_concat_length
      · rw [if_neg hl, if_neg hl]
        exact hsound.default l
    · simp only [hkeys]
      rw [List.getElem?_append_left (List.getElem?_eq_some_iff.mp hj).1]
      exact hj

end

/-! ## Clients -/

/-- A client is logged out, or its index is the one of the very key it logged in with. -/
def Tracks (a : CAuthManager) (c : CClient) : Prop :=
  (c.m_Authed = .NO ∧ c.m_AuthKey = -1 ∧ c.login = none) ∨
    ∃ (i : Nat) (k : CKey), c.m_AuthKey = i ∧ a.m_vKeys[i]? = some k ∧ c.login = some k ∧
      c.m_Authed = k.m_Level

/-- The ident of the key the client had logged in with was printed. -/
def Logout.Right (r : Logout) : Prop := ∀ k, r.login = some k → r.pIdent = some k.m_aIdent

theorem tracks_loggedOut (a : CAuthManager) : Tracks a .loggedOut := .inl ⟨rfl, rfl, rfl⟩

theorem Tracks.mono {a a' : CAuthManager} {c : CClient} (h : Tracks a c)
    (hkeys : ∀ (j : Nat) (k : CKey), a.m_vKeys[j]? = some k → a'.m_vKeys[j]? = some k) :
    Tracks a' c := by
  rcases h with h | ⟨i, k, hkey, hi, hrest⟩
  · exact .inl h
  · exact .inr ⟨i, k, hkey, hkeys i k hi, hrest⟩

section

variable (s : CServer)

theorem logoutClient_eq {c : CClient} {i : Nat} (hi : s.m_aClients[i]? = some c) :
    s.LogoutClient i = { s with
      m_aClients := s.m_aClients.set i .loggedOut
      printed := s.printed ++ [{
        ClientId := i
        pIdent := s.m_AuthManager.KeyIdent c.m_AuthKey
        login := c.login }] } := by
  unfold CServer.LogoutClient
  rw [hi]

/-- A client after all of a key are logged out. -/
def outOf (Key : Int) (c : CClient) : CClient := if c.m_AuthKey = Key then .loggedOut else c

/-- What `LogoutKey` prints for a client. -/
def PrintedFor (Key : Int) (r : Logout) : Prop :=
  ∃ c ∈ s.m_aClients, c.m_AuthKey = Key ∧ r.pIdent = s.m_AuthManager.KeyIdent Key ∧
    r.login = c.login

theorem logoutLoop_spec (Key : Int) (n : Nat) :
    let t := (List.range n).foldl (CServer.logoutWith Key) s
    t.m_AuthManager = s.m_AuthManager ∧
      (∀ j, t.m_aClients[j]? =
        if j < n then s.m_aClients[j]?.map (outOf Key) else s.m_aClients[j]?) ∧
      ∀ r ∈ t.printed, r ∈ s.printed ∨ PrintedFor s Key r := by
  induction n with
  | zero => exact ⟨rfl, fun j => rfl, fun r hr => .inl hr⟩
  | succ n ih =>
      obtain ⟨hmanager, hclients, hprinted⟩ := ih
      rw [List.range_succ, List.foldl_append, List.foldl_cons, List.foldl_nil]
      obtain ⟨t, ht⟩ : ∃ t, t = (List.range n).foldl (CServer.logoutWith Key) s := ⟨_, rfl⟩
      rw [← ht] at hmanager hclients hprinted ⊢
      have hn := hclients n
      rw [if_neg (Nat.lt_irrefl n)] at hn
      have hsplit : ∀ j, (if j < n + 1 then s.m_aClients[j]?.map (outOf Key) else
          s.m_aClients[j]?) = if j = n then s.m_aClients[n]?.map (outOf Key) else
            t.m_aClients[j]? := by
        intro j
        rw [hclients]
        by_cases hj : j = n
        · rw [if_pos hj, hj, if_pos (Nat.lt_succ_self n)]
        · rw [if_neg hj]
          by_cases hlt : j < n
          · rw [if_pos hlt, if_pos (by omega)]
          · rw [if_neg hlt, if_neg (by omega)]
      simp only [hsplit]
      unfold CServer.logoutWith
      cases hc : t.m_aClients[n]? with
      | none =>
          rw [hc] at hn
          refine ⟨hmanager, fun j => ?_, hprinted⟩
          by_cases hj : j = n
          · rw [if_pos hj, hj, ← hn, Option.map_none]
            exact hc
          · rw [if_neg hj]
      | some c =>
          rw [hc] at hn
          simp only
          by_cases hkey : c.m_AuthKey = Key
          · rw [if_pos hkey, logoutClient_eq t hc]
            refine ⟨hmanager, fun j => ?_, fun r hr => ?_⟩
            · by_cases hj : j = n
              · rw [if_pos hj, hj, ← hn]
                rw [List.getElem?_set_self (List.getElem?_eq_some_iff.mp hc).1]
                simp [outOf, hkey]
              · rw [if_neg hj, List.getElem?_set_ne (Ne.symm hj)]
            · rcases List.mem_append.mp hr with hr | hr
              · exact hprinted r hr
              · refine .inr ⟨c, List.mem_of_getElem? hn.symm, hkey, ?_, ?_⟩
                · rw [List.mem_singleton.mp hr, hkey, hmanager]
                · rw [List.mem_singleton.mp hr]
          · rw [if_neg hkey]
            refine ⟨hmanager, fun j => ?_, hprinted⟩
            by_cases hj : j = n
            · rw [if_pos hj, hj, ← hn, Option.map_some, outOf, if_neg hkey]
              exact hc
            · rw [if_neg hj]

theorem logoutKey_spec (Key : Int) :
    (s.LogoutKey Key).m_AuthManager = s.m_AuthManager ∧
      (s.LogoutKey Key).m_aClients = s.m_aClients.map (outOf Key) ∧
      ∀ r ∈ (s.LogoutKey Key).printed, r ∈ s.printed ∨ PrintedFor s Key r := by
  obtain ⟨hmanager, hclients, hprinted⟩ := logoutLoop_spec s Key s.m_aClients.length
  refine ⟨hmanager, List.ext_getElem? fun j => ?_, hprinted⟩
  rw [List.getElem?_map]
  refine (hclients j).trans ?_
  split
  · rfl
  next hj => rw [List.getElem?_eq_none (by omega), Option.map_none]

end

end Fex.Engine.Auth
