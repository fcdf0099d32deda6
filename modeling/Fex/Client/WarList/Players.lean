import Fex.Client.WarList
import Mathlib.Data.List.Nodup

/-!
# Integrity of the war list

Type names are distinct, the four types a new list has keep their positions, and every entry
has either a name or a clan and a type of the list.
-/

namespace Fex.Client.CWarList

open Fex.Lib Fex.Base Fex.Engine.Server

def typeName (s : CWarList) (p : Nat) : CString := (s.pWarTypes p).m_aWarName

/-- An entry that a list may have. -/
structure Sound (s : CWarList) (e : CWarEntry) : Prop where
  name_or_clan : e.m_aName = [] ↔ e.m_aClan ≠ []
  listed : e.m_pWarType ∈ s.m_WarTypes
  reason_copied : str_copy e.m_aReason MAX_WARLIST_REASON_LENGTH = e.m_aReason

structure Inv (s : CWarList) : Prop where
  names : (s.m_WarTypes.map s.typeName).Nodup
  builtin : s.m_WarTypes.take 4 = [0, 1, 2, 3]
  allocated : ∀ p ∈ s.m_WarTypes, p < s.allocated
  unremovable : ∀ p < 4, (s.pWarTypes p).m_Removable = false
  entries : ∀ e ∈ s.m_WarEntries, s.Sound e
  players : s.m_WarPlayers.length = MAX_CLIENTS

variable {s : CWarList}

theorem Inv.pointers (h : Inv s) : s.m_WarTypes.Nodup := h.names.of_map

theorem Inv.name_inj (h : Inv s) {p q : Nat} (hp : p ∈ s.m_WarTypes) (hq : q ∈ s.m_WarTypes)
    (heq : s.typeName p = s.typeName q) : p = q :=
  List.inj_on_of_nodup_map h.names hp hq heq

theorem Inv.builtin_mem (h : Inv s) {p : Nat} (hp : p < 4) : p ∈ s.m_WarTypes := by
  apply List.mem_of_mem_take (i := 4)
  rw [h.builtin]
  have hall : ∀ p : Fin 4, p.val ∈ [0, 1, 2, 3] := by decide
  exact hall ⟨p, hp⟩

theorem Inv.none_mem (h : Inv s) : m_pWarTypeNone ∈ s.m_WarTypes := h.builtin_mem (by decide)

theorem inv_new : Inv new where
  names := by decide
  builtin := rfl
  allocated := by decide
  unremovable := by decide
  entries := fun e he => absurd he List.not_mem_nil
  players := List.length_replicate

/-! ## Types -/

theorem findWarType_cases (s : CWarList) (pType : CString) :
    (s.FindWarType pType ∈ s.m_WarTypes ∧
      s.typeName (s.FindWarType pType) = str_copy pType MAX_WARLIST_TYPE_LENGTH) ∨
    (s.FindWarType pType = m_pWarTypeNone ∧
      ∀ p ∈ s.m_WarTypes, s.typeName p ≠ str_copy pType MAX_WARLIST_TYPE_LENGTH) := by
  unfold FindWarType
  cases hfind : s.m_WarTypes.find? fun warTypePtr =>
      (s.pWarTypes warTypePtr).m_aWarName = str_copy pType MAX_WARLIST_TYPE_LENGTH with
  | none =>
      refine .inr ⟨rfl, fun p hp => ?_⟩
      exact of_decide_eq_false (Bool.eq_false_iff.mpr (List.find?_eq_none.mp hfind p hp))
  | some p =>
      have hname := List.find?_some hfind
      exact .inl ⟨List.mem_of_find?_eq_some hfind, of_decide_eq_true hname⟩

theorem Inv.findWarType_mem (h : Inv s) (pType : CString) : s.FindWarType pType ∈ s.m_WarTypes := by
  rcases s.findWarType_cases pType with ⟨hmem, -⟩ | ⟨hnone, -⟩
  · exact hmem
  · rw [hnone]
    exact h.none_mem

/-- A type gets a name that no other one has. -/
theorem Inv.rename (h : Inv s) {p : Nat} (pName : CString) (Color : ColorRGBA)
    (hother : ∀ q ∈ s.m_WarTypes, q ≠ p → s.typeName q ≠ pName) :
    Inv { s with
      pWarTypes := Function.update s.pWarTypes p
        { s.pWarTypes p with m_aWarName := pName, m_Color := Color } } where
  names := by
    apply List.Nodup.map_on _ h.pointers
    intro q hq r hr heq
    simp only [typeName] at heq
    by_cases hqp : q = p <;> by_cases hrp : r = p
    · rw [hqp, hrp]
    · rw [hqp, Function.update_self, Function.update_of_ne hrp] at heq
      exact absurd heq.symm (hother r hr hrp)
    · rw [hrp, Function.update_self, Function.update_of_ne hqp] at heq
      exact absurd heq (hother q hq hqp)
    · rw [Function.update_of_ne hqp, Function.update_of_ne hrp] at heq
      exact h.name_inj hq hr heq
  builtin := h.builtin
  allocated := h.allocated
  unremovable := by
    intro q hq
    show (Function.update s.pWarTypes p _ q).m_Removable = false
    by_cases hqp : q = p
    · rw [hqp, Function.update_self]
      rw [hqp] at hq
      exact h.unremovable p hq
    · rw [Function.update_of_ne hqp]
      exact h.unremovable q hq
  entries := fun e he => ⟨(h.entries e he).1, (h.entries e he).2, (h.entries e he).3⟩
  players := h.players

/-- A type is added under a name that no type has. -/
theorem Inv.push (h : Inv s) {pType : CString} (Color : ColorRGBA)
    (hnew : ∀ p ∈ s.m_WarTypes, s.typeName p ≠ str_copy pType MAX_WARLIST_TYPE_LENGTH) :
    Inv { s with
      pWarTypes := Function.update s.pWarTypes s.allocated (.new pType Color true)
      allocated := s.allocated + 1
      m_WarTypes := s.m_WarTypes ++ [s.allocated] } where
  names := by
    have hold : ∀ p ∈ s.m_WarTypes,
        (Function.update s.pWarTypes s.allocated (.new pType Color true) p).m_aWarName =
          s.typeName p := by
      intro p hp
      rw [Function.update_of_ne (Nat.ne_of_lt (h.allocated p hp))]
      rfl
    have hlast : (Function.update s.pWarTypes s.allocated (.new pType Color true)
        s.allocated).m_aWarName = str_copy pType MAX_WARLIST_TYPE_LENGTH := by
      rw [Function.update_self]
      rfl
    show ((s.m_WarTypes ++ [s.allocated]).map fun p =>
      (Function.update s.pWarTypes s.allocated (.new pType Color true) p).m_aWarName).Nodup
    rw [List.map_append, List.map_congr_left hold, List.map_singleton, hlast]
    refine h.names.append (List.nodup_singleton _) ?_
    intro nm hmem hmem'
    obtain ⟨p, hp, rfl⟩ := List.mem_map.mp hmem
    exact hnew p hp (List.mem_singleton.mp hmem')
  builtin := by
    have hlength := congrArg List.length h.builtin
    rw [List.length_take, List.length_cons, List.length_cons, List.length_cons,
      List.length_singleton] at hlength
    rw [List.take_append_of_le_length (by omega)]
    exact h.builtin
  allocated := by
    intro p hp
    rcases List.mem_append.mp hp with hp | hp
    · exact Nat.lt_succ_of_lt (h.allocated p hp)
    · rw [List.mem_singleton.mp hp]
      exact Nat.lt_succ_self _
  unremovable := by
    intro p hp
    show (Function.update s.pWarTypes s.allocated _ p).m_Removable = false
    rw [Function.update_of_ne (Nat.ne_of_lt (h.allocated p (h.builtin_mem hp)))]
    exact h.unremovable p hp
  entries := fun e he =>
    ⟨(h.entries e he).1, List.mem_append_left _ (h.entries e he).2, (h.entries e he).3⟩
  players := h.players

/-- The name is not that of the first type, which `FindWarType` returns for unknown names. -/
def TypeFree (s : CWarList) (pType : CString) : Prop :=
  pType = noneName ∨ str_copy pType MAX_WARLIST_TYPE_LENGTH ≠ s.typeName m_pWarTypeNone

theorem Inv.addWarType (h : Inv s) {pType : CString} (hfree : s.TypeFree pType)
    (Color : ColorRGBA) : Inv (s.AddWarType pType Color) := by
  unfold AddWarType
  by_cases hnone : pType = noneName
  · rw [if_pos hnone]
    exact h
  rw [if_neg hnone]
  simp only
  have hother := hfree.resolve_left hnone
  rcases s.findWarType_cases pType with ⟨hmem, hname⟩ | ⟨hzero, hnew⟩
  · rw [if_neg]
    · apply h.rename (s.typeName (s.FindWarType pType)) Color
      intro q hq hne heq
      exact hne (h.name_inj hq hmem heq)
    · intro hzero
      rw [hzero] at hname
      exact hother hname.symm
  · rw [if_pos hzero]
    exact h.push Color hnew

theorem Inv.upsertWarType (h : Inv s) {Index : Int} {pType : CString} (Color : ColorRGBA)
    (hcond : pType = noneName ∨
      if 0 ≤ Index ∧ Index.toNat < s.m_WarTypes.length then
        ∀ q ∈ s.m_WarTypes, s.m_WarTypes[Index.toNat]? ≠ some q →
          s.typeName q ≠ str_copy pType MAX_WARLIST_TYPE_LENGTH
      else s.TypeFree pType) :
    Inv (s.UpsertWarType Index pType Color) := by
  unfold UpsertWarType
  by_cases hnone : pType = noneName
  · rw [if_pos hnone]
    exact h
  rw [if_neg hnone]
  replace hcond := hcond.resolve_left hnone
  by_cases hrange : 0 ≤ Index ∧ Index.toNat < s.m_WarTypes.length
  · rw [dif_pos hrange]
    rw [if_pos hrange] at hcond
    apply h.rename
    intro q hq hne
    apply hcond q hq
    rw [List.getElem?_eq_getElem hrange.2]
    exact fun heq => hne (Option.some.inj heq).symm
  · rw [dif_neg hrange]
    rw [if_neg hrange] at hcond
    exact h.addWarType hcond Color

theorem Inv.removeWarType (h : Inv s) {pType : CString}
    (hunused : pType = [] ∨ ∀ e ∈ s.m_WarEntries, s.typeName e.m_pWarType = pType →
      (s.pWarTypes e.m_pWarType).m_Removable = false) :
    Inv (s.RemoveWarType pType) := by
  unfold RemoveWarType
  by_cases hnil : pType = []
  · rw [if_pos hnil]
    exact h
  rw [if_neg hnil]
  replace hunused := hunused.resolve_left hnil
  split
  · exact h
  next it hfind =>
    have hfound := List.find?_some hfind
    have hname : s.typeName it = pType := of_decide_eq_true hfound
    by_cases hremovable : (s.pWarTypes it).m_Removable = true
    · rw [if_neg (not_not_intro hremovable)]
      have hkept : ∀ p ∈ s.m_WarTypes, p ≠ it → p ∈ s.m_WarTypes.erase it :=
        fun p hp hne => (List.mem_erase_of_ne hne).mpr hp
      refine ⟨h.names.sublist (List.erase_sublist.map _), ?_, fun p hp =>
        h.allocated p (List.mem_of_mem_erase hp), h.unremovable, fun e he => ?_, h.players⟩
      · -- the built-in types are not removable
        have hsplit := List.take_append_drop 4 s.m_WarTypes
        rw [h.builtin] at hsplit
        have hnot : it ∉ [0, 1, 2, 3] := by
          intro hmem
          have hlt : it < 4 := by
            have hall : ∀ p ∈ [0, 1, 2, 3], p < 4 := by decide
            exact hall it hmem
          rw [h.unremovable it hlt] at hremovable
          cases hremovable
        show (s.m_WarTypes.erase it).take 4 = [0, 1, 2, 3]
        rw [← hsplit, List.erase_append_right _ hnot]
        exact List.take_left' rfl
      · have hsound := h.entries e he
        refine ⟨hsound.1, hkept _ hsound.2 ?_, hsound.3⟩
        intro heq
        have hfalse := hunused e he (heq ▸ hname)
        rw [heq, hremovable] at hfalse
        cases hfalse
    · rw [if_pos hremovable]
      exact h

/-! ## Entries -/

/-- Other entries, all of them sound. -/
theorem Inv.withEntries (h : Inv s) {m_WarEntries : List CWarEntry}
    (hentries : ∀ e ∈ m_WarEntries, s.Sound e) :
    Inv { s with m_WarEntries := m_WarEntries } where
  names := h.names
  builtin := h.builtin
  allocated := h.allocated
  unremovable := h.unremovable
  entries := fun e he => ⟨(hentries e he).1, (hentries e he).2, (hentries e he).3⟩
  players := h.players

theorem Inv.fewer (h : Inv s) {m_WarEntries : List CWarEntry}
    (hsub : m_WarEntries.Sublist s.m_WarEntries) : Inv { s with m_WarEntries := m_WarEntries } :=
  h.withEntries fun e he => h.entries e (hsub.subset he)

theorem Inv.removeWarEntryDuplicates (h : Inv s) (pName pClan : CString) :
    Inv (s.RemoveWarEntryDuplicates pName pClan) := by
  unfold RemoveWarEntryDuplicates
  split
  · exact h
  · exact h.fewer List.filter_sublist

theorem Inv.removeEntryByName (h : Inv s) (WarType : Int) (pName : Option CString) :
    Inv (s.RemoveEntryByName WarType pName).1 := by
  unfold RemoveEntryByName
  split
  · exact h
  · split
    · exact h
    · split
      · exact h
      · exact h.fewer List.filter_sublist

/-- What `AddWarEntry` needs: the texts it keeps are not cut to nothing, the reason does not
change when it is copied again, and the type is not taken for a new one by mistake. -/
def Enters (s : CWarList) (pName pClan pReason pType : CString) : Prop :=
  ¬ (pName = [] ∧ pClan = []) →
    (pClan ≠ [] → str_copy pClan MAX_CLAN_LENGTH ≠ []) ∧
    (pClan = [] → str_copy pName MAX_NAME_LENGTH ≠ []) ∧
    str_copy (str_copy pReason MAX_WARLIST_REASON_LENGTH) MAX_WARLIST_REASON_LENGTH =
      str_copy pReason MAX_WARLIST_REASON_LENGTH ∧
    s.TypeFree pType

theorem Inv.addWarEntry (h : Inv s) {pName pClan pReason pType : CString}
    (henters : s.Enters pName pClan pReason pType) (m_ClWarListAllowDuplicates : Bool) :
    Inv (s.AddWarEntry m_ClWarListAllowDuplicates pName pClan pReason pType) := by
  unfold AddWarEntry
  by_cases hempty : pName = [] ∧ pClan = []
  · rw [if_pos hempty]
    exact h
  rw [if_neg hempty]
  simp only
  obtain ⟨hclan, hname, hreason, hfree⟩ := henters hempty
  have htyped : Inv (if s.FindWarType pType = m_pWarTypeNone
      then s.AddWarType pType ⟨0, 0, 0, 1⟩ else s) := by
    split
    · exact h.addWarType hfree _
    · exact h
  generalize (if s.FindWarType pType = m_pWarTypeNone
      then s.AddWarType pType ⟨0, 0, 0, 1⟩ else s) = t at htyped
  have hcleared : Inv (if m_ClWarListAllowDuplicates then t
      else t.RemoveWarEntryDuplicates pName pClan) := by
    split
    · exact htyped
    · exact htyped.removeWarEntryDuplicates pName pClan
  have htypes : (if m_ClWarListAllowDuplicates then t
      else t.RemoveWarEntryDuplicates pName pClan).m_WarTypes = t.m_WarTypes := by
    split
    · rfl
    · unfold RemoveWarEntryDuplicates
      split <;> rfl
  apply hcleared.withEntries
  intro e he
  rcases List.mem_append.mp he with he | he
  · exact hcleared.entries e he
  · rw [List.mem_singleton.mp he]
    refine ⟨?_, ?_, hreason⟩
    · by_cases hnil : pClan = []
      · simp [hnil, hname hnil]
      · simp [hnil, hclan hnil]
    · rw [htypes]
      exact htyped.findWarType_mem pType

end Fex.Client.CWarList

/-!
## The players of the war list

`UpdateWarPlayers` numbers the types, then each active client gets the flags of the entries
that match it, and the reason of the last one.
-/

namespace Fex.Client.CWarList

open Fex.Lib Fex.Base Fex.Engine.Server

def NameMatch (c : CClientData) (e : CWarEntry) : Prop := c.m_aName = e.m_aName ∧ e.m_aName ≠ []

def ClanMatch (c : CClientData) (e : CWarEntry) : Prop := c.m_aClan = e.m_aClan ∧ e.m_aClan ≠ []

instance (c : CClientData) (e : CWarEntry) : Decidable (NameMatch c e) :=
  inferInstanceAs (Decidable (_ ∧ _))

instance (c : CClientData) (e : CWarEntry) : Decidable (ClanMatch c e) :=
  inferInstanceAs (Decidable (_ ∧ _))

/-- The reason of the last entry that matches by name, or else by clan. -/
def lastReason (c : CClientData) (m_WarEntries : List CWarEntry) : CString :=
  match (m_WarEntries.filter fun e => NameMatch c e).getLast? with
  | some e => e.m_aReason
  | none =>
      match (m_WarEntries.filter fun e => ClanMatch c e).getLast? with
      | some e => e.m_aReason
      | none => []

/-- What the cache of an active client says about some entries. -/
structure Shown (m_WarTypes : List Nat) (c : CClientData) (m_WarEntries : List CWarEntry)
    (p : CWarDataCache) : Prop where
  isWarName : p.IsWarName = true ↔ ∃ e ∈ m_WarEntries, NameMatch c e
  isWarClan : p.IsWarClan = true ↔ ∃ e ∈ m_WarEntries, ClanMatch c e
  groups : ∀ g : Nat, p.m_WarGroupMatches[g]? = some true ↔
    ∃ e ∈ m_WarEntries, (NameMatch c e ∨ ClanMatch c e) ∧ m_WarTypes[g]? = some e.m_pWarType
  reason : p.m_aReason = lastReason c m_WarEntries

/-! ## Reasons -/

section Reasons

variable {c : CClientData} {e : CWarEntry} {es : List CWarEntry}

theorem lastReason_name (hname : NameMatch c e) : lastReason c (es ++ [e]) = e.m_aReason := by
  unfold lastReason
  rw [List.filter_append, List.filter_singleton, decide_eq_true hname]
  simp

theorem lastReason_clan (hname : ¬ NameMatch c e) (hclan : ClanMatch c e) :
    lastReason c (es ++ [e]) =
      if ∃ x ∈ es, NameMatch c x then lastReason c es else e.m_aReason := by
  unfold lastReason
  rw [List.filter_append, List.filter_append, List.filter_singleton, List.filter_singleton,
    decide_eq_false hname, decide_eq_true hclan]
  by_cases hex : ∃ x ∈ es, NameMatch c x
  · obtain ⟨x, hx, hmatch⟩ := hex
    rw [if_pos ⟨x, hx, hmatch⟩]
    have hne : (es.filter fun e => decide (NameMatch c e)) ≠ [] :=
      List.ne_nil_of_mem (List.mem_filter.mpr ⟨hx, decide_eq_true hmatch⟩)
    obtain ⟨y, hy⟩ := Option.ne_none_iff_exists'.mp (mt List.getLast?_eq_none_iff.mp hne)
    rw [cond_false, List.append_nil, hy]
  · rw [if_neg hex]
    have hnil : (es.filter fun e => decide (NameMatch c e)) = [] := by
      apply List.filter_eq_nil_iff.mpr
      exact fun x hx hmatch => hex ⟨x, hx, of_decide_eq_true hmatch⟩
    simp [hnil]

theorem lastReason_other (hname : ¬ NameMatch c e) (hclan : ¬ ClanMatch c e) :
    lastReason c (es ++ [e]) = lastReason c es := by
  unfold lastReason
  rw [List.filter_append, List.filter_append, List.filter_singleton, List.filter_singleton,
    decide_eq_false hname, decide_eq_false hclan]
  simp

end Reasons

/-! ## One entry -/

section Visit

variable {pWarTypes : Nat → CWarType} {m_WarTypes : List Nat} {c : CClientData}
  {es : List CWarEntry} {e : CWarEntry} {p : CWarDataCache}

theorem exists_mem_concat {P : CWarEntry → Prop} :
    (∃ x ∈ es ++ [e], P x) ↔ (∃ x ∈ es, P x) ∨ P e := by
  simp only [List.mem_append, List.mem_singleton, or_and_right, exists_or, exists_eq_left]

theorem setMatch_spec {l : List Bool} {i : Nat} (hi : i < l.length) :
    ∃ l', setMatch l i = .ok l' ∧ l'.length = l.length ∧
      ∀ g : Nat, l'[g]? = some true ↔ l[g]? = some true ∨ g = i := by
  refine ⟨l.set i true, if_pos hi, List.length_set, fun g => ?_⟩
  by_cases hg : g = i
  · rw [hg, List.getElem?_set_self hi]
    simp
  · rw [List.getElem?_set_ne (Ne.symm hg)]
    simp [hg]

/-- The group of an entry is the one of its type, for lists without duplicates. -/
theorem group_iff (hnodup : m_WarTypes.Nodup) {i g : Nat}
    (hi : m_WarTypes[i]? = some e.m_pWarType) :
    m_WarTypes[g]? = some e.m_pWarType ↔ g = i := by
  constructor
  · intro hg
    obtain ⟨hlt, -⟩ := List.getElem?_eq_some_iff.mp hg
    exact (List.getElem?_inj hlt hnodup).mp (hg.trans hi.symm)
  · rintro rfl
    exact hi

theorem Shown.visitEntry (h : Shown m_WarTypes c es p) (hnodup : m_WarTypes.Nodup)
    (hlength : p.m_WarGroupMatches.length = m_WarTypes.length)
    (hindex : m_WarTypes[(pWarTypes e.m_pWarType).m_Index]? = some e.m_pWarType)
    (hone : e.m_aName = [] ↔ e.m_aClan ≠ [])
    (hreason : str_copy e.m_aReason MAX_WARLIST_REASON_LENGTH = e.m_aReason) :
    ∃ p', visitEntry pWarTypes c p e = .ok p' ∧ Shown m_WarTypes c (es ++ [e]) p' ∧
      p'.m_WarGroupMatches.length = m_WarTypes.length := by
  obtain ⟨hlt, -⟩ := List.getElem?_eq_some_iff.mp hindex
  obtain ⟨l, hset, hl, hgroups⟩ := setMatch_spec (hlength.symm ▸ hlt)
  have hentry : ∀ g : Nat, (l[g]? = some true ↔
      (∃ x ∈ es, (NameMatch c x ∨ ClanMatch c x) ∧ m_WarTypes[g]? = some x.m_pWarType) ∨
        m_WarTypes[g]? = some e.m_pWarType) := by
    intro g
    rw [hgroups, h.groups, group_iff hnodup hindex]
  unfold CWarList.visitEntry
  simp only
  by_cases hname : NameMatch c e
  · have hclan : ¬ ClanMatch c e := fun hclan => hname.2 (hone.mpr hclan.2)
    rw [if_pos (show _ ∧ _ from hname), hset]
    refine ⟨_, rfl, ⟨?_, ?_, ?_, ?_⟩, hl.trans hlength⟩
    · rw [exists_mem_concat]
      exact iff_of_true rfl (.inr hname)
    · rw [exists_mem_concat, or_iff_left hclan]
      exact h.isWarClan
    · intro g
      rw [exists_mem_concat, hentry, and_iff_right (Or.inl hname)]
    · rw [lastReason_name hname]
      exact hreason
  rw [if_neg (show ¬ (_ ∧ _) from hname)]
  by_cases hclan : ClanMatch c e
  · rw [if_pos (show _ ∧ _ from hclan), hset]
    refine ⟨_, rfl, ⟨?_, ?_, ?_, ?_⟩, hl.trans hlength⟩
    · rw [exists_mem_concat, or_iff_left hname]
      exact h.isWarName
    · rw [exists_mem_concat]
      exact iff_of_true rfl (.inr hclan)
    · intro g
      rw [exists_mem_concat, hentry, and_iff_right (Or.inr hclan)]
    · rw [lastReason_clan hname hclan]
      by_cases hbefore : p.IsWarName = true
      · rw [if_pos (h.isWarName.mp hbefore), ← h.reason]
        exact if_neg (not_not_intro hbefore)
      · rw [if_neg fun hex => hbefore (h.isWarName.mpr hex)]
        exact (if_pos hbefore).trans hreason
  · rw [if_neg (show ¬ (_ ∧ _) from hclan)]
    refine ⟨_, rfl, ⟨?_, ?_, ?_, ?_⟩, hlength⟩
    · rw [exists_mem_concat, or_iff_left hname]
      exact h.isWarName
    · rw [exists_mem_concat, or_iff_left hclan]
      exact h.isWarClan
    · intro g
      rw [exists_mem_concat, or_iff_left fun hboth => hboth.1.elim hname hclan]
      exact h.groups g
    · rw [lastReason_other hname hclan]
      exact h.reason

/-- All entries, with the numbers of the types known. -/
theorem Shown.visitEntries (hnodup : m_WarTypes.Nodup) {rest : List CWarEntry}
    (hindex : ∀ e ∈ rest, m_WarTypes[(pWarTypes e.m_pWarType).m_Index]? = some e.m_pWarType)
    (hone : ∀ e ∈ rest, (e.m_aName = [] ↔ e.m_aClan ≠ []))
    (hreason : ∀ e ∈ rest, str_copy e.m_aReason MAX_WARLIST_REASON_LENGTH = e.m_aReason)
    (h : Shown m_WarTypes c es p)
    (hlength : p.m_WarGroupMatches.length = m_WarTypes.length) :
    ∃ p', rest.foldlM (CWarList.visitEntry pWarTypes c) p = .ok p' ∧
      Shown m_WarTypes c (es ++ rest) p' := by
  induction rest generalizing es p with
  | nil =>
      rw [List.append_nil]
      exact ⟨p, rfl, h⟩
  | cons e rest ih =>
      obtain ⟨p₁, hvisit, h₁, hlength₁⟩ := h.visitEntry hnodup hlength
        (hindex e List.mem_cons_self) (hone e List.mem_cons_self) (hreason e List.mem_cons_self)
      rw [List.foldlM_cons, hvisit]
      obtain ⟨p', hrun, h'⟩ := ih (fun x hx => hindex x (List.mem_cons_of_mem e hx))
        (fun x hx => hone x (List.mem_cons_of_mem e hx))
        (fun x hx => hreason x (List.mem_cons_of_mem e hx)) h₁ hlength₁
      rw [List.append_assoc] at h'
      exact ⟨p', hrun, h'⟩

end Visit

/-! ## The numbers of the types -/

section Numbers

variable {pWarTypes : Nat → CWarType} {m_WarTypes : List Nat}

theorem reindex_fields (pWarTypes : Nat → CWarType) (i : Nat) (m_WarTypes : List Nat) (q : Nat) :
    (reindex pWarTypes i m_WarTypes q).m_aWarName = (pWarTypes q).m_aWarName ∧
      (reindex pWarTypes i m_WarTypes q).m_Removable = (pWarTypes q).m_Removable := by
  induction m_WarTypes generalizing pWarTypes i with
  | nil => exact ⟨rfl, rfl⟩
  | cons p m_WarTypes ih =>
      unfold reindex
      obtain ⟨hname, hremovable⟩ :=
        ih (Function.update pWarTypes p { pWarTypes p with m_Index := i }) (i + 1)
      rw [hname, hremovable]
      by_cases hqp : q = p
      · rw [hqp, Function.update_self]
        exact ⟨rfl, rfl⟩
      · rw [Function.update_of_ne hqp]
        exact ⟨rfl, rfl⟩

theorem reindex_of_notMem {i q : Nat} (hq : q ∉ m_WarTypes) :
    reindex pWarTypes i m_WarTypes q = pWarTypes q := by
  induction m_WarTypes generalizing pWarTypes i with
  | nil => rfl
  | cons p m_WarTypes ih =>
      unfold reindex
      rw [ih fun hmem => hq (List.mem_cons_of_mem p hmem)]
      exact Function.update_of_ne (List.ne_of_not_mem_cons hq) _ _

theorem reindex_m_Index (hnodup : m_WarTypes.Nodup) {i j q : Nat} (hj : m_WarTypes[j]? = some q) :
    (reindex pWarTypes i m_WarTypes q).m_Index = i + j := by
  induction m_WarTypes generalizing pWarTypes i j with
  | nil => cases hj
  | cons p m_WarTypes ih =>
      unfold reindex
      obtain ⟨hp, hrest⟩ := List.nodup_cons.mp hnodup
      cases j with
      | zero =>
          rw [List.getElem?_cons_zero] at hj
          rw [← Option.some.inj hj, reindex_of_notMem hp, Function.update_self]
          rfl
      | succ j =>
          rw [List.getElem?_cons_succ] at hj
          rw [ih hrest hj]
          omega

/-- After the numbering a type of the list is found at its own number. -/
theorem getElem?_reindex (hnodup : m_WarTypes.Nodup) {q : Nat} (hq : q ∈ m_WarTypes) :
    m_WarTypes[(reindex pWarTypes 0 m_WarTypes q).m_Index]? = some q := by
  obtain ⟨j, hj⟩ := List.mem_iff_getElem?.mp hq
  rw [reindex_m_Index hnodup hj, Nat.zero_add]
  exact hj

end Numbers

/-! ## All clients -/

variable {s : CWarList}

theorem Inv.reindexed (h : Inv s) :
    Inv { s with pWarTypes := reindex s.pWarTypes 0 s.m_WarTypes } where
  names := by
    have hname : ∀ p ∈ s.m_WarTypes,
        (reindex s.pWarTypes 0 s.m_WarTypes p).m_aWarName = s.typeName p :=
      fun p _ => (reindex_fields s.pWarTypes 0 s.m_WarTypes p).1
    show (s.m_WarTypes.map fun p => (reindex s.pWarTypes 0 s.m_WarTypes p).m_aWarName).Nodup
    rw [List.map_congr_left hname]
    exact h.names
  builtin := h.builtin
  allocated := h.allocated
  unremovable := fun p hp =>
    (reindex_fields s.pWarTypes 0 s.m_WarTypes p).2.trans (h.unremovable p hp)
  entries := fun e he => ⟨(h.entries e he).1, (h.entries e he).2, (h.entries e he).3⟩
  players := h.players

/-- The numbers that the types carry are their positions. -/
def Numbered (s : CWarList) : Prop :=
  ∀ p ∈ s.m_WarTypes, s.m_WarTypes[(s.pWarTypes p).m_Index]? = some p

theorem shown_start (m_WarTypes : List Nat) (c : CClientData) :
    Shown m_WarTypes c []
      { emptyCache with m_WarGroupMatches := List.replicate m_WarTypes.length false } where
  isWarName := by simp [emptyCache]
  isWarClan := by simp [emptyCache]
  groups := by simp [List.getElem?_replicate]
  reason := rfl

theorem Inv.updatePlayer (h : Inv s) (hnumbered : Numbered s) (c : CClientData) :
    ∃ p, s.updatePlayer c = .ok p ∧ Shown s.m_WarTypes c s.m_WarEntries p := by
  obtain ⟨p, hrun, hp⟩ := (shown_start s.m_WarTypes c).visitEntries h.pointers
    (fun e he => hnumbered _ (h.entries e he).listed)
    (fun e he => (h.entries e he).name_or_clan) (fun e he => (h.entries e he).reason_copied)
    List.length_replicate
  unfold CWarList.updatePlayer
  rw [hrun]
  exact ⟨_, rfl, ⟨hp.1, hp.2, hp.3, hp.4⟩⟩

theorem Inv.updateLoop (h : Inv s) (hnumbered : Numbered s) (m_aClients : List CClientData)
    (m_WarPlayers : List CWarDataCache) :
    ∃ players, s.updateLoop m_aClients m_WarPlayers = .ok players ∧
      players.length = m_WarPlayers.length ∧
      ∀ (i : Nat) c p, m_aClients[i]? = some c → c.m_Active = true → players[i]? = some p →
        Shown s.m_WarTypes c s.m_WarEntries p := by
  induction m_aClients generalizing m_WarPlayers with
  | nil =>
      refine ⟨m_WarPlayers, by unfold CWarList.updateLoop; rfl, rfl, fun i c p hc => ?_⟩
      cases hc
  | cons c m_aClients ih =>
      cases m_WarPlayers with
      | nil =>
          refine ⟨[], by unfold CWarList.updateLoop; rfl, rfl, fun i c p _ _ hp => ?_⟩
          cases hp
      | cons p m_WarPlayers =>
          obtain ⟨players, hrun, hlength, hshown⟩ := ih m_WarPlayers
          unfold CWarList.updateLoop
          have hfirst : ∃ q, (if ¬ c.m_Active = true then pure p else s.updatePlayer c) =
              Except.ok q ∧ (c.m_Active = true → Shown s.m_WarTypes c s.m_WarEntries q) := by
            by_cases hactive : c.m_Active = true
            · rw [if_neg (not_not_intro hactive)]
              obtain ⟨q, hq, hshown⟩ := h.updatePlayer hnumbered c
              exact ⟨q, hq, fun _ => hshown⟩
            · rw [if_pos hactive]
              exact ⟨p, rfl, fun hyes => absurd hyes hactive⟩
          obtain ⟨q, hq, hqshown⟩ := hfirst
          rw [hq, hrun]
          refine ⟨q :: players, rfl, by rw [List.length_cons, hlength, List.length_cons], ?_⟩
          intro i c' p' hc hactive hp
          cases i with
          | zero =>
              cases hc
              cases hp
              exact hqshown hactive
          | succ i => exact hshown i c' p' hc hactive hp

/-- Every active client is shown what the entries say about it. -/
def PlayersShown (s : CWarList) (m_aClients : List CClientData) : Prop :=
  ∀ (i : Nat) c, m_aClients[i]? = some c → c.m_Active = true → i < MAX_CLIENTS →
    ∃ p, s.m_WarPlayers[i]? = some p ∧ Shown s.m_WarTypes c s.m_WarEntries p

theorem Inv.updateWarPlayers (h : Inv s) (m_aClients : List CClientData) :
    ∃ s', s.UpdateWarPlayers m_aClients = .ok s' ∧ Inv s' ∧ PlayersShown s' m_aClients := by
  have hindexed := h.reindexed
  obtain ⟨players, hrun, hlength, hshown⟩ :=
    hindexed.updateLoop (fun p hp => getElem?_reindex h.pointers hp) m_aClients s.m_WarPlayers
  unfold CWarList.UpdateWarPlayers
  simp only
  rw [hrun]
  refine ⟨_, rfl, ⟨hindexed.1, hindexed.2, hindexed.3, hindexed.4, ?_, ?_⟩, ?_⟩
  · exact fun e he => ⟨(h.entries e he).1, (h.entries e he).2, (h.entries e he).3⟩
  · exact hlength.trans h.players
  · intro i c hc hactive hi
    have hlt : i < players.length := by
      rw [hlength, h.players]
      exact hi
    exact ⟨players[i], List.getElem?_eq_getElem hlt,
      hshown i c _ hc hactive (List.getElem?_eq_getElem hlt)⟩

end Fex.Client.CWarList

/-!
## Runs of the war list

In runs whose calls meet a condition the list stays sound, no access is out of bounds, and
`UpdateWarPlayers` shows the entries to the players.
-/

namespace Fex.Client.CWarList

open Fex.Lib Fex.Base Fex.Engine.Server

variable {s : CWarList}

/-- The condition on a call: an index of the in-game calls is not negative, added entries can
enter, a type does not take the name of another one, and a removed type has no entries. -/
def Meets (s : CWarList) : Call → Prop
  | .AddWarEntry _ pName pClan pReason pType => s.Enters pName pClan pReason pType
  | .AddWarEntryInGame _ m_aClients WarType pName pReason IsClan =>
      pName ≠ [] → 0 ≤ WarType ∧ ∀ pWarType, s.m_WarTypes[WarType.toNat]? = some pWarType →
        s.Enters (if IsClan then [] else str_copy pName MAX_NAME_LENGTH)
          (if IsClan then addedClan pName [] m_aClients else [])
          (str_copy pReason MAX_WARLIST_REASON_LENGTH) (s.typeName pWarType)
  | .RemoveWarEntryInGame _ WarType pName _ => pName ≠ [] → 0 ≤ WarType
  | .AddWarType pType _ => s.TypeFree pType
  | .UpsertWarType Index pType _ => pType = noneName ∨
      if 0 ≤ Index ∧ Index.toNat < s.m_WarTypes.length then
        ∀ q ∈ s.m_WarTypes, s.m_WarTypes[Index.toNat]? ≠ some q →
          s.typeName q ≠ str_copy pType MAX_WARLIST_TYPE_LENGTH
      else s.TypeFree pType
  | .RemoveWarType pType => pType = [] ∨
      ∀ e ∈ s.m_WarEntries, s.typeName e.m_pWarType = pType →
        (s.pWarTypes e.m_pWarType).m_Removable = false
  | _ => True

theorem warType_spec {WarType : Int} (hpos : 0 ≤ WarType) :
    s.warType WarType = .ok s.m_WarTypes[WarType.toNat]? := by
  unfold warType
  split
  · rw [List.getElem?_eq_none (by omega)]
  · rw [if_neg (by omega)]

theorem Inv.addWarEntryInGame (h : Inv s) {m_ClWarListAllowDuplicates IsClan : Bool}
    {m_aClients : List CClientData} {WarType : Int} {pName pReason : CString}
    (hmeets : s.Meets (.AddWarEntryInGame m_ClWarListAllowDuplicates m_aClients WarType pName
      pReason IsClan)) :
    ∃ s', s.AddWarEntryInGame m_ClWarListAllowDuplicates m_aClients WarType pName pReason IsClan =
      .ok s' ∧ Inv s' := by
  unfold AddWarEntryInGame
  by_cases hnil : pName = []
  · rw [if_pos hnil]
    exact ⟨s, rfl, h⟩
  rw [if_neg hnil]
  obtain ⟨hpos, henters⟩ := hmeets hnil
  rw [warType_spec hpos]
  cases hget : s.m_WarTypes[WarType.toNat]? with
  | none => exact ⟨s, rfl, h⟩
  | some pWarType =>
      refine ⟨_, rfl, ?_⟩
      apply Inv.addWarEntry
      · split
        · exact h
        · exact h.removeWarEntryDuplicates _ _
      · -- the duplicates are entries, the types stay
        have htypes : ∀ pName pClan, (s.RemoveWarEntryDuplicates pName pClan).pWarTypes =
            s.pWarTypes := by
          intro pName pClan
          unfold RemoveWarEntryDuplicates
          split <;> rfl
        have hsame : ∀ pName pClan, (if m_ClWarListAllowDuplicates then s
            else s.RemoveWarEntryDuplicates pName pClan).pWarTypes = s.pWarTypes := by
          intro pName pClan
          split
          · rfl
          · exact htypes pName pClan
        unfold Enters TypeFree typeName
        rw [hsame]
        exact henters pWarType hget

theorem Inv.removeWarEntryTyped (h : Inv s) (pName pClan pType : CString) :
    Inv (s.RemoveWarEntryTyped pName pClan pType) :=
  h.fewer List.eraseP_sublist

theorem Inv.removeWarEntryInGame (h : Inv s) {IsClan : Bool} {m_aClients : List CClientData}
    {WarType : Int} {pName : CString} (hpos : pName ≠ [] → 0 ≤ WarType) :
    ∃ s', s.RemoveWarEntryInGame m_aClients WarType pName IsClan = .ok s' ∧ Inv s' := by
  unfold RemoveWarEntryInGame
  by_cases hnil : pName = []
  · rw [if_pos hnil]
    exact ⟨s, rfl, h⟩
  rw [if_neg hnil, warType_spec (hpos hnil)]
  cases s.m_WarTypes[WarType.toNat]? with
  | none => exact ⟨s, rfl, h⟩
  | some pWarType => exact ⟨_, rfl, h.removeWarEntryTyped _ _ _⟩

theorem Inv.addMuteEntry (h : Inv s) (pName : CString) : Inv (s.AddMuteEntry pName) := by
  unfold AddMuteEntry
  split
  · exact h
  · exact ⟨h.1, h.2, h.3, h.4, fun e he => ⟨(h.5 e he).1, (h.5 e he).2, (h.5 e he).3⟩, h.6⟩

theorem Inv.step (h : Inv s) {call : Call} (hmeets : s.Meets call) :
    ∃ s', CWarList.step s call = .ok s' ∧ Inv s' ∧
      ∀ m_aClients, call = .UpdateWarPlayers m_aClients → PlayersShown s' m_aClients := by
  cases call with
  | AddWarEntry m_ClWarListAllowDuplicates pName pClan pReason pType =>
      exact ⟨_, rfl, h.addWarEntry hmeets _, fun _ heq => by cases heq⟩
  | AddWarEntryInGame m_ClWarListAllowDuplicates m_aClients WarType pName pReason IsClan =>
      obtain ⟨s', hrun, h'⟩ := h.addWarEntryInGame hmeets
      exact ⟨s', hrun, h', fun _ heq => by cases heq⟩
  | RemoveWarEntryInGame m_aClients WarType pName IsClan =>
      obtain ⟨s', hrun, h'⟩ := h.removeWarEntryInGame hmeets
      exact ⟨s', hrun, h', fun _ heq => by cases heq⟩
  | RemoveWarEntryNamed pName pClan =>
      exact ⟨_, rfl, h.fewer List.filter_sublist, fun _ heq => by cases heq⟩
  | RemoveWarEntryTyped pName pClan pType =>
      exact ⟨_, rfl, h.removeWarEntryTyped _ _ _, fun _ heq => by cases heq⟩
  | RemoveWarEntryAt Entry =>
      exact ⟨_, rfl, h.fewer (List.eraseIdx_sublist _ _), fun _ heq => by cases heq⟩
  | RemoveEntryByName WarType pName =>
      exact ⟨_, rfl, h.removeEntryByName WarType pName, fun _ heq => by cases heq⟩
  | AddWarType pType Color =>
      exact ⟨_, rfl, h.addWarType hmeets Color, fun _ heq => by cases heq⟩
  | UpsertWarType Index pType Color =>
      exact ⟨_, rfl, h.upsertWarType Color hmeets, fun _ heq => by cases heq⟩
  | RemoveWarType pType =>
      exact ⟨_, rfl, h.removeWarType hmeets, fun _ heq => by cases heq⟩
  | AddMuteEntry pName =>
      exact ⟨_, rfl, h.addMuteEntry pName, fun _ heq => by cases heq⟩
  | UpdateWarPlayers m_aClients =>
      obtain ⟨s', hrun, h', hshown⟩ := h.updateWarPlayers m_aClients
      refine ⟨s', hrun, h', fun m_aClients' heq => ?_⟩
      cases heq
      exact hshown

end Fex.Client.CWarList
