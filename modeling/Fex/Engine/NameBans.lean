import Fex.Base.Characters
import Fex.Base.Confusables

/-!
# Banned names

Model of `CNameBans`.  What is printed to the console is left out.
-/

namespace Fex.Engine.NameBans

open Fex.Base Fex.Lib

def MAX_NAME_LENGTH : Nat := 16

def MAX_NAME_SKELETON_LENGTH : Nat := MAX_NAME_LENGTH * 4

def MAX_NAMEBAN_REASON_LENGTH : Nat := 64

structure CNameBan where
  m_aName : List UInt8
  m_aReason : List UInt8
  /-- The first `m_SkeletonLength` ints. -/
  m_aSkeleton : List Int
  m_Distance : Int
  m_IsSubstring : Bool
  deriving DecidableEq

section

variable (decomps : Decomps) (tolower : Int → Int)

/-- The skeleton that is compared. -/
def nameSkeleton (name : List UInt8) : List Int :=
  str_utf8_to_skeleton decomps name MAX_NAME_SKELETON_LENGTH

def CNameBan.new (pName pReason : List UInt8) (Distance : Int) (IsSubstring : Bool) : CNameBan where
  m_aName := str_copy pName MAX_NAME_LENGTH
  m_aReason := str_copy pReason MAX_NAMEBAN_REASON_LENGTH
  m_aSkeleton := nameSkeleton decomps (str_copy pName MAX_NAME_LENGTH)
  m_Distance := Distance
  m_IsSubstring := IsSubstring

def Ban (m_vNameBans : List CNameBan) (pName pReason : List UInt8) (Distance : Int)
    (IsSubstring : Bool) : List CNameBan :=
  match m_vNameBans with
  | [] => [.new decomps pName pReason Distance IsSubstring]
  | ban :: bans =>
      if ban.m_aName = pName then
        { ban with
          m_aReason := str_copy pReason MAX_NAMEBAN_REASON_LENGTH
          m_Distance := Distance
          m_IsSubstring := IsSubstring } :: bans
      else ban :: Ban bans pName pReason Distance IsSubstring

def Unban (m_vNameBans : List CNameBan) (pName : List UInt8) : List CNameBan :=
  m_vNameBans.filter fun ban => ban.m_aName ≠ pName

/-- The ints of an array, the ones that are not used are some value. -/
def cells (skeleton : List Int) : List Int :=
  skeleton ++ List.replicate (MAX_NAME_SKELETON_LENGTH - skeleton.length) 0

/-- The distance of two skeletons that lie in front of `aBuffer`. -/
def distance (aSkeleton aSkeleton' : List Int) : Exec Int :=
  let aBuffer := List.replicate (MAX_NAME_SKELETON_LENGTH * 2 + 2) 0
  str_utf32_dist_buffer (cells aSkeleton ++ cells aSkeleton' ++ aBuffer) 0 aSkeleton.length
    MAX_NAME_SKELETON_LENGTH aSkeleton'.length (MAX_NAME_SKELETON_LENGTH * 2) aBuffer.length

/-- `aTrimmed` of `IsBanned`. -/
def trimmed (pName : List UInt8) : List UInt8 :=
  str_utf8_trim_right (str_copy (str_utf8_skip_whitespaces pName) MAX_NAME_LENGTH)

def IsBanned (m_vNameBans : List CNameBan) (pName : List UInt8) : Exec (Option CNameBan) :=
  m_vNameBans.foldlM (fun pResult ban => do
    let Distance ← distance (nameSkeleton decomps (trimmed pName)) ban.m_aSkeleton
    return if Distance ≤ ban.m_Distance ∨
        ban.m_IsSubstring ∧ (str_utf8_find_nocase tolower pName ban.m_aName).isSome then some ban
      else pResult) none

/-- A change of the bans. -/
inductive Op
  | ban (pName pReason : List UInt8) (Distance : Int) (IsSubstring : Bool)
  | unban (pName : List UInt8)

def Op.apply (m_vNameBans : List CNameBan) : Op → List CNameBan
  | .ban pName pReason Distance IsSubstring =>
      Ban decomps m_vNameBans pName pReason Distance IsSubstring
  | .unban pName => Unban m_vNameBans pName

/-- The bans after some changes. -/
def run (ops : List Op) : List CNameBan := ops.foldl (Op.apply decomps) []

end

/-! ## The map from names -/

/-- What is banned with a name. -/
structure Terms where
  reason : List UInt8
  distance : Int
  substring : Bool

def Op.note (map : List UInt8 → Option Terms) : Op → List UInt8 → Option Terms
  | .ban pName pReason Distance IsSubstring =>
      Function.update map pName
        (some ⟨str_copy pReason MAX_NAMEBAN_REASON_LENGTH, Distance, IsSubstring⟩)
  | .unban pName => Function.update map pName none

theorem note_ban (map : List UInt8 → Option Terms) (pName pReason : List UInt8) (Distance : Int)
    (IsSubstring : Bool) :
    Op.note map (.ban pName pReason Distance IsSubstring) =
      Function.update map pName
        (some ⟨str_copy pReason MAX_NAMEBAN_REASON_LENGTH, Distance, IsSubstring⟩) := rfl

theorem note_unban (map : List UInt8 → Option Terms) (pName : List UInt8) :
    Op.note map (.unban pName) = Function.update map pName none := rfl

/-- What the last change of each name says. -/
def noted (ops : List Op) : List UInt8 → Option Terms := ops.foldl Op.note fun _ => none

section

variable (decomps : Decomps) (tolower : Int → Int)

/-- The ban of a whole name. -/
def entry (name : List UInt8) (terms : Terms) : CNameBan where
  m_aName := name
  m_aReason := terms.reason
  m_aSkeleton := nameSkeleton decomps name
  m_Distance := terms.distance
  m_IsSubstring := terms.substring

/-- Each name has the ban that the map has for it, and no other one. -/
def Keyed (bans : List CNameBan) (map : List UInt8 → Option Terms) : Prop :=
  ∀ name, (bans.filter fun ban => ban.m_aName = name) = (map name).toList.map (entry decomps name)

/-- A ban is about a name. -/
def Applies (pName : List UInt8) (ban : CNameBan) : Prop :=
  (levenshtein (nameSkeleton decomps (trimmed pName)) (nameSkeleton decomps ban.m_aName) : Int) ≤
      ban.m_Distance ∨
    ban.m_IsSubstring = true ∧
      OccursIn ((codePoints ban.m_aName).map tolower) ((codePoints pName).map tolower)

instance (pName : List UInt8) (ban : CNameBan) : Decidable (Applies decomps tolower pName ban) :=
  inferInstanceAs (Decidable (_ ∨ _))

/-- The bans are the map, and the search finds one exactly if there is one. -/
structure Behaves (bans : List CNameBan) (map : List UInt8 → Option Terms) : Prop where
  keyed : Keyed decomps bans map
  isBanned : ∀ pName, 0 ∉ pName → ∃ pResult, IsBanned decomps tolower bans pName = .ok pResult ∧
    (pResult.isSome ↔ ∃ ban ∈ bans, Applies decomps tolower pName ban) ∧ ∀ ban ∈ pResult, ban ∈ bans

end

/-- The field of the name holds the whole name. -/
def Op.Whole : Op → Prop
  | .ban pName _ _ _ => str_copy pName MAX_NAME_LENGTH = pName
  | .unban _ => True

instance : DecidablePred Op.Whole
  | .ban pName _ _ _ => inferInstanceAs (Decidable (str_copy pName MAX_NAME_LENGTH = pName))
  | .unban _ => inferInstanceAs (Decidable True)

/-- The name is a C string. -/
def Op.IsText : Op → Prop
  | .ban pName _ _ _ => 0 ∉ pName
  | .unban _ => True

instance : DecidablePred Op.IsText
  | .ban pName _ _ _ => inferInstanceAs (Decidable (0 ∉ pName))
  | .unban _ => inferInstanceAs (Decidable True)

section

variable {decomps : Decomps} {tolower : Int → Int}

/-! ## The search -/

theorem length_nameSkeleton (name : List UInt8) :
    (nameSkeleton decomps name).length ≤ MAX_NAME_SKELETON_LENGTH := by
  rw [nameSkeleton, str_utf8_to_skeleton_eq]
  exact List.length_take_le _ _

theorem length_cells {l : List Int} (h : l.length ≤ MAX_NAME_SKELETON_LENGTH) :
    (cells l).length = MAX_NAME_SKELETON_LENGTH := by
  rw [cells, List.length_append, List.length_replicate]
  omega

theorem getElem?_cells {l : List Int} {i : Nat} (hi : i < l.length) : (cells l)[i]? = l[i]? :=
  List.getElem?_append_left hi

theorem distance_eq {l l' : List Int} (h : l.length ≤ MAX_NAME_SKELETON_LENGTH)
    (h' : l'.length ≤ MAX_NAME_SKELETON_LENGTH) : distance l l' = .ok (levenshtein l l' : Nat) := by
  have hl := length_cells h
  have hl' := length_cells h'
  unfold distance
  simp only [List.length_replicate]
  refine str_utf32_dist_buffer_eq (by omega) (fun i hi => ?_) (fun j hj => ?_) (.inl (by omega))
    (.inl (by omega)) ?_
  · rw [Nat.zero_add, List.append_assoc, List.getElem?_append_left (by omega), getElem?_cells hi]
  · rw [List.append_assoc, List.getElem?_append_right (by omega),
      List.getElem?_append_left (by omega), hl, Nat.add_sub_cancel_left, getElem?_cells hj]
  · simp only [List.length_append, List.length_replicate]
    omega

/-- What a ban holds beside its terms. -/
def Formed (decomps : Decomps) (ban : CNameBan) : Prop :=
  0 ∉ ban.m_aName ∧ ban.m_aSkeleton = nameSkeleton decomps ban.m_aName

theorem isBanned_step {ban : CNameBan} {pName : List UInt8} (hname : 0 ∉ pName)
    (hban : Formed decomps ban) (pResult : Option CNameBan) :
    (do
      let Distance ← distance (nameSkeleton decomps (trimmed pName)) ban.m_aSkeleton
      return if Distance ≤ ban.m_Distance ∨
          ban.m_IsSubstring ∧ (str_utf8_find_nocase tolower pName ban.m_aName).isSome then some ban
        else pResult : Exec (Option CNameBan)) =
      .ok (if Applies decomps tolower pName ban then some ban else pResult) := by
  rw [hban.2, distance_eq (length_nameSkeleton _) (length_nameSkeleton _)]
  refine congrArg Except.ok (if_congr ?_ rfl rfl)
  rw [str_utf8_find_nocase_iff tolower hname hban.1]
  rfl

theorem isBanned_loop {pName : List UInt8} (hname : 0 ∉ pName) {bans : List CNameBan}
    (hbans : ∀ ban ∈ bans, Formed decomps ban) (pFound : Option CNameBan) :
    ∃ pResult, bans.foldlM (fun pResult ban => do
        let Distance ← distance (nameSkeleton decomps (trimmed pName)) ban.m_aSkeleton
        return if Distance ≤ ban.m_Distance ∨
            ban.m_IsSubstring ∧ (str_utf8_find_nocase tolower pName ban.m_aName).isSome then some ban
          else pResult) pFound = .ok pResult ∧
      (pResult.isSome ↔ pFound.isSome ∨ ∃ ban ∈ bans, Applies decomps tolower pName ban) ∧
      ∀ ban ∈ pResult, ban ∈ pFound ∨ ban ∈ bans := by
  induction bans generalizing pFound with
  | nil => exact ⟨pFound, rfl, by simp, fun ban hban => .inl hban⟩
  | cons ban bans ih =>
      obtain ⟨hban, hrest⟩ := List.forall_mem_cons.mp hbans
      rw [List.foldlM_cons, isBanned_step hname hban]
      by_cases happlies : Applies decomps tolower pName ban
      · obtain ⟨pResult, hrun, hsome, hmem⟩ := ih hrest (some ban)
        rw [if_pos happlies]
        refine ⟨pResult, hrun, ?_, fun b hb => ?_⟩
        · rw [hsome]
          exact iff_of_true (.inl rfl) (.inr ⟨ban, List.mem_cons_self, happlies⟩)
        · rcases hmem b hb with hself | hrest
          · exact .inr (List.mem_cons.mpr (.inl (Option.some.inj hself).symm))
          · exact .inr (List.mem_cons_of_mem ban hrest)
      · obtain ⟨pResult, hrun, hsome, hmem⟩ := ih hrest pFound
        rw [if_neg happlies]
        refine ⟨pResult, hrun, ?_, fun b hb => (hmem b hb).imp_right (List.mem_cons_of_mem ban)⟩
        rw [hsome, List.exists_mem_cons_iff, or_iff_right (a := Applies decomps tolower pName ban)
          happlies]

/-- The last of the bans that apply is found. -/
theorem isBanned_spec {bans : List CNameBan} {pName : List UInt8} (hname : 0 ∉ pName)
    (hbans : ∀ ban ∈ bans, Formed decomps ban) :
    ∃ pResult, IsBanned decomps tolower bans pName = .ok pResult ∧
      (pResult.isSome ↔ ∃ ban ∈ bans, Applies decomps tolower pName ban) ∧
      ∀ ban ∈ pResult, ban ∈ bans := by
  obtain ⟨pResult, hrun, hsome, hmem⟩ := @isBanned_loop decomps tolower _ hname _ hbans none
  refine ⟨pResult, hrun, hsome.trans (or_iff_right Bool.false_ne_true), fun ban hban => ?_⟩
  exact (hmem ban hban).resolve_left (Option.not_mem_none ban)

/-! ## Changes -/

/-- A change keeps what holds of each ban, if it holds of the new one and does not depend on the
terms. -/
theorem mem_ban {P : List UInt8 → List Int → Prop} {bans : List CNameBan} {pName : List UInt8}
    {pReason : List UInt8} {Distance : Int} {IsSubstring : Bool}
    (hnew : P (str_copy pName MAX_NAME_LENGTH)
      (nameSkeleton decomps (str_copy pName MAX_NAME_LENGTH)))
    (h : ∀ ban ∈ bans, P ban.m_aName ban.m_aSkeleton) :
    ∀ ban ∈ Ban decomps bans pName pReason Distance IsSubstring, P ban.m_aName ban.m_aSkeleton := by
  induction bans with
  | nil => exact List.forall_mem_singleton.mpr hnew
  | cons ban bans ih =>
      obtain ⟨hban, hrest⟩ := List.forall_mem_cons.mp h
      unfold Ban
      split
      · exact List.forall_mem_cons.mpr ⟨hban, hrest⟩
      · exact List.forall_mem_cons.mpr ⟨hban, ih hrest⟩

theorem mem_apply {P : List UInt8 → List Int → Prop} {bans : List CNameBan} {op : Op}
    (hnew : ∀ pName pReason Distance IsSubstring, op = .ban pName pReason Distance IsSubstring →
      P (str_copy pName MAX_NAME_LENGTH) (nameSkeleton decomps (str_copy pName MAX_NAME_LENGTH)))
    (h : ∀ ban ∈ bans, P ban.m_aName ban.m_aSkeleton) :
    ∀ ban ∈ op.apply decomps bans, P ban.m_aName ban.m_aSkeleton := by
  cases op with
  | ban pName pReason Distance IsSubstring => exact mem_ban (hnew _ _ _ _ rfl) h
  | unban pName => exact fun ban hban => h ban (List.mem_of_mem_filter hban)

/-- Other names keep their bans. -/
theorem filter_ban_of_ne {bans : List CNameBan} {pName name : List UInt8} (hne : pName ≠ name)
    (hstored : str_copy pName MAX_NAME_LENGTH ≠ name) (pReason : List UInt8) (Distance : Int)
    (IsSubstring : Bool) :
    ((Ban decomps bans pName pReason Distance IsSubstring).filter fun ban => ban.m_aName = name) =
      bans.filter fun ban => ban.m_aName = name := by
  induction bans with
  | nil =>
      have hnew : ¬ (CNameBan.new decomps pName pReason Distance IsSubstring).m_aName = name := hstored
      exact List.filter_cons_of_neg (by simpa using hnew)
  | cons ban bans ih =>
      unfold Ban
      split
      case isTrue hself =>
        have hban : ban.m_aName ≠ name := hself ▸ hne
        rw [List.filter_cons_of_neg (by simpa using hban),
          List.filter_cons_of_neg (by simpa using hban)]
      case isFalse => rw [List.filter_cons, List.filter_cons, ih]

/-- The first ban of the name gets the new terms. -/
theorem filter_ban_self {bans : List CNameBan} {pName : List UInt8} {ban : CNameBan}
    {others : List CNameBan} (h : (bans.filter fun ban => ban.m_aName = pName) = ban :: others)
    (pReason : List UInt8) (Distance : Int) (IsSubstring : Bool) :
    ((Ban decomps bans pName pReason Distance IsSubstring).filter fun ban => ban.m_aName = pName) =
      { ban with
        m_aReason := str_copy pReason MAX_NAMEBAN_REASON_LENGTH
        m_Distance := Distance
        m_IsSubstring := IsSubstring } :: others := by
  induction bans with
  | nil => cases h
  | cons b bans ih =>
      unfold Ban
      split
      case isTrue hself =>
        rw [List.filter_cons_of_pos (by simpa using hself)] at h ⊢
        injection h with hb hothers
        rw [hb, hothers]
      case isFalse hother =>
        rw [List.filter_cons_of_neg (by simpa using hother)] at h ⊢
        exact ih h

/-- Without a ban of the name one is added. -/
theorem ban_new {bans : List CNameBan} {pName : List UInt8}
    (h : (bans.filter fun ban => ban.m_aName = pName) = []) (pReason : List UInt8) (Distance : Int)
    (IsSubstring : Bool) :
    Ban decomps bans pName pReason Distance IsSubstring =
      bans ++ [.new decomps pName pReason Distance IsSubstring] := by
  induction bans with
  | nil => rfl
  | cons ban bans ih =>
      have hban : ban.m_aName ≠ pName := by
        intro hself
        rw [List.filter_cons_of_pos (by simpa using hself)] at h
        cases h
      rw [List.filter_cons_of_neg (by simpa using hban)] at h
      unfold Ban
      rw [if_neg hban, ih h]
      rfl

theorem Keyed.ban {bans : List CNameBan} {map : List UInt8 → Option Terms} (h : Keyed decomps bans map)
    {pName : List UInt8} (hwhole : str_copy pName MAX_NAME_LENGTH = pName) (pReason : List UInt8)
    (Distance : Int) (IsSubstring : Bool) :
    Keyed decomps (Ban decomps bans pName pReason Distance IsSubstring)
      (Op.note map (.ban pName pReason Distance IsSubstring)) := by
  intro name
  rw [note_ban]
  by_cases hname : name = pName
  · subst hname
    have hbefore := h name
    rw [Function.update_self]
    cases hmap : map name with
    | none =>
        rw [hmap] at hbefore
        have hnew : CNameBan.new decomps name pReason Distance IsSubstring =
            entry decomps name
              ⟨str_copy pReason MAX_NAMEBAN_REASON_LENGTH, Distance, IsSubstring⟩ := by
          rw [CNameBan.new, hwhole]
          rfl
        rw [ban_new hbefore, List.filter_append, hbefore, hnew]
        simp [entry]
    | some terms =>
        rw [hmap] at hbefore
        exact filter_ban_self hbefore pReason Distance IsSubstring
  · have hne := Ne.symm hname
    rw [Function.update_of_ne hname, filter_ban_of_ne hne (by rw [hwhole]; exact hne)]
    exact h name

theorem Keyed.unban {bans : List CNameBan} {map : List UInt8 → Option Terms}
    (h : Keyed decomps bans map) (pName : List UInt8) :
    Keyed decomps (Unban bans pName) (Op.note map (.unban pName)) := by
  intro name
  rw [note_unban, Unban, List.filter_filter]
  by_cases hname : name = pName
  · subst hname
    rw [Function.update_self]
    exact List.filter_eq_nil_iff.mpr fun ban _ => by simp
  · rw [Function.update_of_ne hname, ← h name]
    refine List.filter_congr fun ban _ => ?_
    by_cases hban : ban.m_aName = name
    · simp [hban, hname]
    · simp [hban]

/-! ## Runs -/

theorem Keyed.apply {bans : List CNameBan} {map : List UInt8 → Option Terms}
    (h : Keyed decomps bans map) {op : Op} (hop : op.Whole) :
    Keyed decomps (op.apply decomps bans) (op.note map) := by
  cases op with
  | ban pName pReason Distance IsSubstring => exact h.ban hop pReason Distance IsSubstring
  | unban pName => exact h.unban pName

/-- A ban of a cut name is not found again. -/
theorem Keyed.whole {bans : List CNameBan} {map : List UInt8 → Option Terms} {op : Op}
    (h : Keyed decomps (op.apply decomps bans) (op.note map))
    (hbans : ∀ ban ∈ bans, str_copy ban.m_aName MAX_NAME_LENGTH = ban.m_aName) : op.Whole := by
  cases op with
  | unban pName => exact trivial
  | ban pName pReason Distance IsSubstring =>
      by_contra hcut
      have hnone : (bans.filter fun ban => ban.m_aName = pName) = [] := by
        refine List.filter_eq_nil_iff.mpr fun ban hban hself => hcut ?_
        rw [← of_decide_eq_true hself]
        exact hbans ban hban
      have hkept := h pName
      rw [show Op.apply decomps bans (.ban pName pReason Distance IsSubstring) = _ from
        ban_new hnone pReason Distance IsSubstring, List.filter_append, hnone] at hkept
      rw [note_ban, Function.update_self] at hkept
      have hne : ¬ (CNameBan.new decomps pName pReason Distance IsSubstring).m_aName = pName := hcut
      rw [List.filter_cons_of_neg (by simpa using hne)] at hkept
      cases hkept

theorem keyed_prefixes_iff {ops : List Op} {bans : List CNameBan} {map : List UInt8 → Option Terms}
    (hkeyed : Keyed decomps bans map)
    (hbans : ∀ ban ∈ bans, str_copy ban.m_aName MAX_NAME_LENGTH = ban.m_aName) :
    (∀ before, before <+: ops →
        Keyed decomps (before.foldl (Op.apply decomps) bans) (before.foldl Op.note map)) ↔
      ∀ op ∈ ops, op.Whole := by
  induction ops generalizing bans map with
  | nil =>
      refine iff_of_true (fun before hbefore => ?_) (List.forall_mem_nil _)
      rw [List.prefix_nil.mp hbefore]
      exact hkeyed
  | cons op ops ih =>
      have hstored (hop : op.Whole) : ∀ ban ∈ op.apply decomps bans,
          str_copy ban.m_aName MAX_NAME_LENGTH = ban.m_aName := by
        refine mem_apply (P := fun name _ => str_copy name MAX_NAME_LENGTH = name) ?_ hbans
        rintro pName pReason Distance IsSubstring rfl
        rw [show str_copy pName MAX_NAME_LENGTH = pName from hop]
        exact hop
      rw [List.forall_mem_cons]
      constructor
      · intro h
        have hop : op.Whole := (h [op] (List.prefix_append [op] ops)).whole hbans
        refine ⟨hop, (ih (hkeyed.apply hop) (hstored hop)).mp fun before hbefore => ?_⟩
        exact h (op :: before) ((List.prefix_cons_inj op).mpr hbefore)
      · rintro ⟨hop, hrest⟩ before hbefore
        rcases List.prefix_cons_iff.mp hbefore with rfl | ⟨front, rfl, hfront⟩
        · exact hkeyed
        · exact (ih (hkeyed.apply hop) (hstored hop)).mpr hrest front hfront

theorem formed_run {ops : List Op} (hops : ∀ op ∈ ops, op.IsText) :
    ∀ ban ∈ run decomps ops, Formed decomps ban := by
  refine List.foldlRecOn (motive := fun bans => ∀ ban ∈ bans, Formed decomps ban) ops
    (Op.apply decomps) (List.forall_mem_nil _) fun bans hbans op hop => ?_
  refine mem_apply (P := fun name skeleton => 0 ∉ name ∧ skeleton = nameSkeleton decomps name) ?_ hbans
  rintro pName pReason Distance IsSubstring rfl
  exact ⟨fun hmem => hops _ hop ((prefix_str_copy pName MAX_NAME_LENGTH).subset hmem), rfl⟩

end

/-- After each change the bans are the map from names exactly if every banned name is stored
whole. -/
theorem behaves_iff (decomps : Decomps) (tolower : Int → Int) {ops : List Op}
    (hops : ∀ op ∈ ops, op.IsText) :
    (∀ before, before <+: ops → Behaves decomps tolower (run decomps before) (noted before)) ↔
      ∀ op ∈ ops, op.Whole := by
  have hempty : Keyed decomps [] fun _ => none := fun _ => rfl
  rw [← keyed_prefixes_iff hempty (List.forall_mem_nil _)]
  refine forall₂_congr fun before hbefore => ⟨fun h => h.keyed, fun h => ⟨h, fun pName hname => ?_⟩⟩
  exact isBanned_spec hname (formed_run fun op hop => hops op (hbefore.subset hop))

/-- `a` is banned twice and taken back. -/
theorem behaves_iff_twice :
    Behaves [] id (run [] [.ban [97] [] 0 false, .ban [97] [98] 1 true, .unban [97]])
      (noted [.ban [97] [] 0 false, .ban [97] [98] 1 true, .unban [97]]) :=
  (behaves_iff [] id (by decide)).mpr (by decide) _ List.prefix_rfl

/-- Sixteen times `a`: it is banned twice with two bans, which stay when it is taken back. -/
theorem not_behaves :
    (∃ before, before <+: [.ban (List.replicate 16 97) [] 0 false,
        .ban (List.replicate 16 97) [] 1 true, .unban (List.replicate 16 97)] ∧
      ¬Behaves [] id (run [] before) (noted before)) ∧
    (run [] [.ban (List.replicate 16 97) [] 0 false, .ban (List.replicate 16 97) [] 1 true,
      .unban (List.replicate 16 97)]).map (fun ban => (ban.m_aName, ban.m_Distance)) =
      [(List.replicate 15 97, 0), (List.replicate 15 97, 1)] := by
  refine ⟨⟨[.ban (List.replicate 16 97) [] 0 false], List.prefix_append _ _, fun h => ?_⟩, ?_⟩
  · have hkept := congrArg List.length (h.keyed (List.replicate 16 97))
    revert hkept
    decide +kernel
  · decide +kernel

end Fex.Engine.NameBans
