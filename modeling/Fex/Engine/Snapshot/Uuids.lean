import Fex.Engine.Snapshot
import Fex.Lib.Run

/-!
# The UUID manager

Names are kept in the order of their ids and in the order of their UUIDs.  The
search in the sorted list finds the id of every registered UUID.
-/

namespace Fex.Engine.Snapshot

open Fex.Lib

theorem CUuid.less_iff {a b : CUuid} : a.less b = true ↔ mem_comp a.toList b.toList < 0 :=
  decide_eq_true_iff

theorem CUuid.less_irrefl (a : CUuid) : a.less a = false := by
  rw [Bool.eq_false_iff, ne_eq, CUuid.less_iff, (mem_comp_eq_zero rfl).mpr rfl]
  decide

theorem CUuid.less_trans {a b c : CUuid} (hab : a.less b = true) (hbc : b.less c = true) :
    a.less c = true :=
  CUuid.less_iff.mpr (mem_comp_trans (CUuid.less_iff.mp hab) (CUuid.less_iff.mp hbc))

/-- UUIDs are ordered linearly. -/
theorem CUuid.less_or_eq_of_not {a b : CUuid} (h : a.less b = false) : a = b ∨ b.less a = true := by
  have hlen : a.toList.length = b.toList.length := by
    rw [Vector.length_toList, Vector.length_toList]
  rw [Bool.eq_false_iff, ne_eq, CUuid.less_iff] at h
  by_cases hzero : mem_comp a.toList b.toList = 0
  · exact .inl (Vector.toList_inj.mp ((mem_comp_eq_zero hlen).mp hzero))
  · right
    rw [CUuid.less_iff, mem_comp_swap]
    omega

namespace CUuidManager

/-- The sorted list has every name once, in the order of the UUIDs. -/
structure Indexed (m : CUuidManager) : Prop where
  sorted : m.m_vNamesSorted.Pairwise fun a b => a.m_Uuid.less b.m_Uuid = true
  names : ∀ e, e ∈ m.m_vNamesSorted ↔ ∃ i : Nat, e.m_Id = i ∧ m.m_vNames[i]? = some e.m_Uuid

variable {m : CUuidManager}

/-- The range of an entry is the entry. -/
theorem Indexed.equalRange (h : Indexed m) {e : CNameIndexed} (he : e ∈ m.m_vNamesSorted) :
    m.EqualRange e.m_Uuid = [e] := by
  obtain ⟨as, bs, hsplit⟩ := List.append_of_mem he
  have hsorted := h.sorted
  rw [hsplit, List.pairwise_append, List.pairwise_cons] at hsorted
  obtain ⟨-, ⟨hbs, -⟩, has⟩ := hsorted
  have hdrop : (as ++ e :: bs).dropWhile (fun x => x.m_Uuid.less e.m_Uuid) = e :: bs := by
    rw [List.dropWhile_append_of_pos fun a ha => has a ha e (by simp)]
    exact List.dropWhile_cons_of_neg (by rw [CUuid.less_irrefl]; decide)
  unfold EqualRange
  rw [hsplit, hdrop, List.takeWhile_cons_of_pos (by rw [CUuid.less_irrefl]; rfl)]
  cases bs with
  | nil => rfl
  | cons b bs => rw [List.takeWhile_cons_of_neg (by rw [hbs b (by simp)]; decide)]

/-- A registered UUID is found. -/
theorem Indexed.lookupUuid (h : Indexed m) {Id : Int} {Uuid : CUuid} (hid : m.GetUuid Id = .ok Uuid) :
    m.LookupUuid Uuid = Id := by
  unfold GetUuid at hid
  split at hid
  · cases hid
  · rename_i hge
    cases hget : m.m_vNames[(Id - OFFSET_UUID).toNat]? with
    | none =>
        rw [hget] at hid
        cases hid
    | some u =>
        rw [hget] at hid
        cases hid
        have he := (h.names { m_Uuid := Uuid, m_Id := (Id - OFFSET_UUID).toNat }).mpr ⟨_, rfl, hget⟩
        have hrange := h.equalRange he
        unfold LookupUuid
        rw [hrange]
        simp only
        omega

/-- A UUID that is unknown is not in the list. -/
theorem Indexed.not_mem (h : Indexed m) {Uuid : CUuid} (hunknown : m.LookupUuid Uuid = UUID_UNKNOWN)
    {e : CNameIndexed} (he : e ∈ m.m_vNamesSorted) : e.m_Uuid ≠ Uuid := by
  intro heq
  obtain ⟨i, hi, -⟩ := (h.names e).mp he
  have hrange := h.equalRange he
  rw [heq] at hrange
  unfold LookupUuid at hunknown
  rw [hrange] at hunknown
  simp only [OFFSET_UUID, UUID_UNKNOWN] at hunknown
  omega

theorem Indexed.registerName (h : Indexed m) {Id : Int} {Uuid : CUuid} {m' : CUuidManager}
    (hrun : m.RegisterName Id Uuid = .ok m') : Indexed m' := by
  unfold RegisterName at hrun
  split at hrun
  · cases hrun
  split at hrun
  · cases hrun
  rename_i hid hunknown
  rw [not_not] at hid hunknown
  cases hrun
  have hsplit := List.takeWhile_append_dropWhile
    (p := fun e : CNameIndexed => e.m_Uuid.less Uuid) (l := m.m_vNamesSorted)
  have hsorted := h.sorted
  rw [← hsplit, List.pairwise_append] at hsorted
  obtain ⟨htake, hdrop, hcross⟩ := hsorted
  have hbefore : ∀ e ∈ m.m_vNamesSorted.takeWhile fun e => e.m_Uuid.less Uuid,
      e.m_Uuid.less Uuid = true := fun e he =>
    List.all_eq_true.mp List.all_takeWhile e he
  have hafter : ∀ e ∈ m.m_vNamesSorted.dropWhile fun e => e.m_Uuid.less Uuid,
      Uuid.less e.m_Uuid = true := by
    intro e he
    have hmem : e ∈ m.m_vNamesSorted := by
      rw [← hsplit]
      exact List.mem_append_right _ he
    cases hcons : m.m_vNamesSorted.dropWhile fun e => e.m_Uuid.less Uuid with
    | nil =>
        rw [hcons] at he
        cases he
    | cons x xs =>
        have hx : x ∈ m.m_vNamesSorted := by
          rw [← hsplit, hcons]
          simp
        have hnot : x.m_Uuid.less Uuid = false := by
          have hhead := List.head?_dropWhile_not (fun e : CNameIndexed => e.m_Uuid.less Uuid)
            m.m_vNamesSorted
          rw [hcons] at hhead
          simpa using hhead
        have hless := (CUuid.less_or_eq_of_not hnot).resolve_left (h.not_mem hunknown hx)
        rw [hcons] at he hdrop
        rcases List.mem_cons.mp he with rfl | he
        · exact hless
        · exact CUuid.less_trans hless ((List.pairwise_cons.mp hdrop).1 e he)
  constructor
  · rw [List.pairwise_append, List.pairwise_cons]
    refine ⟨htake, ⟨hafter, hdrop⟩, fun a ha b hb => ?_⟩
    rcases List.mem_cons.mp hb with rfl | hb
    · exact hbefore a ha
    · exact hcross a ha b hb
  · intro e
    have hmem : e ∈ m.m_vNamesSorted ↔ e ∈ (m.m_vNamesSorted.takeWhile fun e => e.m_Uuid.less Uuid) ∨
        e ∈ m.m_vNamesSorted.dropWhile fun e => e.m_Uuid.less Uuid := by
      rw [← List.mem_append, hsplit]
    rw [List.mem_append, List.mem_cons]
    constructor
    · rintro (he | rfl | he)
      · obtain ⟨i, hi, hget⟩ := (h.names e).mp (hmem.mpr (.inl he))
        exact ⟨i, hi, List.getElem?_append_left (List.getElem?_eq_some_iff.mp hget).1 ▸ hget⟩
      · refine ⟨m.m_vNames.length, hid, ?_⟩
        simp
      · obtain ⟨i, hi, hget⟩ := (h.names e).mp (hmem.mpr (.inr he))
        exact ⟨i, hi, List.getElem?_append_left (List.getElem?_eq_some_iff.mp hget).1 ▸ hget⟩
    · rintro ⟨i, hi, hget⟩
      rcases Nat.lt_or_ge i m.m_vNames.length with hlt | hge
      · rw [List.getElem?_append_left hlt] at hget
        rcases hmem.mp ((h.names e).mpr ⟨i, hi, hget⟩) with he | he
        · exact .inl he
        · exact .inr (.inr he)
      · rw [List.getElem?_append_right hge] at hget
        obtain ⟨hlt, hget⟩ := List.getElem?_eq_some_iff.mp hget
        rw [List.length_singleton] at hlt
        have hi' : i = m.m_vNames.length := by omega
        right
        left
        cases e
        simp_all

/-- The managers that registrations lead to. -/
def Registrations (m : CUuidManager) : Prop :=
  Reachable (fun (m : CUuidManager) (c : Int × CUuid) => m.RegisterName c.1 c.2) (fun _ _ => True)
    { m_vNames := [], m_vNamesSorted := [] } m

theorem Registrations.indexed (h : Registrations m) : Indexed m := by
  apply h.invariant
  · exact ⟨List.Pairwise.nil, by simp⟩
  · intro s t c hs _ hstep
    exact hs.registerName hstep

end CUuidManager

end Fex.Engine.Snapshot
