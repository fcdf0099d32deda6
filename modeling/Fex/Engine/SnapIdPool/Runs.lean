import Fex.Engine.SnapIdPool
import Fex.Lib.Run
import Mathlib.Data.List.Perm.Basic

/-!
# Runs of the snapshot id pool

The two lists and the ids in use partition all ids.  `Layout` names the three
parts, each operation moves ids between them, and every run keeps the layout.
-/

namespace Fex.Engine.SnapIdPool

open Fex.Lib

/-- An id as a list field holds it. -/
def ptr : Option Nat → Int
  | none => -1
  | some i => i

/-- The free list, the timed list and the allocated ids. -/
structure Layout (s : CSnapIdPool) (free timed allocated : List Nat) : Prop where
  firstFree : s.m_FirstFree = ptr free.head?
  firstTimed : s.m_FirstTimed = ptr timed.head?
  lastTimed : s.m_LastTimed = ptr timed.getLast?
  freeLinks : Links ptr (fun i => (s.m_aIds i).m_Next) free none
  timedLinks : Links ptr (fun i => (s.m_aIds i).m_Next) timed none
  partition : (free ++ timed ++ allocated).Perm (List.range MAX_IDS)
  freeState : ∀ i ∈ free, (s.m_aIds i).m_State = .ID_FREE
  timedState : ∀ i ∈ timed, (s.m_aIds i).m_State = .ID_TIMED
  allocatedState : ∀ i ∈ allocated, (s.m_aIds i).m_State = .ID_ALLOCATED
  usage : s.m_Usage = (allocated.length + timed.length : Nat)
  inUsage : s.m_InUsage = allocated.length

theorem ptr_ne {xs : List Nat} (h : xs ≠ []) : ptr xs.head? ≠ -1 := by
  cases xs with
  | nil => exact absurd rfl h
  | cons x xs =>
      intro heq
      have hx : (x : Int) = -1 := heq
      omega

theorem wrap16_ptr {xs : List Nat} (h : ∀ x ∈ xs, x < MAX_IDS) :
    wrap16 (ptr xs.head?) = ptr xs.head? := by
  cases xs with
  | nil => rfl
  | cons x xs =>
      have hx : x < 32768 := h x (by simp)
      show wrap16 (x : Int) = x
      unfold wrap16
      omega

@[simp] theorem set_m_aIds_self (s : CSnapIdPool) (i : Nat) (f : CID → CID) :
    (s.set i f).m_aIds i = f (s.m_aIds i) := by
  simp [CSnapIdPool.set]

theorem set_m_aIds_of_ne (s : CSnapIdPool) {i j : Nat} (f : CID → CID) (h : j ≠ i) :
    (s.set i f).m_aIds j = s.m_aIds j := by
  simp [CSnapIdPool.set, h]

/-- Writes that keep the timeout of their id keep all timeouts. -/
theorem set_timeout (s : CSnapIdPool) (i : Nat) (f : CID → CID)
    (hf : ∀ c, (f c).m_Timeout = c.m_Timeout) (j : Nat) :
    ((s.set i f).m_aIds j).m_Timeout = (s.m_aIds j).m_Timeout := by
  by_cases hj : j = i
  · rw [hj, set_m_aIds_self, hf]
  · rw [set_m_aIds_of_ne s f hj]

theorem get_of_lt (s : CSnapIdPool) {i : Nat} (h : i < MAX_IDS) :
    s.get i = .ok (s.m_aIds i) := by
  unfold CSnapIdPool.get
  rw [if_pos ⟨Int.natCast_nonneg i, Int.ofNat_lt.mpr h⟩, Int.toNat_natCast]

namespace Layout

variable {s : CSnapIdPool} {free timed allocated : List Nat}

theorem nodup (h : Layout s free timed allocated) : (free ++ timed ++ allocated).Nodup :=
  h.partition.nodup_iff.mpr List.nodup_range

theorem lt (h : Layout s free timed allocated) {i : Nat} (hi : i ∈ free ++ timed ++ allocated) :
    i < MAX_IDS := List.mem_range.mp (h.partition.mem_iff.mp hi)

theorem mem (h : Layout s free timed allocated) {i : Nat} (hi : i < MAX_IDS) :
    i ∈ free ++ timed ++ allocated := h.partition.mem_iff.mpr (List.mem_range.mpr hi)

theorem length_timed (h : Layout s free timed allocated) : timed.length ≤ MAX_IDS := by
  have hlen := h.partition.length_eq
  rw [List.length_range, List.length_append, List.length_append] at hlen
  omega

/-- The first timed id becomes the first free id. -/
theorem removeFirstTimeout {t : Nat} (h : Layout s free (t :: timed) allocated) :
    ∃ s', s.RemoveFirstTimeout = .ok s' ∧ Layout s' (t :: free) timed allocated ∧
      ∀ i, (s'.m_aIds i).m_Timeout = (s.m_aIds i).m_Timeout := by
  have ht : t < MAX_IDS := h.lt (by simp)
  have hperm : (t :: (free ++ timed) ++ allocated).Perm (free ++ t :: timed ++ allocated) :=
    List.perm_middle.symm.append_right allocated
  have hnot := (List.nodup_cons.mp (hperm.nodup_iff.mpr h.nodup)).1
  have hfirst : s.m_FirstTimed = (t : Int) := h.firstTimed
  obtain ⟨hnext, hlinks⟩ := h.timedLinks
  rw [Option.or_none] at hnext
  have hfree : ∀ i ∈ free, i ≠ t := by
    rintro i hi rfl
    exact hnot (by simp [hi])
  have htimed : ∀ i ∈ timed, i ≠ t := by
    rintro i hi rfl
    exact hnot (by simp [hi])
  have hallocated : ∀ i ∈ allocated, i ≠ t := by
    rintro i hi rfl
    exact hnot (by simp [hi])
  have hwrap : wrap16 s.m_FirstFree = ptr free.head? := by
    rw [h.firstFree]
    exact wrap16_ptr fun i hi => h.lt (by simp [hi])
  unfold CSnapIdPool.RemoveFirstTimeout
  rw [hfirst, get_of_lt s ht]
  refine ⟨_, rfl, ?_, fun i => set_timeout s t (fun c =>
    { c with m_Next := wrap16 s.m_FirstFree, m_State := .ID_FREE }) (fun _ => rfl) i⟩
  constructor
  · exact hfirst
  · exact hnext
  · show (if (s.m_aIds t).m_Next = -1 then -1 else s.m_LastTimed) = ptr timed.getLast?
    rw [show (s.m_aIds t).m_Next = ptr timed.head? from hnext]
    cases timed with
    | nil => rfl
    | cons u us =>
        rw [if_neg (ptr_ne (by simp)), h.lastTimed, List.getLast?_cons_cons]
  · refine ⟨?_, h.freeLinks.congr fun i hi => ?_⟩
    · simp only [set_m_aIds_self, Option.or_none]
      exact hwrap
    · simp only [set_m_aIds_of_ne _ _ (hfree i hi)]
  · apply hlinks.congr
    intro i hi
    simp only [set_m_aIds_of_ne _ _ (htimed i hi)]
  · exact hperm.trans h.partition
  · intro i hi
    rcases List.mem_cons.mp hi with rfl | hi
    · simp only [set_m_aIds_self]
    · simp only [set_m_aIds_of_ne _ _ (hfree i hi)]
      exact h.freeState i hi
  · intro i hi
    simp only [set_m_aIds_of_ne _ _ (htimed i hi)]
    exact h.timedState i (by simp [hi])
  · intro i hi
    simp only [set_m_aIds_of_ne _ _ (hallocated i hi)]
    exact h.allocatedState i hi
  · show s.m_Usage - 1 = _
    rw [h.usage, List.length_cons]
    omega
  · exact h.inUsage

/-- Timed ids that are due move to the free list, from the front up to one that is not. -/
theorem processTimed (due : Int → Bool) {n : Nat} (h : Layout s free timed allocated)
    (hn : timed.length < n) :
    ∃ s' removed timed', CSnapIdPool.ProcessTimed due n s = .ok s' ∧ timed = removed ++ timed' ∧
      Layout s' (removed.reverse ++ free) timed' allocated ∧
      (∀ i ∈ removed, due (s.m_aIds i).m_Timeout = true) ∧
      (∀ i, timed'.head? = some i → due (s.m_aIds i).m_Timeout = false) ∧
      ∀ i, (s'.m_aIds i).m_Timeout = (s.m_aIds i).m_Timeout := by
  induction timed generalizing s free n with
  | nil =>
      obtain ⟨n, rfl⟩ := Nat.exists_eq_add_of_lt hn
      refine ⟨s, [], [], ?_, rfl, h, by simp, by simp, fun i => rfl⟩
      unfold CSnapIdPool.ProcessTimed
      exact if_pos h.firstTimed
  | cons t timed ih =>
      obtain ⟨n, rfl⟩ : ∃ m, n = m + 1 := ⟨n - 1, by omega⟩
      have ht : t < MAX_IDS := h.lt (by simp)
      have hne : s.m_FirstTimed ≠ -1 := by
        rw [h.firstTimed]
        exact ptr_ne (by simp)
      have hfirst : s.m_FirstTimed = (t : Int) := h.firstTimed
      unfold CSnapIdPool.ProcessTimed
      rw [if_neg hne, hfirst, get_of_lt s ht]
      simp only [bind, Except.bind]
      by_cases hdue : due (s.m_aIds t).m_Timeout = true
      · rw [if_pos hdue]
        obtain ⟨s₁, hremove, h₁, htimeout₁⟩ := h.removeFirstTimeout
        obtain ⟨s', removed, timed', hloop, hsplit, h', hall, hhead, htimeout⟩ :=
          ih h₁ (by simpa using hn)
        refine ⟨s', t :: removed, timed', ?_, by rw [hsplit]; rfl, ?_, ?_, ?_, ?_⟩
        · simp only [hremove]
          exact hloop
        · rw [List.reverse_cons, List.append_assoc]
          exact h'
        · intro i hi
          rcases List.mem_cons.mp hi with rfl | hi
          · exact hdue
          · rw [← htimeout₁]
            exact hall i hi
        · intro i hi
          rw [← htimeout₁]
          exact hhead i hi
        · intro i
          rw [htimeout, htimeout₁]
      · rw [if_neg hdue]
        refine ⟨s, [], t :: timed, rfl, rfl, h, by simp, fun i hi => ?_, fun i => rfl⟩
        cases hi
        exact Bool.eq_false_iff.mpr hdue

/-- The first free id is allocated. -/
theorem takeFree {i : Nat} (h : Layout s (i :: free) timed allocated) :
    Layout { CSnapIdPool.set { s with m_FirstFree := (s.m_aIds i).m_Next } i
        fun c => { c with m_State := .ID_ALLOCATED } with
      m_Usage := s.m_Usage + 1, m_InUsage := s.m_InUsage + 1 } free timed (i :: allocated) := by
  obtain ⟨hnext, hlinks⟩ := h.freeLinks
  rw [Option.or_none] at hnext
  have hperm : (free ++ timed ++ i :: allocated).Perm (i :: free ++ timed ++ allocated) :=
    List.perm_middle
  have hnodup : (i :: (free ++ timed ++ allocated)).Nodup := h.nodup
  have hnot := (List.nodup_cons.mp hnodup).1
  have hother : ∀ j, j ∈ free ∨ j ∈ timed ∨ j ∈ allocated → j ≠ i := by
    rintro j hj rfl
    apply hnot
    simp only [List.append_assoc, List.mem_append]
    exact hj
  constructor
  · exact hnext
  · exact h.firstTimed
  · exact h.lastTimed
  · apply hlinks.congr
    intro j hj
    simp only [CSnapIdPool.set, Int.toNat_natCast]
    rw [Function.update_of_ne (hother j (.inl hj))]
  · apply h.timedLinks.congr
    intro j hj
    simp only [CSnapIdPool.set, Int.toNat_natCast]
    rw [Function.update_of_ne (hother j (.inr (.inl hj)))]
  · exact hperm.trans h.partition
  · intro j hj
    simp only [CSnapIdPool.set, Int.toNat_natCast]
    rw [Function.update_of_ne (hother j (.inl hj))]
    exact h.freeState j (by simp [hj])
  · intro j hj
    simp only [CSnapIdPool.set, Int.toNat_natCast]
    rw [Function.update_of_ne (hother j (.inr (.inl hj)))]
    exact h.timedState j hj
  · intro j hj
    simp only [CSnapIdPool.set, Int.toNat_natCast]
    rcases List.mem_cons.mp hj with rfl | hj
    · rw [Function.update_self]
    · rw [Function.update_of_ne (hother j (.inr (.inr hj)))]
      exact h.allocatedState j hj
  · show s.m_Usage + 1 = _
    rw [h.usage, List.length_cons]
    omega
  · show s.m_InUsage + 1 = _
    rw [h.inUsage, List.length_cons]
    omega

/-- The ids that are due become free, then the first free id is handed out, unless there is none. -/
theorem newId_spec (h : Layout s free timed allocated) (Now : Int) :
    ∃ s' Id removed timed', s.NewId Now = .ok (s', Id) ∧ timed = removed ++ timed' ∧
      (∀ i ∈ removed, (s.m_aIds i).m_Timeout < Now) ∧
      (∀ i, timed'.head? = some i → Now ≤ (s.m_aIds i).m_Timeout) ∧
      (∀ i, (s'.m_aIds i).m_Timeout = (s.m_aIds i).m_Timeout) ∧
      ((Id = -1 ∧ removed.reverse ++ free = [] ∧ Layout s' [] timed' allocated) ∨
        ∃ (i : Nat) (free' : List Nat), Id = i ∧ removed.reverse ++ free = i :: free' ∧
          Layout s' free' timed' (i :: allocated)) := by
  have hlen := h.length_timed
  obtain ⟨s₁, removed, timed₁, hloop, hsplit, h₁, hdue, hhead, htimeout⟩ :=
    h.processTimed (fun m_Timeout => m_Timeout < Now) (Nat.lt_succ_of_le hlen)
  have hdue' : ∀ i ∈ removed, (s.m_aIds i).m_Timeout < Now := fun i hi => of_decide_eq_true (hdue i hi)
  have hhead' : ∀ i, timed₁.head? = some i → Now ≤ (s.m_aIds i).m_Timeout := fun i hi =>
    Int.not_lt.mp (of_decide_eq_false (hhead i hi))
  unfold CSnapIdPool.NewId
  simp only [hloop, bind, Except.bind]
  cases hfree : removed.reverse ++ free with
  | nil =>
      rw [hfree] at h₁
      have hfirst : s₁.m_FirstFree = -1 := h₁.firstFree
      rw [if_pos hfirst, hfirst]
      exact ⟨s₁, -1, removed, timed₁, rfl, hsplit, hdue', hhead', htimeout, .inl ⟨rfl, hfree, h₁⟩⟩
  | cons i free₁ =>
      rw [hfree] at h₁
      have hi : i < MAX_IDS := h₁.lt (by simp)
      have hfirst : s₁.m_FirstFree = (i : Int) := h₁.firstFree
      have hne : (i : Int) ≠ -1 := by omega
      rw [hfirst, if_neg hne, get_of_lt s₁ hi]
      refine ⟨_, i, removed, timed₁, rfl, hsplit, hdue', hhead', fun j => ?_,
        .inr ⟨i, free₁, rfl, hfree, h₁.takeFree⟩⟩
      have htake := set_timeout { s₁ with m_FirstFree := (s₁.m_aIds i).m_Next } i
        (fun c => { c with m_State := .ID_ALLOCATED }) (fun _ => rfl) j
      exact htake.trans (htimeout j)

/-- The first free id is handed out, unless there is none. -/
theorem newId (h : Layout s free timed allocated) (Now : Int) :
    ∃ s' Id free' timed', s.NewId Now = .ok (s', Id) ∧
      ((Id = -1 ∧ free = [] ∧ free' = [] ∧ Layout s' free' timed' allocated) ∨
        ∃ i : Nat, Id = i ∧ i < MAX_IDS ∧ i ∉ allocated ∧ Layout s' free' timed' (i :: allocated)) := by
  obtain ⟨s', Id, removed, timed', hnew, -, -, -, -, hcases⟩ := h.newId_spec Now
  rcases hcases with ⟨hId, hnone, h'⟩ | ⟨i, free', hId, -, h'⟩
  · exact ⟨s', Id, [], timed', hnew, .inl ⟨hId, (List.append_eq_nil_iff.mp hnone).2, rfl, h'⟩⟩
  · have hnodup := h'.nodup.of_append_right
    exact ⟨s', Id, free', timed', hnew,
      .inr ⟨i, hId, h'.lt (by simp), (List.nodup_cons.mp hnodup).1, h'⟩⟩

/-- What `FreeId` writes: the id itself and the last timed id. -/
theorem freeId_spec {i : Nat} (h : Layout s free timed allocated) (hi : i ∈ allocated) (Now : Int) :
    ∃ s', s.FreeId Now i = .ok s' ∧ (s'.m_aIds i).m_Next = -1 ∧ (s'.m_aIds i).m_State = .ID_TIMED ∧
      (∀ j, j ≠ i → (s'.m_aIds j).m_State = (s.m_aIds j).m_State) ∧
      (∀ j, j ≠ i → timed.getLast? ≠ some j → (s'.m_aIds j).m_Next = (s.m_aIds j).m_Next) ∧
      (∀ j, timed.getLast? = some j → (s'.m_aIds j).m_Next = i) ∧
      s'.m_FirstFree = s.m_FirstFree ∧ s'.m_FirstTimed = ptr (timed ++ [i]).head? ∧
      s'.m_LastTimed = i ∧ s'.m_Usage = s.m_Usage ∧ s'.m_InUsage = s.m_InUsage - 1 := by
  have hlt : i < MAX_IDS := h.lt (by simp [hi])
  have hstate := h.allocatedState i hi
  unfold CSnapIdPool.FreeId
  rw [if_neg (Int.not_lt.mpr (Int.natCast_nonneg i)), if_neg (not_not.mpr (Int.ofNat_lt.mpr hlt)),
    Int.toNat_natCast, if_neg (not_not.mpr hstate)]
  set s₁ := CSnapIdPool.set { s with m_InUsage := s.m_InUsage - 1 } i fun _ =>
    { m_Next := -1, m_State := .ID_TIMED, m_Timeout := wrap32 (Now + time_freq * 5) } with hs₁
  show ∃ s', s₁.AppendTimed i = .ok s' ∧ _
  unfold CSnapIdPool.AppendTimed
  rcases List.eq_nil_or_concat' timed with rfl | ⟨us, l, rfl⟩
  · have hlast : s₁.m_LastTimed = -1 := h.lastTimed
    rw [if_neg (not_not.mpr hlast)]
    refine ⟨_, rfl, ?_⟩
    simp only [hs₁, CSnapIdPool.set, Int.toNat_natCast, Function.update_self]
    refine ⟨trivial, trivial, fun j hj => ?_, fun j hj _ => ?_, by simp, trivial, rfl, trivial, trivial,
      trivial⟩
    · rw [Function.update_of_ne hj]
    · rw [Function.update_of_ne hj]
  · have hl : l < MAX_IDS := h.lt (by simp)
    have hli : l ≠ i := by
      rintro rfl
      have htimed := h.timedState l (by simp)
      rw [hstate] at htimed
      cases htimed
    have hlast : s.m_LastTimed = (l : Int) := by
      rw [h.lastTimed, List.getLast?_concat]
      rfl
    have hne : (l : Int) ≠ -1 := by omega
    have hwrap : wrap16 (i : Int) = i := by
      have hsmall : i < 32768 := hlt
      unfold wrap16
      omega
    have hget := get_of_lt s₁ hl
    have hlast' : s₁.m_LastTimed = (l : Int) := hlast
    rw [hlast', if_pos hne, hget]
    refine ⟨_, rfl, ?_⟩
    simp only [hs₁, CSnapIdPool.set, Int.toNat_natCast, hwrap, List.getLast?_concat,
      Function.update_of_ne hli.symm, Function.update_self]
    refine ⟨trivial, trivial, fun j hj => ?_, fun j hj hjl => ?_, fun j hj => ?_, trivial, ?_, trivial,
      trivial, trivial⟩
    · by_cases hjl : j = l
      · rw [hjl, Function.update_self, Function.update_of_ne hli]
      · rw [Function.update_of_ne hjl, Function.update_of_ne hj]
    · rw [Function.update_of_ne (fun hjl' => hjl (by rw [hjl'])), Function.update_of_ne hj]
    · rw [← Option.some.inj hj, Function.update_self]
    · rw [h.firstTimed]
      cases us <;> rfl

/-- A freed id becomes the last timed id. -/
theorem freeId {i : Nat} (h : Layout s free timed allocated) (hi : i ∈ allocated) (Now : Int) :
    ∃ s', s.FreeId Now i = .ok s' ∧
      Layout s' free (timed ++ [i]) (allocated.erase i) := by
  obtain ⟨s', hfree, hnext, hstate, hstates, hnexts, hlast, hff, hft, hlt, hu, hiu⟩ :=
    h.freeId_spec hi Now
  have hsplit : (free ++ (timed ++ [i]) ++ allocated.erase i).Perm (free ++ timed ++ allocated) := by
    have hcons := (List.perm_cons_erase hi).symm
    rw [← List.append_assoc, List.append_assoc (free ++ timed)]
    exact hcons.append_left (free ++ timed)
  have hnodup := hsplit.nodup_iff.mpr h.nodup
  rw [List.append_assoc, List.append_assoc, List.nodup_append] at hnodup
  have hdisj := hnodup.2.2
  have hni : ∀ j, j ∈ free → j ≠ i := by
    rintro j hj rfl
    exact hdisj j hj j (by simp) rfl
  have hfl : ∀ j ∈ free, timed.getLast? ≠ some j := by
    intro j hj hlast'
    exact hdisj j hj j (by simp [List.mem_of_getLast? hlast']) rfl
  have hnodup' := hnodup.2.1
  rw [← List.append_assoc] at hnodup'
  have htn := hnodup'.of_append_left
  have hti : ∀ j, j ∈ timed → j ≠ i := by
    rintro j hj rfl
    exact List.disjoint_of_nodup_append htn hj (by simp)
  have hai : ∀ j, j ∈ allocated.erase i → j ≠ i := by
    rintro j hj rfl
    exact List.disjoint_of_nodup_append hnodup' (by simp) hj
  have hlen := List.length_erase_of_mem hi
  have hpos := List.length_pos_of_mem hi
  refine ⟨s', hfree, ?_⟩
  constructor
  · rw [hff]
    exact h.firstFree
  · exact hft
  · rw [hlt, List.getLast?_concat]
    rfl
  · apply h.freeLinks.congr
    intro j hj
    exact hnexts j (hni j hj) (hfl j hj)
  · rw [links_append]
    refine ⟨h.timedLinks.retarget (fun j hj hjl => hnexts j (hti j hj) hjl) hlast
      htn.of_append_left, hnext, trivial⟩
  · exact hsplit.trans h.partition
  · intro j hj
    rw [hstates j (hni j hj)]
    exact h.freeState j hj
  · intro j hj
    rcases List.mem_append.mp hj with hj | hj
    · rw [hstates j (hti j hj)]
      exact h.timedState j hj
    · rw [List.mem_singleton.mp hj]
      exact hstate
  · intro j hj
    rw [hstates j (hai j hj)]
    exact h.allocatedState j (List.mem_of_mem_erase hj)
  · rw [hu, h.usage, List.length_append, List.length_singleton]
    omega
  · rw [hiu, h.inUsage]
    omega

end Layout

theorem links_range (m_aIds : Nat → CID) (k n : Nat) (hn : k + n = MAX_IDS) :
    Links ptr (fun i => (CSnapIdPool.ResetIds m_aIds i).m_Next) (List.range' k n) none := by
  induction n generalizing k with
  | zero => trivial
  | succ n ih =>
      refine ⟨?_, ih (k + 1) (by omega)⟩
      unfold CSnapIdPool.ResetIds
      simp only
      rw [Option.or_none]
      cases n with
      | zero =>
          rw [if_pos (by omega)]
          rfl
      | succ n =>
          have hsmall : k + 1 < 32768 := by
            have hmax : MAX_IDS = 32768 := rfl
            omega
          have hk : ¬ k + 1 = MAX_IDS := by omega
          have hk' : k < MAX_IDS := by omega
          rw [if_neg hk, if_pos hk']
          show wrap16 (k + 1) = ((k + 1 : Nat) : Int)
          unfold wrap16
          omega

/-- After `Reset` every id is free. -/
theorem layout_reset (s : CSnapIdPool) : Layout s.Reset (List.range MAX_IDS) [] [] := by
  have hlinks := links_range s.m_aIds 0 MAX_IDS (Nat.zero_add _)
  rw [← List.range_eq_range'] at hlinks
  have hhead : (List.range MAX_IDS).head? = some 0 := by
    rw [List.head?_range, if_neg (by decide)]
  have hmem : ∀ i ∈ List.range MAX_IDS, i < MAX_IDS := fun i hi => List.mem_range.mp hi
  obtain ⟨ids, hids⟩ : ∃ ids, ids = List.range MAX_IDS := ⟨_, rfl⟩
  rw [← hids] at hlinks hhead hmem ⊢
  constructor
  · rw [hhead]
    rfl
  · rfl
  · rfl
  · exact hlinks
  · trivial
  · rw [List.append_nil, List.append_nil, hids]
  · intro i hi
    show (CSnapIdPool.ResetIds s.m_aIds i).m_State = _
    unfold CSnapIdPool.ResetIds
    simp only [hmem i hi, if_true]
    split <;> rfl
  · simp
  · simp
  · rfl
  · rfl

/-! ## Runs -/

/-- The calls; every call reads the clock. -/
inductive Call
  | NewId (Now : Int)
  | FreeId (Now Id : Int)
  | TimeoutIds
  | Reset

def step (s : CSnapIdPool) : Call → Exec CSnapIdPool
  | .NewId Now => do return (← s.NewId Now).1
  | .FreeId Now Id => s.FreeId Now Id
  | .TimeoutIds => s.TimeoutIds
  | .Reset => .ok s.Reset

/-- Only ids in use are freed. -/
def Allowed (s : CSnapIdPool) : Call → Prop
  | .FreeId _ Id => 0 ≤ Id ∧ Id < MAX_IDS ∧ (s.m_aIds Id.toNat).m_State = .ID_ALLOCATED
  | _ => True

/-- The constructed pool; the memory holds garbage before. -/
def start (mem : CSnapIdPool) : CSnapIdPool := mem.Reset

/-- Both lists are well formed, all ids are in exactly one part, and the counters count them. -/
def PoolInvariant (s : CSnapIdPool) : Prop :=
  ∃ free timed allocated, Layout s free timed allocated

/-- An id that is handed out was not in use and is now; -1 means that no id is free. -/
def HandsOutUnused (s : CSnapIdPool) : Prop :=
  ∀ Now s' Id, s.NewId Now = .ok (s', Id) →
    (Id = -1 ∧ ∀ i < MAX_IDS, (s'.m_aIds i).m_State ≠ .ID_FREE) ∨
    (0 ≤ Id ∧ Id < MAX_IDS ∧ (s.m_aIds Id.toNat).m_State ≠ .ID_ALLOCATED ∧
      (s'.m_aIds Id.toNat).m_State = .ID_ALLOCATED)

namespace Layout

variable {s : CSnapIdPool} {free timed allocated : List Nat}

theorem allocated_iff (h : Layout s free timed allocated) {i : Nat} (hi : i < MAX_IDS) :
    (s.m_aIds i).m_State = .ID_ALLOCATED ↔ i ∈ allocated := by
  constructor
  · intro hstate
    rcases List.mem_append.mp (h.mem hi) with hmem | hmem
    · rcases List.mem_append.mp hmem with hmem | hmem
      · rw [h.freeState i hmem] at hstate
        cases hstate
      · rw [h.timedState i hmem] at hstate
        cases hstate
    · exact hmem
  · exact h.allocatedState i

theorem free_iff (h : Layout s free timed allocated) {i : Nat} (hi : i < MAX_IDS) :
    (s.m_aIds i).m_State = .ID_FREE ↔ i ∈ free := by
  constructor
  · intro hstate
    rcases List.mem_append.mp (h.mem hi) with hmem | hmem
    · rcases List.mem_append.mp hmem with hmem | hmem
      · exact hmem
      · rw [h.timedState i hmem] at hstate
        cases hstate
    · rw [h.allocatedState i hmem] at hstate
      cases hstate
  · exact h.freeState i

theorem handsOutUnused (h : Layout s free timed allocated) : HandsOutUnused s := by
  intro Now s' Id hnew
  obtain ⟨s₁, Id₁, free', timed', hnew', hcases⟩ := h.newId Now
  rw [hnew] at hnew'
  cases hnew'
  rcases hcases with ⟨rfl, -, rfl, h'⟩ | ⟨i, rfl, hi, hnot, h'⟩
  · left
    refine ⟨rfl, fun i hi hstate => ?_⟩
    exact absurd ((h'.free_iff hi).mp hstate) (by simp)
  · right
    refine ⟨Int.natCast_nonneg i, Int.ofNat_lt.mpr hi, ?_, ?_⟩
    · rw [Int.toNat_natCast]
      exact fun hstate => hnot ((h.allocated_iff hi).mp hstate)
    · rw [Int.toNat_natCast]
      exact h'.allocatedState i (by simp)

theorem step (h : Layout s free timed allocated) {c : Call} (hc : Allowed s c) :
    ∃ t, SnapIdPool.step s c = .ok t ∧ PoolInvariant t := by
  cases c with
  | NewId Now =>
      obtain ⟨s', Id, free', timed', hnew, hcases⟩ := h.newId Now
      refine ⟨s', ?_, ?_⟩
      · simp only [SnapIdPool.step, hnew, bind, Except.bind]
        rfl
      · rcases hcases with ⟨-, -, -, h'⟩ | ⟨i, -, -, -, h'⟩
        · exact ⟨_, _, _, h'⟩
        · exact ⟨_, _, _, h'⟩
  | FreeId Now Id =>
      obtain ⟨hpos, hlt, hstate⟩ := hc
      obtain ⟨i, rfl⟩ := Int.eq_ofNat_of_zero_le hpos
      obtain ⟨t, hfree, h'⟩ := h.freeId ((h.allocated_iff (Int.ofNat_lt.mp hlt)).mp hstate) Now
      exact ⟨t, hfree, _, _, _, h'⟩
  | TimeoutIds =>
      have hlen := h.length_timed
      obtain ⟨t, removed, timed', hloop, -, h', -⟩ :=
        h.processTimed (fun _ => true) (Nat.lt_succ_of_le hlen)
      exact ⟨t, hloop, _, _, _, h'⟩
  | Reset => exact ⟨s.Reset, rfl, _, _, _, layout_reset s⟩

end Layout

/-- The pool in every run that frees only ids in use. -/
theorem snap_id_pool_runs {mem s : CSnapIdPool} (h : Reachable step Allowed (start mem) s) :
    PoolInvariant s ∧ HandsOutUnused s ∧ ∀ c, Allowed s c → ∃ t, step s c = .ok t := by
  have hinv : PoolInvariant s := by
    apply h.invariant
    · exact ⟨_, _, _, layout_reset mem⟩
    · rintro s t c ⟨free, timed, allocated, hs⟩ hc hstep
      obtain ⟨t', hstep', ht'⟩ := hs.step hc
      rw [hstep] at hstep'
      rw [Except.ok.inj hstep']
      exact ht'
  obtain ⟨free, timed, allocated, hs⟩ := hinv
  refine ⟨⟨free, timed, allocated, hs⟩, hs.handsOutUnused, fun c hc => ?_⟩
  obtain ⟨t, hstep, -⟩ := hs.step hc
  exact ⟨t, hstep⟩

/-- Memory of zeros. -/
def zeroed : CSnapIdPool :=
  { m_aIds := fun _ => { m_Next := 0, m_State := .ID_FREE, m_Timeout := 0 }, m_FirstFree := 0
    m_FirstTimed := 0, m_LastTimed := 0, m_Usage := 0, m_InUsage := 0 }

/-- An id is handed out and freed, and another one is handed out. -/
theorem snap_id_pool_runs_small : ∃ s, Reachable step Allowed (start zeroed) s ∧
    s.m_Usage = 2 ∧ s.m_InUsage = 1 ∧ PoolInvariant s ∧ HandsOutUnused s := by
  have h₀ : Reachable step Allowed (start zeroed) (start zeroed) := .init
  have hrun : ∃ s, Reachable step Allowed (start zeroed) s ∧ s.m_Usage = 2 ∧ s.m_InUsage = 1 := by
    have h₁ := Reachable.next (Call.NewId 7) h₀ trivial rfl
    have h₂ := Reachable.next (Call.FreeId 7 0) h₁ ⟨by decide, by decide, rfl⟩ rfl
    have h₃ := Reachable.next (Call.NewId 8) h₂ trivial rfl
    exact ⟨_, h₃, rfl, rfl⟩
  obtain ⟨s, h, husage, hinUsage⟩ := hrun
  have hpool := snap_id_pool_runs h
  exact ⟨s, h, husage, hinUsage, hpool.1, hpool.2.1⟩

end Fex.Engine.SnapIdPool

/-!
## When freed ids return

`m_Timeout` is an `int`, the clock is not.  As long as the expiry of every freed id
fits the field, the timed list is in the order of expiry and an id rests for five
seconds; the first expiry that does not fit breaks this.
-/

namespace Fex.Engine.SnapIdPool

open Fex.Lib

/-- How long a freed id rests. -/
def restTime : Int := time_freq * 5

/-- The pool, the clock and the time of the last `FreeId` of every id. -/
structure Clocked where
  pool : CSnapIdPool
  now : Int
  freed : Nat → Option Int

namespace Clocked

def start (mem : CSnapIdPool) (now : Int) : Clocked :=
  { pool := SnapIdPool.start mem, now, freed := fun _ => none }

/-- The calls of a run, with what `time_get` returns. -/
inductive Call
  | NewId (Now : Int)
  | FreeId (Now Id : Int)

def Call.time : Call → Int
  | .NewId Now => Now
  | .FreeId Now _ => Now

def step (c : Clocked) : Call → Exec Clocked
  | .NewId Now => do
      let (pool, _) ← c.pool.NewId Now
      return { c with pool, now := Now }
  | .FreeId Now Id => do
      let pool ← c.pool.FreeId Now Id
      return { pool, now := Now,
               freed := if Id < 0 then c.freed else Function.update c.freed Id.toNat (some Now) }

/-- The clock does not go back, and the expiry of a freed id is an `int`. -/
def Meets (c : Clocked) (call : Call) : Prop :=
  c.now ≤ call.time ∧
    match call with
    | .NewId _ => True
    | .FreeId Now Id => 0 ≤ Id → IsInt32 (Now + restTime)

/-- Ids on the timed list expire five seconds after they were freed and in the order of the list;
ids on the free list have expired. -/
structure Inv (c : Clocked) (free timed allocated : List Nat) : Prop where
  layout : Layout c.pool free timed allocated
  expiry : ∀ i ∈ timed, ∃ t, c.freed i = some t ∧ t ≤ c.now ∧
    (c.pool.m_aIds i).m_Timeout = t + restTime
  order : timed.Pairwise fun i j => (c.pool.m_aIds i).m_Timeout ≤ (c.pool.m_aIds j).m_Timeout
  rested : ∀ i ∈ free, ∀ t, c.freed i = some t → t + restTime < c.now

variable {c : Clocked} {free timed allocated : List Nat}

theorem inv_start (mem : CSnapIdPool) (now : Int) :
    Inv (start mem now) (List.range MAX_IDS) [] [] where
  layout := layout_reset mem
  expiry _ hi := absurd hi List.not_mem_nil
  order := .nil
  rested _ _ _ ht := by cases ht

/-- What `NewId` does: an id it returns has rested, and one that has rested is no longer timed. -/
theorem Inv.newId (h : Inv c free timed allocated) {Now : Int} (hNow : c.now ≤ Now) :
    ∃ pool Id free' timed' allocated', c.pool.NewId Now = .ok (pool, Id) ∧
      Inv { c with pool, now := Now } free' timed' allocated' ∧
      (∀ (i : Nat) t, Id = i → c.freed i = some t → t + restTime < Now) ∧
      ∀ i ∈ timed, ∀ t, c.freed i = some t → t + restTime < Now → i ∈ free' ∨ Id = i := by
  obtain ⟨pool, Id, removed, timed', hnew, rfl, hdue, hhead, htimeout, hcases⟩ :=
    h.layout.newId_spec Now
  have hrested : ∀ i ∈ removed.reverse ++ free, ∀ t, c.freed i = some t → t + restTime < Now := by
    intro i hi t ht
    rcases List.mem_append.mp hi with hi | hi
    · have hi' := List.mem_reverse.mp hi
      obtain ⟨t', ht', -, hexpiry⟩ := h.expiry i (List.mem_append_left timed' hi')
      rw [ht] at ht'
      cases ht'
      rw [← hexpiry]
      exact hdue i hi'
    · exact Int.lt_of_lt_of_le (h.rested i hi t ht) hNow
  -- the list is in order, so that nothing behind a first one that is not due is due
  have hlater : ∀ i ∈ timed', Now ≤ (c.pool.m_aIds i).m_Timeout := by
    have horder := (List.pairwise_append.mp h.order).2.1
    intro i hi
    cases timed' with
    | nil => cases hi
    | cons j timed' =>
        have hj := hhead j rfl
        rcases List.mem_cons.mp hi with rfl | hi
        · exact hj
        · exact Int.le_trans hj ((List.pairwise_cons.mp horder).1 i hi)
  have hexpiry : ∀ i ∈ timed', ∃ t, c.freed i = some t ∧ t ≤ Now ∧
      (pool.m_aIds i).m_Timeout = t + restTime := by
    intro i hi
    obtain ⟨t, ht, hle, heq⟩ := h.expiry i (List.mem_append_right removed hi)
    exact ⟨t, ht, Int.le_trans hle hNow, (htimeout i).trans heq⟩
  have horder : timed'.Pairwise fun i j => (pool.m_aIds i).m_Timeout ≤ (pool.m_aIds j).m_Timeout := by
    simp only [htimeout]
    exact (List.pairwise_append.mp h.order).2.1
  have hmoved : ∀ i ∈ removed ++ timed', ∀ t, c.freed i = some t → t + restTime < Now →
      i ∈ removed.reverse ++ free := by
    intro i hi t ht hpast
    rcases List.mem_append.mp hi with hi | hi
    · exact List.mem_append_left free (List.mem_reverse.mpr hi)
    · obtain ⟨t', ht', -, heq⟩ := h.expiry i (List.mem_append_right removed hi)
      rw [ht] at ht'
      cases ht'
      have hnot := hlater i hi
      omega
  rcases hcases with ⟨hId, hnone, hlayout⟩ | ⟨i, free', hId, hfirst, hlayout⟩
  · rw [hnone] at hmoved
    refine ⟨pool, Id, [], timed', allocated, hnew, ⟨hlayout, hexpiry, horder, ?_⟩, ?_, ?_⟩
    · exact fun i hi => absurd hi List.not_mem_nil
    · intro i t hi
      omega
    · exact fun i hi t ht hpast => .inl (hmoved i hi t ht hpast)
  · rw [hfirst] at hrested hmoved
    refine ⟨pool, Id, free', timed', i :: allocated, hnew, ⟨hlayout, hexpiry, horder, ?_⟩, ?_, ?_⟩
    · exact fun j hj => hrested j (List.mem_cons_of_mem i hj)
    · intro j t hj
      have hij : j = i := by omega
      rw [hij]
      exact hrested i List.mem_cons_self t
    · intro j hj t ht hpast
      rcases List.mem_cons.mp (hmoved j hj t ht hpast) with rfl | hfree
      · exact .inr hId
      · exact .inl hfree

end Clocked

/-- `FreeId` stores the expiry in the field of the id. -/
theorem freeId_timeout {s s' : CSnapIdPool} {Now : Int} {i : Nat} (h : s.FreeId Now i = .ok s') :
    (s'.m_aIds i).m_Timeout = wrap32 (Now + restTime) ∧
      ∀ j, j ≠ i → (s'.m_aIds j).m_Timeout = (s.m_aIds j).m_Timeout := by
  unfold CSnapIdPool.FreeId at h
  rw [if_neg (Int.not_lt.mpr (Int.natCast_nonneg i))] at h
  split at h
  · cases h
  split at h
  · cases h
  obtain ⟨s₁, hs₁⟩ : ∃ s₁, s₁ = CSnapIdPool.set { s with m_InUsage := s.m_InUsage - 1 } i fun _ =>
    { m_Next := -1, m_State := .ID_TIMED, m_Timeout := wrap32 (Now + time_freq * 5) } := ⟨_, rfl⟩
  have happend : s₁.AppendTimed i = .ok s' := by
    rw [hs₁]
    exact h
  have htimeout : ∀ j, (s'.m_aIds j).m_Timeout = (s₁.m_aIds j).m_Timeout := by
    intro j
    unfold CSnapIdPool.AppendTimed at happend
    split at happend
    · unfold CSnapIdPool.get at happend
      split at happend
      next hlast =>
        obtain ⟨l, hl⟩ := Int.eq_ofNat_of_zero_le hlast.1
        rw [hl] at happend
        cases happend
        exact set_timeout s₁ l (fun c => { c with m_Next := wrap16 i }) (fun _ => rfl) j
      next => cases happend
    · cases happend
      rfl
  constructor
  · rw [htimeout, hs₁, set_m_aIds_self]
    rfl
  · intro j hj
    rw [htimeout, hs₁, set_m_aIds_of_ne _ _ hj]

namespace Clocked

variable {c : Clocked} {free timed allocated : List Nat}

theorem Inv.freeId (h : Inv c free timed allocated) {i : Nat} (hi : i ∈ allocated) {Now : Int}
    (hNow : c.now ≤ Now) (hfits : IsInt32 (Now + restTime)) :
    ∃ pool, c.pool.FreeId Now i = .ok pool ∧
      Inv { pool, now := Now, freed := Function.update c.freed i (some Now) } free (timed ++ [i])
        (allocated.erase i) := by
  obtain ⟨pool, hfree, hlayout⟩ := h.layout.freeId hi Now
  obtain ⟨hself, hother⟩ := freeId_timeout hfree
  rw [wrap32_of_isInt32 hfits] at hself
  have hnodup := h.layout.nodup
  have hfreeNe : ∀ j ∈ free, j ≠ i := by
    rintro j hj rfl
    exact List.disjoint_of_nodup_append hnodup (List.mem_append_left timed hj) hi
  have htimedNe : ∀ j ∈ timed, j ≠ i := by
    rintro j hj rfl
    exact List.disjoint_of_nodup_append hnodup (List.mem_append_right free hj) hi
  refine ⟨pool, hfree, hlayout, ?_, ?_, ?_⟩
  · intro j hj
    rcases List.mem_append.mp hj with hj | hj
    · obtain ⟨t, ht, hle, heq⟩ := h.expiry j hj
      refine ⟨t, ?_, Int.le_trans hle hNow, (hother j (htimedNe j hj)).trans heq⟩
      exact (Function.update_of_ne (htimedNe j hj) _ _).trans ht
    · rw [List.mem_singleton.mp hj]
      exact ⟨Now, Function.update_self _ _ _, Int.le_refl Now, hself⟩
  · rw [List.pairwise_append]
    refine ⟨?_, List.pairwise_singleton _ _, ?_⟩
    · apply h.order.imp_of_mem
      intro j k hj hk hle
      rw [hother j (htimedNe j hj), hother k (htimedNe k hk)]
      exact hle
    · intro j hj k hk
      obtain ⟨t, -, hle, heq⟩ := h.expiry j hj
      rw [List.mem_singleton.mp hk, hself, hother j (htimedNe j hj), heq]
      omega
  · intro j hj t ht
    have hne := hfreeNe j hj
    have ht' : c.freed j = some t := (Function.update_of_ne hne _ _).symm.trans ht
    exact Int.lt_of_lt_of_le (h.rested j hj t ht') hNow

/-- Every call that meets the condition keeps the order of expiry. -/
theorem Inv.step {d : Clocked} (h : Inv c free timed allocated) {call : Call} (hmeets : Meets c call)
    (hstep : c.step call = .ok d) : ∃ free' timed' allocated', Inv d free' timed' allocated' := by
  obtain ⟨hNow, hfits⟩ := hmeets
  cases call with
  | NewId Now =>
      obtain ⟨pool, Id, free', timed', allocated', hnew, hinv, -, -⟩ := @Inv.newId _ _ _ _ h Now hNow
      unfold Clocked.step at hstep
      simp only [hnew] at hstep
      cases hstep
      exact ⟨free', timed', allocated', hinv⟩
  | FreeId Now Id =>
      unfold Clocked.step at hstep
      by_cases hneg : Id < 0
      · have hskip : c.pool.FreeId Now Id = .ok c.pool := if_pos hneg
        simp only [hskip, if_pos hneg] at hstep
        cases hstep
        refine ⟨free, timed, allocated, h.layout, ?_, h.order, ?_⟩
        · intro i hi
          obtain ⟨t, ht, hle, heq⟩ := h.expiry i hi
          exact ⟨t, ht, Int.le_trans hle hNow, heq⟩
        · exact fun i hi t ht => Int.lt_of_lt_of_le (h.rested i hi t ht) hNow
      · obtain ⟨i, rfl⟩ := Int.eq_ofNat_of_zero_le (Int.not_lt.mp hneg)
        have hi : i ∈ allocated := by
          cases hfree : c.pool.FreeId Now i with
          | error e =>
              simp only [hfree] at hstep
              cases hstep
          | ok pool =>
              unfold CSnapIdPool.FreeId at hfree
              rw [if_neg hneg] at hfree
              split at hfree
              · cases hfree
              next hlt =>
                split at hfree
                · cases hfree
                next hstate =>
                  exact (h.layout.allocated_iff (Int.ofNat_lt.mp (not_not.mp hlt))).mp
                    (not_not.mp hstate)
        obtain ⟨pool, hfree, hinv⟩ := @Inv.freeId _ _ _ _ h i hi Now hNow (hfits (Int.natCast_nonneg i))
        simp only [hfree, if_neg hneg] at hstep
        cases hstep
        exact ⟨_, _, _, hinv⟩

end Clocked

/-- In runs in which every expiry fits its field a freed id is not returned within five seconds,
and behind them `NewId` moves it to the free list, from where it may be the id returned. -/
theorem freed_ids_rest {mem : CSnapIdPool} {now : Int} {c : Clocked}
    (h : Reachable Clocked.step Clocked.Meets (Clocked.start mem now) c) (Now : Int)
    (hNow : c.now ≤ Now) :
    ∃ pool Id, c.pool.NewId Now = .ok (pool, Id) ∧
      (∀ (i : Nat) t, Id = i → c.freed i = some t → t + time_freq * 5 ≤ Now) ∧
      ∀ (i : Nat) t, i < MAX_IDS → (c.pool.m_aIds i).m_State = .ID_TIMED → c.freed i = some t →
        t + time_freq * 5 < Now → (pool.m_aIds i).m_State = .ID_FREE ∨ Id = i := by
  have hinv : ∃ free timed allocated, Clocked.Inv c free timed allocated := by
    apply h.invariant
    · exact ⟨_, _, _, Clocked.inv_start mem now⟩
    · rintro s t call ⟨free, timed, allocated, hs⟩ hmeets hstep
      exact hs.step hmeets hstep
  obtain ⟨free, timed, allocated, hc⟩ := hinv
  obtain ⟨pool, Id, free', timed', allocated', hnew, hafter, hearly, hpast⟩ := hc.newId hNow
  refine ⟨pool, Id, hnew, fun i t hId ht => Int.le_of_lt (hearly i t hId ht), ?_⟩
  intro i t hi hstate ht hexpired
  have htimed : i ∈ timed := by
    rcases List.mem_append.mp (hc.layout.mem hi) with hmem | hmem
    · rcases List.mem_append.mp hmem with hmem | hmem
      · rw [hc.layout.freeState i hmem] at hstate
        cases hstate
      · exact hmem
    · rw [hc.layout.allocatedState i hmem] at hstate
      cases hstate
  rcases hpast i htimed t ht hexpired with hfree | hId
  · exact .inl (hafter.layout.freeState i hfree)
  · exact .inr hId

/-- An id that is freed six seconds before the clock is zero. -/
theorem freed_ids_rest_small :
    ∃ c, Reachable Clocked.step Clocked.Meets (Clocked.start zeroed (-6000000000)) c ∧
      c.freed 0 = some (-6000000000) ∧ ∃ pool Id, c.pool.NewId (-900000000) = .ok (pool, Id) ∧
        ((pool.m_aIds 0).m_State = .ID_FREE ∨ Id = 0) := by
  have h₀ : Reachable Clocked.step Clocked.Meets (Clocked.start zeroed (-6000000000))
      (Clocked.start zeroed (-6000000000)) := .init
  have h₁ := Reachable.next (.NewId (-6000000000)) h₀ ⟨by decide, trivial⟩ rfl
  have h₂ := Reachable.next (.FreeId (-6000000000) 0) h₁ ⟨by decide, fun _ => by decide⟩ rfl
  refine ⟨_, h₂, rfl, ?_⟩
  obtain ⟨pool, Id, hnew, -, hpast⟩ := freed_ids_rest h₂ (-900000000) (by decide)
  exact ⟨pool, Id, hnew, hpast 0 (-6000000000) (by decide) rfl rfl (by decide)⟩

/-- An id freed at time zero is returned 0.8 seconds later. -/
theorem freed_id_returns_early :
    ∃ c, Reachable Clocked.step (fun c call => c.now ≤ call.time) (Clocked.start zeroed 0) c ∧
      c.freed 0 = some 0 ∧ c.now ≤ 800000000 ∧
      (∃ pool, c.pool.NewId 800000000 = .ok (pool, (0 : Nat))) ∧
      ¬ (0 : Int) + time_freq * 5 ≤ 800000000 := by
  have h₀ : Reachable Clocked.step (fun c call => c.now ≤ call.time) (Clocked.start zeroed 0)
      (Clocked.start zeroed 0) := .init
  have h₁ := Reachable.next (.NewId 0) h₀ (by decide) rfl
  have h₂ := Reachable.next (.FreeId 0 0) h₁ (by decide) rfl
  exact ⟨_, h₂, rfl, by decide, ⟨_, rfl⟩, by decide⟩

end Fex.Engine.SnapIdPool
