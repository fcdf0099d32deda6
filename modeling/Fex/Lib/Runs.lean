import Mathlib.Data.List.Basic

/-!
# Runs of bounded length

A list is cut into runs of elements with one key, each of a bounded length: an element
extends the run in progress or closes it.
-/

namespace Fex.Lib

section

variable {α κ : Type} (key : α → κ) (maxLength : Nat)

/-- A run: some elements, not too many, with one key. -/
structure IsRun (run : List α) : Prop where
  nonempty : run ≠ []
  length : run.length ≤ maxLength
  key : ∀ x ∈ run, ∀ y ∈ run, key x = key y

/-- The closed runs are runs and the one in progress is empty or one that is not full. -/
structure RunState (s : List (List α) × List α) : Prop where
  closed : ∀ run ∈ s.1, IsRun key maxLength run
  length : s.2.length < maxLength
  key : ∀ x ∈ s.2, ∀ y ∈ s.2, key x = key y

variable {key maxLength}

theorem isRun_singleton (hmax : 0 < maxLength) (x : α) : IsRun key maxLength [x] := by
  refine ⟨List.cons_ne_nil _ _, hmax, fun y hy z hz => ?_⟩
  rw [List.mem_singleton.mp hy, List.mem_singleton.mp hz]

theorem RunState.isRun {s : List (List α) × List α} (h : RunState key maxLength s)
    (hne : s.2 ≠ []) : IsRun key maxLength s.2 :=
  ⟨hne, Nat.le_of_lt h.length, h.key⟩

/-- The run in progress and one more element with its key. -/
theorem RunState.isRun_append {s : List (List α) × List α} (h : RunState key maxLength s) {x y : α}
    (hy : y ∈ s.2) (hkey : key y = key x) : IsRun key maxLength (s.2 ++ [x]) := by
  have hall : ∀ z ∈ s.2 ++ [x], key z = key x := by
    intro z hz
    rcases List.mem_append.mp hz with hz | hz
    · exact (h.key z hz y hy).trans hkey
    · rw [List.mem_singleton.mp hz]
  refine ⟨by simp, ?_, fun z hz w hw => (hall z hz).trans (hall w hw).symm⟩
  have hlength := h.length
  rw [List.length_append, List.length_singleton]
  omega

variable [DecidableEq κ]

variable (key) in
/-- One more element: it extends the run in progress or closes it. -/
def extendRun (s : List (List α) × List α) (x : α) : List (List α) × List α :=
  match s.2.getLast? with
  | none => (s.1, [x])
  | some y => if key y = key x then (s.1, s.2 ++ [x]) else (s.1 ++ [s.2], [x])

variable (maxLength) in
/-- A run that is full is closed. -/
def closeFull (s : List (List α) × List α) : List (List α) × List α :=
  if maxLength ≤ s.2.length then (s.1 ++ [s.2], []) else s

variable (key maxLength) in
/-- The closed runs and the one in progress after one more element. -/
def addRun (s : List (List α) × List α) (x : α) : List (List α) × List α :=
  closeFull maxLength (extendRun key s x)

/-- The last run is closed at the end. -/
def closeRuns (s : List (List α) × List α) : List (List α) :=
  if s.2.isEmpty then s.1 else s.1 ++ [s.2]

variable (key maxLength) in
def runs (l : List α) : List (List α) := closeRuns (l.foldl (addRun key maxLength) ([], []))

theorem flatten_addRun (s : List (List α) × List α) (x : α) :
    (addRun key maxLength s x).1.flatten ++ (addRun key maxLength s x).2 =
      s.1.flatten ++ s.2 ++ [x] := by
  have hclose : ∀ s : List (List α) × List α,
      (closeFull maxLength s).1.flatten ++ (closeFull maxLength s).2 = s.1.flatten ++ s.2 := by
    intro s
    unfold closeFull
    split <;> simp
  unfold addRun extendRun
  rw [hclose]
  cases hlast : s.2.getLast? with
  | none =>
      rw [List.getLast?_eq_none_iff.mp hlast]
      simp
  | some y =>
      simp only
      split <;> simp

theorem mem_of_mem_extendRun {s : List (List α) × List α} {x y : α}
    (h : y ∈ (extendRun key s x).2) : y ∈ s.2 ∨ y = x := by
  unfold extendRun at h
  split at h
  · exact .inr (List.mem_singleton.mp h)
  · split at h
    · rcases List.mem_append.mp h with h | h
      · exact .inl h
      · exact .inr (List.mem_singleton.mp h)
    · exact .inr (List.mem_singleton.mp h)

theorem mem_of_mem_addRun {s : List (List α) × List α} {x y : α}
    (h : y ∈ (addRun key maxLength s x).2) : y ∈ s.2 ∨ y = x := by
  unfold addRun closeFull at h
  split at h
  · exact absurd h List.not_mem_nil
  · exact mem_of_mem_extendRun h

/-- The run that was extended may be full. -/
theorem RunState.extendRun {s : List (List α) × List α} (h : RunState key maxLength s) (x : α) :
    (∀ run ∈ (extendRun key s x).1, IsRun key maxLength run) ∧
      IsRun key maxLength (extendRun key s x).2 := by
  have hmax : 0 < maxLength := Nat.lt_of_le_of_lt (Nat.zero_le _) h.length
  unfold Lib.extendRun
  cases hlast : s.2.getLast? with
  | none => exact ⟨h.closed, isRun_singleton hmax x⟩
  | some y =>
      have hy : y ∈ s.2 := List.mem_of_getLast? hlast
      simp only
      by_cases hkey : key y = key x
      · rw [if_pos hkey]
        exact ⟨h.closed, h.isRun_append hy hkey⟩
      · rw [if_neg hkey]
        refine ⟨fun r hr => ?_, isRun_singleton hmax x⟩
        rcases List.mem_append.mp hr with hr | hr
        · exact h.closed r hr
        · rw [List.mem_singleton.mp hr]
          exact h.isRun (List.ne_nil_of_mem hy)

theorem RunState.addRun {s : List (List α) × List α} (h : RunState key maxLength s)
    (x : α) : RunState key maxLength (addRun key maxLength s x) := by
  have hmax : 0 < maxLength := Nat.lt_of_le_of_lt (Nat.zero_le _) h.length
  obtain ⟨hclosed, hrun⟩ := h.extendRun x
  unfold Lib.addRun closeFull
  split
  · refine ⟨fun r hr => ?_, hmax, fun _ hy => absurd hy List.not_mem_nil⟩
    rcases List.mem_append.mp hr with hr | hr
    · exact hclosed r hr
    · rw [List.mem_singleton.mp hr]
      exact hrun
  next hlt => exact ⟨hclosed, Nat.lt_of_not_le hlt, hrun.key⟩

theorem runState_foldl (hmax : 0 < maxLength) (l : List α) :
    RunState key maxLength (l.foldl (addRun key maxLength) ([], [])) := by
  have hstart : RunState key maxLength (([], []) : List (List α) × List α) :=
    ⟨fun _ hrun => absurd hrun List.not_mem_nil, hmax,
      fun _ hx => absurd hx List.not_mem_nil⟩
  have hall : ∀ s, RunState key maxLength s → RunState key maxLength (l.foldl (addRun key maxLength) s) := by
    induction l with
    | nil => exact fun s h => h
    | cons x l ih => exact fun s h => ih _ (h.addRun x)
  exact hall _ hstart

/-- The runs are the list, cut into runs. -/
theorem flatten_runs (l : List α) : (runs key maxLength l).flatten = l := by
  have hall : ∀ s, (l.foldl (addRun key maxLength) s).1.flatten ++
      (l.foldl (addRun key maxLength) s).2 = s.1.flatten ++ s.2 ++ l := by
    induction l with
    | nil => intro s; simp
    | cons x l ih =>
        intro s
        rw [List.foldl_cons, ih, flatten_addRun]
        simp
  unfold runs closeRuns
  have hfold := hall ([], [])
  split
  next hempty =>
    rw [List.isEmpty_iff.mp hempty] at hfold
    simpa using hfold
  · simpa using hfold

theorem isRun_of_mem_runs (hmax : 0 < maxLength) {l run : List α}
    (h : run ∈ runs key maxLength l) : IsRun key maxLength run := by
  have hstate := @runState_foldl _ _ key _ _ hmax l
  unfold runs closeRuns at h
  split at h
  · exact hstate.closed run h
  next hne =>
    rcases List.mem_append.mp h with h | h
    · exact hstate.closed run h
    · rw [List.mem_singleton.mp h]
      exact hstate.isRun fun hnil => hne (List.isEmpty_iff.mpr hnil)

end

end Fex.Lib
