import Fex.Lib.Positions
import Mathlib.Data.List.InsertIdx

/-!
# Deleting quads

Model of `DeleteSelectedQuads` and of the action that it records.  Erasing or inserting outside of
the vector is a fault.
-/

namespace Fex.Editor.DeleteQuads

open Fex.Lib

structure CPoint where
  x : Int
  y : Int
  deriving DecidableEq

structure CColor where
  r : Int
  g : Int
  b : Int
  a : Int
  deriving DecidableEq

structure CQuad where
  m_aPoints : List CPoint
  m_aColors : List CColor
  m_aTexcoords : List CPoint
  m_PosEnv : Int
  m_PosEnvOffset : Int
  m_ColorEnv : Int
  m_ColorEnvOffset : Int
  deriving DecidableEq

/-! ## Selection -/

def ToggleSelectQuad (m_vSelectedQuads : List Nat) (Index : Nat) : List Nat :=
  if Index ∈ m_vSelectedQuads then m_vSelectedQuads.erase Index else m_vSelectedQuads ++ [Index]

/-- Distinct indices of quads. -/
structure Selects (n : Nat) (m_vSelectedQuads : List Nat) : Prop where
  distinct : m_vSelectedQuads.Nodup
  inRange : ∀ s ∈ m_vSelectedQuads, s < n

theorem Selects.toggle {n : Nat} {m_vSelectedQuads : List Nat} (h : Selects n m_vSelectedQuads)
    {Index : Nat} (hIndex : Index < n) : Selects n (ToggleSelectQuad m_vSelectedQuads Index) := by
  unfold ToggleSelectQuad
  split
  · exact ⟨h.distinct.erase Index, fun s hs => h.inRange s (List.mem_of_mem_erase hs)⟩
  next hnew =>
    refine ⟨List.nodup_append.mpr ⟨h.distinct, List.nodup_singleton Index, ?_⟩, ?_⟩
    · rintro s hs t ht rfl
      exact hnew (List.mem_singleton.mp ht ▸ hs)
    · intro s hs
      rcases List.mem_append.mp hs with hs | hs
      · exact h.inRange s hs
      · exact List.mem_singleton.mp hs ▸ hIndex

/-! ## The action -/

/-- The loop of `DeleteSelectedQuads`, which takes the first index that is left in each turn. -/
def deleteLoop (m_vQuads : List CQuad) (vDeletedQuads : List CQuad) :
    List Nat → Exec (List CQuad × List CQuad)
  | [] => .ok (m_vQuads, vDeletedQuads)
  | Index :: m_vSelectedQuads =>
      match m_vQuads[Index]? with
      | none => .error .outOfBounds
      | some Quad => do
          let m_vQuads ← eraseAt m_vQuads Index
          deleteLoop m_vQuads (vDeletedQuads ++ [Quad]) (m_vSelectedQuads.map (shifted Index))
  termination_by m_vSelectedQuads => m_vSelectedQuads.length

structure CEditorActionDeleteQuad where
  m_vQuadsIndices : List Nat
  m_vDeletedQuads : List CQuad

/-- The quads that are left and the action that is recorded. -/
def DeleteSelectedQuads (m_vQuads : List CQuad) (m_vSelectedQuads : List Nat) :
    Exec (List CQuad × CEditorActionDeleteQuad) := do
  let deleted ← deleteLoop m_vQuads [] m_vSelectedQuads
  return (deleted.1, ⟨m_vSelectedQuads, deleted.2⟩)

/-- The insertions of `Undo`, each at its index. -/
def insertLoop (m_vQuads : List CQuad) : List (Nat × CQuad) → Exec (List CQuad)
  | [] => .ok m_vQuads
  | (Index, Quad) :: rest => do
      let m_vQuads ← insertAt m_vQuads Index Quad
      insertLoop m_vQuads rest

def CEditorActionDeleteQuad.Undo (a : CEditorActionDeleteQuad) (m_vQuads : List CQuad) :
    Exec (List CQuad) := insertLoop m_vQuads (a.m_vQuadsIndices.zip a.m_vDeletedQuads)

/-- The loop of `Redo`. -/
def eraseLoop (m_vQuads : List CQuad) : List Nat → Exec (List CQuad)
  | [] => .ok m_vQuads
  | Index :: vQuads => do
      let m_vQuads ← eraseAt m_vQuads Index
      eraseLoop m_vQuads (vQuads.map (shifted Index))
  termination_by vQuads => vQuads.length

def CEditorActionDeleteQuad.Redo (a : CEditorActionDeleteQuad) (m_vQuads : List CQuad) :
    Exec (List CQuad) := eraseLoop m_vQuads a.m_vQuadsIndices

/-- The deletion leaves the quads that are not selected, undo restores the list and redo deletes
them again. -/
def Behaves (m_vQuads : List CQuad) (m_vSelectedQuads : List Nat) : Prop :=
  ∃ action, DeleteSelectedQuads m_vQuads m_vSelectedQuads =
      .ok (unselected m_vSelectedQuads 0 m_vQuads, action) ∧
    action.Undo (unselected m_vSelectedQuads 0 m_vQuads) = .ok m_vQuads ∧
    action.Redo m_vQuads = .ok (unselected m_vSelectedQuads 0 m_vQuads)

/-! ## Deletion -/

theorem Selects.shift {n s : Nat} {selected : List Nat} (h : Selects n (s :: selected)) :
    Selects (n - 1) (selected.map (shifted s)) := by
  have hs := (List.nodup_cons.mp h.distinct).1
  refine ⟨nodup_map_shifted hs (List.nodup_cons.mp h.distinct).2, fun t ht => ?_⟩
  obtain ⟨u, hu, rfl⟩ := List.mem_map.mp ht
  have hne : u ≠ s := fun heq => hs (heq ▸ hu)
  have hlt := h.inRange u (List.mem_cons_of_mem s hu)
  have hslt := h.inRange s (List.mem_cons_self ..)
  unfold shifted
  split <;> omega

theorem Selects.length_eraseIdx {quads : List CQuad} {s : Nat} {selected : List Nat}
    (h : Selects quads.length (s :: selected)) :
    Selects (quads.eraseIdx s).length (selected.map (shifted s)) := by
  rw [List.length_eraseIdx_of_lt (h.inRange s (List.mem_cons_self ..))]
  exact h.shift

theorem unselected_nil (quads : List CQuad) (k : Nat) : unselected [] k quads = quads := by
  induction quads generalizing k with
  | nil => rfl
  | cons quad quads ih => rw [unselected, if_neg List.not_mem_nil, ih]

theorem unselected_erased {quads : List CQuad} {s : Nat} {selected : List Nat}
    (h : Selects quads.length (s :: selected)) :
    unselected (selected.map (shifted s)) 0 (quads.eraseIdx s) =
      unselected (s :: selected) 0 quads := by
  have hs : 0 + s ∉ selected := by
    rw [Nat.zero_add]
    exact (List.nodup_cons.mp h.distinct).1
  have herase := unselected_eraseIdx quads hs
  rw [Nat.zero_add] at herase
  exact herase

theorem deleteLoop_eq (n : Nat) : ∀ {quads deleted : List CQuad} {selected : List Nat},
    selected.length = n → Selects quads.length selected →
      ∃ quads', quads'.map some = selected.map (quads[·]?) ∧
        deleteLoop quads deleted selected = .ok (unselected selected 0 quads, deleted ++ quads') := by
  induction n with
  | zero =>
      intro quads deleted selected hn h
      obtain rfl := List.length_eq_zero_iff.mp hn
      refine ⟨[], rfl, ?_⟩
      rw [deleteLoop, unselected_nil, List.append_nil]
  | succ n ih =>
      intro quads deleted selected hn h
      cases selected with
      | nil => cases hn
      | cons s selected =>
          have hs := h.inRange s (List.mem_cons_self ..)
          obtain ⟨quads', hquads', hrest⟩ := @ih _ (deleted ++ [quads[s]]) _
            ((List.length_map ..).trans (Nat.succ.inj hn)) h.length_eraseIdx
          refine ⟨quads[s] :: quads', ?_, ?_⟩
          · rw [List.map_cons, List.map_cons, hquads', List.getElem?_eq_getElem hs, List.map_map]
            congr 1
            refine List.map_congr_left fun t ht => getElem?_eraseIdx_shifted quads ?_
            exact fun heq => (List.nodup_cons.mp h.distinct).1 (heq ▸ ht)
          · rw [deleteLoop, List.getElem?_eq_getElem hs]
            simp only [eraseAt, if_pos hs]
            rw [unselected_erased h, List.append_assoc] at hrest
            exact hrest

theorem eraseLoop_eq (n : Nat) : ∀ {quads : List CQuad} {selected : List Nat},
    selected.length = n → Selects quads.length selected →
      eraseLoop quads selected = .ok (unselected selected 0 quads) := by
  induction n with
  | zero =>
      intro quads selected hn h
      obtain rfl := List.length_eq_zero_iff.mp hn
      rw [eraseLoop, unselected_nil]
  | succ n ih =>
      intro quads selected hn h
      cases selected with
      | nil => cases hn
      | cons s selected =>
          have hs := h.inRange s (List.mem_cons_self ..)
          have hrest := ih ((List.length_map ..).trans (Nat.succ.inj hn)) h.length_eraseIdx
          rw [eraseLoop]
          simp only [eraseAt, if_pos hs]
          rw [unselected_erased h] at hrest
          exact hrest

/-- Only `Undo` depends on the order of the selection. -/
theorem behaves_iff_undo {quads : List CQuad} {selected : List Nat}
    (h : Selects quads.length selected) :
    ∃ deleted, deleted.map some = selected.map (quads[·]?) ∧
      (Behaves quads selected ↔
        insertLoop (unselected selected 0 quads) (selected.zip deleted) = .ok quads) := by
  obtain ⟨deleted, hdeleted, hdelete⟩ := @deleteLoop_eq selected.length _ [] _ rfl h
  refine ⟨deleted, hdeleted, ?_⟩
  have haction : DeleteSelectedQuads quads selected =
      .ok (unselected selected 0 quads, ⟨selected, deleted⟩) := by
    unfold DeleteSelectedQuads
    rw [hdelete]
    rfl
  constructor
  · rintro ⟨action, hselect, hundo, -⟩
    rw [haction] at hselect
    obtain rfl := (Prod.mk.inj (Except.ok.inj hselect)).2
    exact hundo
  · intro hundo
    exact ⟨_, haction, hundo, eraseLoop_eq selected.length rfl h⟩

theorem length_deleted {quads deleted : List CQuad} {selected : List Nat}
    (hdeleted : deleted.map some = selected.map (quads[·]?)) :
    selected.length = deleted.length := by
  have hlength := congrArg List.length hdeleted
  rw [List.length_map, List.length_map] at hlength
  exact hlength.symm

theorem zip_getElem? {quads deleted : List CQuad} {selected : List Nat}
    (hdeleted : deleted.map some = selected.map (quads[·]?)) {p : Nat × CQuad}
    (hp : p ∈ selected.zip deleted) : quads[p.1]? = some p.2 := by
  obtain ⟨i, hi, rfl⟩ := List.mem_iff_getElem.mp hp
  rw [List.length_zip] at hi
  have hget := congrArg (·[i]?) hdeleted
  simp only [List.getElem?_map] at hget
  rw [List.getElem?_eq_getElem (by omega), List.getElem?_eq_getElem (by omega)] at hget
  rw [List.getElem_zip]
  exact (Option.some.inj hget).symm

/-! ## Undo of an ascending selection -/

theorem insertLoop_ascending (rest : List CQuad) {before : List CQuad} {pairs : List (Nat × CQuad)}
    (hascending : (pairs.map Prod.fst).Pairwise (· < ·))
    (hpairs : ∀ p ∈ pairs, before.length ≤ p.1 ∧ rest[p.1 - before.length]? = some p.2) :
    insertLoop (before ++ unselected (pairs.map Prod.fst) before.length rest) pairs =
      .ok (before ++ rest) := by
  induction rest generalizing before pairs with
  | nil =>
      cases pairs with
      | nil => rfl
      | cons p pairs => exact absurd (hpairs p (List.mem_cons_self ..)).2 nofun
  | cons quad rest ih =>
      have hmove : before ++ quad :: rest = before ++ [quad] ++ rest := by simp
      -- the quads selected behind this one
      have hlater : ∀ {later : List (Nat × CQuad)}, (later.map Prod.fst).Pairwise (· < ·) →
          (∀ p ∈ later, before.length < p.1 ∧
            (quad :: rest)[p.1 - before.length]? = some p.2) →
          insertLoop (before ++ [quad] ++ unselected (later.map Prod.fst) (before.length + 1) rest)
            later = .ok (before ++ quad :: rest) := by
        intro later hlater hmem
        have hnext := @ih (before ++ [quad]) _ hlater fun p hp => by
          obtain ⟨hlt, hget⟩ := hmem p hp
          rw [List.length_append, List.length_singleton]
          refine ⟨hlt, ?_⟩
          rw [show p.1 - before.length = p.1 - (before.length + 1) + 1 by omega,
            List.getElem?_cons_succ] at hget
          exact hget
        rw [List.length_append, List.length_singleton] at hnext
        rw [hmove]
        exact hnext
      by_cases hmem : before.length ∈ pairs.map Prod.fst
      · rw [unselected, if_pos hmem]
        cases pairs with
        | nil => cases hmem
        | cons p pairs =>
            obtain ⟨hhead, htail⟩ := List.pairwise_cons.mp hascending
            -- the first of an ascending list is the least
            have hp : p.1 = before.length := by
              rcases List.mem_cons.mp hmem with heq | hin
              · exact heq.symm
              · have := hhead _ hin
                have := (hpairs p (List.mem_cons_self ..)).1
                omega
            have hquad : p.2 = quad := by
              have hget := (hpairs p (List.mem_cons_self ..)).2
              rw [hp, Nat.sub_self] at hget
              exact (Option.some.inj hget).symm
            have hskip : unselected ((p :: pairs).map Prod.fst) (before.length + 1) rest =
                unselected (pairs.map Prod.fst) (before.length + 1) rest := by
              refine unselected_congr rest fun i => ?_
              rw [List.map_cons, List.mem_cons, hp]
              exact or_iff_right (by omega)
            have hfits : before.length ≤
                (before ++ unselected (pairs.map Prod.fst) (before.length + 1) rest).length := by
              rw [List.length_append]
              omega
            rw [hskip]
            obtain ⟨Index, Quad⟩ := p
            obtain rfl : Index = before.length := hp
            obtain rfl : Quad = quad := hquad
            have hbehind := hlater (List.pairwise_cons.mp hascending).2 fun p hp =>
              ⟨hhead p.1 (List.mem_map_of_mem hp), (hpairs p (List.mem_cons_of_mem _ hp)).2⟩
            rw [List.append_assoc, List.singleton_append] at hbehind
            simp only [insertLoop, insertAt, if_pos hfits, insertIdx_append]
            exact hbehind
      · rw [unselected, if_neg hmem]
        have hgap := hlater hascending fun p hp => by
          obtain ⟨hle, hget⟩ := hpairs p hp
          have hne : before.length ≠ p.1 := fun heq => hmem (List.mem_map.mpr ⟨p, hp, heq.symm⟩)
          exact ⟨by omega, hget⟩
        rw [← hgap, List.append_assoc, List.singleton_append]

theorem behaves_of_ascending {quads : List CQuad} {selected : List Nat}
    (h : Selects quads.length selected) (hascending : selected.Pairwise (· < ·)) :
    Behaves quads selected := by
  obtain ⟨deleted, hdeleted, hiff⟩ := behaves_iff_undo h
  have hlength := length_deleted hdeleted
  have hfst : (selected.zip deleted).map Prod.fst = selected :=
    List.map_fst_zip (Nat.le_of_eq hlength)
  have hundo := @insertLoop_ascending quads [] (selected.zip deleted)
    (by rw [hfst]; exact hascending) fun p hp => ⟨Nat.zero_le p.1, zip_getElem? hdeleted hp⟩
  rw [hfst] at hundo
  exact hiff.mpr hundo

/-! ## Undo of another selection -/

theorem insertLoop_cons {p : Nat × CQuad} {pairs : List (Nat × CQuad)} {quads quads' : List CQuad}
    (h : insertLoop quads (p :: pairs) = .ok quads') :
    p.1 ≤ quads.length ∧ insertLoop (quads.insertIdx p.1 p.2) pairs = .ok quads' := by
  simp only [insertLoop, insertAt] at h
  split at h
  next hle => exact ⟨hle, h⟩
  · cases h

/-- Once a quad stands at `k` or later it stays there. -/
theorem insertLoop_absent {pairs : List (Nat × CQuad)} {quads quads' : List CQuad} {k : Nat}
    {Quad : CQuad} (hne : ∀ p ∈ pairs, p.2 ≠ Quad) (h : ∀ j < k, quads[j]? ≠ some Quad)
    (hloop : insertLoop quads pairs = .ok quads') : ∀ j < k, quads'[j]? ≠ some Quad := by
  induction pairs generalizing quads with
  | nil =>
      obtain rfl := Except.ok.inj hloop
      exact h
  | cons p pairs ih =>
      have hinsert := absent_insertIdx (i := p.1) (hne p (List.mem_cons_self ..)) h
      exact ih (fun q hq => hne q (List.mem_cons_of_mem p hq)) hinsert (insertLoop_cons hloop).2

/-- An insertion before a quad moves it away from its place. -/
theorem insertLoop_pushed {pairs : List (Nat × CQuad)} {quads quads' : List CQuad} {k : Nat}
    {Quad : CQuad} (hne : ∀ p ∈ pairs, p.2 ≠ Quad) (h : ∀ j < k, quads[j]? ≠ some Quad)
    (hbefore : ∃ p ∈ pairs, p.1 ≤ k) (hloop : insertLoop quads pairs = .ok quads') :
    quads'[k]? ≠ some Quad := by
  induction pairs generalizing quads with
  | nil =>
      obtain ⟨p, hp, -⟩ := hbefore
      cases hp
  | cons p pairs ih =>
      have hhead := hne p (List.mem_cons_self ..)
      have htail : ∀ q ∈ pairs, q.2 ≠ Quad := fun q hq => hne q (List.mem_cons_of_mem p hq)
      have hrest := (insertLoop_cons hloop).2
      by_cases hle : p.1 ≤ k
      · exact insertLoop_absent htail (absent_insertIdx_succ hhead hle h) hrest k (Nat.lt_succ_self k)
      · obtain ⟨q, hq, hqle⟩ := hbefore
        refine ih htail (absent_insertIdx hhead h) ⟨q, ?_, hqle⟩ hrest
        exact (List.mem_cons.mp hq).resolve_left fun heq => hle (heq ▸ hqle)

/-- The quad before which a later one is inserted is not at its index in the end. -/
theorem insertLoop_misplaced {pairs : List (Nat × CQuad)} {quads quads' : List CQuad}
    (hnot : ¬ (pairs.map Prod.fst).Pairwise (· < ·)) (hsnd : (pairs.map Prod.snd).Nodup)
    (habsent : ∀ p ∈ pairs, p.2 ∉ quads) (hloop : insertLoop quads pairs = .ok quads') :
    ∃ p ∈ pairs, quads'[p.1]? ≠ some p.2 := by
  induction pairs generalizing quads with
  | nil => exact absurd List.Pairwise.nil hnot
  | cons p pairs ih =>
      obtain ⟨hnew, hdistinct⟩ := List.nodup_cons.mp hsnd
      have hne : ∀ q ∈ pairs, q.2 ≠ p.2 := fun q hq heq => hnew (heq ▸ List.mem_map_of_mem hq)
      have hrest := (insertLoop_cons hloop).2
      by_cases hpairs : (pairs.map Prod.fst).Pairwise (· < ·)
      · refine ⟨p, List.mem_cons_self .., insertLoop_pushed hne ?_ ?_ hrest⟩
        · intro j hj
          rw [List.getElem?_insertIdx_of_lt hj]
          exact fun heq => habsent p (List.mem_cons_self ..) (List.mem_of_getElem? heq)
        · rw [List.map_cons, List.pairwise_cons] at hnot
          by_contra hno
          refine hnot ⟨fun s hs => ?_, hpairs⟩
          obtain ⟨q, hq, rfl⟩ := List.mem_map.mp hs
          exact Nat.lt_of_not_le fun hle => hno ⟨q, hq, hle⟩
      · have hnone : ∀ q ∈ pairs, q.2 ∉ quads.insertIdx p.1 p.2 := by
          intro q hq hmem
          rcases List.eq_or_mem_of_mem_insertIdx hmem with heq | hold
          · exact hne q hq heq
          · exact habsent q (List.mem_cons_of_mem p hq) hold
        obtain ⟨q, hq, hget⟩ := ih hpairs hdistinct hnone hrest
        exact ⟨q, List.mem_cons_of_mem p hq, hget⟩

theorem ascending_of_behaves {quads : List CQuad} {selected : List Nat}
    (h : Selects quads.length selected) (hquads : quads.Nodup) (hbehaves : Behaves quads selected) :
    selected.Pairwise (· < ·) := by
  obtain ⟨deleted, hdeleted, hiff⟩ := behaves_iff_undo h
  have hlength := length_deleted hdeleted
  have hdistinct : deleted.Nodup := by
    refine List.Nodup.of_map some ?_
    rw [hdeleted]
    exact h.distinct.map_on fun s hs t _ heq =>
      (List.getElem?_inj (h.inRange s hs) hquads).mp heq
  by_contra hnot
  rw [← List.map_fst_zip (Nat.le_of_eq hlength)] at hnot
  rw [← List.map_snd_zip (Nat.le_of_eq hlength.symm)] at hdistinct
  have habsent : ∀ p ∈ selected.zip deleted, p.2 ∉ unselected selected 0 quads := by
    intro p hp hmem
    obtain ⟨i, hget, hi⟩ := mem_unselected hmem
    have hplace := zip_getElem? hdeleted hp
    have hin := h.inRange p.1 (List.of_mem_zip hp).1
    have heq := (List.getElem?_inj hin hquads).mp (hplace.trans hget.symm)
    rw [Nat.zero_add, ← heq] at hi
    exact hi (List.of_mem_zip hp).1
  obtain ⟨p, hp, hget⟩ := insertLoop_misplaced hnot hdistinct habsent (hiff.mp hbehaves)
  exact hget (zip_getElem? hdeleted hp)

/-! ## The condition -/

def numberedQuad (i : Nat) : CQuad := {
  m_aPoints := List.replicate 5 ⟨i, 0⟩
  m_aColors := List.replicate 4 ⟨255, 255, 255, 255⟩
  m_aTexcoords := [⟨0, 0⟩, ⟨1024, 0⟩, ⟨0, 1024⟩, ⟨1024, 1024⟩]
  m_PosEnv := -1
  m_PosEnvOffset := 0
  m_ColorEnv := -1
  m_ColorEnvOffset := 0
}

/-- Quads that all differ. -/
def numbered (n : Nat) : List CQuad := (List.range n).map numberedQuad

theorem length_numbered (n : Nat) : (numbered n).length = n := by
  rw [numbered, List.length_map, List.length_range]

theorem nodup_numbered (n : Nat) : (numbered n).Nodup := by
  refine List.nodup_range.map_on fun i _ j _ heq => ?_
  have hpoints := congrArg CQuad.m_aPoints heq
  have hpoint : (⟨i, 0⟩ : CPoint) = ⟨j, 0⟩ := (List.cons.inj hpoints).1
  exact Int.ofNat.inj (CPoint.mk.inj hpoint).1

/-- A selection of quads is undone exactly if it was made in ascending order.  With equal quads a
list may come out right in spite of the order. -/
theorem behaves_iff_ascending {quads : List CQuad} {selected : List Nat}
    (h : Selects quads.length selected) :
    ((∀ quads' : List CQuad, quads'.length = quads.length → Behaves quads' selected) ↔
      selected.Pairwise (· < ·)) ∧
    (quads.Nodup → (Behaves quads selected ↔ selected.Pairwise (· < ·))) := by
  have hascending : selected.Pairwise (· < ·) → ∀ quads' : List CQuad,
      quads'.length = quads.length → Behaves quads' selected :=
    fun hsorted quads' hlength => behaves_of_ascending (hlength ▸ h) hsorted
  refine ⟨⟨fun hall => ?_, hascending⟩, fun hquads =>
    ⟨ascending_of_behaves h hquads, fun hsorted => hascending hsorted quads rfl⟩⟩
  have hlength := length_numbered quads.length
  exact ascending_of_behaves (hlength.symm ▸ h) (nodup_numbered _) (hall _ hlength)

theorem behaves_iff_ascending_two :
    Selects 3 [0, 2] ∧ Behaves (numbered 3) [0, 2] := by
  have hselects : Selects (numbered 3).length [0, 2] := ⟨by decide, by decide⟩
  exact ⟨hselects, ((behaves_iff_ascending hselects).2 (nodup_numbered 3)).mpr (by decide)⟩

/-- The last of three quads, then the first: the first insertion is at 2 in a vector of one. -/
theorem not_undone :
    ToggleSelectQuad (ToggleSelectQuad [] 2) 0 = [2, 0] ∧ Selects 3 [2, 0] ∧
      DeleteSelectedQuads (numbered 3) [2, 0] =
        .ok ([numberedQuad 1], ⟨[2, 0], [numberedQuad 2, numberedQuad 0]⟩) ∧
      CEditorActionDeleteQuad.Undo ⟨[2, 0], [numberedQuad 2, numberedQuad 0]⟩ [numberedQuad 1] =
        .error .outOfBounds ∧
      ¬ Behaves (numbered 3) [2, 0] := by
  have hselects : Selects (numbered 3).length [2, 0] := ⟨by decide, by decide⟩
  refine ⟨by decide, hselects, ?_, rfl, fun hbehaves => ?_⟩
  · have hnumbered : numbered 3 = [numberedQuad 0, numberedQuad 1, numberedQuad 2] := rfl
    simp [DeleteSelectedQuads, hnumbered, deleteLoop, eraseAt, shifted, bind, Except.bind, pure,
      Except.pure]
  · exact absurd (ascending_of_behaves hselects (nodup_numbered 3) hbehaves) (by decide)

end Fex.Editor.DeleteQuads
