import Fex.Lib.Grid

/-!
# Histories of changed cells

A history keeps for each cell of a grid that was changed what it held before the first change and
what it holds after the last one.  Writing the first values back undoes all changes and writing the
last ones repeats them.
-/

namespace Fex.Lib

variable {σ δ : Type*}

/-- The changes of a cell, merged. -/
structure Change (δ : Type*) where
  y : Nat
  x : Nat
  m_Previous : δ
  m_Current : δ

namespace Change

def IsAt (c : Change δ) (y x : Nat) : Bool := c.y == y && c.x == x

/-- The position of the cell in a grid with rows of `w` cells. -/
def cell (w : Nat) (c : Change δ) : Nat := c.y * w + c.x

theorem isAt_iff {c : Change δ} {y x : Nat} : c.IsAt y x = true ↔ c.y = y ∧ c.x = x := by
  rw [IsAt, Bool.and_eq_true, beq_iff_eq, beq_iff_eq]

end Change

/-- A change of a cell that was changed before replaces its last value only. -/
def record (y x : Nat) (Previous Current : δ) (history : List (Change δ)) : List (Change δ) :=
  if history.any (·.IsAt y x) then
    history.map fun c => if c.IsAt y x then { c with m_Current := Current } else c
  else history ++ [⟨y, x, Previous, Current⟩]

/-! ## Histories of a state -/

section
variable {get : σ → Nat → Option δ} {w : Nat}

/-- The history of the changes that lead from `base` to `s`. -/
structure Tracks (get : σ → Nat → Option δ) (w : Nat) (base s : σ) (history : List (Change δ)) :
    Prop where
  inRow : ∀ c ∈ history, c.x < w
  previous : ∀ c ∈ history, get base (c.cell w) = some c.m_Previous
  current : ∀ c ∈ history, get s (c.cell w) = some c.m_Current
  same : ∀ i, get s i = get base i ∨ ∃ c ∈ history, c.cell w = i

/-- One cell has another value. -/
structure Writes (get : σ → Nat → Option δ) (s t : σ) (i : Nat) (d : δ) : Prop where
  written : get t i = some d
  others : ∀ j, j ≠ i → get t j = get s j

theorem Tracks.nil (base : σ) : Tracks get w base base [] :=
  ⟨nofun, nofun, nofun, fun _ => .inl rfl⟩

theorem Tracks.record {base s t : σ} {history : List (Change δ)} {y x : Nat}
    {Previous Current : δ} (h : Tracks get w base s history) (hx : x < w)
    (hprevious : get s (y * w + x) = some Previous) (hwrites : Writes get s t (y * w + x) Current) :
    Tracks get w base t (record y x Previous Current history) := by
  -- entries at other positions are for other cells
  have hother : ∀ c ∈ history, ¬ c.IsAt y x = true → c.cell w ≠ y * w + x := by
    intro c hc hat heq
    have hpos := (cell_inj (h.inRow c hc) hx).mp heq
    exact hat (Change.isAt_iff.mpr ⟨hpos.2, hpos.1⟩)
  have hcell : ∀ {c : Change δ}, c.IsAt y x = true → c.cell w = y * w + x := by
    intro c hat
    obtain ⟨hy, hx'⟩ := Change.isAt_iff.mp hat
    rw [Change.cell, hy, hx']
  unfold Fex.Lib.record
  by_cases hany : history.any (·.IsAt y x) = true
  · rw [if_pos hany]
    refine ⟨fun c hc => ?_, fun c hc => ?_, fun c hc => ?_, fun i => ?_⟩
    · obtain ⟨old, hold, rfl⟩ := List.mem_map.mp hc
      split
      · exact h.inRow old hold
      · exact h.inRow old hold
    · obtain ⟨old, hold, rfl⟩ := List.mem_map.mp hc
      split
      · exact h.previous old hold
      · exact h.previous old hold
    · obtain ⟨old, hold, rfl⟩ := List.mem_map.mp hc
      split
      next hat =>
        have hold := hcell hat
        exact (congrArg (get t) hold).trans hwrites.written
      next hat => exact (hwrites.others _ (hother old hold hat)).trans (h.current old hold)
    · obtain ⟨old, hold, hat⟩ := List.any_eq_true.mp hany
      by_cases hi : i = y * w + x
      · refine .inr ⟨_, List.mem_map_of_mem hold, ?_⟩
        rw [if_pos hat, hi]
        exact hcell hat
      · rw [hwrites.others i hi]
        rcases h.same i with hsame | ⟨c, hc, hcell'⟩
        · exact .inl hsame
        · refine .inr ⟨_, List.mem_map_of_mem hc, ?_⟩
          rw [if_neg fun hat => hi (hcell'.symm.trans (hcell hat))]
          exact hcell'
  · rw [if_neg hany]
    have hnone : ∀ c ∈ history, ¬ c.IsAt y x = true := by
      intro c hc hat
      exact hany (List.any_eq_true.mpr ⟨c, hc, hat⟩)
    have hbase : get base (y * w + x) = some Previous := by
      rcases h.same (y * w + x) with hsame | ⟨c, hc, hcell'⟩
      · exact hsame.symm.trans hprevious
      · exact absurd hcell' (hother c hc (hnone c hc))
    refine ⟨fun c hc => ?_, fun c hc => ?_, fun c hc => ?_, fun i => ?_⟩
    · rcases List.mem_append.mp hc with hc | hc
      · exact h.inRow c hc
      · rw [List.mem_singleton.mp hc]
        exact hx
    · rcases List.mem_append.mp hc with hc | hc
      · exact h.previous c hc
      · rw [List.mem_singleton.mp hc]
        exact hbase
    · rcases List.mem_append.mp hc with hc | hc
      · exact (hwrites.others _ (hother c hc (hnone c hc))).trans (h.current c hc)
      · rw [List.mem_singleton.mp hc]
        exact hwrites.written
    · by_cases hi : i = y * w + x
      · exact .inr ⟨_, List.mem_append_right history (List.mem_singleton_self _), hi.symm⟩
      · rw [hwrites.others i hi]
        rcases h.same i with hsame | ⟨c, hc, hcell'⟩
        · exact .inl hsame
        · exact .inr ⟨c, List.mem_append_left _ hc, hcell'⟩

/-! ## Writing a history back -/

/-- The previous values undo, the current ones repeat. -/
def Change.value (Undo : Bool) (c : Change δ) : δ := if Undo then c.m_Previous else c.m_Current

/-- The values of a history are written one after the other. -/
def writeBack (put : σ → Nat → Nat → δ → Exec σ) (Undo : Bool) (history : List (Change δ))
    (s : σ) : Exec σ := history.foldlM (fun s c => put s c.y c.x (c.value Undo)) s

/-- Each write succeeds and changes one cell, and the cells that differ from the target are written
with its values. -/
theorem writeBack_spec {put : σ → Nat → Nat → δ → Exec σ} (inv : σ → Prop) {Undo : Bool}
    {target : Nat → Option δ} (history : List (Change δ)) :
    (∀ c ∈ history, ∀ s, inv s → ∃ t, put s c.y c.x (c.value Undo) = .ok t ∧ inv t ∧
      Writes get s t (c.cell w) (c.value Undo)) →
    (∀ c ∈ history, target (c.cell w) = some (c.value Undo)) →
    ∀ {s : σ}, inv s → (∀ i, get s i = target i ∨ ∃ c ∈ history, c.cell w = i) →
      ∃ t, writeBack put Undo history s = .ok t ∧ inv t ∧ ∀ i, get t i = target i := by
  induction history with
  | nil =>
      intro _ _ s hs htarget
      refine ⟨s, rfl, hs, fun i => ?_⟩
      rcases htarget i with heq | ⟨c, hc, -⟩
      · exact heq
      · cases hc
  | cons c history ih =>
      intro hput hvalues s hs htarget
      obtain ⟨hc, hputs⟩ := List.forall_mem_cons.mp hput
      obtain ⟨hvalue, hvalues⟩ := List.forall_mem_cons.mp hvalues
      obtain ⟨t, ht, hinv, hwrites⟩ := hc s hs
      obtain ⟨u, hu, hinvu, hall⟩ := ih hputs hvalues hinv fun i => by
        by_cases hi : i = c.cell w
        · left
          rw [hi, hwrites.written, hvalue]
        · rw [hwrites.others i hi]
          rcases htarget i with heq | ⟨c', hc', hcell⟩
          · exact .inl heq
          · rcases List.mem_cons.mp hc' with rfl | hc'
            · exact absurd hcell.symm hi
            · exact .inr ⟨c', hc', hcell⟩
      refine ⟨u, ?_, hinvu, hall⟩
      rw [writeBack, List.foldlM_cons, ht]
      exact hu

theorem Tracks.undo {put : σ → Nat → Nat → δ → Exec σ} (inv : σ → Prop) {base s : σ}
    {history : List (Change δ)} (h : Tracks get w base s history)
    (hput : ∀ c ∈ history, ∀ s d, inv s → ∃ t, put s c.y c.x d = .ok t ∧ inv t ∧
      Writes get s t (c.cell w) d) (hs : inv s) :
    ∃ t, writeBack put true history s = .ok t ∧ inv t ∧ ∀ i, get t i = get base i :=
  writeBack_spec inv history (fun c hc s hs => hput c hc s c.m_Previous hs) h.previous hs h.same

theorem Tracks.redo {put : σ → Nat → Nat → δ → Exec σ} (inv : σ → Prop) {base s u : σ}
    {history : List (Change δ)} (h : Tracks get w base s history)
    (hput : ∀ c ∈ history, ∀ s d, inv s → ∃ t, put s c.y c.x d = .ok t ∧ inv t ∧
      Writes get s t (c.cell w) d) (hu : inv u) (hbase : ∀ i, get u i = get base i) :
    ∃ t, writeBack put false history u = .ok t ∧ inv t ∧ ∀ i, get t i = get s i := by
  refine writeBack_spec inv history (fun c hc s hs => hput c hc s c.m_Current hs) h.current hu
    fun i => ?_
  rw [hbase]
  exact (h.same i).imp Eq.symm id

end

end Fex.Lib
