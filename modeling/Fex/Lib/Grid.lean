import Fex.Lib.Cells
import Fex.Lib.Loop

/-!
# Grids

A grid is an array of rows of `w` cells.  Loops over its cells go row by row, the inner and the outer
one with bounds of their own.
-/

namespace Fex.Lib

variable {α β σ : Type*} {w h : Nat}

/-! ## Cells -/

theorem cell_inj {x y x' y' : Nat} (hx : x < w) (hx' : x' < w) :
    y * w + x = y' * w + x' ↔ x = x' ∧ y = y' := by
  constructor
  · intro heq
    have hdiv := congrArg (· / w) heq
    have hmod := congrArg (· % w) heq
    simp only [Nat.mul_comm _ w, Nat.mul_add_div (Nat.zero_lt_of_lt hx), Nat.div_eq_of_lt hx,
      Nat.div_eq_of_lt hx', Nat.mul_add_mod, Nat.mod_eq_of_lt hx, Nat.mod_eq_of_lt hx',
      Nat.add_zero] at hdiv hmod
    exact ⟨hmod, hdiv⟩
  · rintro ⟨rfl, rfl⟩
    rfl

theorem cell_lt {x y : Nat} (hx : x < w) (hy : y < h) : y * w + x < w * h := by
  have hrow : (y + 1) * w ≤ h * w := Nat.mul_le_mul_right w hy
  rw [Nat.add_mul, Nat.one_mul] at hrow
  rw [Nat.mul_comm w h]
  omega

theorem exists_cell {i : Nat} (hi : i < w * h) : ∃ x y, x < w ∧ y < h ∧ i = y * w + x := by
  have hw : 0 < w := Nat.pos_of_ne_zero fun h0 => by simp [h0] at hi
  refine ⟨i % w, i / w, Nat.mod_lt i hw, Nat.div_lt_of_lt_mul hi, ?_⟩
  rw [Nat.mul_comm]
  exact (Nat.div_add_mod i w).symm

theorem grid_ext {l l' : List α} (hl : l.length = w * h) (hl' : l'.length = w * h)
    (heq : ∀ x y, x < w → y < h → l[y * w + x]? = l'[y * w + x]?) : l = l' := by
  refine List.ext_getElem? fun i => ?_
  by_cases hi : i < w * h
  · obtain ⟨x, y, hx, hy, rfl⟩ := exists_cell hi
    exact heq x y hx hy
  · rw [List.getElem?_eq_none (by omega), List.getElem?_eq_none (by omega)]

theorem exists_getElem? {l : List α} (hl : l.length = w * h) {x y : Nat} (hx : x < w) (hy : y < h) :
    ∃ a, l[y * w + x]? = some a :=
  ⟨_, List.getElem?_eq_getElem (by rw [hl]; exact cell_lt hx hy)⟩

/-- The grid with given cells. -/
def tabulate (w h : Nat) (f : Nat → Nat → α) : List α :=
  (List.range (w * h)).map fun i => f (i % w) (i / w)

@[simp] theorem length_tabulate (f : Nat → Nat → α) : (tabulate w h f).length = w * h := by
  rw [tabulate, List.length_map, List.length_range]

theorem getElem?_tabulate {x y : Nat} (hx : x < w) (hy : y < h) (f : Nat → Nat → α) :
    (tabulate w h f)[y * w + x]? = some (f x y) := by
  rw [tabulate, List.getElem?_map, List.getElem?_range (cell_lt hx hy), Option.map_some,
    Nat.mul_comm y w, Nat.mul_add_mod, Nat.mod_eq_of_lt hx,
    Nat.mul_add_div (Nat.zero_lt_of_lt hx), Nat.div_eq_of_lt hx, Nat.add_zero]

/-! ## Loops -/

/-- The inner loop goes over the columns. -/
def forCells (n m : Nat) (f : σ → Nat → Nat → Exec σ) (s : σ) : Exec σ :=
  (List.range' 0 m).foldlM (fun s y => (List.range' 0 n).foldlM (fun s x => f s x y) s) s

/-- The invariant speaks of the cells before `x` in row `y` and of the rows before. -/
theorem forCells_spec {n m : Nat} {f : σ → Nat → Nat → Exec σ} (inv : Nat → Nat → σ → Prop)
    (hstep : ∀ x y s, x < n → y < m → inv x y s → ∃ t, f s x y = .ok t ∧ inv (x + 1) y t)
    (hrow : ∀ y s, y < m → inv n y s → inv 0 (y + 1) s) {s : σ} (hs : inv 0 0 s) :
    ∃ t, forCells n m f s = .ok t ∧ inv 0 m t := by
  have hloop := foldlM_range'_spec (n := m) (fun y s => inv 0 y s) (fun y s _ hy hinv => by
    obtain ⟨t, ht, hend⟩ := foldlM_range'_spec (f := fun s x => f s x y) (n := n)
      (fun x s => inv x y s) (fun x s _ hx => hstep x y s (by omega) (by omega)) hinv
    rw [Nat.zero_add] at hend
    exact ⟨t, ht, hrow y t (by omega) hend⟩) hs
  rw [Nat.zero_add] at hloop
  exact hloop

/-- What each cell keeps whose turn ends holds where the loop ends. -/
theorem forCells_keeps {n m : Nat} {f : σ → Nat → Nat → Exec σ} (inv : Nat → Nat → σ → Prop)
    (hstep : ∀ x y s t, x < n → y < m → inv x y s → f s x y = .ok t → inv (x + 1) y t)
    (hrow : ∀ y s, y < m → inv n y s → inv 0 (y + 1) s) {s t : σ} (hs : inv 0 0 s)
    (h : forCells n m f s = .ok t) : inv 0 m t := by
  have hloop := foldlM_range'_keeps (n := m) (fun y s => inv 0 y s) (fun y s t _ hy hinv hline => by
    have hend := foldlM_range'_keeps (f := fun s x => f s x y) (n := n) (fun x s => inv x y s)
      (fun x s t _ hx => hstep x y s t (by omega) (by omega)) hinv hline
    rw [Nat.zero_add] at hend
    exact hrow y t (by omega) hend) hs h
  rw [Nat.zero_add] at hloop
  exact hloop

/-- A loop that ends had a turn for each cell. -/
theorem forCells_cell {n m : Nat} {f : σ → Nat → Nat → Exec σ} {s t : σ}
    (h : forCells n m f s = .ok t) {x y : Nat} (hx : x < n) (hy : y < m) :
    ∃ s' t', f s' x y = .ok t' := by
  have hall := forCells_keeps
    (fun x y (_ : σ) => ∀ a b, a < n → b < m → b < y ∨ b = y ∧ a < x → ∃ s' t', f s' a b = .ok t')
    (fun x y s' t' _ _ hinv hturn a b ha hb hlt => by
      by_cases hcell : a = x ∧ b = y
      · obtain ⟨rfl, rfl⟩ := hcell
        exact ⟨s', t', hturn⟩
      · exact hinv a b ha hb (by omega))
    (fun y s' _ hinv a b ha hb hlt => hinv a b ha hb (by omega))
    (fun a b _ _ hlt => absurd hlt (by omega)) h
  exact hall x y hx hy (.inl hy)

/-! ## Cells in place -/

/-- `std::swap` of two elements. -/
def swapAt (l : List α) (i j : Nat) : Exec (List α) := do
  let a ← load l i
  let b ← load l j
  store (← store l i b) j a

theorem swapAt_spec {l : List α} {i j : Nat} (hi : i < l.length) (hj : j < l.length) :
    ∃ t, swapAt l i j = .ok t ∧ t.length = l.length ∧
      ∀ k, t[k]? = if k = j then l[i]? else if k = i then l[j]? else l[k]? := by
  refine ⟨(l.set i l[j]).set j l[i], ?_, by simp, fun k => ?_⟩
  · unfold swapAt
    rw [load_eq (List.getElem?_eq_getElem hi), load_eq (List.getElem?_eq_getElem hj)]
    simp only [bind, Except.bind]
    rw [store_eq hi]
    exact store_eq (by rw [List.length_set]; exact hj) _
  · rw [List.getElem?_set, List.getElem?_set, List.length_set]
    by_cases hkj : k = j
    · rw [if_pos hkj, if_pos hkj.symm, if_pos hj, List.getElem?_eq_getElem hi]
    · rw [if_neg hkj, if_neg (Ne.symm hkj)]
      by_cases hki : k = i
      · rw [if_pos hki, if_pos hki.symm, if_pos hi, List.getElem?_eq_getElem hj]
      · rw [if_neg hki, if_neg (Ne.symm hki)]

/-- A cell is replaced by its image. -/
def updateAt (g : α → α) (l : List α) (i : Nat) : Exec (List α) := do
  let a ← load l i
  store l i (g a)

theorem updateAt_spec {g : α → α} {l : List α} {i : Nat} (hi : i < l.length) :
    ∃ t, updateAt g l i = .ok t ∧ t.length = l.length ∧
      ∀ k, t[k]? = if k = i then l[i]?.map g else l[k]? := by
  refine ⟨l.set i (g l[i]), ?_, List.length_set .., fun k => ?_⟩
  · unfold updateAt
    rw [load_eq (List.getElem?_eq_getElem hi)]
    exact store_eq hi _
  · rw [List.getElem?_set]
    by_cases hki : k = i
    · rw [if_pos hki, if_pos hki.symm, if_pos hi, List.getElem?_eq_getElem hi, Option.map_some]
    · rw [if_neg hki, if_neg (Ne.symm hki)]

/-- Each cell is replaced by its image. -/
theorem forCells_updateAt (g : α → α) {l : List α} (hl : l.length = w * h) :
    forCells w h (fun l x y => updateAt g l (y * w + x)) l = .ok (l.map g) := by
  obtain ⟨t, ht, hlength, hget⟩ := forCells_spec
    (f := fun l x y => updateAt g l (y * w + x)) (n := w) (m := h) (s := l)
    (fun x y t => t.length = w * h ∧ ∀ a b, a < w → b < h →
      t[b * w + a]? = if b < y ∨ b = y ∧ a < x then l[b * w + a]?.map g else l[b * w + a]?)
    (fun x y s hx hy ⟨hs, hinv⟩ => by
      obtain ⟨t, ht, hlength, hget⟩ := updateAt_spec (g := g) (l := s) (i := y * w + x)
        (by rw [hs]; exact cell_lt hx hy)
      refine ⟨t, ht, hlength.trans hs, fun a b ha hb => ?_⟩
      by_cases hcell : a = x ∧ b = y
      · obtain ⟨rfl, rfl⟩ := hcell
        rw [hget, if_pos rfl, hinv a b ha hb, if_neg (by omega), if_pos (by omega)]
      · rw [hget, if_neg (mt (cell_inj ha hx).mp hcell), hinv a b ha hb]
        exact if_congr (by omega) rfl rfl)
    (fun y s hy ⟨hs, hinv⟩ => by
      refine ⟨hs, fun a b ha hb => ?_⟩
      rw [hinv a b ha hb]
      exact if_congr (by omega) rfl rfl)
    ⟨hl, fun a b ha hb => by simp⟩
  rw [ht]
  congr 1
  refine grid_ext hlength (by rw [List.length_map, hl]) fun x y hx hy => ?_
  rw [hget x y hx hy, if_pos (.inl hy), List.getElem?_map]

end Fex.Lib
