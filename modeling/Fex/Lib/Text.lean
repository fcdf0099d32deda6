import Mathlib.Data.List.Basic

/-!
# Texts with separators

A text is split at a separator in one way only, and the digits of a number
determine it.  This is what makes formatted text unambiguous.
-/

namespace Fex.Lib

/-! ## Digits -/

theorem digitChar_inj {m n : Nat} (hm : m < 16) (hn : n < 16) (h : m.digitChar = n.digitChar) :
    m = n := by
  have hall : ∀ i : Fin 16, ∀ j : Fin 16, i.val.digitChar = j.val.digitChar → i = j := by decide
  exact congrArg Fin.val (hall ⟨m, hm⟩ ⟨n, hn⟩ h)

theorem toDigits_eq_append {b n : Nat} (hb : 1 < b) (hn : b ≤ n) :
    Nat.toDigits b n = Nat.toDigits b (n / b) ++ [(n % b).digitChar] :=
  Nat.toDigits_of_base_le hb hn

theorem toDigits_ne_nil (b n : Nat) : Nat.toDigits b n ≠ [] :=
  List.length_pos_iff.mp Nat.length_toDigits_pos

/-- The digits of a number determine it. -/
theorem toDigits_inj {b : Nat} (hb : 1 < b) (hb' : b ≤ 16) {m n : Nat}
    (h : Nat.toDigits b m = Nat.toDigits b n) : m = n := by
  induction m using Nat.strongRecOn generalizing n with
  | ind m ih =>
      rcases Nat.lt_or_ge m b with hm | hm
      · rcases Nat.lt_or_ge n b with hn | hn
        · rw [Nat.toDigits_of_lt_base hm, Nat.toDigits_of_lt_base hn] at h
          exact digitChar_inj (by omega) (by omega) (List.cons.inj h).1
        · rw [Nat.toDigits_of_lt_base hm, toDigits_eq_append hb hn] at h
          have hlen := congrArg List.length h
          have hpos := Nat.length_toDigits_pos (b := b) (n := n / b)
          simp only [List.length_singleton, List.length_append] at hlen
          omega
      · rcases Nat.lt_or_ge n b with hn | hn
        · rw [Nat.toDigits_of_lt_base hn, toDigits_eq_append hb hm] at h
          have hlen := congrArg List.length h
          have hpos := Nat.length_toDigits_pos (b := b) (n := m / b)
          simp only [List.length_singleton, List.length_append] at hlen
          omega
        · rw [toDigits_eq_append hb hm, toDigits_eq_append hb hn] at h
          obtain ⟨hinit, hlast⟩ := List.append_inj' h rfl
          have hmod : m % b = n % b := by
            have hm' := Nat.mod_lt m (Nat.zero_lt_of_lt hb)
            have hn' := Nat.mod_lt n (Nat.zero_lt_of_lt hb)
            exact digitChar_inj (by omega) (by omega) (List.cons.inj hlast).1
          have hdiv := ih (m / b) (Nat.div_lt_self (by omega) hb) hinit
          rw [← Nat.div_add_mod m b, ← Nat.div_add_mod n b, hdiv, hmod]

theorem mem_toDigits {b n : Nat} (hb : 1 < b) {c : Char} (hc : c ∈ Nat.toDigits b n) :
    ∃ k, k < b ∧ c = k.digitChar := by
  induction n using Nat.strongRecOn with
  | ind n ih =>
      rcases Nat.lt_or_ge n b with hn | hn
      · rw [Nat.toDigits_of_lt_base hn] at hc
        exact ⟨n, hn, List.mem_singleton.mp hc⟩
      · rw [toDigits_eq_append hb hn] at hc
        rcases List.mem_append.mp hc with hc | hc
        · exact ih (n / b) (Nat.div_lt_self (by omega) hb) hc
        · exact ⟨n % b, Nat.mod_lt n (by omega), List.mem_singleton.mp hc⟩

/-! ## Separators -/

section Separator

variable {α : Type} {sep : α}

/-- A text is split at its first separator in one way. -/
theorem append_cons_inj {a b x y : List α} (ha : sep ∉ a) (hb : sep ∉ b)
    (h : a ++ sep :: x = b ++ sep :: y) : a = b ∧ x = y := by
  induction a generalizing b with
  | nil =>
      cases b with
      | nil => exact ⟨rfl, (List.cons.inj h).2⟩
      | cons c b => exact absurd (by rw [(List.cons.inj h).1]; simp) hb
  | cons c a ih =>
      cases b with
      | nil => exact absurd (by rw [← (List.cons.inj h).1]; simp) ha
      | cons d b =>
          obtain ⟨hhead, htail⟩ := List.cons.inj h
          obtain ⟨hab, hxy⟩ := ih (fun hmem => ha (by simp [hmem])) (fun hmem => hb (by simp [hmem])) htail
          exact ⟨by rw [hhead, hab], hxy⟩

/-- Texts joined by a separator. -/
def join (sep : α) : List (List α) → List α
  | [] => []
  | [l] => l
  | l :: ls => l ++ sep :: join sep ls

theorem mem_join {ls : List (List α)} {c : α} (h : c ∈ join sep ls) :
    c = sep ∨ ∃ l ∈ ls, c ∈ l := by
  induction ls with
  | nil => cases h
  | cons l ls ih =>
      cases ls with
      | nil => exact .inr ⟨l, by simp, h⟩
      | cons l' ls =>
          have h' : c ∈ l ++ sep :: join sep (l' :: ls) := h
          rcases List.mem_append.mp h' with hc | hc
          · exact .inr ⟨l, by simp, hc⟩
          · rcases List.mem_cons.mp hc with hc | hc
            · exact .inl hc
            · exact (ih hc).imp id fun ⟨k, hk, hck⟩ => ⟨k, by simp [hk], hck⟩

variable [DecidableEq α]

/-- The parts between the separators. -/
def pieces (sep : α) : List α → List (List α)
  | [] => [[]]
  | c :: l =>
      if c = sep then [] :: pieces sep l
      else
        match pieces sep l with
        | [] => [[c]]
        | p :: ps => (c :: p) :: ps

theorem pieces_ne_nil (l : List α) : pieces sep l ≠ [] := by
  cases l with
  | nil => exact List.cons_ne_nil _ _
  | cons c l =>
      unfold pieces
      split
      · exact List.cons_ne_nil _ _
      · split <;> exact List.cons_ne_nil _ _

theorem pieces_of_notMem {l : List α} (h : sep ∉ l) : pieces sep l = [l] := by
  induction l with
  | nil => rfl
  | cons c l ih =>
      have hc : c ≠ sep := fun heq => h (by simp [heq])
      unfold pieces
      rw [if_neg hc, ih fun hmem => h (by simp [hmem])]

theorem pieces_append_cons (a b : List α) :
    pieces sep (a ++ sep :: b) = pieces sep a ++ pieces sep b := by
  induction a with
  | nil =>
      have hsep : pieces sep (sep :: b) = [] :: pieces sep b := if_pos rfl
      exact hsep
  | cons c a ih =>
      rw [List.cons_append, pieces, pieces, ih]
      by_cases hc : c = sep
      · rw [if_pos hc, if_pos hc]
        rfl
      · rw [if_neg hc, if_neg hc]
        cases hp : pieces sep a with
        | nil => exact absurd hp (pieces_ne_nil a)
        | cons p ps => rfl

theorem pieces_join {ls : List (List α)} (hls : ls ≠ []) (h : ∀ l ∈ ls, sep ∉ l) :
    pieces sep (join sep ls) = ls := by
  induction ls with
  | nil => exact absurd rfl hls
  | cons l ls ih =>
      have hl := pieces_of_notMem (h l (by simp))
      cases ls with
      | nil => exact hl
      | cons l' ls =>
          show pieces sep (l ++ sep :: join sep (l' :: ls)) = _
          rw [pieces_append_cons, hl, ih (List.cons_ne_nil _ _) fun k hk => h k (by simp [hk])]
          rfl

/-! ## Lines behind a separator -/

omit [DecidableEq α]

/-- Each of the lines behind a separator. -/
def behind (sep : α) (ls : List (List α)) : List α := ls.flatMap fun l => sep :: l

theorem behind_cons (l : List α) (ls : List (List α)) :
    behind sep (l :: ls) = sep :: l ++ behind sep ls := List.flatMap_cons

theorem behind_append (ks ls : List (List α)) :
    behind sep (ks ++ ls) = behind sep ks ++ behind sep ls := List.flatMap_append

/-- A cut ends in one of the lines. -/
theorem take_behind {ls : List (List α)} {n : Nat} (hpos : 0 < n) (hle : n ≤ (behind sep ls).length) :
    ∃ ks l ms p, ls = ks ++ l :: ms ∧ p <+: l ∧ (behind sep ls).take n = behind sep (ks ++ [p]) := by
  induction ls generalizing n with
  | nil => exact absurd (Nat.lt_of_lt_of_le hpos hle) (Nat.lt_irrefl 0)
  | cons l ls ih =>
      rw [behind_cons] at hle ⊢
      by_cases hn : n ≤ l.length + 1
      · obtain ⟨m, rfl⟩ := Nat.exists_eq_succ_of_ne_zero (Nat.ne_of_gt hpos)
        refine ⟨[], l, ls, l.take m, rfl, List.take_prefix _ _, ?_⟩
        rw [List.cons_append, List.take_succ_cons,
          List.take_append_of_le_length (Nat.le_of_succ_le_succ hn)]
        exact (List.append_nil _).symm
      · have hsplit : n = (sep :: l).length + (n - (l.length + 1)) := by
          rw [List.length_cons]
          omega
        have hrest : n - (l.length + 1) ≤ (behind sep ls).length := by
          rw [List.length_append, List.length_cons] at hle
          omega
        obtain ⟨ks, k, ms, p, hls, hp, htake⟩ := ih (n := n - (l.length + 1)) (by omega) hrest
        refine ⟨l :: ks, k, ms, p, by rw [hls, List.cons_append], hp, ?_⟩
        rw [hsplit, List.take_length_add_append, htake]
        exact (behind_cons _ _).symm

/-- A text is its first piece and the others behind separators. -/
theorem pieces_spec [DecidableEq α] {s l : List α} {ls : List (List α)}
    (h : pieces sep s = l :: ls) : s = l ++ behind sep ls ∧ ∀ k ∈ l :: ls, sep ∉ k := by
  induction s generalizing l ls with
  | nil =>
      obtain ⟨rfl, rfl⟩ := List.cons.inj h
      exact ⟨rfl, fun k hk => List.mem_singleton.mp hk ▸ List.not_mem_nil⟩
  | cons c s ih =>
      unfold pieces at h
      by_cases hc : c = sep
      · rw [if_pos hc] at h
        obtain ⟨rfl, hls⟩ := List.cons.inj h
        obtain ⟨k, ks, hks⟩ := List.exists_cons_of_ne_nil (@pieces_ne_nil _ sep _ s)
        rw [hks] at hls
        subst hls
        obtain ⟨hs, hnot⟩ := ih hks
        refine ⟨by rw [hc, hs, behind_cons]; rfl, fun m hm => ?_⟩
        rcases List.mem_cons.mp hm with rfl | hm
        · exact List.not_mem_nil
        · exact hnot m hm
      · rw [if_neg hc] at h
        obtain ⟨k, ks, hks⟩ := List.exists_cons_of_ne_nil (@pieces_ne_nil _ sep _ s)
        rw [hks] at h
        obtain ⟨rfl, rfl⟩ := List.cons.inj h
        obtain ⟨hs, hnot⟩ := ih hks
        refine ⟨by rw [List.cons_append, ← hs], fun m hm => ?_⟩
        rcases List.mem_cons.mp hm with rfl | hm
        · intro hmem
          rcases List.mem_cons.mp hmem with heq | hmem
          · exact hc heq.symm
          · exact hnot k List.mem_cons_self hmem
        · exact hnot m (List.mem_cons_of_mem _ hm)

end Separator

end Fex.Lib
