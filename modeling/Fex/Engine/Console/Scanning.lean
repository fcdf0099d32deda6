import Fex.Base.Characters
import Fex.Engine.Console

/-!
# Escaped text in the two scanners

`ParseArgs` undoes what `str_escape` does.  The scanner for the parts of a line
knows the escaped quote only: a backslash before the closing quote hides that
quote from it.
-/

namespace Fex.Engine.Console

open Fex.Lib Fex.Base Server

/-! ## Escaped text -/

/-- `str_escape` into a buffer with room for every byte. -/
def escape (s : CString) : CString := str_escape (2 * s.length) s

theorem str_escape_room {s : CString} {room : Nat} (hroom : 2 * s.length ≤ room) :
    str_escape room s = s.flatMap fun c => if c = 34 ∨ c = 92 then [92, c] else [c] := by
  induction s generalizing room with
  | nil => rfl
  | cons c s ih =>
      rw [List.length_cons] at hroom
      rw [str_escape, if_neg (by omega), List.flatMap_cons]
      by_cases hspecial : c = 34 ∨ c = 92
      · rw [if_pos hspecial, if_pos (by omega), if_pos hspecial, ih (by omega)]
        rfl
      · rw [if_neg hspecial, if_neg hspecial, ih (by omega)]
        rfl

@[simp] theorem escape_nil : escape [] = [] := rfl

theorem escape_cons (c : UInt8) (s : CString) :
    escape (c :: s) = (if c = 34 ∨ c = 92 then [92, c] else [c]) ++ escape s := by
  rw [escape, escape, str_escape_room (Nat.le_refl _), str_escape_room (Nat.le_refl _),
    List.flatMap_cons]

theorem escape_quote (s : CString) : escape (34 :: s) = 92 :: 34 :: escape s := by
  rw [escape_cons, if_pos (.inl rfl)]
  rfl

theorem escape_backslash (s : CString) : escape (92 :: s) = 92 :: 92 :: escape s := by
  rw [escape_cons, if_pos (.inr rfl)]
  rfl

theorem escape_plain {c : UInt8} (hc : c ≠ 34 ∧ c ≠ 92) (s : CString) :
    escape (c :: s) = c :: escape s := by
  rw [escape_cons, if_neg (not_or.mpr hc)]
  rfl

/-- Escaped text never starts with a quote. -/
theorem escape_head (s : CString) : (escape s).head? ≠ some 34 := by
  cases s with
  | nil => exact nofun
  | cons c s =>
      by_cases hq : c = 34
      · rw [hq, escape_quote]
        exact fun h => absurd (Option.some.inj h) (by decide)
      · by_cases hb : c = 92
        · rw [hb, escape_backslash]
          exact fun h => absurd (Option.some.inj h) (by decide)
        · rw [escape_plain ⟨hq, hb⟩]
          simpa using hq

theorem unquote_plain {c : UInt8} (hc : c ≠ 34 ∧ c ≠ 92) (l : CString) :
    unquote (c :: l) = (unquote l).map fun r => (c :: r.1, r.2) := by
  rw [unquote]
  · exact hc.1
  · exact fun _ h => absurd h hc.2
  · exact fun _ h => absurd h hc.2

theorem unquote_escape (s l : CString) : unquote (escape s ++ 34 :: l) = some (s, l) := by
  induction s with
  | nil => rw [escape_nil, List.nil_append, unquote]
  | cons c s ih =>
      by_cases hq : c = 34
      · rw [hq, escape_quote, List.cons_append, List.cons_append, unquote, ih]
        rfl
      · by_cases hb : c = 92
        · rw [hb, escape_backslash, List.cons_append, List.cons_append, unquote, ih]
          rfl
        · rw [escape_plain ⟨hq, hb⟩, List.cons_append, unquote_plain ⟨hq, hb⟩, ih]
          rfl

/-! ## Finding the end of a part -/

/-- What was scanned already, put before the rest of a part. -/
def prepend (p : CString) (r : CString × Option CString) : CString × Option CString :=
  (p ++ r.1, r.2)

@[simp] theorem prepend_nil (r : CString × Option CString) : prepend [] r = r := rfl

@[simp] theorem prepend_prepend (p q : CString) (r : CString × Option CString) :
    prepend p (prepend q r) = prepend (p ++ q) r := by
  rw [prepend, prepend, prepend, List.append_assoc]

theorem partEnd_quote (InString : Bool) (l : CString) :
    partEnd InString (34 :: l) = prepend [34] (partEnd (!InString) l) := rfl

theorem partEnd_escaped (InString : Bool) (l : CString) :
    partEnd InString (92 :: 34 :: l) = prepend [92, 34] (partEnd InString l) := by
  cases InString <;> rfl

theorem partEnd_other {c : UInt8} {l : CString} (InString : Bool) (hq : c ≠ 34)
    (hb : c = 92 → l.head? ≠ some 34) :
    partEnd InString (c :: l) =
      if InString = false ∧ c = 59 then ([], some l)
      else if InString = false ∧ c = 35 then ([], none)
      else prepend [c] (partEnd InString l) := by
  rw [partEnd]
  · rfl
  · exact hq
  · rintro l' rfl rfl
    exact hb rfl rfl

/-- A separator is behind the part. -/
theorem partEnd_next (InString : Bool) (l : CString) :
    ∀ next, (partEnd InString l).2 = some next → ∃ p, l = p ++ 59 :: next := by
  induction InString, l using partEnd.induct with
  | case1 => exact fun next h => by cases h
  | case2 InString l ih =>
      intro next h
      obtain ⟨p, rfl⟩ := ih next h
      exact ⟨34 :: p, rfl⟩
  | case3 InString l ih =>
      intro next h
      obtain ⟨p, rfl⟩ := ih next h
      exact ⟨92 :: 34 :: p, rfl⟩
  | case4 InString c l h₁ h₂ hsep =>
      intro next h
      rw [partEnd, if_pos hsep] at h
      · cases h
        exact ⟨[], by rw [hsep.2]; rfl⟩
      · exact h₁
      · exact h₂
  | case5 InString c l h₁ h₂ hsep hcomment =>
      intro next h
      rw [partEnd, if_neg hsep, if_pos hcomment] at h
      · cases h
      · exact h₁
      · exact h₂
  | case6 InString c l h₁ h₂ hsep hcomment ih =>
      intro next h
      rw [partEnd, if_neg hsep, if_neg hcomment] at h
      · obtain ⟨p, rfl⟩ := ih next h
        exact ⟨c :: p, rfl⟩
      · exact h₁
      · exact h₂

/-- The text ends with a backslash. -/
def EndsBackslash (s : CString) : Prop := s.getLast? = some 92

instance (s : CString) : Decidable (EndsBackslash s) := inferInstanceAs (Decidable (_ = _))

theorem endsBackslash_cons {c : UInt8} {s : CString} (h : c = 92 → s ≠ []) :
    decide (EndsBackslash (c :: s)) = decide (EndsBackslash s) := by
  apply decide_eq_decide.mpr
  unfold EndsBackslash
  cases s with
  | nil =>
      have hc : c ≠ 92 := fun hc => h hc rfl
      simpa using hc
  | cons d s => rw [List.getLast?_cons_cons]

/-- Escaped text before a quote is not a quote at its start, unless it is empty. -/
theorem escape_append_head {s : CString} (hs : s ≠ []) (l : CString) :
    (escape s ++ l).head? ≠ some 34 := by
  have hne := escape_head s
  obtain ⟨c, s, rfl⟩ := List.exists_cons_of_ne_nil hs
  rw [List.head?_append]
  cases hd : (escape (c :: s)).head? with
  | none =>
      rw [escape_cons] at hd
      split at hd <;> cases hd
  | some x => rwa [hd] at hne

/-- Every quote follows a backslash. -/
def QuotesEscaped (l : CString) : Prop := ∀ p q, l = p ++ 34 :: q → p.getLast? = some 92

theorem QuotesEscaped.cons {c : UInt8} {l : CString} (hl : QuotesEscaped l) (hc : c ≠ 34) :
    QuotesEscaped (c :: l) := by
  intro p q heq
  cases p with
  | nil => exact absurd (List.cons.inj heq).1 hc
  | cons x p =>
      obtain ⟨-, heq⟩ := List.cons.inj heq
      rw [List.getLast?_cons, hl p q heq]
      rfl

theorem QuotesEscaped.escaped {l : CString} (hl : QuotesEscaped l) :
    QuotesEscaped (92 :: 34 :: l) := by
  intro p q heq
  match p, heq with
  | [], heq => cases heq
  | [x], heq =>
      obtain ⟨rfl, -⟩ := List.cons.inj heq
      rfl
  | x :: y :: p, heq =>
      rw [List.getLast?_cons, List.getLast?_cons, hl p q (List.cons.inj (List.cons.inj heq).2).2]
      rfl

theorem quotesEscaped_escape (s : CString) : QuotesEscaped (escape s) := by
  induction s with
  | nil =>
      intro p q heq
      cases p <;> cases heq
  | cons c s ih =>
      by_cases hq : c = 34
      · rw [hq, escape_quote]
        exact ih.escaped
      · by_cases hb : c = 92
        · rw [hb, escape_backslash]
          exact (ih.cons (by decide)).cons (by decide)
        · rw [escape_plain ⟨hq, hb⟩]
          exact ih.cons hq

/-- A quote behind some other byte is not at the start. -/
theorem QuotesEscaped.behind {p t : CString} {c : UInt8} (h : QuotesEscaped (p ++ c :: t))
    (hc : c ≠ 92) : QuotesEscaped t := by
  intro q r heq
  have hlast := h (p ++ c :: q) r (by rw [heq]; simp)
  rw [List.getLast?_append_cons, List.getLast?_cons] at hlast
  cases hq : q.getLast? with
  | none =>
      rw [hq] at hlast
      exact absurd (Option.some.inj hlast) hc
  | some x =>
      rw [hq] at hlast
      exact hlast

/-- Inside a string the scanner passes over escaped text.  It takes the quote behind it for
escaped as well if the text ends with a backslash. -/
theorem partEnd_escape (s l : CString) : partEnd true (escape s ++ 34 :: l) =
    prepend (escape s ++ [34]) (partEnd (decide (EndsBackslash s)) l) := by
  induction s with
  | nil => rfl
  | cons c s ih =>
      by_cases hq : c = 34
      · rw [hq, escape_quote, List.cons_append, List.cons_append, partEnd_escaped, ih,
          prepend_prepend, endsBackslash_cons fun h => absurd h (by decide)]
        rfl
      · by_cases hb : c = 92
        · rw [hb, escape_backslash, List.cons_append, List.cons_append,
            partEnd_other true (by decide) (fun _ => by simp), if_neg (by decide),
            if_neg (by decide)]
          by_cases hs : s = []
          · rw [hs, escape_nil, List.nil_append, partEnd_escaped, prepend_prepend]
            rfl
          · rw [partEnd_other true (by decide) (fun _ => escape_append_head hs _),
              if_neg (by decide), if_neg (by decide), ih, prepend_prepend, prepend_prepend,
              endsBackslash_cons fun _ => hs]
            rfl
        · rw [escape_plain ⟨hq, hb⟩, List.cons_append,
            partEnd_other true hq (fun h => absurd h hb), if_neg (by simp), if_neg (by simp), ih,
            prepend_prepend, endsBackslash_cons (fun h => absurd h hb)]
          rfl

/-- What was passed over, and whether a separator was met before the quote. -/
inductive Scanned (t l : CString) (r : CString × Option CString) : Prop
  | stopped (u : CString) : u <+: t → r.1 = u → Scanned t l r
  | passed : r = prepend (t ++ [34]) (partEnd (!decide (EndsBackslash t)) l) → Scanned t l r

theorem Scanned.prepend {t l p : CString} {r : CString × Option CString} (h : Scanned t l r)
    (hends : decide (EndsBackslash (p ++ t)) = decide (EndsBackslash t)) :
    Scanned (p ++ t) l (prepend p r) := by
  cases h with
  | stopped u hu hr =>
      refine .stopped (p ++ u) ((List.prefix_append_right_inj p).mpr hu) ?_
      rw [Console.prepend, hr]
  | passed hr =>
      apply Scanned.passed
      rw [hr, prepend_prepend, hends, List.append_assoc]

/-- Outside a string the scanner passes over escaped text up to a separator. -/
theorem partEnd_bare {t : CString} (ht : QuotesEscaped t) (l : CString) :
    Scanned t l (partEnd false (t ++ 34 :: l)) := by
  induction hn : t.length using Nat.strongRecOn generalizing t with
  | ind n ih =>
      cases t with
      | nil => exact .passed rfl
      | cons c t =>
          rw [List.length_cons] at hn
          have hq : c ≠ 34 := by
            rintro rfl
            cases ht [] t rfl
          by_cases hb : c = 92
          · subst hb
            cases t with
            | nil => exact .passed (partEnd_escaped false l)
            | cons d t =>
                by_cases hd : d = 34
                · subst hd
                  have htail := ih t.length (by rw [List.length_cons] at hn; omega)
                    (QuotesEscaped.behind (p := [92]) ht (by decide)) rfl
                  rw [List.cons_append, List.cons_append, partEnd_escaped]
                  refine htail.prepend (p := [92, 34]) ?_
                  cases t with
                  | nil => rfl
                  | cons e t =>
                      exact (endsBackslash_cons fun _ => List.cons_ne_nil _ _).trans
                        (endsBackslash_cons fun h => absurd h (by decide))
                · have hd' : QuotesEscaped (d :: t) := by
                    intro p q heq
                    have hlast := ht (92 :: p) q (by rw [heq]; rfl)
                    cases p with
                    | nil => exact absurd (List.cons.inj heq).1 hd
                    | cons x p => rwa [List.getLast?_cons_cons] at hlast
                  have htail := ih (d :: t).length (by omega) hd' rfl
                  rw [List.cons_append, partEnd_other false (by decide) (fun _ => by simpa using hd),
                    if_neg (by decide), if_neg (by decide)]
                  exact htail.prepend (p := [92])
                    (endsBackslash_cons fun _ => List.cons_ne_nil d t)
          · have htail := ih t.length (by omega) (QuotesEscaped.behind (p := []) ht hb) rfl
            rw [List.cons_append, partEnd_other false hq (fun h => absurd h hb)]
            split
            · exact .stopped [] List.nil_prefix rfl
            · split
              · exact .stopped [] List.nil_prefix rfl
              · exact htail.prepend (p := [c]) (endsBackslash_cons fun h => absurd h hb)

end Fex.Engine.Console
