import Fex.Lib.Json

/-!
# Texts of known trees

What is known of a JSON text that has a tree: one lemma for each production says how the value was
read.  A string that is read as its own bytes up to its quote has nothing to escape.
-/

namespace Fex.Lib.Json

variable {s s' rest : List UInt8} {x : Json}

/-! ## Values -/

theorem readValue_pos {fuel : Nat} (h : readValue fuel s = some (x, rest)) :
    ∃ fuel', fuel = fuel' + 1 := by
  cases fuel with
  | zero => cases h
  | succ fuel => exact ⟨fuel, rfl⟩

theorem readValue_of_parse (h : parse s = some x) :
    ∃ fuel rest, readValue fuel s = some (x, rest) := by
  unfold parse at h
  split at h
  case h_1 y rest hread =>
    split at h
    case isTrue =>
      obtain rfl := Option.some.inj h
      exact ⟨_, rest, hread⟩
    case isFalse => cases h
  case h_2 => cases h

/-- A value that needs no fuel below it is the one that was read. -/
theorem eq_of_reads {x' : Json} (hx : Reads 1 s x' s') {fuel : Nat}
    (h : readValue fuel s = some (x, rest)) : x = x' ∧ rest = s' := by
  obtain ⟨fuel', rfl⟩ := readValue_pos h
  exact Prod.mk.inj (Option.some.inj (h.symm.trans (hx _ (Nat.le_add_left 1 fuel'))))

theorem readValue_str (hs : skipSpace s = 34 :: s') {v : List UInt8} {fuel : Nat}
    (h : readValue fuel s = some (str v, rest)) : readString s' = some (v, rest) := by
  obtain ⟨fuel', rfl⟩ := readValue_pos h
  rw [readValue_cons hs, if_pos rfl] at h
  obtain ⟨⟨v', r⟩, hv, hx⟩ := Option.map_eq_some_iff.mp h
  obtain ⟨hstr, rfl⟩ := Prod.mk.inj hx
  obtain rfl := Json.str.inj hstr
  exact hv

theorem readValue_arr (hs : skipSpace s = 91 :: s') (hhead : (skipSpace s').head? ≠ some 93)
    {xs : List Json} {fuel : Nat} (h : readValue fuel s = some (arr xs, rest)) :
    ∃ fuel', readElements fuel' s' = some (xs, rest) := by
  obtain ⟨fuel', rfl⟩ := readValue_pos h
  rw [readValue_cons hs, if_neg (by decide), if_pos rfl, if_neg hhead] at h
  obtain ⟨⟨xs', r⟩, hxs, hx⟩ := Option.map_eq_some_iff.mp h
  obtain ⟨harr, rfl⟩ := Prod.mk.inj hx
  obtain rfl := Json.arr.inj harr
  exact ⟨fuel', hxs⟩

theorem readValue_obj (hs : skipSpace s = 123 :: s') (hhead : (skipSpace s').head? ≠ some 125)
    {fields : List (List UInt8 × Json)} {fuel : Nat}
    (h : readValue fuel s = some (obj fields, rest)) :
    ∃ fuel', readMembers fuel' s' = some (fields, rest) := by
  obtain ⟨fuel', rfl⟩ := readValue_pos h
  rw [readValue_cons hs, if_neg (by decide), if_neg (by decide), if_pos rfl, if_neg hhead] at h
  obtain ⟨⟨fields', r⟩, hfields, hx⟩ := Option.map_eq_some_iff.mp h
  obtain ⟨hobj, rfl⟩ := Prod.mk.inj hx
  obtain rfl := Json.obj.inj hobj
  exact ⟨fuel', hfields⟩

/-- Behind an item comes the closing byte, or a comma and the other items. -/
theorem separated_some {α : Type} {close : UInt8} {item : α} {items : List α}
    {next : List UInt8 → Option (List α × List UInt8)}
    (h : (match skipSpace s with
      | [] => none
      | c :: s => if c = close then some ([item], s)
          else if c = 44 then (next s).bind fun r => some (item :: r.1, r.2)
          else none) = some (items, rest)) :
    skipSpace s = close :: rest ∧ items = [item] ∨
      ∃ t more, skipSpace s = 44 :: t ∧ next t = some (more, rest) ∧ items = item :: more := by
  cases hskip : skipSpace s with
  | nil =>
      rw [hskip] at h
      cases h
  | cons c t =>
      rw [hskip] at h
      simp only at h
      by_cases hend : c = close
      · rw [if_pos hend] at h
        obtain ⟨rfl, rfl⟩ := Prod.mk.inj (Option.some.inj h)
        exact .inl ⟨by rw [hend], rfl⟩
      rw [if_neg hend] at h
      by_cases hcomma : c = 44
      · rw [if_pos hcomma] at h
        obtain ⟨⟨more, r⟩, hmore, h⟩ := Option.bind_eq_some_iff.mp h
        obtain ⟨rfl, rfl⟩ := Prod.mk.inj (Option.some.inj h)
        exact .inr ⟨t, more, by rw [hcomma], hmore, rfl⟩
      · rw [if_neg hcomma] at h
        cases h

/-- The first element, and the others if there is a comma. -/
theorem readElements_some {fuel : Nat} {xs : List Json} (h : readElements fuel s = some (xs, rest)) :
    ∃ fuel' x s', readValue fuel' s = some (x, s') ∧
      (skipSpace s' = 93 :: rest ∧ xs = [x] ∨
        ∃ s'' more, skipSpace s' = 44 :: s'' ∧ readElements fuel' s'' = some (more, rest) ∧
          xs = x :: more) := by
  cases fuel with
  | zero => cases h
  | succ fuel =>
      rw [readElements] at h
      obtain ⟨⟨x, s'⟩, hx, h⟩ := Option.bind_eq_some_iff.mp h
      exact ⟨fuel, x, s', hx, separated_some h⟩

/-- The first member, and the others if there is a comma. -/
theorem readMembers_some {fuel : Nat} {fields : List (List UInt8 × Json)}
    (h : readMembers fuel s = some (fields, rest)) {name : List UInt8}
    (hname : readName s = some (name, s')) :
    ∃ fuel' x s'', readValue fuel' s' = some (x, s'') ∧
      (skipSpace s'' = 125 :: rest ∧ fields = [(name, x)] ∨
        ∃ t more, skipSpace s'' = 44 :: t ∧ readMembers fuel' t = some (more, rest) ∧
          fields = (name, x) :: more) := by
  cases fuel with
  | zero => cases h
  | succ fuel =>
      rw [readMembers] at h
      obtain ⟨⟨name', s₀⟩, hname', h⟩ := Option.bind_eq_some_iff.mp h
      obtain ⟨rfl, rfl⟩ := Prod.mk.inj (Option.some.inj (hname.symm.trans hname'))
      obtain ⟨⟨x, s''⟩, hx, h⟩ := Option.bind_eq_some_iff.mp h
      exact ⟨fuel, x, s'', hx, separated_some h⟩

theorem readElements_head {fuel : Nat} {xs : List Json}
    (h : readElements fuel s = some (x :: xs, rest)) :
    ∃ fuel' s', readValue fuel' s = some (x, s') ∧
      (xs = [] ∨ ∃ s'', skipSpace s' = 44 :: s'' ∧ readElements fuel' s'' = some (xs, rest)) := by
  obtain ⟨fuel', x', s', hx, hend⟩ := readElements_some h
  rcases hend with ⟨-, hone⟩ | ⟨s'', more, hcomma, hmore, hcons⟩
  · obtain ⟨rfl, rfl⟩ := List.cons.inj hone
    exact ⟨fuel', s', hx, .inl rfl⟩
  · obtain ⟨rfl, rfl⟩ := List.cons.inj hcons
    exact ⟨fuel', s', hx, .inr ⟨s'', hcomma, hmore⟩⟩

theorem readMembers_head {fuel : Nat} {n name : List UInt8} {fields : List (List UInt8 × Json)}
    (h : readMembers fuel s = some ((n, x) :: fields, rest)) (hname : readName s = some (name, s')) :
    ∃ fuel' s'', readValue fuel' s' = some (x, s'') ∧
      (fields = [] ∧ skipSpace s'' = 125 :: rest ∨
        ∃ t, skipSpace s'' = 44 :: t ∧ readMembers fuel' t = some (fields, rest)) := by
  obtain ⟨fuel', x', s'', hx, hend⟩ := readMembers_some h hname
  rcases hend with ⟨hskip, hone⟩ | ⟨t, more, hcomma, hmore, hcons⟩
  · obtain ⟨hhead, rfl⟩ := List.cons.inj hone
    obtain ⟨-, rfl⟩ := Prod.mk.inj hhead
    exact ⟨fuel', s'', hx, .inl ⟨rfl, hskip⟩⟩
  · obtain ⟨hhead, rfl⟩ := List.cons.inj hcons
    obtain ⟨-, rfl⟩ := Prod.mk.inj hhead
    exact ⟨fuel', s'', hx, .inr ⟨t, hcomma, hmore⟩⟩

/-- A member with a simple value and a comma behind it is passed. -/
theorem readMembers_past {fuel : Nat} {n name : List UInt8} {x' : Json}
    {fields : List (List UInt8 × Json)} (h : readMembers fuel s = some ((n, x') :: fields, rest))
    (hname : readName s = some (name, s')) {s₁ s₂ : List UInt8} (hx : Reads 1 s' x s₁)
    (hcomma : skipSpace s₁ = 44 :: s₂) : ∃ fuel', readMembers fuel' s₂ = some (fields, rest) := by
  obtain ⟨fuel', s'', hread, hend⟩ := readMembers_head h hname
  obtain ⟨-, rfl⟩ := eq_of_reads hx hread
  rw [hcomma] at hend
  rcases hend with ⟨-, hskip⟩ | ⟨t, hskip, hmore⟩
  · exact absurd (List.cons.inj hskip).1 (by decide)
  · obtain ⟨-, rfl⟩ := List.cons.inj hskip
    exact ⟨fuel', hmore⟩

/-- The last member with a simple value ends the object. -/
theorem readMembers_end {fuel : Nat} {n name : List UInt8} {x' : Json}
    {fields : List (List UInt8 × Json)} (h : readMembers fuel s = some ((n, x') :: fields, rest))
    (hname : readName s = some (name, s')) {s₁ s₂ : List UInt8} (hx : Reads 1 s' x s₁)
    (hend : skipSpace s₁ = 125 :: s₂) : rest = s₂ := by
  obtain ⟨fuel', s'', hread, hrest⟩ := readMembers_head h hname
  obtain ⟨-, rfl⟩ := eq_of_reads hx hread
  rw [hend] at hrest
  rcases hrest with ⟨-, hskip⟩ | ⟨t, hskip, -⟩
  · exact (List.cons.inj hskip).2.symm
  · exact absurd (List.cons.inj hskip).1 (by decide)

/-! ## Strings -/

/-- Nothing has to be escaped. -/
def Plain (s : List UInt8) : Prop := ∀ c ∈ s, c ≠ 34 ∧ c ≠ 92 ∧ ¬c < 32

instance (s : List UInt8) : Decidable (Plain s) := List.decidableBAll _ s

theorem readChars_of_plain {v : List UInt8} (h : Plain v) (rest : List UInt8) {fuel : Nat}
    (hfuel : v.length < fuel) : readChars fuel (v ++ 34 :: rest) = some (v, rest) := by
  induction v generalizing fuel with
  | nil =>
      obtain ⟨fuel, rfl⟩ := Nat.exists_eq_succ_of_ne_zero (Nat.ne_of_gt hfuel)
      rfl
  | cons c v ih =>
      obtain ⟨fuel, rfl⟩ := Nat.exists_eq_succ_of_ne_zero (Nat.ne_of_gt (Nat.zero_lt_of_lt hfuel))
      obtain ⟨⟨h34, h92, h32⟩, hrest⟩ := List.forall_mem_cons.mp h
      rw [List.cons_append, readChars, if_neg h34, if_neg h92, if_neg h32,
        ih hrest (Nat.lt_of_succ_lt_succ hfuel)]
      rfl

theorem readString_plain {v : List UInt8} (h : Plain v) (rest : List UInt8) :
    readString (v ++ 34 :: rest) = some (v, rest) :=
  readChars_of_plain h rest (by rw [List.length_append, List.length_cons]; omega)

theorem hexValue_quote {c : UInt8} {n : Nat} (h : hexValue c = some n) : c ≠ 34 := by
  rintro rfl
  cases h

/-- Four digits come before any quote. -/
theorem readHex_quoted {a tail : List UInt8} {n : Nat}
    (h : readHex (a ++ 34 :: tail) = some (n, s)) :
    ∃ d a', a = d ++ a' ∧ s = a' ++ 34 :: tail ∧ d.length = 4 := by
  unfold readHex at h
  split at h
  case h_2 => cases h
  case h_1 w x y z r heq =>
    obtain ⟨_, hw, h⟩ := Option.bind_eq_some_iff.mp h
    obtain ⟨_, hx, h⟩ := Option.bind_eq_some_iff.mp h
    obtain ⟨_, hy, h⟩ := Option.bind_eq_some_iff.mp h
    obtain ⟨_, hz, h⟩ := Option.bind_eq_some_iff.mp h
    obtain ⟨-, rfl⟩ := Prod.mk.inj (Option.some.inj h)
    match a, heq with
    | [], heq => exact absurd (List.cons.inj heq).1.symm (hexValue_quote hw)
    | [_], heq => exact absurd (List.cons.inj (List.cons.inj heq).2).1.symm (hexValue_quote hx)
    | [_, _], heq =>
        exact absurd (List.cons.inj (List.cons.inj (List.cons.inj heq).2).2).1.symm
          (hexValue_quote hy)
    | [_, _, _], heq =>
        exact absurd
          (List.cons.inj (List.cons.inj (List.cons.inj (List.cons.inj heq).2).2).2).1.symm
          (hexValue_quote hz)
    | d₀ :: d₁ :: d₂ :: d₃ :: a', heq =>
        refine ⟨[d₀, d₁, d₂, d₃], a', rfl, ?_, rfl⟩
        exact (List.cons.inj (List.cons.inj (List.cons.inj (List.cons.inj heq).2).2).2).2.symm

theorem length_utf8_le (n : Nat) : (utf8 n).length ≤ 4 := by
  unfold utf8
  split
  · exact (by decide : 1 ≤ 4)
  split
  · exact (by decide : 2 ≤ 4)
  split
  · exact (by decide : 3 ≤ 4)
  · exact Nat.le_refl 4

theorem readUnicode_quoted {a tail bytes : List UInt8}
    (h : readUnicode (a ++ 34 :: tail) = some (bytes, s)) :
    ∃ d a', a = d ++ a' ∧ s = a' ++ 34 :: tail ∧ bytes.length ≤ d.length := by
  unfold readUnicode at h
  obtain ⟨⟨n, s₁⟩, hhex, h⟩ := Option.bind_eq_some_iff.mp h
  obtain ⟨d, a', rfl, rfl, hd⟩ := readHex_quoted hhex
  simp only at h
  split at h
  case isTrue =>
    obtain ⟨rfl, rfl⟩ := Prod.mk.inj (Option.some.inj h)
    exact ⟨d, a', rfl, rfl, hd ▸ length_utf8_le n⟩
  case isFalse =>
    split at h
    case h_2 => cases h
    case h_1 s₂ heq =>
      obtain ⟨⟨m, s₃⟩, hhex', h⟩ := Option.bind_eq_some_iff.mp h
      simp only at h
      split at h
      case isFalse => cases h
      case isTrue =>
        obtain ⟨rfl, rfl⟩ := Prod.mk.inj (Option.some.inj h)
        -- the second half stands in front of the quote as well
        match a', heq with
        | [], heq => exact absurd (List.cons.inj heq).1 (by decide)
        | [_], heq => exact absurd (List.cons.inj (List.cons.inj heq).2).1 (by decide)
        | c₀ :: c₁ :: a', heq =>
            obtain rfl := (List.cons.inj (List.cons.inj heq).2).2
            obtain ⟨d', a'', rfl, rfl, hd'⟩ := readHex_quoted hhex'
            refine ⟨d ++ (c₀ :: c₁ :: d'), a'', by simp, rfl, ?_⟩
            have hle := length_utf8_le (0x10000 + 0x400 * (n - 0xD800) + (m - 0xDC00))
            simp only [List.length_append, List.length_cons]
            omega

/-- A backslash stands before the quote, or what is escaped is not longer than what stands for it. -/
theorem readEscape_quoted {a tail bytes : List UInt8}
    (h : readEscape (a ++ 34 :: tail) = some (bytes, s)) :
    (a = [] ∧ bytes = [34] ∧ s = tail) ∨
      ∃ d a', a = d ++ a' ∧ s = a' ++ 34 :: tail ∧ bytes.length ≤ d.length := by
  cases a with
  | nil =>
      obtain ⟨rfl, rfl⟩ := Prod.mk.inj (Option.some.inj h)
      exact .inl ⟨rfl, rfl, rfl⟩
  | cons e a =>
      refine .inr ?_
      have hone {b : UInt8} (h : some ([b], a ++ 34 :: tail) = some (bytes, s)) :
          ∃ d a', e :: a = d ++ a' ∧ s = a' ++ 34 :: tail ∧ bytes.length ≤ d.length := by
        obtain ⟨rfl, rfl⟩ := Prod.mk.inj (Option.some.inj h)
        exact ⟨[e], a, rfl, rfl, Nat.le_refl 1⟩
      rw [List.cons_append, readEscape] at h
      split at h
      · exact hone h
      split at h
      · exact hone h
      split at h
      · exact hone h
      split at h
      · exact hone h
      split at h
      · exact hone h
      split at h
      · exact hone h
      split at h
      · obtain ⟨d, a', rfl, rfl, hle⟩ := readUnicode_quoted h
        exact ⟨e :: d, a', rfl, rfl, Nat.le_succ_of_le hle⟩
      · cases h

/-- A string is as long as its text or shorter, unless a backslash takes the quote away. -/
theorem readChars_quoted {fuel : Nat} {a tail v : List UInt8}
    (h : readChars fuel (a ++ 34 :: tail) = some (v, rest)) :
    (v.length ≤ a.length ∧ (v.length = a.length → Plain a)) ∨
      ∃ a' v' w fuel', a = a' ++ [92] ∧ readChars fuel' tail = some (w, rest) ∧ v = v' ++ 34 :: w := by
  induction fuel generalizing a v with
  | zero => cases h
  | succ fuel ih =>
      cases a with
      | nil =>
          obtain ⟨rfl, -⟩ := Prod.mk.inj (Option.some.inj h)
          exact .inl ⟨Nat.le_refl 0, fun _ => List.forall_mem_nil _⟩
      | cons c a =>
          rw [List.cons_append, readChars] at h
          by_cases h34 : c = 34
          · rw [if_pos h34] at h
            obtain ⟨rfl, -⟩ := Prod.mk.inj (Option.some.inj h)
            exact .inl ⟨Nat.zero_le _, fun hlength => absurd hlength (Nat.succ_ne_zero _).symm⟩
          rw [if_neg h34] at h
          by_cases h92 : c = 92
          · subst h92
            rw [if_pos rfl] at h
            obtain ⟨⟨bytes, s₁⟩, hescape, h⟩ := Option.bind_eq_some_iff.mp h
            obtain ⟨⟨chars, s₂⟩, hchars, h⟩ := Option.bind_eq_some_iff.mp h
            obtain ⟨rfl, rfl⟩ := Prod.mk.inj (Option.some.inj h)
            rcases readEscape_quoted hescape with ⟨rfl, rfl, rfl⟩ | ⟨d, a', rfl, rfl, hle⟩
            · exact .inr ⟨[], [], chars, fuel, rfl, hchars, rfl⟩
            · rcases ih hchars with ⟨hshort, -⟩ | ⟨a'', v', w, fuel', rfl, hread, rfl⟩
              · refine .inl ?_
                simp only [List.length_cons, List.length_append]
                exact ⟨by omega, fun hlength => absurd hlength (by omega)⟩
              · exact .inr ⟨92 :: d ++ a'', bytes ++ v', w, fuel', by simp, hread, by simp⟩
          rw [if_neg h92] at h
          by_cases h32 : c < 32
          · rw [if_pos h32] at h
            cases h
          · rw [if_neg h32] at h
            obtain ⟨⟨chars, s₂⟩, hchars, h⟩ := Option.bind_eq_some_iff.mp h
            obtain ⟨rfl, rfl⟩ := Prod.mk.inj (Option.some.inj h)
            rcases ih hchars with ⟨hshort, hplain⟩ | ⟨a'', v', w, fuel', rfl, hread, rfl⟩
            · refine .inl ⟨Nat.succ_le_succ hshort, fun hlength => ?_⟩
              exact List.forall_mem_cons.mpr ⟨⟨h34, h92, h32⟩, hplain (Nat.succ.inj hlength)⟩
            · exact .inr ⟨c :: a'', c :: v', w, fuel', rfl, hread, rfl⟩

/-- What is between plain quotes. -/
theorem readChars_plain {fuel : Nat} {sep t v : List UInt8} (hsep : Plain sep)
    (h : readChars fuel (sep ++ 34 :: t) = some (v, rest)) : v = sep ∧ rest = t := by
  induction sep generalizing fuel v with
  | nil =>
      cases fuel with
      | zero => cases h
      | succ fuel => exact (Prod.mk.inj (Option.some.inj h)).imp Eq.symm Eq.symm
  | cons c sep ih =>
      cases fuel with
      | zero => cases h
      | succ fuel =>
          obtain ⟨⟨h34, h92, h32⟩, hrest⟩ := List.forall_mem_cons.mp hsep
          rw [List.cons_append, readChars, if_neg h34, if_neg h92, if_neg h32] at h
          obtain ⟨⟨chars, s₂⟩, hchars, h⟩ := Option.bind_eq_some_iff.mp h
          obtain ⟨rfl, rfl⟩ := Prod.mk.inj (Option.some.inj h)
          obtain ⟨rfl, rfl⟩ := ih hrest hchars
          exact ⟨rfl, rfl⟩

/-- A string that is read as the bytes up to its quote has nothing to escape, if the next quote
follows behind plain text. -/
theorem plain_of_readString {a sep t : List UInt8} (hsep : Plain sep)
    (h : readString (a ++ 34 :: (sep ++ 34 :: t)) = some (a, rest)) : Plain a := by
  rcases readChars_quoted h with ⟨-, hplain⟩ | ⟨a', v', w, fuel', hback, hread, hv⟩
  · exact hplain rfl
  · obtain ⟨rfl, -⟩ := readChars_plain hsep hread
    -- the last byte is a backslash and is none
    obtain ⟨x, xs, hx⟩ := List.exists_cons_of_ne_nil
      (show (34 :: w).reverse ≠ [] from List.reverse_ne_nil_iff.mpr (List.cons_ne_nil 34 w))
    have hrev := congrArg List.reverse (hback.symm.trans hv)
    rw [List.reverse_append, List.reverse_append, hx] at hrev
    have hmem : 92 ∈ 34 :: w := by
      rw [← List.mem_reverse, hx, (List.cons.inj hrev).1]
      exact List.mem_cons_self
    rcases List.mem_cons.mp hmem with h34 | hw
    · exact absurd h34 (by decide)
    · exact absurd rfl (hsep 92 hw).2.1

end Fex.Lib.Json
