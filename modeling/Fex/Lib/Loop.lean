import Fex.Lib.CInt
import Mathlib.Data.List.Basic

/-!
# Loops that may stop

A loop runs a step for every element of a list and stops when a step says so or
faults.  `loop_spec` turns what one step does into what the loop does: when it
does not fault, when it stops and what holds at its end.  A counting loop that never
stops early is a `foldlM` over a range.
-/

namespace Fex.Lib

variable {σ ι κ : Type*}

/-- The loop goes on as long as the steps return `true`. -/
def loop (f : σ → ι → Exec (Bool × σ)) : List ι → σ → Exec (Bool × σ)
  | [], s => .ok (true, s)
  | i :: l, s =>
      match f s i with
      | .ok (true, t) => loop f l t
      | r => r

section

variable {f : σ → ι → Exec (Bool × σ)}

theorem loop_append (l l' : List ι) (s : σ) :
    loop f (l ++ l') s =
      match loop f l s with
      | .ok (true, t) => loop f l' t
      | r => r := by
  induction l generalizing s with
  | nil => rfl
  | cons i l ih =>
      rw [List.cons_append, loop, loop]
      cases f s i with
      | error e => rfl
      | ok r =>
          obtain ⟨b, t⟩ := r
          cases b with
          | false => rfl
          | true => exact ih t

theorem loop_map (xs : κ → ι) (l : List κ) (s : σ) :
    loop f (l.map xs) s = loop (fun s k => f s (xs k)) l s := by
  induction l generalizing s with
  | nil => rfl
  | cons k l ih =>
      rw [List.map_cons, loop, loop]
      cases f s (xs k) with
      | error e => rfl
      | ok r =>
          obtain ⟨b, t⟩ := r
          cases b with
          | false => rfl
          | true => exact ih t

/-- A loop whose steps are loops is one loop. -/
theorem loop_flatMap {g : σ → κ → Exec (Bool × σ)} {xs : κ → List ι}
    (h : ∀ s k, g s k = loop f (xs k) s) (l : List κ) (s : σ) :
    loop g l s = loop f (l.flatMap xs) s := by
  induction l generalizing s with
  | nil => rfl
  | cons k l ih =>
      rw [List.flatMap_cons, loop_append, loop, h]
      cases loop f (xs k) s with
      | error e => rfl
      | ok r =>
          obtain ⟨b, t⟩ := r
          cases b with
          | false => rfl
          | true => exact ih t

end

/-- Every element up to the first one that stops the loop is in order. -/
def InOrder (ok stops : ι → Prop) (l : List ι) : Prop :=
  ∀ pre i post, l = pre ++ i :: post → (∀ j ∈ pre, ¬ stops j) → ok i

theorem inOrder_cons {ok stops : ι → Prop} {i : ι} {l : List ι} :
    InOrder ok stops (i :: l) ↔ ok i ∧ (¬ stops i → InOrder ok stops l) := by
  constructor
  · intro h
    refine ⟨h [] i l rfl fun j hj => (by cases hj), fun hi pre j post hl hpre => ?_⟩
    refine h (i :: pre) j post (by rw [hl]; rfl) fun k hk => ?_
    rcases List.mem_cons.mp hk with rfl | hk
    · exact hi
    · exact hpre k hk
  · rintro ⟨hi, hrest⟩ pre j post hl hpre
    cases pre with
    | nil =>
        injection hl with hij
        rw [← hij]
        exact hi
    | cons k pre =>
        injection hl with hik hl
        have hk := hpre k List.mem_cons_self
        rw [← hik] at hk
        exact hrest hk pre j post hl fun j hj => hpre j (List.mem_cons_of_mem k hj)

/-- What the elements `us` that were visited leave behind is `inv us`. -/
theorem loop_spec {f : σ → ι → Exec (Bool × σ)} {ok stops P : ι → Prop} {inv : List ι → σ → Prop}
    (hsafe : ∀ us s i, P i → inv us s → ∀ r, f s i = .ok r → ok i)
    (hstop : ∀ us s i, P i → inv us s → ok i → stops i → ∃ t, f s i = .ok (false, t))
    (hnext : ∀ us s i, P i → inv us s → ok i → ¬ stops i →
      ∃ t, f s i = .ok (true, t) ∧ inv (us ++ [i]) t)
    {us : List ι} {s : σ} (hs : inv us s) (l : List ι) (hl : ∀ i ∈ l, P i) :
    (∀ r, loop f l s = .ok r → InOrder ok stops l) ∧
      (InOrder ok stops l →
        ((∀ i ∈ l, ¬ stops i) ∧ ∃ t, loop f l s = .ok (true, t) ∧ inv (us ++ l) t) ∨
          ((∃ i ∈ l, stops i) ∧ ∃ t, loop f l s = .ok (false, t))) := by
  induction l generalizing us s with
  | nil =>
      refine ⟨fun r _ pre i post hl => ?_, fun _ => .inl ⟨fun i hi => (by cases hi), s, rfl, ?_⟩⟩
      · cases pre <;> cases hl
      · rw [List.append_nil]
        exact hs
  | cons i l ih =>
      have hi := hl i List.mem_cons_self
      have hl' : ∀ j ∈ l, P j := fun j hj => hl j (List.mem_cons_of_mem i hj)
      constructor
      · intro r hr
        have hok : ok i := by
          cases hf : f s i with
          | error e =>
              rw [loop, hf] at hr
              cases hr
          | ok t => exact hsafe us s i hi hs t hf
        refine inOrder_cons.mpr ⟨hok, fun hgo => ?_⟩
        obtain ⟨t, ht, hinv⟩ := hnext us s i hi hs hok hgo
        rw [loop, ht] at hr
        exact (ih hinv hl').1 r hr
      · intro h
        obtain ⟨hok, hrest⟩ := inOrder_cons.mp h
        by_cases hstops : stops i
        · obtain ⟨t, ht⟩ := hstop us s i hi hs hok hstops
          refine .inr ⟨⟨i, List.mem_cons_self, hstops⟩, t, ?_⟩
          rw [loop, ht]
        · obtain ⟨t, ht, hinv⟩ := hnext us s i hi hs hok hstops
          rw [loop, ht]
          rcases (ih hinv hl').2 (hrest hstops) with
            ⟨hall, t', ht', hinv'⟩ | ⟨⟨j, hj, hstopj⟩, t', ht'⟩
          · refine .inl ⟨fun j hj => ?_, t', ht', ?_⟩
            · rcases List.mem_cons.mp hj with rfl | hj
              · exact hstops
              · exact hall j hj
            · rw [List.append_assoc] at hinv'
              exact hinv'
          · exact .inr ⟨⟨j, List.mem_cons_of_mem i hj, hstopj⟩, t', ht'⟩

/-- A loop whose steps keep an invariant ends with it. -/
theorem foldlM_ok {f : σ → ι → Exec σ} (inv : σ → Prop) {l : List ι}
    (hstep : ∀ s i, i ∈ l → inv s → ∃ t, f s i = .ok t ∧ inv t) {s : σ} (hs : inv s) :
    ∃ t, l.foldlM f s = .ok t ∧ inv t := by
  induction l generalizing s with
  | nil => exact ⟨s, rfl, hs⟩
  | cons i l ih =>
      obtain ⟨t, ht, hinv⟩ := hstep s i List.mem_cons_self hs
      rw [List.foldlM_cons, ht]
      exact ih (fun s j hj => hstep s j (List.mem_cons_of_mem i hj)) hinv

/-- A step that faults ends the loop. -/
theorem foldlM_faults {f : σ → ι → Exec σ} {xs ys : List ι} {x : ι} {s t : σ}
    {fault : Fault} (hxs : xs.foldlM f s = .ok t) (hx : f t x = .error fault) :
    (xs ++ x :: ys).foldlM f s = .error fault := by
  rw [List.foldlM_append, hxs]
  change ((x :: ys).foldlM f t : Exec σ) = _
  rw [List.foldlM_cons, hx]
  rfl

/-- What holds before the step of every counter holds behind the last one. -/
theorem foldlM_range'_spec {f : σ → Nat → Exec σ} (inv : Nat → σ → Prop) {a n : Nat} {s : σ}
    (hstep : ∀ i s, a ≤ i → i < a + n → inv i s → ∃ t, f s i = .ok t ∧ inv (i + 1) t)
    (h : inv a s) : ∃ t, (List.range' a n).foldlM f s = .ok t ∧ inv (a + n) t := by
  induction n generalizing a s with
  | zero => exact ⟨s, rfl, h⟩
  | succ n ih =>
      obtain ⟨t, ht, hinv⟩ := hstep a s (Nat.le_refl a) (by omega) h
      obtain ⟨t', ht', hinv'⟩ := ih (fun i s hi hn => hstep i s (by omega) (by omega)) hinv
      refine ⟨t', ?_, ?_⟩
      · rw [List.range'_succ, List.foldlM_cons, ht]
        exact ht'
      · rw [Nat.add_right_comm, Nat.add_assoc] at hinv'
        exact hinv'

/-- What each turn that ends keeps holds where the loop ends. -/
theorem foldlM_range'_keeps {f : σ → Nat → Exec σ} (inv : Nat → σ → Prop) {n : Nat} :
    ∀ {a : Nat} {s t : σ}, (∀ k s t, a ≤ k → k < a + n → inv k s → f s k = .ok t → inv (k + 1) t) →
      inv a s → (List.range' a n).foldlM f s = .ok t → inv (a + n) t := by
  induction n with
  | zero =>
      intro a s t _ hs h
      obtain rfl := Except.ok.inj h
      exact hs
  | succ n ih =>
      intro a s t hstep hs h
      rw [List.range'_succ, List.foldlM_cons] at h
      cases hf : f s a with
      | error e =>
          rw [hf] at h
          cases h
      | ok u =>
          rw [hf] at h
          have hu := hstep a s u (Nat.le_refl a) (by omega) hs hf
          have hend := ih (fun k s t hk hlt => hstep k s t (by omega) (by omega)) hu h
          rwa [Nat.add_assoc, Nat.add_comm 1 n] at hend

/-- A search finds what one of the elements is, if each of them can be looked at. -/
theorem anyM_spec {f : ι → Exec Bool} {P : ι → Prop} {l : List ι}
    (h : ∀ a ∈ l, ∃ found, f a = .ok found ∧ (found = true ↔ P a)) :
    ∃ found, l.anyM f = .ok found ∧ (found = true ↔ ∃ a ∈ l, P a) := by
  induction l with
  | nil => exact ⟨false, rfl, by simp⟩
  | cons a l ih =>
      obtain ⟨found, hfound, hiff⟩ := h a (List.mem_cons_self ..)
      rw [List.anyM_cons, hfound]
      cases found with
      | true => exact ⟨true, rfl, iff_of_true rfl ⟨a, List.mem_cons_self .., hiff.mp rfl⟩⟩
      | false =>
          obtain ⟨rest, hrest, hrestIff⟩ := ih fun b hb => h b (List.mem_cons_of_mem a hb)
          refine ⟨rest, hrest, hrestIff.trans ?_⟩
          rw [List.exists_mem_cons_iff]
          exact (or_iff_right fun hP => Bool.false_ne_true (hiff.mpr hP)).symm

/-- A list is mapped where each of its elements is. -/
theorem mapM_succeeds {α β : Type} {f : α → Exec β} {l : List α}
    (hf : ∀ a ∈ l, ∃ b, f a = .ok b) : ∃ bs, l.mapM f = .ok bs := by
  induction l with
  | nil => exact ⟨[], rfl⟩
  | cons a l ih =>
      obtain ⟨b, hb⟩ := hf a List.mem_cons_self
      obtain ⟨bs, hbs⟩ := ih fun x hx => hf x (List.mem_cons_of_mem a hx)
      rw [List.mapM_cons, hb, hbs]
      exact ⟨b :: bs, rfl⟩

end Fex.Lib
