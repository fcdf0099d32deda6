import Fex.Base.Utf8
import Fex.Lib.Lex
import Mathlib.Data.List.TakeWhile

/-!
# File names

Model of `str_comp_filenames` for ASCII strings.  Away from its early return at the
end of a string the comparison is the lexicographic order of a key, in which a run
of digits is preceded by its length.
-/

namespace Fex.Base

open Fex.Lib

def str_isnum (c : UInt8) : Bool := 48 ≤ c.toNat ∧ c.toNat ≤ 57

/-- `tolower`, the value is that of an ASCII character. -/
def tolower (c : UInt8) : Int := if 65 ≤ c.toNat ∧ c.toNat ≤ 90 then c.toNat + 32 else c.toNat

/-- `*a`, zero at the end of the string. -/
def firstChar : List UInt8 → Int
  | [] => 0
  | c :: _ => c.toNat

def startsNum : List UInt8 → Bool
  | [] => false
  | c :: _ => str_isnum c

/-- The loop over the digits: the result and what is left of the strings. -/
def digitRun (result : Int) : List UInt8 → List UInt8 → Int × List UInt8 × List UInt8
  | x :: a, y :: b =>
      if str_isnum x ∧ str_isnum y then
        digitRun (if result = 0 then (x.toNat : Int) - y.toNat else result) a b
      else (result, x :: a, y :: b)
  | a, b => (result, a, b)

theorem length_digitRun (result : Int) (a b : List UInt8) :
    (digitRun result a b).2.1.length ≤ a.length := by
  induction a generalizing result b with
  | nil => unfold digitRun; exact Nat.le_refl _
  | cons x a ih =>
      cases b with
      | nil => unfold digitRun; exact Nat.le_refl _
      | cons y b =>
          unfold digitRun
          split
          · exact Nat.le_succ_of_le (ih _ b)
          · exact Nat.le_refl _

def str_comp_filenames : List UInt8 → List UInt8 → Int
  | x :: a, y :: b =>
      if str_isnum x ∧ str_isnum y then
        match h : digitRun 0 (x :: a) (y :: b) with
        | (result, a', b') =>
            if startsNum a' then 1
            else if startsNum b' then -1
            else
              match a', b' with
              | x' :: a'', y' :: b'' =>
                  if result ≠ 0 then result
                  else if tolower x' - tolower y' ≠ 0 then tolower x' - tolower y'
                  else str_comp_filenames a'' b''
              -- the end of a string
              | _, _ => result
      else if tolower x - tolower y ≠ 0 then tolower x - tolower y
      else str_comp_filenames a b
  | a, b => firstChar a - firstChar b
termination_by a => a.length
decreasing_by
  · have hle := length_digitRun 0 (x :: a) (y :: b)
    rw [h] at hle
    simp only [List.length_cons] at hle ⊢
    omega
  · exact Nat.lt_succ_self _

/-! ## Characters -/

def low (s : List UInt8) : List Int := s.map tolower

def isDigit (v : Int) : Bool := 48 ≤ v ∧ v ≤ 57

theorem isDigit_tolower (c : UInt8) : isDigit (tolower c) = str_isnum c := by
  unfold isDigit tolower str_isnum
  split
  next h =>
    rw [decide_eq_decide]
    omega
  next h =>
    rw [decide_eq_decide]
    omega

theorem tolower_of_isnum {c : UInt8} (h : str_isnum c = true) : tolower c = c.toNat := by
  have hrange : 48 ≤ c.toNat ∧ c.toNat ≤ 57 := of_decide_eq_true h
  unfold tolower
  rw [if_neg (by omega)]

/-! ## Keys -/

section Keys

def startsDigit (A : List Int) : Prop := ∃ v ∈ A.head?, isDigit v = true

def endsDigit (A : List Int) : Prop := ∃ v ∈ A.getLast?, isDigit v = true

/-- The key of a string without its end. -/
def body : List Int → List Int
  | [] => []
  | v :: A =>
      if isDigit v then
        48 :: ((v :: A).takeWhile isDigit).length :: ((v :: A).takeWhile isDigit ++
          body (A.dropWhile isDigit))
      else v :: body A
termination_by A => A.length
decreasing_by
  · exact Nat.lt_succ_of_le (List.length_dropWhile_le _ _)
  · exact Nat.lt_succ_self _

def key (A : List Int) : List Int := body A ++ [0]

theorem body_nil : body [] = [] := by rw [body]

theorem body_char {v : Int} (hv : isDigit v = false) (A : List Int) :
    body (v :: A) = v :: body A := by
  rw [body, hv]
  exact if_neg Bool.false_ne_true

/-- A run of digits and what follows it. -/
theorem body_run {D R : List Int} (hne : D ≠ []) (hD : ∀ v ∈ D, isDigit v = true)
    (hR : ¬ startsDigit R) :
    body (D ++ R) = 48 :: (D.length : Int) :: (D ++ body R) := by
  obtain ⟨v, D, rfl⟩ := List.exists_cons_of_ne_nil hne
  have hv := hD v List.mem_cons_self
  have htake : R.takeWhile isDigit = [] := by
    cases R with
    | nil => rfl
    | cons w R =>
        apply List.takeWhile_cons_of_neg
        exact fun hw => hR ⟨w, rfl, hw⟩
  have hdrop : R.dropWhile isDigit = R := by
    cases R with
    | nil => rfl
    | cons w R =>
        apply List.dropWhile_cons_of_neg
        exact fun hw => hR ⟨w, rfl, hw⟩
  have hrun : (v :: (D ++ R)).takeWhile isDigit = v :: D := by
    rw [← List.cons_append, List.takeWhile_append_of_pos hD, htake, List.append_nil]
  rw [List.cons_append, body, if_pos hv, hrun,
    List.dropWhile_append_of_pos (fun w hw => hD w (List.mem_cons_of_mem v hw)), hdrop]

theorem not_startsDigit_dropWhile (A : List Int) : ¬ startsDigit (A.dropWhile isDigit) := by
  rintro ⟨v, hv, hdigit⟩
  have hnot := List.head?_dropWhile_not isDigit A
  rw [Option.mem_def.mp hv] at hnot
  exact absurd hdigit (Bool.eq_false_iff.mp hnot)

/-- A list of digits and characters: empty, a character first, or a run first. -/
theorem run_cases (A : List Int) :
    A = [] ∨ (∃ v A', A = v :: A' ∧ isDigit v = false) ∨
    ∃ D R, A = D ++ R ∧ D ≠ [] ∧ (∀ v ∈ D, isDigit v = true) ∧ ¬ startsDigit R := by
  cases A with
  | nil => exact .inl rfl
  | cons v A =>
      by_cases hv : isDigit v = true
      · refine .inr (.inr ⟨(v :: A).takeWhile isDigit, (v :: A).dropWhile isDigit, ?_, ?_, ?_, ?_⟩)
        · exact (List.takeWhile_append_dropWhile).symm
        · rw [List.takeWhile_cons_of_pos hv]
          exact List.cons_ne_nil _ _
        · exact fun w hw => List.mem_takeWhile_imp hw
        · exact not_startsDigit_dropWhile _
      · exact .inr (.inl ⟨v, A, rfl, Bool.not_eq_true _ ▸ hv⟩)

theorem endsDigit_append {A B : List Int} (hB : B ≠ []) : endsDigit (A ++ B) ↔ endsDigit B := by
  unfold endsDigit
  rw [List.getLast?_append, List.getLast?_eq_some_getLast hB, Option.some_or]

theorem endsDigit_run {D : List Int} (hne : D ≠ []) (hD : ∀ v ∈ D, isDigit v = true) :
    endsDigit D :=
  ⟨D.getLast hne, List.getLast?_eq_some_getLast hne, hD _ (List.getLast_mem hne)⟩

/-- Keys are put together where no run of digits is split. -/
theorem body_append {A q : List Int} (hsplit : ¬ (endsDigit A ∧ startsDigit q)) :
    body (A ++ q) = body A ++ body q := by
  induction hn : A.length using Nat.strongRecOn generalizing A with
  | ind n ih =>
      rcases run_cases A with rfl | ⟨v, A, rfl, hv⟩ | ⟨D, R, rfl, hne, hD, hR⟩
      · rw [body_nil]
        rfl
      · rw [List.length_cons] at hn
        rw [List.cons_append, body_char hv, body_char hv, ih _ (by omega) ?_ rfl]
        · rfl
        · intro hboth
          apply hsplit
          refine ⟨?_, hboth.2⟩
          have hA : A ≠ [] := by
            rintro rfl
            obtain ⟨v, hv, -⟩ := hboth.1
            cases hv
          exact (endsDigit_append (A := [v]) hA).mpr hboth.1
      · have hpos := List.length_pos_iff.mpr hne
        rw [List.length_append] at hn
        by_cases hnil : R = []
        · subst hnil
          have hq : ¬ startsDigit q := by
            intro hq
            apply hsplit
            rw [List.append_nil]
            exact ⟨endsDigit_run hne hD, hq⟩
          rw [List.append_nil, body_run hne hD hq]
          have hrun := body_run hne hD (R := []) (fun h => by
            obtain ⟨v, hv, -⟩ := h
            cases hv)
          rw [List.append_nil, body_nil, List.append_nil] at hrun
          rw [hrun]
          rfl
        · have hRq : ¬ startsDigit (R ++ q) := by
            obtain ⟨w, R, rfl⟩ := List.exists_cons_of_ne_nil hnil
            exact hR
          rw [List.append_assoc, body_run hne hD hRq, body_run hne hD hR,
            ih _ (by omega) ?_ rfl]
          · simp
          · intro hboth
            exact hsplit ⟨(endsDigit_append hnil).mpr hboth.1, hboth.2⟩

/-- A key that starts with the body of a string is that of a longer one. -/
theorem key_decode {A B X : List Int} (hA : ∀ v ∈ A, 0 < v) (hB : ∀ v ∈ B, 0 < v)
    (heq : key B = body A ++ X) :
    ∃ q, B = A ++ q ∧ ¬ (endsDigit A ∧ startsDigit q) ∧ X = key q := by
  induction hn : A.length using Nat.strongRecOn generalizing A B X with
  | ind n ih =>
      have hzero : isDigit 0 = false := by decide
      rcases run_cases A with rfl | ⟨v, A, rfl, hv⟩ | ⟨D, R, rfl, hne, hD, hR⟩
      · rw [body_nil] at heq
        refine ⟨B, rfl, ?_, heq.symm⟩
        rintro ⟨⟨v, hv, -⟩, -⟩
        cases hv
      · rw [List.length_cons] at hn
        rw [body_char hv, List.cons_append] at heq
        have hvpos := hA v List.mem_cons_self
        rcases run_cases B with rfl | ⟨w, B, rfl, hw⟩ | ⟨E, S, rfl, hne', hE, hS⟩
        · rw [key, body_nil] at heq
          have hhead := (List.cons.inj heq).1
          omega
        · rw [key, body_char hw, List.cons_append] at heq
          obtain ⟨rfl, htail⟩ := List.cons.inj heq
          obtain ⟨q, rfl, hsplit, hX⟩ := ih _ (by omega)
            (fun u hu => hA u (List.mem_cons_of_mem w hu))
            (fun u hu => hB u (List.mem_cons_of_mem w hu)) htail rfl
          refine ⟨q, rfl, ?_, hX⟩
          rintro ⟨hends, hstarts⟩
          by_cases hnil : A = []
          · subst hnil
            obtain ⟨u, hu, hdigit⟩ := hends
            rw [← Option.some.inj (Option.mem_def.mp hu)] at hdigit
            exact absurd hdigit (Bool.eq_false_iff.mp hw)
          · exact hsplit ⟨(endsDigit_append (A := [w]) hnil).mp hends, hstarts⟩
        · rw [key, body_run hne' hE hS] at heq
          have hhead := (List.cons.inj heq).1
          rw [← hhead] at hv
          cases hv
      · have hpos := List.length_pos_iff.mpr hne
        rw [List.length_append] at hn
        rw [body_run hne hD hR] at heq
        rcases run_cases B with rfl | ⟨w, B, rfl, hw⟩ | ⟨E, S, rfl, hne', hE, hS⟩
        · rw [key, body_nil] at heq
          cases (List.cons.inj heq).1
        · rw [key, body_char hw] at heq
          have hhead := (List.cons.inj heq).1
          rw [hhead] at hw
          cases hw
        · rw [key, body_run hne' hE hS] at heq
          simp only [List.cons_append] at heq
          obtain ⟨-, htail⟩ := List.cons.inj heq
          obtain ⟨hlength, htail⟩ := List.cons.inj htail
          rw [List.append_assoc, List.append_assoc] at htail
          obtain ⟨rfl, hrest⟩ := List.append_inj htail (by omega)
          obtain ⟨q, rfl, hsplit, hX⟩ := ih _ (by omega)
            (fun u hu => hA u (List.mem_append_right _ hu))
            (fun u hu => hB u (List.mem_append_right _ hu)) hrest rfl
          refine ⟨q, (List.append_assoc _ _ _).symm, ?_, hX⟩
          rintro ⟨hends, hstarts⟩
          by_cases hnil : R = []
          · subst hnil
            exact hS hstarts
          · exact hsplit ⟨(endsDigit_append hnil).mp hends, hstarts⟩

end Keys

/-! ## What is compared -/

section Comparison

theorem low_append (a b : List UInt8) : low (a ++ b) = low a ++ low b := List.map_append

/-- A string that ends in digits, and another one that continues it, up to case, with a
character. -/
def Cut (a b : List UInt8) : Prop :=
  ∃ v rest, low b = low a ++ v :: rest ∧ isDigit v = false ∧ endsDigit (low a)

/-- Two keys with a first difference before their ends. -/
def Decided (result : Int) (K L : List Int) : Prop :=
  ∃ Q x X y Y, K = Q ++ x :: X ∧ L = Q ++ y :: Y ∧ 0 < x ∧ 0 < y ∧
    (x < y ∧ result < 0 ∨ y < x ∧ 0 < result)

/-- The ways a comparison ends. -/
inductive Outcome (a b : List UInt8) (result : Int) : Prop
  | decided : Decided result (key (low a)) (key (low b)) → Outcome a b result
  | same : low a = low b → result = 0 → Outcome a b result
  | cut : Cut a b ∨ Cut b a → result = 0 → Outcome a b result
  | shorter (v : Int) (rest : List Int) : low b = low a ++ v :: rest → ¬ endsDigit (low a) →
      0 < v → result < 0 → Outcome a b result
  | longer (v : Int) (rest : List Int) : low a = low b ++ v :: rest → ¬ endsDigit (low b) →
      0 < v → 0 < result → Outcome a b result

theorem endsDigit_append_of {P A : List Int} (h : endsDigit A) : endsDigit (P ++ A) := by
  have hA : A ≠ [] := by
    rintro rfl
    obtain ⟨v, hv, -⟩ := h
    cases hv
  exact (endsDigit_append hA).mpr h

theorem not_endsDigit_append {P A : List Int} (hP : ¬ endsDigit P) (hA : ¬ endsDigit A) :
    ¬ endsDigit (P ++ A) := by
  by_cases hnil : A = []
  · rw [hnil, List.append_nil]
    exact hP
  · exact fun h => hA ((endsDigit_append hnil).mp h)

/-- A place where no run of digits is split. -/
def Joint (p a : List UInt8) : Prop := ¬ endsDigit (low p) ∨ a ≠ [] ∧ ¬ startsDigit (low a)

theorem Joint.key {p a : List UInt8} (h : Joint p a) :
    key (low (p ++ a)) = body (low p) ++ key (low a) := by
  have hsplit : ¬ (endsDigit (low p) ∧ startsDigit (low a)) := by
    rintro ⟨hends, hstarts⟩
    rcases h with h | h
    · exact h hends
    · exact h.2 hstarts
  rw [low_append, Base.key, body_append hsplit, Base.key, List.append_assoc]

theorem Joint.not_endsDigit {p a : List UInt8} (h : Joint p a) (ha : ¬ endsDigit (low a)) :
    ¬ endsDigit (low (p ++ a)) := by
  rw [low_append]
  rcases h with h | ⟨hne, -⟩
  · exact not_endsDigit_append h ha
  · have hlow : low a ≠ [] := fun hnil => hne (List.map_eq_nil_iff.mp hnil)
    exact fun hends => ha ((endsDigit_append hlow).mp hends)

/-- Equal beginnings are no part of the comparison. -/
theorem Outcome.prepend {a b p q : List UInt8} {result : Int} (hpq : low p = low q)
    (hpa : Joint p a) (hqb : Joint q b) (h : Outcome a b result) :
    Outcome (p ++ a) (q ++ b) result := by
  have hcut : ∀ {p q a b : List UInt8}, low p = low q → Cut a b → Cut (p ++ a) (q ++ b) := by
    rintro p q a b hpq ⟨v, rest, heq, hv, hdigit⟩
    refine ⟨v, rest, ?_, hv, ?_⟩
    · rw [low_append, low_append, heq, hpq, List.append_assoc]
    · rw [low_append]
      exact endsDigit_append_of hdigit
  cases h with
  | decided h =>
      obtain ⟨Q, x, X, y, Y, hK, hL, hx, hy, hresult⟩ := h
      refine .decided ⟨body (low p) ++ Q, x, X, y, Y, ?_, ?_, hx, hy, hresult⟩
      · rw [hpa.key, hK, List.append_assoc]
      · rw [hqb.key, ← hpq, hL, List.append_assoc]
  | same heq hresult => exact .same (by rw [low_append, low_append, hpq, heq]) hresult
  | cut h hresult =>
      rcases h with h | h
      · exact .cut (.inl (hcut hpq h)) hresult
      · exact .cut (.inr (hcut hpq.symm h)) hresult
  | shorter v rest heq hnot hv hresult =>
      refine .shorter v rest ?_ (hpa.not_endsDigit hnot) hv hresult
      rw [low_append, low_append, hpq, heq, List.append_assoc]
  | longer v rest heq hnot hv hresult =>
      refine .longer v rest ?_ (hqb.not_endsDigit hnot) hv hresult
      rw [low_append, low_append, hpq, heq, List.append_assoc]

/-- The digits that the loop takes from both strings. -/
theorem digitRun_spec (result : Int) (a b : List UInt8) :
    ∃ D E a' b', a = D ++ a' ∧ b = E ++ b' ∧ digitRun result a b =
        ((digitRun result a b).1, a', b') ∧
      (∀ c ∈ D, str_isnum c = true) ∧ (∀ c ∈ E, str_isnum c = true) ∧ D.length = E.length ∧
      ¬ (startsNum a' = true ∧ startsNum b' = true) ∧
      (result ≠ 0 → (digitRun result a b).1 = result) ∧
      (result = 0 → (low D = low E ∧ (digitRun result a b).1 = 0) ∨
        Decided (digitRun result a b).1 (low D) (low E)) := by
  have hempty : ∀ c ∈ ([] : List UInt8), str_isnum c = true :=
    fun c hc => absurd hc List.not_mem_nil
  induction a generalizing result b with
  | nil =>
      refine ⟨[], [], [], b, rfl, rfl, ?_, hempty, hempty, rfl, ?_, fun _ => ?_, fun h => ?_⟩
      · unfold digitRun
        rfl
      · exact fun h => Bool.false_ne_true h.1
      · unfold digitRun
        rfl
      · refine .inl ⟨rfl, ?_⟩
        unfold digitRun
        exact h
  | cons x a ih =>
      cases b with
      | nil =>
          refine ⟨[], [], x :: a, [], rfl, rfl, ?_, hempty, hempty, rfl, ?_, fun _ => ?_,
            fun h => ?_⟩
          · unfold digitRun
            rfl
          · exact fun h => Bool.false_ne_true h.2
          · unfold digitRun
            rfl
          · refine .inl ⟨rfl, ?_⟩
            unfold digitRun
            exact h
      | cons y b =>
          by_cases hnum : str_isnum x = true ∧ str_isnum y = true
          · obtain ⟨D, E, a', b', rfl, rfl, hrest, hD, hE, hlength, hstop, hkeep, hfirst⟩ :=
              ih (if result = 0 then (x.toNat : Int) - y.toNat else result) b
            have hrun : digitRun result (x :: (D ++ a')) (y :: (E ++ b')) =
                digitRun (if result = 0 then (x.toNat : Int) - y.toNat else result) (D ++ a')
                  (E ++ b') := by
              rw [digitRun, if_pos hnum]
            refine ⟨x :: D, y :: E, a', b', rfl, rfl, by rw [hrun]; exact hrest,
              List.forall_mem_cons.mpr ⟨hnum.1, hD⟩, List.forall_mem_cons.mpr ⟨hnum.2, hE⟩,
              by rw [List.length_cons, hlength, List.length_cons], hstop, fun hne => ?_,
              fun hzero => ?_⟩
            · rw [hrun, if_neg hne] at *
              exact hkeep hne
            · rw [hrun]
              rw [if_pos hzero] at hkeep hfirst ⊢
              have hx : tolower x = x.toNat := tolower_of_isnum hnum.1
              have hy : tolower y = y.toNat := tolower_of_isnum hnum.2
              have hxrange : 48 ≤ x.toNat ∧ x.toNat ≤ 57 := of_decide_eq_true hnum.1
              have hyrange : 48 ≤ y.toNat ∧ y.toNat ≤ 57 := of_decide_eq_true hnum.2
              by_cases hxy : (x.toNat : Int) - y.toNat = 0
              · have heq : tolower x = tolower y := by omega
                rcases hfirst hxy with ⟨hlow, hresult⟩ | ⟨Q, u, X, v, Y, hK, hL, hu, hv, hsign⟩
                · refine .inl ⟨?_, hresult⟩
                  show tolower x :: low D = tolower y :: low E
                  rw [heq, hlow]
                · refine .inr ⟨tolower x :: Q, u, X, v, Y, ?_, ?_, hu, hv, hsign⟩
                  · show tolower x :: low D = _
                    rw [hK]
                    rfl
                  · show tolower y :: low E = _
                    rw [hL, heq]
                    rfl
              · refine .inr ⟨[], tolower x, low D, tolower y, low E, rfl, rfl, by omega, by omega, ?_⟩
                rw [hkeep hxy, hx, hy]
                omega
          · refine ⟨[], [], x :: a, y :: b, rfl, rfl, ?_, hempty, hempty, rfl, hnum, fun _ => ?_,
              fun h => ?_⟩
            · rw [digitRun, if_neg hnum]
            · rw [digitRun, if_neg hnum]
            · refine .inl ⟨rfl, ?_⟩
              rw [digitRun, if_neg hnum]
              exact h

theorem isDigit_low {D : List UInt8} (hD : ∀ c ∈ D, str_isnum c = true) :
    ∀ v ∈ low D, isDigit v = true := by
  intro v hv
  obtain ⟨c, hc, rfl⟩ := List.mem_map.mp hv
  rw [isDigit_tolower]
  exact hD c hc

theorem startsDigit_low (a : List UInt8) : startsDigit (low a) ↔ startsNum a = true := by
  cases a with
  | nil =>
      refine iff_of_false ?_ Bool.false_ne_true
      rintro ⟨v, hv, -⟩
      cases hv
  | cons c a =>
      constructor
      · rintro ⟨v, hv, hdigit⟩
        rw [← Option.some.inj (Option.mem_def.mp hv), isDigit_tolower] at hdigit
        exact hdigit
      · intro h
        exact ⟨tolower c, rfl, (isDigit_tolower c).trans h⟩

/-- The longer run of digits has the greater key. -/
theorem decided_longer {D E a b : List UInt8} (hne : D ≠ []) (hD : ∀ c ∈ D, str_isnum c = true)
    (hE : ∀ c ∈ E, str_isnum c = true) (hlength : D.length = E.length)
    (ha : startsNum a = true) (hb : startsNum b ≠ true) :
    ∃ x X y Y, key (low (D ++ a)) = [48] ++ x :: X ∧ key (low (E ++ b)) = [48] ++ y :: Y ∧
      0 < x ∧ 0 < y ∧ y < x := by
  have hDpos := List.length_pos_iff.mpr hne
  have hEne : low E ≠ [] := by
    apply List.ne_nil_of_length_pos
    rw [low, List.length_map, ← hlength]
    exact hDpos
  have hshort := body_run hEne (isDigit_low hE) (fun h => hb ((startsDigit_low b).mp h))
  rcases run_cases (low a) with hnil | ⟨v, A, hlow, hv⟩ | ⟨D', R, hlow, hne', hD', hR⟩
  · have hstarts := (startsDigit_low a).mpr ha
    rw [hnil] at hstarts
    obtain ⟨v, hv, -⟩ := hstarts
    cases hv
  · have hstarts := (startsDigit_low a).mpr ha
    rw [hlow] at hstarts
    obtain ⟨w, hw, hdigit⟩ := hstarts
    rw [← Option.some.inj (Option.mem_def.mp hw)] at hdigit
    exact absurd hdigit (Bool.eq_false_iff.mp hv)
  · have hpos := List.length_pos_iff.mpr hne'
    have hlong := body_run (D := low D ++ D') (R := R) (List.append_ne_nil_of_right_ne_nil _ hne')
      (List.forall_mem_append.mpr ⟨isDigit_low hD, hD'⟩) hR
    rw [List.append_assoc, ← hlow, ← low_append] at hlong
    rw [← low_append] at hshort
    rw [key, key, hlong, hshort]
    refine ⟨_, _, _, _, rfl, rfl, ?_, ?_, ?_⟩
    · rw [List.length_append, low, List.length_map]
      omega
    · rw [low, List.length_map]
      omega
    · rw [List.length_append, low, low, List.length_map, List.length_map]
      omega

theorem tolower_pos {c : UInt8} (hc : 0 < c.toNat) : 0 < tolower c := by
  unfold tolower
  split <;> omega

/-- The characters at which two strings differ, outside of a run of digits. -/
theorem decided_char {x y : UInt8} {a b : List UInt8}
    (hnum : ¬ (str_isnum x = true ∧ str_isnum y = true)) (hx : 0 < x.toNat) (hy : 0 < y.toNat)
    (hne : tolower x - tolower y ≠ 0) :
    Decided (tolower x - tolower y) (key (low (x :: a))) (key (low (y :: b))) := by
  have hhead : ∀ (c : UInt8) (s : List UInt8), ∃ v X, key (low (c :: s)) = v :: X ∧
      (str_isnum c = false ∧ v = tolower c ∨ str_isnum c = true ∧ v = 48) := by
    intro c s
    by_cases hc : str_isnum c = true
    · rcases run_cases (low (c :: s)) with hnil | ⟨v, A, hlow, hv⟩ | ⟨D, R, hlow, hne', hD, hR⟩
      · cases hnil
      · have hcv := (List.cons.inj hlow).1
        rw [← hcv, isDigit_tolower, hc] at hv
        cases hv
      · rw [hlow, key, body_run hne' hD hR]
        exact ⟨48, _, rfl, .inr ⟨hc, rfl⟩⟩
    · have hc' := Bool.eq_false_iff.mpr hc
      refine ⟨tolower c, body (low s) ++ [0], ?_, .inl ⟨hc', rfl⟩⟩
      show body (tolower c :: low s) ++ [0] = _
      rw [body_char ((isDigit_tolower c).trans hc')]
      rfl
  have hrange : ∀ c : UInt8, str_isnum c = true ↔ 48 ≤ tolower c ∧ tolower c ≤ 57 := by
    intro c
    rw [← isDigit_tolower]
    exact decide_eq_true_iff
  obtain ⟨u, X, hX, hu⟩ := hhead x a
  obtain ⟨v, Y, hY, hv⟩ := hhead y b
  have hxpos := tolower_pos hx
  have hypos := tolower_pos hy
  have hxr := hrange x
  have hyr := hrange y
  refine ⟨[], u, X, v, Y, hX, hY, ?_, ?_, ?_⟩
  · rcases hu with hu | hu <;> omega
  · rcases hv with hv | hv <;> omega
  · rcases hu with ⟨hxn, hu⟩ | ⟨hxn, hu⟩
    · rw [hxn] at hxr
      rcases hv with ⟨hyn, hv⟩ | ⟨hyn, hv⟩
      · omega
      · rw [hyn] at hyr
        simp only [Bool.false_eq_true, false_iff, true_iff] at hxr hyr
        omega
    · rw [hxn] at hxr
      rcases hv with ⟨hyn, hv⟩ | ⟨hyn, hv⟩
      · rw [hyn] at hyr
        simp only [Bool.false_eq_true, false_iff, true_iff] at hxr hyr
        omega
      · exact absurd ⟨hxn, hyn⟩ hnum

/-- Runs of digits of the same length that differ. -/
theorem Decided.run {D E a b : List UInt8} {result : Int} (h : Decided result (low D) (low E))
    (hD : ∀ c ∈ D, str_isnum c = true) (hE : ∀ c ∈ E, str_isnum c = true)
    (hlength : D.length = E.length) (ha : startsNum a ≠ true) (hb : startsNum b ≠ true) :
    Decided result (key (low (D ++ a))) (key (low (E ++ b))) := by
  obtain ⟨Q, x, X, y, Y, hK, hL, hx, hy, hsign⟩ := h
  have hDne : low D ≠ [] := by
    rw [hK]
    exact List.append_ne_nil_of_right_ne_nil _ (List.cons_ne_nil _ _)
  have hEne : low E ≠ [] := by
    rw [hL]
    exact List.append_ne_nil_of_right_ne_nil _ (List.cons_ne_nil _ _)
  have hDrun := body_run hDne (isDigit_low hD) (fun h => ha ((startsDigit_low a).mp h))
  have hErun := body_run hEne (isDigit_low hE) (fun h => hb ((startsDigit_low b).mp h))
  have hlow : (low D).length = (low E).length := by
    rw [low, low, List.length_map, List.length_map, hlength]
  refine ⟨48 :: ((low D).length : Int) :: Q, x, X ++ body (low a) ++ [0], y,
    Y ++ body (low b) ++ [0], ?_, ?_, hx, hy, hsign⟩
  · rw [low_append, key, hDrun]
    simp [hK]
  · rw [low_append, key, hErun, hlow]
    simp [hL]

theorem not_decided_zero {K L : List Int} : ¬ Decided 0 K L := by
  rintro ⟨Q, x, X, y, Y, -, -, -, -, h | h⟩
  · exact absurd h.2 (Int.lt_irrefl 0)
  · exact absurd h.2 (Int.lt_irrefl 0)

/-- Bytes of an ASCII string before its NUL. -/
def IsAscii (s : List UInt8) : Prop := ∀ c ∈ s, 0 < c.toNat ∧ c.toNat < 128

instance (s : List UInt8) : Decidable (IsAscii s) :=
  List.decidableBAll (fun c : UInt8 => 0 < c.toNat ∧ c.toNat < 128) s

theorem not_endsDigit_singleton {v : Int} (hv : isDigit v = false) : ¬ endsDigit [v] := by
  rintro ⟨w, hw, hdigit⟩
  rw [← Option.some.inj (Option.mem_def.mp hw)] at hdigit
  exact absurd hdigit (Bool.eq_false_iff.mp hv)

theorem IsAscii.append_right {a b : List UInt8} (h : IsAscii (a ++ b)) : IsAscii b :=
  fun c hc => h c (List.mem_append_right a hc)

/-- Behind the digits of both strings. -/
theorem comp_digits {x y : UInt8} {a b a' b' : List UInt8} {result : Int}
    (hnum : str_isnum x = true ∧ str_isnum y = true) :
    digitRun 0 (x :: a) (y :: b) = (result, a', b') → str_comp_filenames (x :: a) (y :: b) =
      if startsNum a' then 1
      else if startsNum b' then -1
      else
        match a', b' with
        | x' :: a'', y' :: b'' =>
            if result ≠ 0 then result
            else if tolower x' - tolower y' ≠ 0 then tolower x' - tolower y'
            else str_comp_filenames a'' b''
        | _, _ => result := by
  intro hdigits
  rw [str_comp_filenames, if_pos hnum]
  split
  next result' a₁ b₁ heq =>
    rw [hdigits] at heq
    cases heq
    cases a' with
    | nil => rfl
    | cons x' a'' => cases b' <;> rfl

/-- Two characters that are no digits, and what follows them. -/
theorem Outcome.chars {x y : UInt8} {a b : List UInt8} {result : Int}
    (hnum : ¬ (str_isnum x = true ∧ str_isnum y = true)) (hx : 0 < x.toNat) (hy : 0 < y.toNat)
    (hrest : Outcome a b result) :
    Outcome (x :: a) (y :: b)
      (if tolower x - tolower y ≠ 0 then tolower x - tolower y else result) := by
  by_cases hne : tolower x - tolower y ≠ 0
  · rw [if_pos hne]
    exact .decided (decided_char hnum hx hy hne)
  · rw [if_neg hne]
    have heq : tolower x = tolower y := by omega
    have hnot : str_isnum x = false := by
      apply Bool.eq_false_iff.mpr
      intro hxn
      apply hnum
      refine ⟨hxn, ?_⟩
      rw [← isDigit_tolower, ← heq, isDigit_tolower]
      exact hxn
    have hends : ¬ endsDigit (low [x]) :=
      not_endsDigit_singleton ((isDigit_tolower x).trans hnot)
    have hlow : low [x] = low [y] := congrArg (fun v => [v]) heq
    exact hrest.prepend hlow (.inl hends) (.inl (hlow ▸ hends))

theorem outcome_nil_left {y : UInt8} {b : List UInt8} (hy : 0 < y.toNat) :
    Outcome [] (y :: b) (str_comp_filenames [] (y :: b)) := by
  have hrun : str_comp_filenames [] (y :: b) = 0 - (y.toNat : Int) := by
    rw [str_comp_filenames] <;> simp [firstChar]
  refine .shorter (tolower y) (low b) rfl ?_ (tolower_pos hy) (by rw [hrun]; omega)
  rintro ⟨v, hv, -⟩
  cases hv

theorem outcome_nil_right {x : UInt8} {a : List UInt8} (hx : 0 < x.toNat) :
    Outcome (x :: a) [] (str_comp_filenames (x :: a) []) := by
  have hrun : str_comp_filenames (x :: a) [] = (x.toNat : Int) - 0 := by
    rw [str_comp_filenames] <;> simp [firstChar]
  refine .longer (tolower x) (low a) rfl ?_ (tolower_pos hx) (by rw [hrun]; omega)
  rintro ⟨v, hv, -⟩
  cases hv

/-- Behind equal runs of digits. -/
theorem outcome_equalRuns {D E : List UInt8} (hne : D ≠ [])
    (hD : ∀ c ∈ D, str_isnum c = true) (hlow : low D = low E) : ∀ {a b : List UInt8},
    startsNum a ≠ true → startsNum b ≠ true →
    (∀ x a' y b', a = x :: a' → b = y :: b' → Outcome a b
      (if tolower x - tolower y ≠ 0 then tolower x - tolower y else str_comp_filenames a' b')) →
    Outcome (D ++ a) (E ++ b)
      (match a, b with
      | x :: a', y :: b' =>
          if tolower x - tolower y ≠ 0 then tolower x - tolower y else str_comp_filenames a' b'
      | _, _ => 0) := by
  intro a b ha hb hrest
  have hDne : low D ≠ [] := fun h => hne (List.map_eq_nil_iff.mp h)
  have hends := endsDigit_run hDne (isDigit_low hD)
  cases a with
  | nil =>
      cases b with
      | nil => exact .same (by rw [List.append_nil, List.append_nil, hlow]) rfl
      | cons y b =>
          refine .cut (.inl ⟨tolower y, low b, ?_, ?_, ?_⟩) rfl
          · rw [low_append, List.append_nil, hlow]
            rfl
          · exact (isDigit_tolower y).trans (Bool.eq_false_iff.mpr hb)
          · rw [List.append_nil]
            exact hends
  | cons x a =>
      cases b with
      | nil =>
          refine .cut (.inr ⟨tolower x, low a, ?_, ?_, ?_⟩) rfl
          · rw [low_append, List.append_nil, hlow]
            rfl
          · exact (isDigit_tolower x).trans (Bool.eq_false_iff.mpr ha)
          · rw [List.append_nil, ← hlow]
            exact hends
      | cons y b =>
          have hchar := hrest x a y b rfl rfl
          refine hchar.prepend hlow (.inr ⟨List.cons_ne_nil _ _, ?_⟩)
            (.inr ⟨List.cons_ne_nil _ _, ?_⟩)
          · exact fun h => ha ((startsDigit_low _).mp h)
          · exact fun h => hb ((startsDigit_low _).mp h)

/-- Two strings that start with digits. -/
theorem outcome_digits {x y : UInt8} {a b : List UInt8}
    (hnum : str_isnum x = true ∧ str_isnum y = true)
    (hrest : ∀ D E x' a' y' b', x :: a = D ++ x' :: a' → y :: b = E ++ y' :: b' →
      ¬ (str_isnum x' = true ∧ str_isnum y' = true) → a'.length < (x :: a).length →
      Outcome (x' :: a') (y' :: b') (if tolower x' - tolower y' ≠ 0 then tolower x' - tolower y'
        else str_comp_filenames a' b')) :
    Outcome (x :: a) (y :: b) (str_comp_filenames (x :: a) (y :: b)) := by
  obtain ⟨D, E, a', b', hsa, hsb, hrun, hD, hE, hlength, hstop, -, hfirst⟩ :=
    digitRun_spec 0 (x :: a) (y :: b)
  have hne : D ≠ [] := by
    rintro rfl
    have hEnil := List.eq_nil_of_length_eq_zero hlength.symm
    rw [hEnil] at hsb
    rw [List.nil_append] at hsa hsb
    rw [← hsa, ← hsb] at hstop
    exact hstop hnum
  have hDpos := List.length_pos_iff.mpr hne
  rw [comp_digits hnum hrun]
  replace hfirst := hfirst rfl
  generalize (digitRun 0 (x :: a) (y :: b)).1 = result at hfirst ⊢
  by_cases hastarts : startsNum a' = true
  · have hbstarts := fun h => hstop ⟨hastarts, h⟩
    obtain ⟨u, X, v, Y, hK, hL, hu, hv, hlt⟩ :=
      decided_longer hne hD hE hlength hastarts hbstarts
    rw [if_pos hastarts, hsa, hsb]
    exact .decided ⟨_, u, X, v, Y, hK, hL, hu, hv, .inr ⟨hlt, by decide⟩⟩
  rw [if_neg hastarts]
  by_cases hbstarts : startsNum b' = true
  · have hEne : E ≠ [] := List.ne_nil_of_length_pos (hlength ▸ hDpos)
    obtain ⟨u, X, v, Y, hK, hL, hu, hv, hlt⟩ :=
      decided_longer hEne hE hD hlength.symm hbstarts hastarts
    rw [if_pos hbstarts, hsa, hsb]
    exact .decided ⟨_, v, Y, u, X, hL, hK, hv, hu, .inl ⟨hlt, by decide⟩⟩
  rw [if_neg hbstarts]
  by_cases hresult : result = 0
  · subst hresult
    have hlow : low D = low E := by
      rcases hfirst with h | h
      · exact h.1
      · exact absurd h not_decided_zero
    have hbehind := outcome_equalRuns hne hD hlow hastarts hbstarts
      fun x' a'' y' b'' ha hb => by
        subst ha hb
        refine hrest D E x' a'' y' b'' hsa hsb hstop ?_
        rw [hsa, List.length_append, List.length_cons]
        omega
    rw [hsa, hsb]
    simp only [ne_eq, not_true_eq_false, if_false] at hbehind ⊢
    exact hbehind
  · have hdiffer : Outcome (x :: a) (y :: b) result := by
      rcases hfirst with h | h
      · exact absurd h.2 hresult
      · rw [hsa, hsb]
        exact .decided (h.run hD hE hlength hastarts hbstarts)
    split
    · rw [if_pos hresult]
      exact hdiffer
    · exact hdiffer

theorem comp_outcome {a b : List UInt8} (ha : IsAscii a) (hb : IsAscii b) :
    Outcome a b (str_comp_filenames a b) := by
  induction hn : a.length using Nat.strongRecOn generalizing a b with
  | ind n ih =>
      have hchars : ∀ {x y : UInt8} {a' b' : List UInt8},
          ¬ (str_isnum x = true ∧ str_isnum y = true) → a'.length < n →
          IsAscii (x :: a') → IsAscii (y :: b') →
          Outcome (x :: a') (y :: b') (if tolower x - tolower y ≠ 0 then tolower x - tolower y
            else str_comp_filenames a' b') := by
        intro x y a' b' hnum hlt hxa hyb
        refine .chars hnum (hxa x List.mem_cons_self).1 (hyb y List.mem_cons_self).1 ?_
        exact ih _ hlt (fun c hc => hxa c (List.mem_cons_of_mem x hc))
          (fun c hc => hyb c (List.mem_cons_of_mem y hc)) rfl
      cases a with
      | nil =>
          cases b with
          | nil =>
              apply Outcome.same rfl
              rw [str_comp_filenames] <;> simp [firstChar]
          | cons y b => exact outcome_nil_left (hb y List.mem_cons_self).1
      | cons x a =>
          cases b with
          | nil => exact outcome_nil_right (ha x List.mem_cons_self).1
          | cons y b =>
              by_cases hnum : str_isnum x = true ∧ str_isnum y = true
              · refine outcome_digits hnum fun D E x' a' y' b' hsa hsb hnum' hlt => ?_
                rw [hsa] at ha
                rw [hsb] at hb
                exact hchars hnum' (hn ▸ hlt) ha.append_right hb.append_right
              · rw [str_comp_filenames, if_neg hnum]
                rw [List.length_cons] at hn
                exact hchars hnum (by omega) ha hb

/-! ## The order -/

variable {a b c : List UInt8}

theorem low_pos (ha : IsAscii a) : ∀ v ∈ low a, 0 < v := by
  intro v hv
  obtain ⟨c, hc, rfl⟩ := List.mem_map.mp hv
  exact tolower_pos (ha c hc).1

/-- The keys of a string and of one that continues it where no run of digits is split. -/
theorem keys_of_continued {v : Int} {rest : List Int} (heq : low b = low a ++ v :: rest)
    (hjoint : ¬ endsDigit (low a) ∨ isDigit v = false) :
    key (low b) = body (low a) ++ key (v :: rest) ∧
      ∃ w X, key (v :: rest) = w :: X ∧ (0 < v → 0 < w) := by
  have hsplit : ¬ (endsDigit (low a) ∧ startsDigit (v :: rest)) := by
    rintro ⟨hends, u, hu, hdigit⟩
    rw [← Option.some.inj (Option.mem_def.mp hu)] at hdigit
    rcases hjoint with h | h
    · exact h hends
    · exact absurd hdigit (Bool.eq_false_iff.mp h)
  refine ⟨by rw [heq, key, body_append hsplit, List.append_assoc, key], ?_⟩
  rcases run_cases (v :: rest) with hnil | ⟨u, A, hlow, hu⟩ | ⟨D, R, hlow, hne, hD, hR⟩
  · cases hnil
  · rw [hlow, key, body_char hu, (List.cons.inj hlow).1]
    exact ⟨u, _, rfl, id⟩
  · rw [hlow, key, body_run hne hD hR]
    exact ⟨48, _, rfl, fun _ => by decide⟩

theorem Cut.lt (h : Cut a b) (hb : IsAscii b) : LexLt (key (low a)) (key (low b)) := by
  obtain ⟨v, rest, heq, hv, -⟩ := h
  obtain ⟨hkey, w, X, hw, hpos⟩ := keys_of_continued heq (.inr hv)
  have hvpos : 0 < v := by
    apply low_pos hb
    rw [heq]
    exact List.mem_append_right _ List.mem_cons_self
  rw [hkey, hw, key]
  exact LexLt.append_left _ (.inl (hpos hvpos))

/-- The first difference of the keys of a cut is at the end of the shorter string. -/
theorem Cut.not_decided {result : Int} (h : Cut a b) :
    ¬ Decided result (key (low a)) (key (low b)) ∧ ¬ Decided result (key (low b)) (key (low a)) := by
  obtain ⟨v, rest, heq, hv, -⟩ := h
  obtain ⟨hkey, w, W, hw, -⟩ := keys_of_continued heq (.inr hv)
  have hfirst : ∀ {P Q : List Int} {w x y : Int} {W X Y : List Int}, P ++ [0] = Q ++ x :: X →
      P ++ w :: W = Q ++ y :: Y → x ≠ y → x = 0 := by
    intro P Q w x y W X Y
    induction P generalizing Q with
    | nil =>
        intro hx _ _
        cases Q with
        | nil => exact ((List.cons.inj hx).1).symm
        | cons q Q =>
            have hnil := (List.cons.inj hx).2
            exact absurd hnil.symm (List.append_ne_nil_of_right_ne_nil _ (List.cons_ne_nil _ _))
    | cons p P ih =>
        intro hx hy hne
        cases Q with
        | nil => exact absurd ((List.cons.inj hx).1.symm.trans (List.cons.inj hy).1) hne
        | cons q Q => exact ih (List.cons.inj hx).2 (List.cons.inj hy).2 hne
  rw [hkey, hw, key]
  constructor
  · rintro ⟨Q, x, X, y, Y, hK, hL, hx, hy, hsign⟩
    have hzero := hfirst hK hL (by omega)
    omega
  · rintro ⟨Q, x, X, y, Y, hK, hL, hx, hy, hsign⟩
    have hzero := hfirst hL hK (by omega)
    omega

theorem Cut.length (h : Cut a b) : (low a).length < (low b).length := by
  obtain ⟨v, rest, heq, -⟩ := h
  rw [heq, List.length_append, List.length_cons]
  omega

theorem Decided.lt {result : Int} {K L : List Int} (h : Decided result K L) :
    (result < 0 ∧ LexLt K L) ∨ (0 < result ∧ LexLt L K) := by
  obtain ⟨Q, x, X, y, Y, rfl, rfl, -, -, hsign⟩ := h
  rcases hsign with ⟨hlt, hresult⟩ | ⟨hlt, hresult⟩
  · exact .inl ⟨hresult, LexLt.append_left Q (.inl hlt)⟩
  · exact .inr ⟨hresult, LexLt.append_left Q (.inl hlt)⟩

/-- A comparison is zero for equal strings and cuts, else it is that of the keys. -/
theorem comp_cases (ha : IsAscii a) (hb : IsAscii b) :
    (str_comp_filenames a b < 0 ∧ LexLt (key (low a)) (key (low b)) ∧ ¬ Cut a b ∧ ¬ Cut b a) ∨
    (0 < str_comp_filenames a b ∧ LexLt (key (low b)) (key (low a)) ∧ ¬ Cut a b ∧ ¬ Cut b a) ∨
    (str_comp_filenames a b = 0 ∧ (low a = low b ∨ Cut a b ∨ Cut b a)) := by
  cases comp_outcome ha hb with
  | decided h =>
      have hab : ¬ Cut a b := fun hcut => hcut.not_decided.1 h
      have hba : ¬ Cut b a := fun hcut => hcut.not_decided.2 h
      rcases h.lt with ⟨hresult, hlt⟩ | ⟨hresult, hlt⟩
      · exact .inl ⟨hresult, hlt, hab, hba⟩
      · exact .inr (.inl ⟨hresult, hlt, hab, hba⟩)
  | same heq hresult => exact .inr (.inr ⟨hresult, .inl heq⟩)
  | cut h hresult => exact .inr (.inr ⟨hresult, .inr h⟩)
  | shorter v rest heq hnot hv hresult =>
      obtain ⟨hkey, w, X, hw, hpos⟩ := keys_of_continued heq (.inl hnot)
      refine .inl ⟨hresult, ?_, fun hcut => hnot hcut.choose_spec.choose_spec.2.2, fun hcut => ?_⟩
      · rw [hkey, hw, key]
        exact LexLt.append_left _ (.inl (hpos hv))
      · have hlt := hcut.length
        rw [heq, List.length_append] at hlt
        omega
  | longer v rest heq hnot hv hresult =>
      obtain ⟨hkey, w, X, hw, hpos⟩ := keys_of_continued heq (.inl hnot)
      refine .inr (.inl ⟨hresult, ?_, fun hcut => ?_,
        fun hcut => hnot hcut.choose_spec.choose_spec.2.2⟩)
      · rw [hkey, hw, key]
        exact LexLt.append_left _ (.inl (hpos hv))
      · have hlt := hcut.length
        rw [heq, List.length_append] at hlt
        omega

instance asymm_key : Std.Asymm (α := Int) (· < ·) := ⟨fun x y h h' => by omega⟩

theorem key_trans {K L M : List Int} (h : LexLt K L) (h' : LexLt L M) : LexLt K M :=
  h.trans (fun _ _ _ => Int.lt_trans) h'

theorem comp_neg (ha : IsAscii a) (hb : IsAscii b) :
    str_comp_filenames a b < 0 ↔ LexLt (key (low a)) (key (low b)) ∧ ¬ Cut a b ∧ ¬ Cut b a := by
  rcases comp_cases ha hb with ⟨hneg, h⟩ | ⟨hpos, hlt, -⟩ | ⟨hzero, h⟩
  · exact iff_of_true hneg h
  · refine iff_of_false (by omega) fun h => ?_
    exact lexLt_irrefl _ (key_trans hlt h.1)
  · refine iff_of_false (by omega) ?_
    rintro ⟨hlt, hab, hba⟩
    rcases h with heq | h | h
    · rw [heq] at hlt
      exact lexLt_irrefl _ hlt
    · exact hab h
    · exact hba h

theorem comp_zero (ha : IsAscii a) (hb : IsAscii b) :
    str_comp_filenames a b = 0 ↔ low a = low b ∨ Cut a b ∨ Cut b a := by
  rcases comp_cases ha hb with ⟨hneg, hlt, hab, hba⟩ | ⟨hpos, hlt, hab, hba⟩ | ⟨hzero, h⟩
  · refine iff_of_false (by omega) ?_
    rintro (heq | h | h)
    · rw [heq] at hlt
      exact lexLt_irrefl _ hlt
    · exact hab h
    · exact hba h
  · refine iff_of_false (by omega) ?_
    rintro (heq | h | h)
    · rw [heq] at hlt
      exact lexLt_irrefl _ hlt
    · exact hab h
    · exact hba h
  · exact iff_of_true hzero h

theorem comp_antisymm (ha : IsAscii a) (hb : IsAscii b) :
    (str_comp_filenames a b).sign = - (str_comp_filenames b a).sign := by
  rcases comp_cases ha hb with ⟨hneg, hlt, hab, hba⟩ | ⟨hpos, hlt, hab, hba⟩ | ⟨hzero, h⟩
  · have hother : 0 < str_comp_filenames b a := by
      rcases comp_cases hb ha with ⟨-, hgt, -⟩ | ⟨hpos, -⟩ | ⟨hzero, -⟩
      · exact absurd (key_trans hlt hgt) (lexLt_irrefl _)
      · exact hpos
      · have hnot := (comp_zero hb ha).mp hzero
        rcases hnot with heq | h | h
        · rw [heq] at hlt
          exact absurd hlt (lexLt_irrefl _)
        · exact absurd h hba
        · exact absurd h hab
    rw [Int.sign_eq_neg_one_of_neg hneg, Int.sign_eq_one_of_pos hother]
  · have hother := (comp_neg hb ha).mpr ⟨hlt, hba, hab⟩
    rw [Int.sign_eq_one_of_pos hpos, Int.sign_eq_neg_one_of_neg hother]
    rfl
  · have hother : str_comp_filenames b a = 0 := by
      apply (comp_zero hb ha).mpr
      rcases h with h | h | h
      · exact .inl h.symm
      · exact .inr (.inr h)
      · exact .inr (.inl h)
    rw [hzero, hother]
    rfl

theorem comp_trans (ha : IsAscii a) (hb : IsAscii b) (hc : IsAscii c)
    (hab : str_comp_filenames a b < 0) (hbc : str_comp_filenames b c < 0) :
    str_comp_filenames a c < 0 := by
  obtain ⟨hab, habcut, -⟩ := (comp_neg ha hb).mp hab
  obtain ⟨hbc, -, -⟩ := (comp_neg hb hc).mp hbc
  have hac := key_trans hab hbc
  refine (comp_neg ha hc).mpr ⟨hac, fun hcut => ?_, fun hcut => ?_⟩
  · -- the string between continues the shorter one as well
    obtain ⟨v, rest, heq, hv, hends⟩ := hcut
    obtain ⟨hkey, -⟩ := keys_of_continued heq (.inr hv)
    have hbetween : ∃ X, key (low b) = body (low a) ++ X := by
      apply prefix_of_between (x := [0]) (y := key (v :: rest))
      · exact hab.le
      · rw [← hkey]
        exact hbc.le
    obtain ⟨X, hX⟩ := hbetween
    obtain ⟨q, hq, hsplit, -⟩ := key_decode (low_pos ha) (low_pos hb) hX
    cases q with
    | nil =>
        rw [List.append_nil] at hq
        rw [hq] at hab
        exact lexLt_irrefl _ hab
    | cons u q =>
        refine habcut ⟨u, q, hq, ?_, hends⟩
        apply Bool.eq_false_iff.mpr
        exact fun hu => hsplit ⟨hends, u, rfl, hu⟩
  · exact lexLt_irrefl _ (key_trans hac (hcut.lt ha))

/-! ## Equivalence -/

theorem Cut.trans (hab : Cut a b) (hbc : Cut b c) : Cut a c := by
  obtain ⟨v, rest, hb, hv, hends⟩ := hab
  obtain ⟨w, rest', hc, -, -⟩ := hbc
  refine ⟨v, rest ++ w :: rest', ?_, hv, hends⟩
  rw [hc, hb, List.append_assoc]
  rfl

/-- Two strings that are continued by the same one. -/
theorem Cut.linear (hab : Cut a b) (hcb : Cut c b) : low a = low c ∨ Cut a c ∨ Cut c a := by
  obtain ⟨v, rest, hb, hv, hends⟩ := hab
  obtain ⟨w, rest', hb', hw, hends'⟩ := hcb
  rcases List.append_eq_append_iff.mp (hb.symm.trans hb') with ⟨q, hc, htail⟩ | ⟨q, ha, htail⟩
  · cases q with
    | nil =>
        rw [List.append_nil] at hc
        exact .inl hc.symm
    | cons u q =>
        have hu := (List.cons.inj htail).1
        exact .inr (.inl ⟨u, q, hc, hu ▸ hv, hends⟩)
  · cases q with
    | nil =>
        rw [List.append_nil] at ha
        exact .inl ha
    | cons u q =>
        have hu := (List.cons.inj htail).1
        exact .inr (.inr ⟨u, q, ha, hu ▸ hw, hends'⟩)

theorem Cut.congr {a' b' : List UInt8} (ha : low a = low a') (hb : low b = low b') (h : Cut a b) :
    Cut a' b' := by
  unfold Cut
  rw [← ha, ← hb]
  exact h

/-- Both others continue the string in the middle, and neither is the other one or continues it
the same way. -/
def Fork (a b c : List UInt8) : Prop :=
  Cut b a ∧ Cut b c ∧ ¬ (low a = low c ∨ Cut a c ∨ Cut c a)

theorem comp_equivalent (ha : IsAscii a) (hb : IsAscii b) (hc : IsAscii c) (hfork : ¬ Fork a b c)
    (hab : str_comp_filenames a b = 0) (hbc : str_comp_filenames b c = 0) :
    str_comp_filenames a c = 0 := by
  apply (comp_zero ha hc).mpr
  rcases (comp_zero ha hb).mp hab with heq | hab | hba
  · rcases (comp_zero hb hc).mp hbc with heq' | hbc | hcb
    · exact .inl (heq.trans heq')
    · exact .inr (.inl (hbc.congr heq.symm rfl))
    · exact .inr (.inr (hcb.congr rfl heq.symm))
  · rcases (comp_zero hb hc).mp hbc with heq' | hbc | hcb
    · exact .inr (.inl (hab.congr rfl heq'))
    · exact .inr (.inl (hab.trans hbc))
    · exact hab.linear hcb
  · rcases (comp_zero hb hc).mp hbc with heq' | hbc | hcb
    · exact .inr (.inr (hba.congr heq' rfl))
    · exact not_not.mp fun hnot => hfork ⟨hba, hbc, hnot⟩
    · exact .inr (.inr (hcb.trans hba))

/-- The laws of a strict weak order for three file names. -/
def WeakOrder (a b c : List UInt8) : Prop :=
  (str_comp_filenames a b).sign = - (str_comp_filenames b a).sign ∧
  (str_comp_filenames a b < 0 → str_comp_filenames b c < 0 → str_comp_filenames a c < 0) ∧
  (str_comp_filenames a b = 0 → str_comp_filenames b c = 0 → str_comp_filenames a c = 0)

/-- The laws hold exactly if the string in the middle is no fork of the others. -/
theorem filename_order_iff (ha : IsAscii a) (hb : IsAscii b) (hc : IsAscii c) :
    WeakOrder a b c ↔ ¬ Fork a b c := by
  constructor
  · rintro ⟨-, -, hequivalent⟩ ⟨hba, hbc, hnot⟩
    apply hnot
    apply (comp_zero ha hc).mp
    apply hequivalent
    · exact (comp_zero ha hb).mpr (.inr (.inr hba))
    · exact (comp_zero hb hc).mpr (.inr (.inl hbc))
  · intro hfork
    exact ⟨comp_antisymm ha hb, comp_trans ha hb hc, comp_equivalent ha hb hc hfork⟩

/-- `file1`, `file2` and `file10`. -/
theorem filename_order_numbers :
    WeakOrder [102, 105, 108, 101, 49] [102, 105, 108, 101, 50] [102, 105, 108, 101, 49, 48] := by
  have ha : IsAscii [102, 105, 108, 101, 49] := by decide
  have hb : IsAscii [102, 105, 108, 101, 50] := by decide
  have hc : IsAscii [102, 105, 108, 101, 49, 48] := by decide
  apply (filename_order_iff ha hb hc).mpr
  rintro ⟨⟨v, rest, heq, -⟩, -⟩
  have hlength := congrArg List.length heq
  simp [low] at hlength

/-- `1` is equivalent to `1a` and to `1b`, but `1a` is less than `1b`. -/
theorem filename_order_fork :
    str_comp_filenames [49, 97] [49] = 0 ∧ str_comp_filenames [49] [49, 98] = 0 ∧
      str_comp_filenames [49, 97] [49, 98] < 0 ∧ ¬ WeakOrder [49, 97] [49] [49, 98] := by
  have hfirst : str_comp_filenames [49, 97] [49] = 0 := by decide +kernel
  have hsecond : str_comp_filenames [49] [49, 98] = 0 := by decide +kernel
  have hless : str_comp_filenames [49, 97] [49, 98] < 0 := by decide +kernel
  refine ⟨hfirst, hsecond, hless, fun h => ?_⟩
  exact absurd (h.2.2 hfirst hsecond) (Int.ne_of_lt hless)

end Comparison

end Fex.Base
