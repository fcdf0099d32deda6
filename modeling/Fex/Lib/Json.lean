import Mathlib.Data.List.TakeWhile

/-!
# JSON texts

Trees of JSON values, and a reader of texts as they are in bytes.  A byte from 128 on stands for
itself in a string.  The numbers are integers: a text with a fraction or an exponent has no tree.
The rules at the end say how a text is read, with the fuel that is enough.
-/

namespace Fex.Lib

inductive Json
  | null
  | bool (b : Bool)
  | int (n : Int)
  | str (s : List UInt8)
  | arr (xs : List Json)
  | obj (fields : List (List UInt8 × Json))

namespace Json

/-! ## Strings -/

def isSpace (c : UInt8) : Bool := c = 32 ∨ c = 9 ∨ c = 10 ∨ c = 13

def skipSpace (s : List UInt8) : List UInt8 := s.dropWhile isSpace

def hexValue (c : UInt8) : Option Nat :=
  if 48 ≤ c ∧ c ≤ 57 then some (c.toNat - 48)
  else if 97 ≤ c ∧ c ≤ 102 then some (c.toNat - 87)
  else if 65 ≤ c ∧ c ≤ 70 then some (c.toNat - 55)
  else none

/-- Four hexadecimal digits. -/
def readHex : List UInt8 → Option (Nat × List UInt8)
  | a :: b :: c :: d :: s => do
      return (16 * (16 * (16 * (← hexValue a) + (← hexValue b)) + (← hexValue c)) + (← hexValue d), s)
  | _ => none

/-- The bytes of a code point. -/
def utf8 (n : Nat) : List UInt8 :=
  if n < 0x80 then [UInt8.ofNat n]
  else if n < 0x800 then [UInt8.ofNat (0xC0 + n / 64), UInt8.ofNat (0x80 + n % 64)]
  else if n < 0x10000 then
    [UInt8.ofNat (0xE0 + n / 4096), UInt8.ofNat (0x80 + n / 64 % 64), UInt8.ofNat (0x80 + n % 64)]
  else
    [UInt8.ofNat (0xF0 + n / 262144), UInt8.ofNat (0x80 + n / 4096 % 64),
      UInt8.ofNat (0x80 + n / 64 % 64), UInt8.ofNat (0x80 + n % 64)]

/-- A code point behind a backslash and a `u`; one with two halves is written as two. -/
def readUnicode (s : List UInt8) : Option (List UInt8 × List UInt8) := do
  let (n, s) ← readHex s
  if n < 0xD800 ∨ 0xE000 ≤ n then return (utf8 n, s)
  else
    match s with
    | 92 :: 117 :: s => do
        let (m, s) ← readHex s
        if n < 0xDC00 ∧ 0xDC00 ≤ m ∧ m < 0xE000 then
          return (utf8 (0x10000 + 0x400 * (n - 0xD800) + (m - 0xDC00)), s)
        else none
    | _ => none

/-- What a backslash escapes. -/
def readEscape : List UInt8 → Option (List UInt8 × List UInt8)
  | [] => none
  | c :: s =>
      if c = 34 ∨ c = 92 ∨ c = 47 then some ([c], s)
      else if c = 98 then some ([8], s)
      else if c = 102 then some ([12], s)
      else if c = 110 then some ([10], s)
      else if c = 114 then some ([13], s)
      else if c = 116 then some ([9], s)
      else if c = 117 then readUnicode s
      else none

/-- The characters up to the closing quote. -/
def readChars : Nat → List UInt8 → Option (List UInt8 × List UInt8)
  | 0, _ => none
  | _, [] => none
  | fuel + 1, c :: s =>
      if c = 34 then some ([], s)
      else if c = 92 then do
        let (bytes, s) ← readEscape s
        let (chars, s) ← readChars fuel s
        return (bytes ++ chars, s)
      else if c < 32 then none
      else do
        let (chars, s) ← readChars fuel s
        return (c :: chars, s)

def readString (s : List UInt8) : Option (List UInt8 × List UInt8) := readChars s.length s

/-! ## Words and numbers -/

def isDigit (c : UInt8) : Bool := 48 ≤ c ∧ c ≤ 57

def digitsValue (l : List UInt8) : Nat := l.foldl (fun n c => 10 * n + (c.toNat - 48)) 0

/-- Digits without a leading zero, no fraction and no exponent. -/
def readNat (s : List UInt8) : Option (Nat × List UInt8) :=
  let digits := s.takeWhile isDigit
  let rest := s.dropWhile isDigit
  if digits = [] ∨ digits.head? = some 48 ∧ digits ≠ [48] ∨
      rest.head? ∈ [some 46, some 69, some 101] then none
  else some (digitsValue digits, rest)

def readInt : List UInt8 → Option (Int × List UInt8)
  | [] => none
  | c :: s =>
      if c = 45 then (readNat s).map fun v => (-(v.1 : Int), v.2)
      else (readNat (c :: s)).map fun v => ((v.1 : Int), v.2)

/-- One of the words `null`, `true` and `false`, or a number. -/
def readScalar (s : List UInt8) : Option (Json × List UInt8) :=
  if [110, 117, 108, 108].isPrefixOf s then some (null, s.drop 4)
  else if [116, 114, 117, 101].isPrefixOf s then some (bool true, s.drop 4)
  else if [102, 97, 108, 115, 101].isPrefixOf s then some (bool false, s.drop 5)
  else (readInt s).map fun v => (int v.1, v.2)

/-! ## Values -/

/-- A name with its colon. -/
def readName (s : List UInt8) : Option (List UInt8 × List UInt8) :=
  match skipSpace s with
  | 34 :: s => do
      let (name, s) ← readString s
      match skipSpace s with
      | 58 :: s => return (name, s)
      | _ => none
  | _ => none

mutual

def readValue : Nat → List UInt8 → Option (Json × List UInt8)
  | 0, _ => none
  | fuel + 1, s =>
      match skipSpace s with
      | [] => none
      | c :: s =>
          if c = 34 then (readString s).map fun v => (str v.1, v.2)
          else if c = 91 then
            if (skipSpace s).head? = some 93 then some (arr [], (skipSpace s).tail)
            else (readElements fuel s).map fun v => (arr v.1, v.2)
          else if c = 123 then
            if (skipSpace s).head? = some 125 then some (obj [], (skipSpace s).tail)
            else (readMembers fuel s).map fun v => (obj v.1, v.2)
          else readScalar (c :: s)

/-- The values up to the closing bracket, at least one. -/
def readElements : Nat → List UInt8 → Option (List Json × List UInt8)
  | 0, _ => none
  | fuel + 1, s => do
      let (x, s) ← readValue fuel s
      match skipSpace s with
      | [] => none
      | c :: s =>
          if c = 93 then return ([x], s)
          else if c = 44 then do
            let (xs, s) ← readElements fuel s
            return (x :: xs, s)
          else none

/-- The names and values up to the closing brace, at least one. -/
def readMembers : Nat → List UInt8 → Option (List (List UInt8 × Json) × List UInt8)
  | 0, _ => none
  | fuel + 1, s => do
      let (name, s) ← readName s
      let (x, s) ← readValue fuel s
      match skipSpace s with
      | [] => none
      | c :: s =>
          if c = 125 then return ([(name, x)], s)
          else if c = 44 then do
            let (fields, s) ← readMembers fuel s
            return ((name, x) :: fields, s)
          else none

end

/-- The tree of a text. -/
def parse (s : List UInt8) : Option Json :=
  match readValue (s.length + 1) s with
  | some (x, rest) => if skipSpace rest = [] then some x else none
  | none => none

/-! ## How strings are read -/

theorem skipSpace_append {ws : List UInt8} (h : ∀ c ∈ ws, isSpace c = true) (s : List UInt8) :
    skipSpace (ws ++ s) = skipSpace s := by
  induction ws with
  | nil => rfl
  | cons c ws ih =>
      show List.dropWhile isSpace (c :: (ws ++ s)) = _
      rw [List.dropWhile_cons_of_pos (h c List.mem_cons_self)]
      exact ih fun c hc => h c (List.mem_cons_of_mem _ hc)

theorem skipSpace_cons {c : UInt8} (h : isSpace c = false) (s : List UInt8) :
    skipSpace (c :: s) = c :: s := by
  apply List.dropWhile_cons_of_neg
  rw [h]
  exact Bool.false_ne_true

/-- How a byte can be written in a string. -/
def StandsFor (e : List UInt8) (c : UInt8) : Prop :=
  e = [c] ∧ c ≠ 34 ∧ c ≠ 92 ∧ ¬ c < 32 ∨
    ∃ e', e = 92 :: e' ∧ ∀ rest, readEscape (e' ++ rest) = some ([c], rest)

theorem StandsFor.length_pos {e : List UInt8} {c : UInt8} (h : StandsFor e c) : 0 < e.length := by
  rcases h with ⟨rfl, -⟩ | ⟨e', rfl, -⟩
  · exact Nat.zero_lt_one
  · exact Nat.succ_pos _

section Strings

variable {enc : UInt8 → List UInt8}

theorem length_le_flatMap (h : ∀ c, StandsFor (enc c) c) (s : List UInt8) :
    s.length ≤ (s.flatMap enc).length := by
  induction s with
  | nil => exact Nat.le_refl _
  | cons c s ih =>
      have hpos := (h c).length_pos
      rw [List.flatMap_cons, List.length_append, List.length_cons]
      omega

theorem readChars_flatMap (h : ∀ c, StandsFor (enc c) c) (s rest : List UInt8) (fuel : Nat)
    (hfuel : s.length < fuel) : readChars fuel (s.flatMap enc ++ 34 :: rest) = some (s, rest) := by
  induction s generalizing fuel with
  | nil =>
      cases fuel with
      | zero => exact absurd hfuel (Nat.not_lt_zero _)
      | succ fuel => rfl
  | cons c s ih =>
      cases fuel with
      | zero => exact absurd hfuel (Nat.not_lt_zero _)
      | succ fuel =>
          have hrest := ih fuel (Nat.lt_of_succ_lt_succ hfuel)
          rw [List.flatMap_cons, List.append_assoc]
          rcases h c with ⟨he, h34, h92, h32⟩ | ⟨e, he, hread⟩
          · rw [he, List.singleton_append, readChars, if_neg h34, if_neg h92, if_neg h32, hrest]
            rfl
          · rw [he, List.cons_append, readChars, if_neg (by decide), if_pos rfl, hread]
            show (readChars fuel _).bind _ = _
            rw [hrest]
            rfl

/-- A string is read back if each of its bytes is written in a way that stands for it. -/
theorem readString_flatMap (h : ∀ c, StandsFor (enc c) c) (s rest : List UInt8) :
    readString (s.flatMap enc ++ 34 :: rest) = some (s, rest) := by
  apply readChars_flatMap h
  have hlength := length_le_flatMap h s
  rw [List.length_append, List.length_cons]
  omega

end Strings

/-! ## How numbers are read -/

/-- No part of a number follows. -/
def Delimited (rest : List UInt8) : Prop :=
  ∀ c ∈ rest.head?, isDigit c = false ∧ c ≠ 46 ∧ c ≠ 69 ∧ c ≠ 101

theorem readNat_append {digits rest : List UInt8} (hdigits : ∀ c ∈ digits, isDigit c = true)
    (hne : digits ≠ []) (hzero : digits.head? = some 48 → digits = [48]) (hrest : Delimited rest) :
    readNat (digits ++ rest) = some (digitsValue digits, rest) := by
  have hnone : rest.takeWhile isDigit = [] ∧ rest.dropWhile isDigit = rest := by
    cases rest with
    | nil => exact ⟨rfl, rfl⟩
    | cons c rest =>
        have hc : ¬ isDigit c = true := by
          rw [(hrest c rfl).1]
          exact Bool.false_ne_true
        exact ⟨List.takeWhile_cons_of_neg hc, List.dropWhile_cons_of_neg hc⟩
  have htake : (digits ++ rest).takeWhile isDigit = digits := by
    rw [List.takeWhile_append_of_pos hdigits, hnone.1, List.append_nil]
  have hdrop : (digits ++ rest).dropWhile isDigit = rest := by
    rw [List.dropWhile_append_of_pos hdigits, hnone.2]
  unfold readNat
  rw [htake, hdrop, if_neg]
  rintro (h | h | h)
  · exact hne h
  · exact h.2 (hzero h.1)
  · cases hhead : rest.head? with
    | none => simp [hhead] at h
    | some c =>
        obtain ⟨-, h46, h69, h101⟩ := hrest c hhead
        simp [hhead, h46, h69, h101] at h

/-! ## How values are read -/

/-- A value is read with this much fuel or more. -/
def Reads (n : Nat) (s : List UInt8) (x : Json) (rest : List UInt8) : Prop :=
  ∀ fuel, n ≤ fuel → readValue fuel s = some (x, rest)

def ReadsElements (n : Nat) (s : List UInt8) (xs : List Json) (rest : List UInt8) : Prop :=
  ∀ fuel, n ≤ fuel → readElements fuel s = some (xs, rest)

def ReadsMembers (n : Nat) (s : List UInt8) (fields : List (List UInt8 × Json))
    (rest : List UInt8) : Prop :=
  ∀ fuel, n ≤ fuel → readMembers fuel s = some (fields, rest)

variable {n m : Nat} {s s' rest name : List UInt8} {x : Json} {xs : List Json}
  {fields : List (List UInt8 × Json)}

theorem Reads.mono (h : Reads n s x rest) (hle : n ≤ m) : Reads m s x rest :=
  fun fuel hfuel => h fuel (Nat.le_trans hle hfuel)

theorem ReadsElements.mono (h : ReadsElements n s xs rest) (hle : n ≤ m) :
    ReadsElements m s xs rest := fun fuel hfuel => h fuel (Nat.le_trans hle hfuel)

theorem ReadsMembers.mono (h : ReadsMembers n s fields rest) (hle : n ≤ m) :
    ReadsMembers m s fields rest := fun fuel hfuel => h fuel (Nat.le_trans hle hfuel)

theorem readValue_cons {c : UInt8} (hs : skipSpace s = c :: s') (fuel : Nat) :
    readValue (fuel + 1) s =
      if c = 34 then (readString s').map fun v => (str v.1, v.2)
      else if c = 91 then
        if (skipSpace s').head? = some 93 then some (arr [], (skipSpace s').tail)
        else (readElements fuel s').map fun v => (arr v.1, v.2)
      else if c = 123 then
        if (skipSpace s').head? = some 125 then some (obj [], (skipSpace s').tail)
        else (readMembers fuel s').map fun v => (obj v.1, v.2)
      else readScalar (c :: s') := by
  rw [readValue, hs]

theorem reads_str {v : List UInt8} (hs : skipSpace s = 34 :: s') (h : readString s' = some (v, rest)) :
    Reads 1 s (str v) rest := by
  intro fuel hfuel
  cases fuel with
  | zero => exact absurd hfuel (Nat.not_succ_le_zero _)
  | succ fuel =>
      rw [readValue_cons hs]
      show (readString s').map _ = _
      rw [h]
      rfl

theorem reads_scalar {c : UInt8} (hs : skipSpace s = c :: s') (h34 : c ≠ 34) (h91 : c ≠ 91)
    (h123 : c ≠ 123) (h : readScalar (c :: s') = some (x, rest)) : Reads 1 s x rest := by
  intro fuel hfuel
  cases fuel with
  | zero => exact absurd hfuel (Nat.not_succ_le_zero _)
  | succ fuel =>
      rw [readValue_cons hs]
      show (if c = 34 then _ else _) = _
      rw [if_neg h34, if_neg h91, if_neg h123]
      exact h

theorem reads_arr_nil (hs : skipSpace s = 91 :: s') (hend : skipSpace s' = 93 :: rest) :
    Reads 1 s (arr []) rest := by
  intro fuel hfuel
  cases fuel with
  | zero => exact absurd hfuel (Nat.not_succ_le_zero _)
  | succ fuel =>
      rw [readValue_cons hs]
      show (if (skipSpace s').head? = some 93 then some (arr [], (skipSpace s').tail) else _) = _
      rw [hend]
      rfl

theorem reads_arr (hs : skipSpace s = 91 :: s') (hhead : (skipSpace s').head? ≠ some 93)
    (h : ReadsElements n s' xs rest) : Reads (n + 1) s (arr xs) rest := by
  intro fuel hfuel
  cases fuel with
  | zero => exact absurd hfuel (Nat.not_succ_le_zero _)
  | succ fuel =>
      rw [readValue_cons hs]
      show (if (skipSpace s').head? = some 93 then _ else (readElements fuel s').map _) = _
      rw [if_neg hhead, h fuel (Nat.le_of_succ_le_succ hfuel)]
      rfl

theorem reads_obj_nil (hs : skipSpace s = 123 :: s') (hend : skipSpace s' = 125 :: rest) :
    Reads 1 s (obj []) rest := by
  intro fuel hfuel
  cases fuel with
  | zero => exact absurd hfuel (Nat.not_succ_le_zero _)
  | succ fuel =>
      rw [readValue_cons hs]
      show (if (skipSpace s').head? = some 125 then some (obj [], (skipSpace s').tail) else _) = _
      rw [hend]
      rfl

theorem reads_obj (hs : skipSpace s = 123 :: s') (hhead : (skipSpace s').head? ≠ some 125)
    (h : ReadsMembers n s' fields rest) : Reads (n + 1) s (obj fields) rest := by
  intro fuel hfuel
  cases fuel with
  | zero => exact absurd hfuel (Nat.not_succ_le_zero _)
  | succ fuel =>
      rw [readValue_cons hs]
      show (if (skipSpace s').head? = some 125 then _ else (readMembers fuel s').map _) = _
      rw [if_neg hhead, h fuel (Nat.le_of_succ_le_succ hfuel)]
      rfl

theorem readsElements_last (hx : Reads n s x s') (hend : skipSpace s' = 93 :: rest) :
    ReadsElements (n + 1) s [x] rest := by
  intro fuel hfuel
  cases fuel with
  | zero => exact absurd hfuel (Nat.not_succ_le_zero _)
  | succ fuel =>
      rw [readElements, hx fuel (Nat.le_of_succ_le_succ hfuel)]
      simp only [bind, Option.bind, hend]
      rfl

theorem readsElements_cons {s'' : List UInt8} (hx : Reads n s x s')
    (hcomma : skipSpace s' = 44 :: s'') (hxs : ReadsElements m s'' xs rest) :
    ReadsElements (n + m + 1) s (x :: xs) rest := by
  intro fuel hfuel
  cases fuel with
  | zero => exact absurd hfuel (Nat.not_succ_le_zero _)
  | succ fuel =>
      rw [readElements, hx fuel (by omega)]
      simp only [bind, Option.bind, hcomma]
      show ((readElements fuel s'').bind _) = _
      rw [hxs fuel (by omega)]
      rfl

theorem readsMembers_last (hname : readName s = some (name, s')) {s'' : List UInt8}
    (hx : Reads n s' x s'') (hend : skipSpace s'' = 125 :: rest) :
    ReadsMembers (n + 1) s [(name, x)] rest := by
  intro fuel hfuel
  cases fuel with
  | zero => exact absurd hfuel (Nat.not_succ_le_zero _)
  | succ fuel =>
      rw [readMembers, hname]
      simp only [bind, Option.bind, hx fuel (Nat.le_of_succ_le_succ hfuel), hend]
      rfl

theorem readsMembers_cons (hname : readName s = some (name, s')) {s₁ s₂ : List UInt8}
    (hx : Reads n s' x s₁) (hcomma : skipSpace s₁ = 44 :: s₂)
    (hfields : ReadsMembers m s₂ fields rest) :
    ReadsMembers (n + m + 1) s ((name, x) :: fields) rest := by
  intro fuel hfuel
  cases fuel with
  | zero => exact absurd hfuel (Nat.not_succ_le_zero _)
  | succ fuel =>
      have hvalue := hx fuel (by omega)
      rw [readMembers, hname]
      simp only [bind, Option.bind, hvalue, hcomma]
      show ((readMembers fuel s₂).bind _) = _
      rw [hfields fuel (by omega)]
      rfl

theorem readName_quoted (hs : skipSpace s = 34 :: s') {s'' : List UInt8}
    (h : readString s' = some (name, s'')) (hcolon : skipSpace s'' = 58 :: rest) :
    readName s = some (name, rest) := by
  unfold readName
  rw [hs]
  show (readString s').bind _ = _
  rw [h]
  simp only [Option.bind, hcolon]
  rfl

/-- A text whose value is read with fuel for each byte. -/
theorem parse_eq (hx : Reads n s x rest) (hn : n ≤ s.length) (hrest : skipSpace rest = []) :
    parse s = some x := by
  unfold parse
  rw [hx (s.length + 1) (Nat.le_succ_of_le hn)]
  exact if_pos hrest

end Json

end Fex.Lib
