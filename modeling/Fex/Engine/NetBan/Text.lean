import Fex.Base.Strings
import Fex.Engine.NetBan

/-!
# Addresses as text

Model of `net_addr_str` and `net_addr_from_str` for IPv4.  The numbers are accumulated in an
`int`, so that a long one leaves its range before it is compared with its bound.
-/

namespace Fex.Engine.NetBan

open Fex.Lib Fex.Base

/-! ## Parsing -/

/-- The loop of `parse_int`; `isdigit` is the test of `str_isnum`. -/
def parseLoop : Int → List UInt8 → Exec (Int × List UInt8)
  | i, [] => .ok (i, [])
  | i, c :: str =>
      if isdigit c then
        if 10 * i + (c.toNat - 48 : Nat) > intMax then .error .overflow
        else parseLoop (10 * i + (c.toNat - 48 : Nat)) str
      else .ok (i, c :: str)

def parse_int : List UInt8 → Exec (Option (Int × List UInt8))
  | [] => .ok none
  | c :: str =>
      if isdigit c then do
        return some (← parseLoop (c.toNat - 48 : Nat) str)
      else .ok none

def parse_char (c : UInt8) : List UInt8 → Option (List UInt8)
  | [] => none
  | b :: str => if b = c then some str else none

def parse_uint8 (str : List UInt8) : Exec (Option (UInt8 × List UInt8)) := do
  match ← parse_int str with
  | none => return none
  | some (i, str) => return if i < 0 ∨ i > 0xff then none else some (UInt8.ofNat i.toNat, str)

def parse_uint16 (str : List UInt8) : Exec (Option (UInt16 × List UInt8)) := do
  match ← parse_int str with
  | none => return none
  | some (i, str) => return if i < 0 ∨ i > 0xffff then none else some (UInt16.ofNat i.toNat, str)

/-- An IPv4 address with the other bytes zero. -/
def address (b₀ b₁ b₂ b₃ : UInt8) (port : UInt16) : NETADDR :=
  { type := NETTYPE_IPV4
    ip := #v[b₀, b₁, b₂, b₃, 0, 0, 0, 0, 0, 0, 0, 0, 0, 0, 0, 0]
    port := port }

/-- A number of the address and the dot behind it. -/
def parsePart (str : List UInt8) (next : UInt8 → List UInt8 → Exec (Option NETADDR)) :
    Exec (Option NETADDR) := do
  match ← parse_uint8 str with
  | none => return none
  | some (b, str) =>
      match parse_char 46 str with
      | none => return none
      | some str => next b str

/-- The port, if any, and the end of the string. -/
def parsePort (str : List UInt8) (next : UInt16 → NETADDR) : Exec (Option NETADDR) :=
  match str with
  | 58 :: str => do
      match ← parse_uint16 str with
      | none => return none
      | some (port, str) => return if str = [] then some (next port) else none
  | str => .ok (if str = [] then some (next 0) else none)

/-- The last number of the address and what is behind it. -/
def parseLast (str : List UInt8) (next : UInt8 → UInt16 → NETADDR) : Exec (Option NETADDR) := do
  match ← parse_uint8 str with
  | none => return none
  | some (b, str) => parsePort str (next b)

/-- `none` for the result `-1`; `ipv6` is the branch for addresses in brackets. -/
def net_addr_from_str (ipv6 : List UInt8 → Exec (Option NETADDR)) (string : List UInt8) :
    Exec (Option NETADDR) :=
  match string with
  | 91 :: str => ipv6 str
  | str =>
      parsePart str fun b₀ str => parsePart str fun b₁ str => parsePart str fun b₂ str =>
        parseLast str (address b₀ b₁ b₂)

/-- `net_addr_str` of an IPv4 address with the port, in a buffer of `NETADDR_MAXSTRSIZE` bytes or
more. -/
def net_addr_str (addr : NETADDR) : List UInt8 :=
  formatInt addr.ip[0].toNat ++ 46 :: formatInt addr.ip[1].toNat ++ 46 ::
    formatInt addr.ip[2].toNat ++ 46 :: formatInt addr.ip[3].toNat ++ 58 ::
    formatInt addr.port.toNat

/-! ## Text -/

/-- A digit string with a value up to a bound. -/
structure Numeral (max : Nat) (d : List UInt8) : Prop where
  nonempty : d ≠ []
  digits : ∀ c ∈ d, isdigit c = true
  le : digitsValue d ≤ max

/-- A numeral, a dot and the rest. -/
def Part (s : List UInt8) (Q : UInt8 → List UInt8 → Prop) : Prop :=
  ∃ d rest, s = d ++ 46 :: rest ∧ Numeral 255 d ∧ Q (UInt8.ofNat (digitsValue d)) rest

/-- Nothing, or a colon and a numeral. -/
def PortText (s : List UInt8) (Q : UInt16 → Prop) : Prop :=
  (s = [] ∧ Q 0) ∨ ∃ d, s = 58 :: d ∧ Numeral 65535 d ∧ Q (UInt16.ofNat (digitsValue d))

/-- The last numeral and the port. -/
def LastPart (s : List UInt8) (Q : UInt8 → UInt16 → Prop) : Prop :=
  ∃ d rest, s = d ++ rest ∧ Numeral 255 d ∧ PortText rest (Q (UInt8.ofNat (digitsValue d)))

/-- The string is the text of the address: four numerals with dots between them and a port. -/
def IPv4Text (s : List UInt8) (a : NETADDR) : Prop :=
  Part s fun b₀ s => Part s fun b₁ s => Part s fun b₂ s => LastPart s fun b₃ port =>
    a = address b₀ b₁ b₂ b₃ port

/-! ## Numbers that are read -/

/-- The digits at the start of a string. -/
def digitsOf (s : List UInt8) : List UInt8 := s.takeWhile isdigit

def afterDigits (s : List UInt8) : List UInt8 := s.dropWhile isdigit

/-- The number at the start of the string is in the range of `int`. -/
def NumberFits (s : List UInt8) : Prop := (digitsValue (digitsOf s) : Int) ≤ intMax

instance (s : List UInt8) : Decidable (NumberFits s) := inferInstanceAs (Decidable (_ ≤ _))

/-- The number fits and, where it is up to 255 and followed by a dot, so does what is read next. -/
def PartFits (s : List UInt8) (next : List UInt8 → Prop) : Prop :=
  NumberFits s ∧ ∀ rest, Numeral 255 (digitsOf s) → afterDigits s = 46 :: rest → next rest

/-- The last number fits, and the port where one is read. -/
def LastFits (s : List UInt8) : Prop :=
  NumberFits s ∧ ∀ rest, Numeral 255 (digitsOf s) → afterDigits s = 58 :: rest → NumberFits rest

/-- Every number that is read is in the range of `int`. -/
def NumbersFit (s : List UInt8) : Prop :=
  PartFits s fun s => PartFits s fun s => PartFits s LastFits

/-! ## The loop -/

theorem digitsValue_append (d : List UInt8) (c : UInt8) :
    digitsValue (d ++ [c]) = 10 * digitsValue d + (c.toNat - 48) := by
  unfold digitsValue
  rw [List.foldl_append]
  rfl

theorem digitsValue_append_le (d e : List UInt8) : digitsValue d ≤ digitsValue (d ++ e) := by
  induction e generalizing d with
  | nil => rw [List.append_nil]
  | cons c e ih =>
      have hrest := ih (d ++ [c])
      rw [List.append_assoc, digitsValue_append] at hrest
      exact Nat.le_trans (by omega) hrest

/-- The digits that are left are added to the value, unless it leaves the range. -/
theorem parseLoop_spec (d s : List UInt8) (hd : (digitsValue d : Int) ≤ intMax) :
    parseLoop (digitsValue d) s =
      if (digitsValue (d ++ digitsOf s) : Int) ≤ intMax then
        .ok (digitsValue (d ++ digitsOf s), afterDigits s)
      else .error .overflow := by
  induction s generalizing d with
  | nil =>
      show Except.ok (_, _) = _
      rw [digitsOf, List.takeWhile_nil, List.append_nil, if_pos hd]
      rfl
  | cons c s ih =>
      unfold parseLoop digitsOf afterDigits
      by_cases hc : isdigit c = true
      · rw [if_pos hc, List.takeWhile_cons_of_pos hc, List.dropWhile_cons_of_pos hc]
        have hnext : (10 * (digitsValue d : Int) + (c.toNat - 48 : Nat)) = digitsValue (d ++ [c]) := by
          rw [digitsValue_append]
          push_cast
          rfl
        have hassoc : d ++ c :: s.takeWhile isdigit = d ++ [c] ++ s.takeWhile isdigit := by simp
        rw [hnext, hassoc]
        by_cases hle : (digitsValue (d ++ [c]) : Int) ≤ intMax
        · rw [if_neg (by omega), ih _ hle]
          rfl
        · have hmono := digitsValue_append_le (d ++ [c]) (s.takeWhile isdigit)
          rw [if_pos (by omega), if_neg (by omega)]
      · rw [if_neg hc, List.takeWhile_cons_of_neg hc, List.dropWhile_cons_of_neg hc, List.append_nil,
          if_pos hd]

theorem parse_int_spec (s : List UInt8) :
    parse_int s =
      if digitsOf s = [] then .ok none
      else if NumberFits s then .ok (some (digitsValue (digitsOf s), afterDigits s))
      else .error .overflow := by
  cases s with
  | nil => rfl
  | cons c s =>
      by_cases hc : isdigit c = true
      · have hvalue : ((c.toNat - 48 : Nat) : Int) = digitsValue [c] := by
          unfold digitsValue
          rw [List.foldl_cons, List.foldl_nil, Nat.mul_zero, Nat.zero_add]
        have hsmall : (digitsValue [c] : Int) ≤ intMax := by
          have hlt := UInt8.toNat_lt c
          rw [← hvalue]
          unfold intMax
          omega
        have hdigits : digitsOf (c :: s) = [c] ++ digitsOf s := List.takeWhile_cons_of_pos hc
        have hafter : afterDigits (c :: s) = afterDigits s := List.dropWhile_cons_of_pos hc
        have hrun : parse_int (c :: s) =
            (parseLoop (c.toNat - 48 : Nat) s).bind fun r => .ok (some r) := by
          unfold parse_int
          exact if_pos hc
        have hne : digitsOf (c :: s) ≠ [] := by
          rw [hdigits]
          exact List.cons_ne_nil _ _
        rw [hrun, hvalue, parseLoop_spec [c] s hsmall, ← hdigits, ← hafter, if_neg hne]
        by_cases hfits : NumberFits (c :: s)
        · have hle : (digitsValue (digitsOf (c :: s)) : Int) ≤ intMax := hfits
          rw [if_pos hfits, if_pos hle]
          rfl
        · have hgt : ¬ (digitsValue (digitsOf (c :: s)) : Int) ≤ intMax := hfits
          rw [if_neg hfits, if_neg hgt]
          rfl
      · have hdigits : digitsOf (c :: s) = [] := List.takeWhile_cons_of_neg hc
        rw [if_pos hdigits]
        unfold parse_int
        exact if_neg hc

/-- A numeral up to a bound, or none; a number that does not fit is a fault. -/
theorem parse_int_cases (max : Nat) (s : List UInt8) :
    (¬ NumberFits s ∧ parse_int s = .error .overflow) ∨
    (NumberFits s ∧ Numeral max (digitsOf s) ∧
      parse_int s = .ok (some (digitsValue (digitsOf s), afterDigits s))) ∨
    (NumberFits s ∧ ¬ Numeral max (digitsOf s) ∧ (parse_int s = .ok none ∨
      parse_int s = .ok (some (digitsValue (digitsOf s), afterDigits s)) ∧
        max < digitsValue (digitsOf s))) := by
  rw [parse_int_spec]
  by_cases hnil : digitsOf s = []
  · have hfits : NumberFits s := by
      unfold NumberFits
      rw [hnil]
      decide
    rw [if_pos hnil]
    exact .inr (.inr ⟨hfits, fun h => h.nonempty hnil, .inl rfl⟩)
  · rw [if_neg hnil]
    by_cases hfits : NumberFits s
    · rw [if_pos hfits]
      by_cases hle : digitsValue (digitsOf s) ≤ max
      · exact .inr (.inl ⟨hfits, ⟨hnil, fun c hc => List.mem_takeWhile_imp hc, hle⟩, rfl⟩)
      · exact .inr (.inr ⟨hfits, fun h => hle h.le, .inr ⟨rfl, Nat.lt_of_not_le hle⟩⟩)
    · rw [if_neg hfits]
      exact .inl ⟨hfits, rfl⟩

theorem numberFits_of_numeral {max : Nat} {s : List UInt8} (h : Numeral max (digitsOf s))
    (hmax : (max : Int) ≤ intMax) : NumberFits s := by
  have hle := h.le
  unfold NumberFits
  omega

theorem parse_uint8_cases (s : List UInt8) :
    (¬ NumberFits s ∧ parse_uint8 s = .error .overflow) ∨
    (NumberFits s ∧ Numeral 255 (digitsOf s) ∧
      parse_uint8 s = .ok (some (UInt8.ofNat (digitsValue (digitsOf s)), afterDigits s))) ∨
    (NumberFits s ∧ ¬ Numeral 255 (digitsOf s) ∧ parse_uint8 s = .ok none) := by
  unfold parse_uint8
  rcases parse_int_cases 255 s with
    ⟨hfits, hrun⟩ | ⟨hfits, hnumeral, hrun⟩ | ⟨hfits, hnumeral, hrun | ⟨hrun, hlt⟩⟩
  · rw [hrun]
    exact .inl ⟨hfits, rfl⟩
  · have hle := hnumeral.le
    rw [hrun]
    simp only [bind, Except.bind]
    rw [if_neg (by omega)]
    exact .inr (.inl ⟨hfits, hnumeral, rfl⟩)
  · rw [hrun]
    exact .inr (.inr ⟨hfits, hnumeral, rfl⟩)
  · rw [hrun]
    simp only [bind, Except.bind]
    rw [if_pos (by omega)]
    exact .inr (.inr ⟨hfits, hnumeral, rfl⟩)

theorem parse_uint16_cases (s : List UInt8) :
    (¬ NumberFits s ∧ parse_uint16 s = .error .overflow) ∨
    (NumberFits s ∧ Numeral 65535 (digitsOf s) ∧
      parse_uint16 s = .ok (some (UInt16.ofNat (digitsValue (digitsOf s)), afterDigits s))) ∨
    (NumberFits s ∧ ¬ Numeral 65535 (digitsOf s) ∧ parse_uint16 s = .ok none) := by
  unfold parse_uint16
  rcases parse_int_cases 65535 s with
    ⟨hfits, hrun⟩ | ⟨hfits, hnumeral, hrun⟩ | ⟨hfits, hnumeral, hrun | ⟨hrun, hlt⟩⟩
  · rw [hrun]
    exact .inl ⟨hfits, rfl⟩
  · have hle := hnumeral.le
    rw [hrun]
    simp only [bind, Except.bind]
    rw [if_neg (by omega)]
    exact .inr (.inl ⟨hfits, hnumeral, rfl⟩)
  · rw [hrun]
    exact .inr (.inr ⟨hfits, hnumeral, rfl⟩)
  · rw [hrun]
    simp only [bind, Except.bind]
    rw [if_pos (by omega)]
    exact .inr (.inr ⟨hfits, hnumeral, rfl⟩)

/-! ## Exactness -/

/-- The digits end where something else begins. -/
theorem digits_split {d rest : List UInt8} (hd : ∀ c ∈ d, isdigit c = true)
    (hrest : ∀ c ∈ rest.head?, isdigit c = false) :
    digitsOf (d ++ rest) = d ∧ afterDigits (d ++ rest) = rest := by
  unfold digitsOf afterDigits
  rw [List.takeWhile_append_of_pos hd, List.dropWhile_append_of_pos hd]
  cases rest with
  | nil => exact ⟨List.append_nil _, rfl⟩
  | cons c rest =>
      have hc : ¬ isdigit c = true := by
        rw [hrest c rfl]
        exact Bool.false_ne_true
      rw [List.takeWhile_cons_of_neg hc, List.dropWhile_cons_of_neg hc, List.append_nil]
      exact ⟨rfl, rfl⟩

theorem digitsOf_append_afterDigits (s : List UInt8) : digitsOf s ++ afterDigits s = s :=
  List.takeWhile_append_dropWhile

/-- A part begins with the digits of the string. -/
theorem part_iff (s : List UInt8) (Q : UInt8 → List UInt8 → Prop) :
    Part s Q ↔ Numeral 255 (digitsOf s) ∧ ∃ rest, afterDigits s = 46 :: rest ∧
      Q (UInt8.ofNat (digitsValue (digitsOf s))) rest := by
  constructor
  · rintro ⟨d, rest, rfl, hd, hQ⟩
    obtain ⟨hdigits, hafter⟩ := @digits_split d (46 :: rest) hd.digits (by
      intro c hc
      cases hc
      decide)
    rw [hdigits, hafter]
    exact ⟨hd, rest, rfl, hQ⟩
  · rintro ⟨hd, rest, hafter, hQ⟩
    refine ⟨digitsOf s, rest, ?_, hd, hQ⟩
    rw [← hafter, digitsOf_append_afterDigits]

theorem parse_char_cases (c : UInt8) (s : List UInt8) :
    (parse_char c s = none ∧ ∀ rest, s ≠ c :: rest) ∨
    ∃ rest, parse_char c s = some rest ∧ s = c :: rest := by
  cases s with
  | nil => exact .inl ⟨rfl, fun rest => List.cons_ne_nil _ _ |>.symm⟩
  | cons b s =>
      by_cases hb : b = c
      · exact .inr ⟨s, if_pos hb, by rw [hb]⟩
      · exact .inl ⟨if_neg hb, fun rest heq => hb (List.cons.inj heq).1⟩

/-- The computation returns the address that is described, if there is one. -/
def Yields (m : Exec (Option NETADDR)) (P : NETADDR → Prop) : Prop :=
  ∃ r, m = .ok r ∧ ∀ a, r = some a ↔ P a

theorem not_yields_error {P : NETADDR → Prop} {m : Exec (Option NETADDR)} {e : Fault}
    (h : m = .error e) : ¬ Yields m P := by
  rintro ⟨r, hr, -⟩
  rw [h] at hr
  cases hr

theorem yields_none {P : NETADDR → Prop} {m : Exec (Option NETADDR)} (h : m = .ok none)
    (hP : ∀ a, ¬ P a) : Yields m P :=
  ⟨none, h, fun a => iff_of_false (fun hc => by cases hc) (hP a)⟩

theorem yields_part {s : List UInt8} {next : UInt8 → List UInt8 → Exec (Option NETADDR)}
    {Q : UInt8 → List UInt8 → NETADDR → Prop} {fits : List UInt8 → Prop}
    (h : ∀ b rest, Yields (next b rest) (Q b rest) ↔ fits rest) :
    Yields (parsePart s next) (fun a => Part s fun b rest => Q b rest a) ↔ PartFits s fits := by
  simp only [part_iff]
  unfold parsePart PartFits
  rcases parse_uint8_cases s with
    ⟨hfits, hrun⟩ | ⟨hfits, hnumeral, hrun⟩ | ⟨hfits, hnumeral, hrun⟩
  · rw [hrun]
    exact iff_of_false (not_yields_error rfl) fun hc => hfits hc.1
  · rw [hrun]
    simp only [bind, Except.bind]
    rcases parse_char_cases 46 (afterDigits s) with ⟨hchar, hne⟩ | ⟨rest, hchar, hrest⟩
    · rw [hchar]
      apply iff_of_true
      · apply yields_none rfl
        rintro a ⟨-, rest, hrest, -⟩
        exact hne rest hrest
      · exact ⟨hfits, fun rest _ hrest => absurd hrest (hne rest)⟩
    · rw [hchar]
      have hsame : (fun a => Numeral 255 (digitsOf s) ∧ ∃ r, afterDigits s = 46 :: r ∧
          Q (UInt8.ofNat (digitsValue (digitsOf s))) r a) =
          Q (UInt8.ofNat (digitsValue (digitsOf s))) rest := by
        funext a
        apply propext
        constructor
        · rintro ⟨-, r, hr, hQ⟩
          rw [hrest] at hr
          rw [(List.cons.inj hr).2]
          exact hQ
        · exact fun hQ => ⟨hnumeral, rest, hrest, hQ⟩
      simp only [hsame]
      rw [h]
      constructor
      · intro hnext
        refine ⟨hfits, fun r _ hr => ?_⟩
        rw [hrest] at hr
        rw [← (List.cons.inj hr).2]
        exact hnext
      · exact fun hc => hc.2 rest hnumeral hrest
  · rw [hrun]
    apply iff_of_true
    · exact yields_none rfl fun a hc => hnumeral hc.1
    · exact ⟨hfits, fun rest hc => absurd hc hnumeral⟩

theorem yields_port (s : List UInt8) (next : UInt16 → NETADDR) :
    Yields (parsePort s next) (fun a => PortText s fun port => a = next port) ↔
      ∀ rest, s = 58 :: rest → NumberFits rest := by
  by_cases hcolon : ∃ rest, s = 58 :: rest
  · obtain ⟨rest, rfl⟩ := hcolon
    have hport (a : NETADDR) : (PortText (58 :: rest) fun port => a = next port) ↔
        Numeral 65535 rest ∧ a = next (UInt16.ofNat (digitsValue rest)) := by
      constructor
      · rintro (⟨hnil, -⟩ | ⟨d, heq, hd, ha⟩)
        · cases hnil
        · rw [(List.cons.inj heq).2]
          exact ⟨hd, ha⟩
      · exact fun h => .inr ⟨rest, rfl, h⟩
    have hall : (∀ r, (58 : UInt8) :: rest = 58 :: r → NumberFits r) ↔ NumberFits rest := by
      constructor
      · exact fun h => h rest rfl
      · intro h r hr
        rw [← (List.cons.inj hr).2]
        exact h
    rw [hall]
    simp only [hport]
    have hsplit := digitsOf_append_afterDigits rest
    have hrunAll : parsePort (58 :: rest) next = (do
      match ← parse_uint16 rest with
      | none => return none
      | some (port, str) => return if str = [] then some (next port) else none) := rfl
    rw [hrunAll]
    rcases parse_uint16_cases rest with
      ⟨hfits, hrun⟩ | ⟨hfits, hnumeral, hrun⟩ | ⟨hfits, hnumeral, hrun⟩
    · rw [hrun]
      exact iff_of_false (not_yields_error rfl) hfits
    · rw [hrun]
      simp only [bind, Except.bind]
      apply iff_of_true _ hfits
      by_cases hend : afterDigits rest = []
      · rw [if_pos hend]
        rw [hend, List.append_nil] at hsplit
        rw [hsplit] at hnumeral ⊢
        refine ⟨_, rfl, fun a => ?_⟩
        rw [Option.some.injEq]
        exact ⟨fun ha => ⟨hnumeral, ha.symm⟩, fun ha => ha.2.symm⟩
      · rw [if_neg hend]
        apply yields_none rfl
        rintro a ⟨hrest, -⟩
        exact hend (List.dropWhile_eq_nil_iff.mpr hrest.digits)
    · rw [hrun]
      apply iff_of_true _ hfits
      apply yields_none rfl
      rintro a ⟨hrest, -⟩
      apply hnumeral
      have hdigits : digitsOf rest = rest := List.takeWhile_eq_self_iff.mpr hrest.digits
      rw [hdigits]
      exact hrest
  · have hne : ∀ rest, s ≠ 58 :: rest := fun rest h => hcolon ⟨rest, h⟩
    have hrun : parsePort s next = .ok (if s = [] then some (next 0) else none) := by
      unfold parsePort
      split
      next str => exact absurd rfl (hne str)
      next => rfl
    apply iff_of_true _ fun rest h => absurd h (hne rest)
    have hport (a : NETADDR) : (PortText s fun port => a = next port) ↔ s = [] ∧ a = next 0 := by
      constructor
      · rintro (h | ⟨d, heq, -⟩)
        · exact h
        · exact absurd heq (hne d)
      · exact fun h => .inl h
    simp only [hport]
    refine ⟨_, hrun, fun a => ?_⟩
    by_cases hnil : s = []
    · rw [if_pos hnil, Option.some.injEq]
      exact ⟨fun ha => ⟨hnil, ha.symm⟩, fun ha => ha.2.symm⟩
    · rw [if_neg hnil]
      exact iff_of_false (fun h => by cases h) fun h => hnil h.1

theorem lastPart_iff (s : List UInt8) (Q : UInt8 → UInt16 → Prop) :
    LastPart s Q ↔ Numeral 255 (digitsOf s) ∧
      PortText (afterDigits s) (Q (UInt8.ofNat (digitsValue (digitsOf s)))) := by
  constructor
  · rintro ⟨d, rest, rfl, hd, hport⟩
    have hhead : ∀ c ∈ rest.head?, isdigit c = false := by
      rcases hport with ⟨rfl, -⟩ | ⟨e, rfl, -⟩
      · exact fun c hc => by cases hc
      · intro c hc
        cases hc
        decide
    obtain ⟨hdigits, hafter⟩ := digits_split hd.digits hhead
    rw [hdigits, hafter]
    exact ⟨hd, hport⟩
  · rintro ⟨hd, hport⟩
    exact ⟨digitsOf s, afterDigits s, (digitsOf_append_afterDigits s).symm, hd, hport⟩

theorem yields_last (s : List UInt8) (next : UInt8 → UInt16 → NETADDR) :
    Yields (parseLast s next) (fun a => LastPart s fun b port => a = next b port) ↔
      LastFits s := by
  simp only [lastPart_iff]
  unfold parseLast LastFits
  rcases parse_uint8_cases s with
    ⟨hfits, hrun⟩ | ⟨hfits, hnumeral, hrun⟩ | ⟨hfits, hnumeral, hrun⟩
  · rw [hrun]
    exact iff_of_false (not_yields_error rfl) fun hc => hfits hc.1
  · rw [hrun]
    simp only [bind, Except.bind, and_iff_right hnumeral]
    rw [yields_port]
    exact ⟨fun h => ⟨hfits, fun rest _ => h rest⟩, fun h rest => h.2 rest hnumeral⟩
  · rw [hrun]
    apply iff_of_true
    · exact yields_none rfl fun a hc => hnumeral hc.1
    · exact ⟨hfits, fun rest hc => absurd hc hnumeral⟩

/-! ## Text of an address -/

theorem numeral_formatInt {n max : Nat} (hn : n ≤ max) :
    Numeral max (formatInt n) ∧ digitsValue (formatInt n) = n := by
  have hformat : formatInt n = (Nat.toDigits 10 n).map fun c => UInt8.ofNat c.toNat := by
    unfold formatInt
    rw [if_neg (by omega), Int.natAbs_natCast]
  obtain ⟨hvalue, hdigits⟩ := digitsValue_toDigits n
  rw [hformat]
  refine ⟨⟨fun hnil => ?_, hdigits, by omega⟩, hvalue⟩
  rw [List.map_eq_nil_iff] at hnil
  exact absurd hnil (List.length_pos_iff.mp Nat.length_toDigits_pos)

/-- The text of an address is the text of the address that is read back. -/
theorem ipv4Text_net_addr_str (a : NETADDR) :
    IPv4Text (net_addr_str a) (address a.ip[0] a.ip[1] a.ip[2] a.ip[3] a.port) := by
  have hnested : net_addr_str a = formatInt a.ip[0].toNat ++ (46 : UInt8) ::
      (formatInt a.ip[1].toNat ++ (46 : UInt8) :: (formatInt a.ip[2].toNat ++ (46 : UInt8) ::
        (formatInt a.ip[3].toNat ++ (58 : UInt8) :: formatInt a.port.toNat))) := by
    unfold net_addr_str
    simp only [List.append_assoc, List.cons_append]
  have hbyte (b : UInt8) : Numeral 255 (formatInt b.toNat) ∧
      UInt8.ofNat (digitsValue (formatInt b.toNat)) = b := by
    obtain ⟨hnumeral, hvalue⟩ :=
      numeral_formatInt (n := b.toNat) (Nat.le_of_lt_succ (UInt8.toNat_lt b))
    rw [hvalue]
    exact ⟨hnumeral, UInt8.ofNat_toNat⟩
  have hport : Numeral 65535 (formatInt a.port.toNat) ∧
      UInt16.ofNat (digitsValue (formatInt a.port.toNat)) = a.port := by
    obtain ⟨hnumeral, hvalue⟩ :=
      numeral_formatInt (n := a.port.toNat) (Nat.le_of_lt_succ (UInt16.toNat_lt a.port))
    rw [hvalue]
    exact ⟨hnumeral, UInt16.ofNat_toNat⟩
  rw [hnested]
  refine ⟨_, _, rfl, (hbyte a.ip[0]).1, _, _, rfl, (hbyte a.ip[1]).1, _, _, rfl,
    (hbyte a.ip[2]).1, _, _, rfl, (hbyte a.ip[3]).1, .inr ⟨_, rfl, hport.1, ?_⟩⟩
  rw [(hbyte a.ip[0]).2, (hbyte a.ip[1]).2, (hbyte a.ip[2]).2, (hbyte a.ip[3]).2, hport.2]

/-- The numbers of a text are in range. -/
theorem fits_of_part {s : List UInt8} {Q : UInt8 → List UInt8 → Prop} {fits : List UInt8 → Prop}
    (hpart : Part s Q) (h : ∀ b rest, Q b rest → fits rest) : PartFits s fits := by
  obtain ⟨hd, rest, hafter, hQ⟩ := (part_iff s Q).mp hpart
  refine ⟨numberFits_of_numeral hd (by decide), fun r _ hr => ?_⟩
  rw [hafter] at hr
  rw [← (List.cons.inj hr).2]
  exact h _ _ hQ

theorem fits_of_last {s : List UInt8} {Q : UInt8 → UInt16 → Prop} (hlast : LastPart s Q) :
    LastFits s := by
  obtain ⟨hd, hport⟩ := (lastPart_iff s Q).mp hlast
  refine ⟨numberFits_of_numeral hd (by decide), fun rest _ hrest => ?_⟩
  rcases hport with ⟨hnil, -⟩ | ⟨d, heq, hnumeral, -⟩
  · rw [hrest] at hnil
    cases hnil
  · have hdigits : digitsOf d = d := List.takeWhile_eq_self_iff.mpr hnumeral.digits
    rw [hrest] at heq
    rw [(List.cons.inj heq).2]
    rw [← hdigits] at hnumeral
    exact numberFits_of_numeral hnumeral (by decide)

theorem numbersFit_of_text {s : List UInt8} {a : NETADDR} (h : IPv4Text s a) : NumbersFit s :=
  fits_of_part h fun _ _ h => fits_of_part h fun _ _ h => fits_of_part h fun _ _ h =>
    fits_of_last h

theorem net_addr_from_str_ipv4 (ipv6 : List UInt8 → Exec (Option NETADDR)) {s : List UInt8}
    (hs : s.head? ≠ some 91) :
    net_addr_from_str ipv6 s =
      parsePart s fun b₀ str => parsePart str fun b₁ str => parsePart str fun b₂ str =>
        parseLast str (address b₀ b₁ b₂) := by
  unfold net_addr_from_str
  split
  · exact absurd rfl hs
  · rfl

/-- The address of the text is returned exactly if the numbers are in range. -/
theorem yields_iff (ipv6 : List UInt8 → Exec (Option NETADDR)) {s : List UInt8}
    (hs : s.head? ≠ some 91) :
    Yields (net_addr_from_str ipv6 s) (IPv4Text s) ↔ NumbersFit s := by
  rw [net_addr_from_str_ipv4 ipv6 hs]
  exact yields_part fun b₀ _ => yields_part fun b₁ _ => yields_part fun b₂ rest =>
    yields_last rest (address b₀ b₁ b₂)

/-- A text does not begin with a bracket. -/
theorem head?_of_text {s : List UInt8} {a : NETADDR} (h : IPv4Text s a) : s.head? ≠ some 91 := by
  obtain ⟨d, rest, rfl, hd, -⟩ := h
  cases d with
  | nil => exact absurd rfl hd.nonempty
  | cons c d =>
      intro hc
      have hdigit := hd.digits c List.mem_cons_self
      rw [Option.some.inj hc] at hdigit
      exact absurd hdigit (by decide)

/-- A text of an address is read as the address. -/
theorem from_str_of_text (ipv6 : List UInt8 → Exec (Option NETADDR)) {s : List UInt8} {a : NETADDR}
    (h : IPv4Text s a) : net_addr_from_str ipv6 s = .ok (some a) := by
  obtain ⟨r, hrun, hr⟩ := (yields_iff ipv6 (head?_of_text h)).mpr (numbersFit_of_text h)
  rw [hrun, (hr a).mpr h]

/-- An address with zeros behind the four bytes is determined by these and the port. -/
theorem address_eq {a : NETADDR} (htype : a.type = NETTYPE_IPV4)
    (hrest : a.bytes 4 12 = List.replicate 12 0) :
    address a.ip[0] a.ip[1] a.ip[2] a.ip[3] a.port = a := by
  obtain ⟨type, ⟨⟨l⟩, hl⟩, port⟩ := a
  subst htype
  match l, hl with
  | [b₀, b₁, b₂, b₃, b₄, b₅, b₆, b₇, b₈, b₉, b₁₀, b₁₁, b₁₂, b₁₃, b₁₄, b₁₅], hl =>
      have hzero : [b₄, b₅, b₆, b₇, b₈, b₉, b₁₀, b₁₁, b₁₂, b₁₃, b₁₄, b₁₅] =
          List.replicate 12 (0 : UInt8) := hrest
      simp only [List.replicate, List.cons.injEq] at hzero
      obtain ⟨rfl, rfl, rfl, rfl, rfl, rfl, rfl, rfl, rfl, rfl, rfl, rfl, -⟩ := hzero
      rfl

/-- Every string that is not for IPv6 is read exactly, if the numbers that are read are in the
range of `int`, and the text of an address is read back. -/
theorem net_addr_from_str_exact (ipv6 : List UInt8 → Exec (Option NETADDR)) :
    (∀ s : List UInt8, s.head? ≠ some 91 →
      (Yields (net_addr_from_str ipv6 s) (IPv4Text s) ↔ NumbersFit s)) ∧
    ∀ a : NETADDR, a.type = NETTYPE_IPV4 → ∃ b, net_addr_from_str ipv6 (net_addr_str a) = .ok (some b) ∧
      b.type = a.type ∧ b.bytes 0 4 = a.bytes 0 4 ∧ b.port = a.port ∧
      (a.bytes 4 12 = List.replicate 12 0 → b = a) := by
  refine ⟨fun s hs => yields_iff ipv6 hs, fun a htype => ?_⟩
  refine ⟨_, from_str_of_text ipv6 (ipv4Text_net_addr_str a), htype.symm, ?_, rfl,
    fun hrest => address_eq htype hrest⟩
  obtain ⟨type, ⟨⟨l⟩, hl⟩, port⟩ := a
  match l, hl with
  | [b₀, b₁, b₂, b₃, b₄, b₅, b₆, b₇, b₈, b₉, b₁₀, b₁₁, b₁₂, b₁₃, b₁₄, b₁₅], hl => rfl

theorem net_addr_from_str_exact_small :
    (Yields (net_addr_from_str (fun _ => .ok none) [49, 46, 50, 46, 51, 46, 52, 58, 53])
      (IPv4Text [49, 46, 50, 46, 51, 46, 52, 58, 53]) ↔
        NumbersFit [49, 46, 50, 46, 51, 46, 52, 58, 53]) ∧
    net_addr_from_str (fun _ => .ok none) (net_addr_str (address 1 2 3 4 5)) =
      .ok (some (address 1 2 3 4 5)) := by
  obtain ⟨htext, haddr⟩ := net_addr_from_str_exact fun _ => .ok none
  refine ⟨htext _ (by decide), ?_⟩
  obtain ⟨b, hrun, -, -, -, hsame⟩ := haddr (address 1 2 3 4 5) rfl
  rw [hrun, hsame rfl]

/-- A number beyond the range of `int` overflows instead of being refused. -/
theorem net_addr_from_str_overflow :
    ¬ ∀ s : List UInt8, s.head? ≠ some 91 →
      Yields (net_addr_from_str (fun _ => .ok none) s) (IPv4Text s) := by
  intro h
  have hrun : net_addr_from_str (fun _ => .ok none)
      [52, 50, 57, 52, 57, 54, 55, 50, 57, 54, 46, 48, 46, 48, 46, 48] = .error .overflow := by
    decide
  exact not_yields_error hrun (h _ (by decide))

end Fex.Engine.NetBan
