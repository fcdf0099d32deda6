import Fex.Base.Utf8
import Mathlib.Data.List.TakeWhile

/-!
# Strings

Model of `str_copy`, which cuts a string after a whole character, of the
functions that look for white space and of the conversion of decimal numbers.  A C
string is the list of the bytes before its NUL.
-/

namespace Fex.Base

open Fex.Lib

/-! ## Copies -/

def str_utf8_isstart (c : UInt8) : Bool := c &&& 0xC0 ≠ 0x80

def str_utf8_rewind (str : List UInt8) : Nat → Nat
  | 0 => 0
  | cursor + 1 =>
      if str_utf8_isstart (str.getD cursor 0) then cursor else str_utf8_rewind str cursor

def str_utf8_fix_truncation (str : List UInt8) : List UInt8 :=
  if str.length > 0 then
    let last_char_index := str_utf8_rewind str str.length
    if (str_utf8_decode (str.drop last_char_index)).1 = -1 then str.take last_char_index else str
  else str

def str_copy (src : List UInt8) (dst_size : Nat) : List UInt8 :=
  str_utf8_fix_truncation (src.take (dst_size - 1))

/-! ## White space -/

def str_isspace (c : UInt8) : Bool := c = 32 ∨ c = 10 ∨ c = 13 ∨ c = 9

def str_skip_whitespaces (str : List UInt8) : List UInt8 := str.dropWhile str_isspace

/-- The part before the white space and the rest. -/
def str_skip_to_whitespace (str : List UInt8) : List UInt8 × List UInt8 :=
  (str.takeWhile fun c => ¬ str_isspace c, str.dropWhile fun c => ¬ str_isspace c)

/-! ## Numbers -/

/-- `isspace` of the C locale. -/
def isspace (c : UInt8) : Bool := c = 32 ∨ 9 ≤ c ∧ c ≤ 13

def isdigit (c : UInt8) : Bool := 48 ≤ c ∧ c ≤ 57

/-- The number that digits stand for. -/
def digitsValue (l : List UInt8) : Nat := l.foldl (fun n c => 10 * n + (c.toNat - 48)) 0

/-- A `long` keeps within its 64 bits. -/
def clampLong (x : Int) : Int := max (-9223372036854775808) (min x 9223372036854775807)

/-- The sign of a number, `true` is negative. -/
def numberSign : List UInt8 → Bool × List UInt8
  | 45 :: s => (true, s)
  | 43 :: s => (false, s)
  | s => (false, s)

/-- `strtol` for the base 10, with what is left of the string. -/
def strtol (str : List UInt8) : Int × List UInt8 :=
  let (negative, s) := numberSign (str.dropWhile isspace)
  let digits := s.takeWhile isdigit
  if digits = [] then (0, str)
  else
    (clampLong (if negative then -digitsValue digits else digitsValue digits), s.dropWhile isdigit)

/-- The number, if the whole string is one. -/
def str_toint (str : List UInt8) : Option Int :=
  let (value, rest) := strtol str
  if rest = [] then some (wrap32 value) else none

/-- `%i` -/
def formatInt (x : Int) : List UInt8 :=
  let digits := (Nat.toDigits 10 x.natAbs).map fun c => UInt8.ofNat c.toNat
  if x < 0 then 45 :: digits else digits

/-! ## Numbers are read back -/

theorem isdigit_digitChar {k : Nat} (hk : k < 10) :
    isdigit (UInt8.ofNat k.digitChar.toNat) ∧
      (UInt8.ofNat k.digitChar.toNat).toNat - 48 = k := by
  have h : ∀ k : Fin 10, isdigit (UInt8.ofNat k.val.digitChar.toNat) ∧
      (UInt8.ofNat k.val.digitChar.toNat).toNat - 48 = k.val := by decide
  exact h ⟨k, hk⟩

theorem digitsValue_toDigits (n : Nat) :
    digitsValue ((Nat.toDigits 10 n).map fun c => UInt8.ofNat c.toNat) = n ∧
      ∀ c ∈ (Nat.toDigits 10 n).map fun c => UInt8.ofNat c.toNat, isdigit c := by
  induction n using Nat.strongRecOn with
  | ind n ih =>
      by_cases hn : n < 10
      · rw [Nat.toDigits_of_lt_base hn]
        obtain ⟨hdigit, hvalue⟩ := isdigit_digitChar hn
        refine ⟨?_, fun c hc => ?_⟩
        · show 10 * 0 + _ = n
          rw [hvalue]
          omega
        · rw [List.mem_singleton.mp hc]
          exact hdigit
      · have hle : 10 ≤ n := by omega
        obtain ⟨hrest, hall⟩ := ih (n / 10) (by omega)
        obtain ⟨hdigit, hvalue⟩ := isdigit_digitChar (k := n % 10) (by omega)
        rw [Nat.toDigits_of_base_le (by decide) hle, List.map_append]
        refine ⟨?_, fun c hc => ?_⟩
        · unfold digitsValue at hrest ⊢
          rw [List.foldl_append, hrest]
          show 10 * (n / 10) + _ = n
          rw [hvalue]
          omega
        · rcases List.mem_append.mp hc with hc | hc
          · exact hall c hc
          · rw [List.mem_singleton.mp hc]
            exact hdigit

end Fex.Base
