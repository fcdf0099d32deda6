import Fex.Lib.CInt
import Mathlib.Data.List.Basic

/-!
# Base64

Model of `str_base64` and `str_base64_decode`.  The encoder is a loop over a shift
register, `digits64` is what it writes block by block.
-/

namespace Fex.Base

open Fex.Lib

/-! ## Functions -/

def DIGITS : List UInt8 :=
  "ABCDEFGHIJKLMNOPQRSTUVWXYZabcdefghijklmnopqrstuvwxyz0123456789+/".toList.map
    fun c => UInt8.ofNat c.toNat

/-- The next byte is shifted into the register where fewer than six bits are left. -/
def takeByte (value : Nat) (num_bits : Int) : List UInt8 → Nat × Int × List UInt8
  | [] => (value, num_bits, [])
  | byte :: data =>
      if num_bits < 6 then ((value <<< 8 ||| byte.toNat) % 2 ^ 32, num_bits + 8, data)
      else (value, num_bits, byte :: data)

/-- The loop of `str_base64` at position `o`, `left` bytes before the end of the buffer. -/
def encodeLoop (left o value : Nat) (num_bits : Int) (data : List UInt8) : List UInt8 :=
  let (value, num_bits, data) := takeByte value num_bits data
  match left with
  | 0 => []
  | left + 1 =>
      if num_bits > 0 then
        let padded :=
          if num_bits ≥ 6 then (value >>> (num_bits - 6).toNat) &&& 0x3f
          else ((value <<< (6 - num_bits).toNat) % 2 ^ 32) &&& 0x3f
        DIGITS.getD padded 0 :: encodeLoop left (o + 1) value (num_bits - 6) data
      else if o % 4 ≠ 0 then 61 :: encodeLoop left (o + 1) value num_bits data
      else []

def str_base64 (dst_size : Nat) (data : List UInt8) : List UInt8 :=
  encodeLoop (dst_size - 1) 0 0 0 data

def base64_digit_value (digit : UInt8) : Int :=
  if 65 ≤ digit.toNat ∧ digit.toNat ≤ 90 then digit.toNat - 65
  else if 97 ≤ digit.toNat ∧ digit.toNat ≤ 122 then digit.toNat - 97 + 26
  else if 48 ≤ digit.toNat ∧ digit.toNat ≤ 57 then digit.toNat - 48 + 52
  else if digit = 43 then 62
  else if digit = 47 then 63
  else -1

/-- The loop over the bytes of a block, the error is the return value. -/
def outputBytes (value num_output_bytes : Nat) : List Nat → Except Int (List UInt8)
  | [] => .ok []
  | b :: bs =>
      let byte_value := UInt8.ofNat ((value >>> (16 - 8 * b)) &&& 0xff)
      if b < num_output_bytes then (outputBytes value num_output_bytes bs).map (byte_value :: ·)
      -- Padding not zeroed.
      else if byte_value ≠ 0 then .error (-2)
      else outputBytes value num_output_bytes bs

/-- The last two characters of a block and the number of bytes it holds. -/
def padding (copy2 copy3 : UInt8) (last : Bool) : UInt8 × UInt8 × Nat :=
  if last ∧ copy3 = 61 then
    if copy2 = 61 then (65, 65, 1) else (copy2, 65, 2)
  else (copy2, copy3, 3)

/-- One block. -/
def decodeBlock (c0 c1 c2 c3 : UInt8) (last : Bool) : Except Int (List UInt8) :=
  let (copy2, copy3, num_output_bytes) := padding c2 c3 last
  let d0 := base64_digit_value c0
  let d1 := base64_digit_value c1
  let d2 := base64_digit_value copy2
  let d3 := base64_digit_value copy3
  -- Invalid digit.
  if d0 = -1 ∨ d1 = -1 ∨ d2 = -1 ∨ d3 = -1 then .error (-1)
  else
    let value := (d0.toNat <<< 18) ||| (d1.toNat <<< 12) ||| (d2.toNat <<< 6) ||| d3.toNat
    outputBytes value num_output_bytes [0, 1, 2]

def decodeLoop : List UInt8 → Except Int (List UInt8)
  | c0 :: c1 :: c2 :: c3 :: data => do
      let block ← decodeBlock c0 c1 c2 c3 (data = [])
      let rest ← decodeLoop data
      return block ++ rest
  | _ => .ok []

/-- The bytes written to the destination, whose number is returned, or the error. -/
def str_base64_decode (dst_size : Nat) (data : List UInt8) : Except Int (List UInt8) :=
  if data.length % 4 ≠ 0 then .error (-3)
  -- Output buffer too small.
  else if data.length / 4 * 3 > dst_size then .error (-2)
  else decodeLoop data

/-! ## Digits -/

def digit (k : Nat) : UInt8 := DIGITS.getD k 0

theorem DIGITS_eq : DIGITS = (List.range 64).map fun k => UInt8.ofNat
    (if k < 26 then 65 + k else if k < 52 then 71 + k else if k < 62 then k - 4
      else if k = 62 then 43 else 47) := by
  decide +kernel

theorem digit_eq {k : Nat} (hk : k < 64) : digit k = UInt8.ofNat
    (if k < 26 then 65 + k else if k < 52 then 71 + k else if k < 62 then k - 4
      else if k = 62 then 43 else 47) := by
  simp [digit, DIGITS_eq, List.getD_eq_getElem?_getD, hk]

theorem digit_value_digit {k : Nat} (hk : k < 64) : base64_digit_value (digit k) = k := by
  have hall : ∀ k : Fin 64, base64_digit_value (digit k.val) = (k.val : Int) := by
    intro k
    rw [digit_eq k.isLt]
    revert k
    decide +kernel
  exact hall ⟨k, hk⟩

theorem digit_ne_padding {k : Nat} (hk : k < 64) : digit k ≠ 61 := by
  intro hpad
  have hvalue := digit_value_digit hk
  rw [hpad] at hvalue
  have : (-1 : Int) = k := hvalue
  omega

/-- A character with a value is the digit of that value. -/
theorem digit_of_value {c : UInt8} (hc : base64_digit_value c ≠ -1) :
    ∃ k : Nat, k < 64 ∧ base64_digit_value c = (k : Int) ∧ c = digit k := by
  have hdigit : ∀ k : Nat, k < 64 → base64_digit_value c = (k : Int) → c.toNat =
      (if k < 26 then 65 + k else if k < 52 then 71 + k else if k < 62 then k - 4
        else if k = 62 then 43 else 47) → ∃ k : Nat, k < 64 ∧ base64_digit_value c = (k : Int) ∧
          c = digit k := by
    intro k hk hvalue hbyte
    exact ⟨k, hk, hvalue, by rw [digit_eq hk, ← hbyte, UInt8.ofNat_toNat]⟩
  unfold base64_digit_value at hc hdigit ⊢
  split at hc
  · refine hdigit (c.toNat - 65) ?_ ?_ ?_ <;> grind
  split at hc
  · refine hdigit (c.toNat - 71) ?_ ?_ ?_ <;> grind
  split at hc
  · refine hdigit (c.toNat + 4) ?_ ?_ ?_ <;> grind
  split at hc
  next h =>
    subst h
    exact hdigit 62 (by decide) rfl rfl
  split at hc
  next h =>
    subst h
    exact hdigit 63 (by decide) rfl rfl
  exact absurd rfl hc

/-! ## Blocks -/

/-- What the encoder writes. -/
def digits64 : List UInt8 → List UInt8
  | [] => []
  | [a] => [digit (a.toNat / 4), digit (a.toNat % 4 * 16), 61, 61]
  | [a, b] => [digit (a.toNat / 4), digit (a.toNat % 4 * 16 + b.toNat / 16),
      digit (b.toNat % 16 * 4), 61]
  | a :: b :: c :: data =>
      digit (a.toNat / 4) :: digit (a.toNat % 4 * 16 + b.toNat / 16) ::
        digit (b.toNat % 16 * 4 + c.toNat / 64) :: digit (c.toNat % 64) :: digits64 data

theorem shift_byte (value : Nat) (b : UInt8) :
    (value <<< 8 ||| b.toNat) % 2 ^ 32 = (value * 256 + b.toNat) % 2 ^ 32 := by
  rw [← Nat.shiftLeft_add_eq_or_of_lt (by have := b.toNat_lt; omega), Nat.shiftLeft_eq]

theorem low_bits (value k : Nat) : (value >>> k) &&& 0x3f = value / 2 ^ k % 64 := by
  rw [show (0x3f : Nat) = 2 ^ 6 - 1 from rfl, Nat.and_two_pow_sub_one_eq_mod,
    Nat.shiftRight_eq_div_pow]

theorem pad_bits (value k : Nat) :
    ((value <<< k) % 2 ^ 32) &&& 0x3f = value * 2 ^ k % 2 ^ 32 % 64 := by
  rw [show (0x3f : Nat) = 2 ^ 6 - 1 from rfl, Nat.and_two_pow_sub_one_eq_mod, Nat.shiftLeft_eq]
/-! ## Encoding -/

theorem encodeLoop_succ (left o value : Nat) (num_bits : Int) (data : List UInt8) :
    encodeLoop (left + 1) o value num_bits data =
      if (takeByte value num_bits data).2.1 > 0 then
        digit (if (takeByte value num_bits data).2.1 ≥ 6 then
            ((takeByte value num_bits data).1 >>> ((takeByte value num_bits data).2.1 - 6).toNat)
              &&& 0x3f
          else (((takeByte value num_bits data).1 <<<
            (6 - (takeByte value num_bits data).2.1).toNat) % 2 ^ 32) &&& 0x3f) ::
          encodeLoop left (o + 1) (takeByte value num_bits data).1
            ((takeByte value num_bits data).2.1 - 6) (takeByte value num_bits data).2.2
      else if o % 4 ≠ 0 then
        61 :: encodeLoop left (o + 1) (takeByte value num_bits data).1
          (takeByte value num_bits data).2.1 (takeByte value num_bits data).2.2
      else [] := by
  rw [encodeLoop]
  rfl

/-- A byte is taken and six bits are written. -/
theorem encodeLoop_byte (left o value : Nat) {n : Nat} (hn : n < 6) (b : UInt8)
    (data : List UInt8) :
    encodeLoop (left + 1) o value n (b :: data) =
      digit ((value * 256 + b.toNat) % 2 ^ 32 / 2 ^ (n + 2) % 64) ::
        encodeLoop left (o + 1) ((value * 256 + b.toNat) % 2 ^ 32) (n + 2 : Nat) data := by
  have htake : takeByte value n (b :: data) =
      ((value * 256 + b.toNat) % 2 ^ 32, ((n + 8 : Nat) : Int), data) := by
    have hlt : (n : Int) < 6 := by omega
    show (if (n : Int) < 6 then _ else _) = _
    rw [if_pos hlt, shift_byte]
    rfl
  have hbits : ((n + 8 : Nat) : Int) - 6 = (n + 2 : Nat) := by omega
  rw [encodeLoop_succ, htake]
  simp only
  rw [if_pos (by omega), if_pos (by omega), hbits, Int.toNat_natCast, low_bits]

/-- Six bits are left: no byte is taken. -/
theorem encodeLoop_six (left o value : Nat) {num_bits : Int} (hbits : num_bits = 6)
    (data : List UInt8) :
    encodeLoop (left + 1) o value num_bits data =
      digit (value % 64) :: encodeLoop left (o + 1) value 0 data := by
  subst hbits
  have htake : takeByte value 6 data = (value, 6, data) := by
    cases data with
    | nil => rfl
    | cons b data => rfl
  rw [encodeLoop_succ, htake]
  simp only
  rw [if_pos (by decide), if_pos (by decide), low_bits]
  simp

/-- The bits that are left behind the last byte. -/
theorem encodeLoop_rest (left o value : Nat) {n : Nat} (hpos : 0 < n) (hn : n < 6) :
    encodeLoop (left + 1) o value n [] =
      digit (value * 2 ^ (6 - n) % 2 ^ 32 % 64) :: encodeLoop left (o + 1) value (n - 6) [] := by
  have htake : takeByte value n [] = (value, (n : Int), []) := rfl
  have hshift : (6 - (n : Int)).toNat = 6 - n := by omega
  rw [encodeLoop_succ, htake]
  simp only
  rw [if_pos (by omega), if_neg (by omega), hshift, pad_bits]

/-- The padding up to the end of the block. -/
theorem encodeLoop_padding (left o value : Nat) {num_bits : Int} (hbits : num_bits ≤ 0)
    (ho : o % 4 ≠ 0) :
    encodeLoop (left + 1) o value num_bits [] = 61 :: encodeLoop left (o + 1) value num_bits [] := by
  have htake : takeByte value num_bits [] = (value, num_bits, []) := rfl
  rw [encodeLoop_succ, htake]
  simp only
  rw [if_neg (by omega), if_pos ho]

theorem encodeLoop_end (left : Nat) {o value : Nat} {num_bits : Int} (hbits : num_bits ≤ 0)
    (ho : o % 4 = 0) : encodeLoop left o value num_bits [] = [] := by
  cases left with
  | zero =>
      rw [encodeLoop]
  | succ left =>
      have htake : takeByte value num_bits [] = (value, num_bits, []) := rfl
      rw [encodeLoop_succ, htake]
      simp only
      rw [if_neg (by omega), if_neg (not_not_intro ho)]

theorem encodeLoop_eq (data : List UInt8) {left o value : Nat}
    (hleft : 4 * ((data.length + 2) / 3) ≤ left) (ho : o % 4 = 0) :
    encodeLoop left o value 0 data = digits64 data := by
  match data, hleft with
  | [], _ => exact encodeLoop_end left (Int.le_refl 0) ho
  | [a], hleft =>
      simp only [List.length_cons, List.length_nil] at hleft
      obtain ⟨left, rfl⟩ := Nat.exists_eq_add_of_le' (show 4 ≤ left by omega)
      have ha := a.toNat_lt
      show encodeLoop (left + 3 + 1) o value ((0 : Nat) : Int) [a] = _
      rw [encodeLoop_byte (left + 3) o value (by decide) a [],
        encodeLoop_rest (left + 2) (o + 1) _ (by decide) (by decide),
        encodeLoop_padding (left + 1) _ _ (by decide) (by omega),
        encodeLoop_padding left _ _ (by decide) (by omega),
        encodeLoop_end left (by decide) (by omega), digits64]
      obtain ⟨r, hr⟩ : ∃ r, r = (value * 256 + a.toNat) % 2 ^ 32 := ⟨_, rfl⟩
      rw [← hr]
      have hfirst : r / 2 ^ (0 + 2) % 64 = a.toNat / 4 := by omega
      have hsecond : r * 2 ^ (6 - (0 + 2)) % 2 ^ 32 % 64 = a.toNat % 4 * 16 := by omega
      rw [hfirst, hsecond]
  | [a, b], hleft =>
      simp only [List.length_cons, List.length_nil] at hleft
      obtain ⟨left, rfl⟩ := Nat.exists_eq_add_of_le' (show 4 ≤ left by omega)
      have ha := a.toNat_lt
      have hb := b.toNat_lt
      show encodeLoop (left + 3 + 1) o value ((0 : Nat) : Int) [a, b] = _
      rw [encodeLoop_byte (left + 3) o value (by decide) a [b],
        encodeLoop_byte (left + 2) (o + 1) _ (by decide) b [],
        encodeLoop_rest (left + 1) _ _ (by decide) (by decide),
        encodeLoop_padding left _ _ (by decide) (by omega),
        encodeLoop_end left (by decide) (by omega), digits64]
      obtain ⟨r, hr⟩ : ∃ r, r = (value * 256 + a.toNat) % 2 ^ 32 := ⟨_, rfl⟩
      rw [← hr]
      obtain ⟨r', hr'⟩ : ∃ r', r' = (r * 256 + b.toNat) % 2 ^ 32 := ⟨_, rfl⟩
      rw [← hr']
      have hlow : r' % 65536 = a.toNat * 256 + b.toNat := by omega
      have hfirst : r / 2 ^ (0 + 2) % 64 = a.toNat / 4 := by omega
      have hsecond : r' / 2 ^ (0 + 2 + 2) % 64 = a.toNat % 4 * 16 + b.toNat / 16 := by omega
      have hthird : r' * 2 ^ (6 - (0 + 2 + 2)) % 2 ^ 32 % 64 = b.toNat % 16 * 4 := by
        clear hr hr' hfirst hsecond
        omega
      rw [hfirst, hsecond, hthird]
  | a :: b :: c :: data, hleft =>
      simp only [List.length_cons] at hleft
      obtain ⟨left, rfl⟩ := Nat.exists_eq_add_of_le' (show 4 ≤ left by omega)
      have ha := a.toNat_lt
      have hb := b.toNat_lt
      have hc := c.toNat_lt
      have hsix : ((0 + 2 + 2 + 2 : Nat) : Int) = 6 := rfl
      show encodeLoop (left + 3 + 1) o value ((0 : Nat) : Int) (a :: b :: c :: data) = _
      rw [encodeLoop_byte (left + 3) o value (by decide) a (b :: c :: data),
        encodeLoop_byte (left + 2) (o + 1) _ (by decide) b (c :: data),
        encodeLoop_byte (left + 1) _ _ (by decide) c data,
        encodeLoop_six left _ _ hsix, encodeLoop_eq data (by omega) (by omega), digits64]
      obtain ⟨r, hr⟩ : ∃ r, r = (value * 256 + a.toNat) % 2 ^ 32 := ⟨_, rfl⟩
      rw [← hr]
      obtain ⟨r', hr'⟩ : ∃ r', r' = (r * 256 + b.toNat) % 2 ^ 32 := ⟨_, rfl⟩
      rw [← hr']
      obtain ⟨r'', hr''⟩ : ∃ r'', r'' = (r' * 256 + c.toNat) % 2 ^ 32 := ⟨_, rfl⟩
      rw [← hr'']
      have hlow : r' % 65536 = a.toNat * 256 + b.toNat := by omega
      have hlow' : r'' % 65536 = b.toNat * 256 + c.toNat := by omega
      have hfirst : r / 2 ^ (0 + 2) % 64 = a.toNat / 4 := by omega
      have hsecond : r' / 2 ^ (0 + 2 + 2) % 64 = a.toNat % 4 * 16 + b.toNat / 16 := by omega
      have hthird : r'' / 2 ^ (0 + 2 + 2 + 2) % 64 = b.toNat % 16 * 4 + c.toNat / 64 := by omega
      have hfourth : r'' % 64 = c.toNat % 64 := by omega
      rw [hfirst, hsecond, hthird, hfourth]

theorem str_base64_eq (data : List UInt8) (dst_size : Nat)
    (hsize : 4 * ((data.length + 2) / 3) < dst_size) :
    str_base64 dst_size data = digits64 data :=
  encodeLoop_eq data (by omega) rfl

theorem length_digits64 (data : List UInt8) :
    (digits64 data).length = 4 * ((data.length + 2) / 3) := by
  match data with
  | [] => rw [digits64, List.length_nil]
  | [_] => simp only [digits64, List.length_cons, List.length_nil]
  | [_, _] => simp only [digits64, List.length_cons, List.length_nil]
  | _ :: _ :: _ :: data =>
      simp only [digits64, List.length_cons, length_digits64 data]
      omega

/-! ## Decoding -/

/-- The value of a block. -/
theorem block_value {a b c d : Nat} (hb : b < 64) (hc : c < 64) (hd : d < 64) :
    ((a <<< 18) ||| (b <<< 12) ||| (c <<< 6) ||| d) = a * 262144 + b * 4096 + c * 64 + d := by
  have hab : (a <<< 18) ||| (b <<< 12) = (a * 64 + b) <<< 12 := by
    rw [← Nat.shiftLeft_add_eq_or_of_lt (by rw [Nat.shiftLeft_eq]; omega), Nat.shiftLeft_eq,
      Nat.shiftLeft_eq, Nat.shiftLeft_eq]
    omega
  have habc : ((a * 64 + b) <<< 12) ||| (c <<< 6) = ((a * 64 + b) * 64 + c) <<< 6 := by
    rw [← Nat.shiftLeft_add_eq_or_of_lt (by rw [Nat.shiftLeft_eq]; omega), Nat.shiftLeft_eq,
      Nat.shiftLeft_eq, Nat.shiftLeft_eq]
    omega
  rw [hab, habc, ← Nat.shiftLeft_add_eq_or_of_lt (by omega), Nat.shiftLeft_eq]
  omega

theorem block_byte (value b : Nat) :
    UInt8.ofNat ((value >>> (16 - 8 * b)) &&& 0xff) =
      UInt8.ofNat (value / 2 ^ (16 - 8 * b) % 256) := by
  rw [show (0xff : Nat) = 2 ^ 8 - 1 from rfl, Nat.and_two_pow_sub_one_eq_mod,
    Nat.shiftRight_eq_div_pow]

theorem outputBytes_three (value : Nat) :
    outputBytes value 3 [0, 1, 2] = .ok [.ofNat (value / 65536 % 256), .ofNat (value / 256 % 256),
      .ofNat (value % 256)] := by
  simp only [outputBytes, block_byte]
  simp [Except.map]

theorem ofNat_eq_zero {n : Nat} (hn : n < 256) : UInt8.ofNat n = 0 ↔ n = 0 := by
  constructor
  · intro h
    have hnat := congrArg UInt8.toNat h
    rw [UInt8.toNat_ofNat_of_lt' hn] at hnat
    exact hnat
  · rintro rfl
    rfl

theorem outputBytes_two (value : Nat) :
    outputBytes value 2 [0, 1, 2] = if value % 256 = 0 then
      .ok [.ofNat (value / 65536 % 256), .ofNat (value / 256 % 256)] else .error (-2) := by
  have hzero := ofNat_eq_zero (n := value % 256) (by omega)
  simp only [outputBytes, block_byte]
  by_cases h : value % 256 = 0
  · simp [h, Except.map]
  · have hne : ¬ UInt8.ofNat (value % 256) = 0 := fun heq => h (hzero.mp heq)
    simp [h, hne, Except.map]

theorem outputBytes_one (value : Nat) :
    outputBytes value 1 [0, 1, 2] = if value / 256 % 256 = 0 ∧ value % 256 = 0 then
      .ok [.ofNat (value / 65536 % 256)] else .error (-2) := by
  have hzero := ofNat_eq_zero (n := value % 256) (by omega)
  have hzero' := ofNat_eq_zero (n := value / 256 % 256) (by omega)
  simp only [outputBytes, block_byte]
  by_cases h' : value / 256 % 256 = 0
  · by_cases h : value % 256 = 0
    · simp [h, h', Except.map]
    · have hne : ¬ UInt8.ofNat (value % 256) = 0 := fun heq => h (hzero.mp heq)
      simp [h, h', hne, Except.map]
  · have hne : ¬ UInt8.ofNat (value / 256 % 256) = 0 := fun heq => h' (hzero'.mp heq)
    simp [h', hne, Except.map]

section Blocks

variable {a b c d : Nat}

/-- The digits of a block. -/
theorem decodeBlock_digits (ha : a < 64) (hb : b < 64) (hc : c < 64) (hd : d < 64) (last : Bool) :
    decodeBlock (digit a) (digit b) (digit c) (digit d) last =
      .ok [.ofNat (a * 4 + b / 16), .ofNat (b % 16 * 16 + c / 4), .ofNat (c % 4 * 64 + d)] := by
  have hpad : padding (digit c) (digit d) last = (digit c, digit d, 3) := by
    unfold padding
    exact if_neg fun h => digit_ne_padding hd h.2
  unfold decodeBlock
  rw [hpad]
  simp only [digit_value_digit ha, digit_value_digit hb, digit_value_digit hc,
    digit_value_digit hd, Int.toNat_natCast]
  rw [if_neg (by omega), block_value hb hc hd, outputBytes_three]
  have hfirst : (a * 262144 + b * 4096 + c * 64 + d) / 65536 % 256 = a * 4 + b / 16 := by omega
  have hsecond : (a * 262144 + b * 4096 + c * 64 + d) / 256 % 256 = b % 16 * 16 + c / 4 := by
    omega
  have hthird : (a * 262144 + b * 4096 + c * 64 + d) % 256 = c % 4 * 64 + d := by omega
  rw [hfirst, hsecond, hthird]

/-- A block with one padding character. -/
theorem decodeBlock_two (ha : a < 64) (hb : b < 64) (hc : c < 64) :
    decodeBlock (digit a) (digit b) (digit c) 61 true =
      if c % 4 = 0 then .ok [.ofNat (a * 4 + b / 16), .ofNat (b % 16 * 16 + c / 4)]
      else .error (-2) := by
  have hpad : padding (digit c) 61 true = (digit c, 65, 2) := by
    unfold padding
    rw [if_pos ⟨rfl, rfl⟩]
    exact if_neg (digit_ne_padding hc)
  have hA : base64_digit_value 65 = ((0 : Nat) : Int) := by decide
  unfold decodeBlock
  rw [hpad]
  simp only [digit_value_digit ha, digit_value_digit hb, digit_value_digit hc, hA,
    Int.toNat_natCast]
  rw [if_neg (by omega), block_value hb hc (by decide), outputBytes_two]
  have hfirst : (a * 262144 + b * 4096 + c * 64 + 0) / 65536 % 256 = a * 4 + b / 16 := by omega
  have hsecond : (a * 262144 + b * 4096 + c * 64 + 0) / 256 % 256 = b % 16 * 16 + c / 4 := by
    omega
  have hzero : (a * 262144 + b * 4096 + c * 64 + 0) % 256 = 0 ↔ c % 4 = 0 := by omega
  rw [hfirst, hsecond]
  simp only [hzero]

/-- A block with two padding characters. -/
theorem decodeBlock_one (ha : a < 64) (hb : b < 64) :
    decodeBlock (digit a) (digit b) 61 61 true =
      if b % 16 = 0 then .ok [.ofNat (a * 4 + b / 16)] else .error (-2) := by
  have hpad : padding 61 61 true = (65, 65, 1) := rfl
  have hA : base64_digit_value 65 = ((0 : Nat) : Int) := by decide
  unfold decodeBlock
  rw [hpad]
  simp only [digit_value_digit ha, digit_value_digit hb, hA, Int.toNat_natCast]
  rw [if_neg (by omega), block_value hb (by decide) (by decide), outputBytes_one]
  have hfirst : (a * 262144 + b * 4096 + 0 * 64 + 0) / 65536 % 256 = a * 4 + b / 16 := by omega
  have hzero : ((a * 262144 + b * 4096 + 0 * 64 + 0) / 256 % 256 = 0 ∧
      (a * 262144 + b * 4096 + 0 * 64 + 0) % 256 = 0) ↔ b % 16 = 0 := by omega
  rw [hfirst]
  simp only [hzero]

end Blocks

theorem ofNat_toNat_eq {n : Nat} {b : UInt8} (h : n = b.toNat) : UInt8.ofNat n = b := by
  rw [h, UInt8.ofNat_toNat]

/-- What the encoder writes is decoded. -/
theorem decodeLoop_digits64 (data : List UInt8) : decodeLoop (digits64 data) = .ok data := by
  match data with
  | [] => rfl
  | [a] =>
      have ha := a.toNat_lt
      have hblock := decodeBlock_one (a := a.toNat / 4) (b := a.toNat % 4 * 16) (by omega) (by omega)
      rw [if_pos (by omega), ofNat_toNat_eq (b := a) (by omega)] at hblock
      show (decodeBlock _ _ 61 61 true >>= fun block => _) = _
      rw [hblock]
      rfl
  | [a, b] =>
      have ha := a.toNat_lt
      have hb := b.toNat_lt
      have hblock := decodeBlock_two (a := a.toNat / 4) (b := a.toNat % 4 * 16 + b.toNat / 16)
        (c := b.toNat % 16 * 4) (by omega) (by omega) (by omega)
      rw [if_pos (by omega), ofNat_toNat_eq (b := a) (by omega),
        ofNat_toNat_eq (b := b) (by omega)] at hblock
      show (decodeBlock _ _ _ 61 true >>= fun block => _) = _
      rw [hblock]
      rfl
  | a :: b :: c :: data =>
      have ha := a.toNat_lt
      have hb := b.toNat_lt
      have hc := c.toNat_lt
      have hblock := decodeBlock_digits (a := a.toNat / 4) (b := a.toNat % 4 * 16 + b.toNat / 16)
        (c := b.toNat % 16 * 4 + c.toNat / 64) (d := c.toNat % 64) (by omega) (by omega) (by omega)
        (by omega) (digits64 data = [])
      rw [ofNat_toNat_eq (b := a) (by omega), ofNat_toNat_eq (b := b) (by omega),
        ofNat_toNat_eq (b := c) (by omega)] at hblock
      rw [digits64, decodeLoop, hblock, decodeLoop_digits64 data]
      rfl

/-- A block that is accepted is what the encoder writes of its bytes. -/
theorem decodeBlock_accepts {c0 c1 c2 c3 : UInt8} {last : Bool} {block : List UInt8}
    (h : decodeBlock c0 c1 c2 c3 last = .ok block) :
    digits64 block = [c0, c1, c2, c3] ∧ (block.length = 3 ∨ last = true) := by
  have hvalid : base64_digit_value c0 ≠ -1 ∧ base64_digit_value c1 ≠ -1 ∧
      base64_digit_value (padding c2 c3 last).1 ≠ -1 ∧
      base64_digit_value (padding c2 c3 last).2.1 ≠ -1 := by
    unfold decodeBlock at h
    simp only at h
    split at h
    · cases h
    next hnot =>
      exact ⟨fun h0 => hnot (.inl h0), fun h1 => hnot (.inr (.inl h1)),
        fun h2 => hnot (.inr (.inr (.inl h2))), fun h3 => hnot (.inr (.inr (.inr h3)))⟩
  obtain ⟨h0, h1, h2, h3⟩ := hvalid
  obtain ⟨a, ha, -, rfl⟩ := digit_of_value h0
  obtain ⟨b, hb, -, rfl⟩ := digit_of_value h1
  have hbyte : ∀ {n : Nat}, n < 256 → (UInt8.ofNat n).toNat = n :=
    fun hn => UInt8.toNat_ofNat_of_lt' hn
  unfold padding at h2 h3
  by_cases hpad : last = true ∧ c3 = 61
  · obtain ⟨rfl, rfl⟩ := hpad
    by_cases hpad' : c2 = 61
    · subst hpad'
      rw [decodeBlock_one ha hb] at h
      split at h
      next hzero =>
        cases h
        refine ⟨?_, .inr rfl⟩
        rw [digits64, hbyte (by omega), show (a * 4 + b / 16) / 4 = a by omega,
          show (a * 4 + b / 16) % 4 * 16 = b by omega]
      next => cases h
    · rw [if_pos ⟨rfl, rfl⟩, if_neg hpad'] at h2
      obtain ⟨c, hc, -, rfl⟩ := digit_of_value h2
      rw [decodeBlock_two ha hb hc] at h
      split at h
      next hzero =>
        cases h
        refine ⟨?_, .inr rfl⟩
        rw [digits64, hbyte (by omega), hbyte (by omega), show (a * 4 + b / 16) / 4 = a by omega,
          show (a * 4 + b / 16) % 4 * 16 + (b % 16 * 16 + c / 4) / 16 = b by omega,
          show (b % 16 * 16 + c / 4) % 16 * 4 = c by omega]
      next => cases h
  · rw [if_neg hpad] at h2 h3
    obtain ⟨c, hc, -, rfl⟩ := digit_of_value h2
    obtain ⟨d, hd, -, rfl⟩ := digit_of_value h3
    rw [decodeBlock_digits ha hb hc hd] at h
    cases h
    refine ⟨?_, .inl rfl⟩
    rw [digits64, digits64, hbyte (by omega), hbyte (by omega), hbyte (by omega),
      show (a * 4 + b / 16) / 4 = a by omega,
      show (a * 4 + b / 16) % 4 * 16 + (b % 16 * 16 + c / 4) / 16 = b by omega,
      show (b % 16 * 16 + c / 4) % 16 * 4 + (c % 4 * 64 + d) / 64 = c by omega,
      show (c % 4 * 64 + d) % 64 = d by omega]

theorem decodeLoop_accepts {s d : List UInt8} (hlength : s.length % 4 = 0)
    (h : decodeLoop s = .ok d) : digits64 d = s := by
  match s, hlength, h with
  | [], _, h =>
      cases h
      rfl
  | [_], hlength, _ => cases hlength
  | [_, _], hlength, _ => cases hlength
  | [_, _, _], hlength, _ => cases hlength
  | c0 :: c1 :: c2 :: c3 :: data, hlength, h =>
      rw [decodeLoop] at h
      cases hblock : decodeBlock c0 c1 c2 c3 (data = []) with
      | error e =>
          rw [hblock] at h
          cases h
      | ok block =>
          cases hrest : decodeLoop data with
          | error e =>
              rw [hblock, hrest] at h
              cases h
          | ok rest =>
              rw [hblock, hrest] at h
              cases h
              have hdata := decodeLoop_accepts (by
                simp only [List.length_cons] at hlength
                omega) hrest
              obtain ⟨hdigits, hlast⟩ := decodeBlock_accepts hblock
              by_cases hthree : block.length = 3
              · obtain ⟨x, y, z, rfl⟩ := List.length_eq_three.1 hthree
                rw [digits64, digits64] at hdigits
                show digits64 (x :: y :: z :: rest) = _
                rw [digits64, hdata]
                simp only [List.cons.injEq, and_true] at hdigits ⊢
                exact hdigits
              · have hnil : data = [] := of_decide_eq_true (hlast.resolve_left hthree)
                subst hnil
                cases hrest
                rw [List.append_nil]
                exact hdigits

/-- Encoding and decoding undo each other: a block of bytes is read back, and a string that is
accepted is the encoding of its bytes. -/
theorem base64_bijection :
    (∀ (d : List UInt8) (dst_size decoded_size : Nat), 4 * ((d.length + 2) / 3) + 1 ≤ dst_size →
      (str_base64 dst_size d).length / 4 * 3 ≤ decoded_size →
      str_base64_decode decoded_size (str_base64 dst_size d) = .ok d) ∧
    ∀ (s d : List UInt8) (decoded_size dst_size : Nat), str_base64_decode decoded_size s = .ok d →
      s.length + 1 ≤ dst_size → str_base64 dst_size d = s := by
  constructor
  · intro d dst_size decoded_size hsize hdecoded
    have hencode := str_base64_eq d dst_size (by omega)
    rw [hencode] at hdecoded ⊢
    unfold str_base64_decode
    rw [if_neg, if_neg (by omega), decodeLoop_digits64]
    rw [length_digits64]
    omega
  · intro s d decoded_size dst_size haccept hsize
    unfold str_base64_decode at haccept
    split at haccept
    · cases haccept
    next hlength =>
      split at haccept
      · cases haccept
      · have hdigits := decodeLoop_accepts (Decidable.not_not.mp hlength) haccept
        have hbytes := congrArg List.length hdigits
        rw [length_digits64] at hbytes
        rw [str_base64_eq d dst_size (by omega), hdigits]

theorem base64_bijection_ab :
    str_base64_decode 3 (str_base64 5 [65, 66]) = .ok [65, 66] ∧
      str_base64 5 [65, 66] = [81, 85, 73, 61] :=
  ⟨base64_bijection.1 [65, 66] 5 3 (by decide) (by decide),
    base64_bijection.2 [81, 85, 73, 61] [65, 66] 3 5 (by decide) (by decide)⟩

/-- `QUI=` is accepted, `QUJ=` has padding that is not zero. -/
example : str_base64_decode 3 [81, 85, 73, 61] = .ok [65, 66] ∧
    str_base64_decode 3 [81, 85, 74, 61] = .error (-2) := by
  decide

end Fex.Base
