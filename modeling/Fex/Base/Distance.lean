import Fex.Base.Utf8
import Fex.Lib.Cells
import Fex.Lib.EditDistance
import Fex.Lib.Loop

/-!
# The edit distance of strings

Model of `str_utf32_dist_buffer` and `str_utf8_dist`.  Pointers to ints are positions
in one memory; an access outside the memory, or of the rows outside their buffer, is a
fault.
-/

namespace Fex.Base

open Fex.Lib

/-! ## Functions -/

def min3 (a b c : Int) : Int :=
  let min := a
  let min := if b < min then b else min
  if c < min then c else min

/-- The ints that hold the rows. -/
structure Rows where
  buf : Nat
  buf_len : Nat
  a_len : Nat

namespace Rows

/-- The index of `B(i, j)` in the buffer. -/
def index (r : Rows) (i j : Nat) : Nat := (j &&& 1) * (r.a_len + 1) + i

def get (r : Rows) (mem : List Int) (i j : Nat) : Exec Int :=
  if r.index i j < r.buf_len then load mem (r.buf + r.index i j) else .error .outOfBounds

def set (r : Rows) (mem : List Int) (i j : Nat) (v : Int) : Exec (List Int) :=
  if r.index i j < r.buf_len then store mem (r.buf + r.index i j) v else .error .outOfBounds

/-- The body of the inner loop. -/
def cell (r : Rows) (a b j : Nat) (mem : List Int) (i : Nat) : Exec (List Int) := do
  let subst : Int := if (← load mem (a + i - 1)) ≠ (← load mem (b + j - 1)) then 1 else 0
  let v := min3 ((← r.get mem (i - 1) j) + 1) ((← r.get mem i (j - 1)) + 1)
    ((← r.get mem (i - 1) (j - 1)) + subst)
  r.set mem i j v

/-- The body of the outer loop. -/
def row (r : Rows) (a b : Nat) (mem : List Int) (j : Nat) : Exec (List Int) := do
  let mem ← r.set mem 0 j j
  (List.range' 1 r.a_len).foldlM (r.cell a b j) mem

end Rows

/-- What is left once the first list is the shorter one. -/
def distRows (mem : List Int) (a a_len b b_len buf buf_len : Nat) : Exec Int := do
  let r : Rows := ⟨buf, buf_len, a_len⟩
  let mem ← (List.range' 0 (a_len + 1)).foldlM (fun mem i => r.set mem i 0 i) mem
  let mem ← (List.range' 1 b_len).foldlM (r.row a b) mem
  r.get mem a_len b_len

def str_utf32_dist_buffer (mem : List Int) (a a_len b b_len buf buf_len : Nat) : Exec Int :=
  if buf_len < (a_len + 1) + (b_len + 1) then .error .assertion
  else if a_len > b_len then distRows mem b b_len a a_len buf buf_len
  else distRows mem a a_len b b_len buf buf_len

/-- The number of code points, the memory and the pointer behind them. -/
def str_to_utf32_unchecked (mem : List Int) (out : Nat) : List UInt8 → Exec (Nat × List Int × Nat)
  | [] => do
      let mem ← store mem out (str_utf8_decode []).1
      return (0, mem, out)
  | byte :: str => do
      let mem ← store mem out (str_utf8_decode (byte :: str)).1
      if (str_utf8_decode (byte :: str)).1 = 0 then return (0, mem, out)
      else
        let (out_len, mem, out) ←
          str_to_utf32_unchecked mem (out + 1) (str_utf8_decode (byte :: str)).2
        return (out_len + 1, mem, out)
termination_by str => str.length
decreasing_by
  have := length_str_utf8_decode byte str
  rw [List.length_cons]
  omega

def str_utf8_dist_buffer (mem : List Int) (a_utf8 b_utf8 : List UInt8) (buf buf_len : Nat) :
    Exec Int :=
  let a_utf8_len := a_utf8.length
  let b_utf8_len := b_utf8.length
  if buf_len < 2 * (a_utf8_len + 1 + b_utf8_len + 1) then .error .assertion
  else do
    let (a_utf8, b_utf8) := if a_utf8_len > b_utf8_len then (b_utf8, a_utf8) else (a_utf8, b_utf8)
    let a := buf
    let (a_len, mem, buf) ← str_to_utf32_unchecked mem buf a_utf8
    let b := buf
    let (b_len, mem, buf) ← str_to_utf32_unchecked mem buf b_utf8
    str_utf32_dist_buffer mem a a_len b b_len buf (buf_len - b_len - a_len)

def str_utf8_dist (a b : List UInt8) : Exec Int :=
  let buf_len := 2 * (a.length + 1 + b.length + 1)
  -- `calloc`
  str_utf8_dist_buffer (List.replicate buf_len 0) a b 0 buf_len

/-! ## Rows -/

theorem min3_cast (a b c : Nat) : min3 a b c = ((min (min a b) c : Nat) : Int) := by
  unfold min3
  simp only
  split <;> split <;> omega

namespace Rows

theorem index_eq (r : Rows) (i j : Nat) : r.index i j = j % 2 * (r.a_len + 1) + i := by
  rw [index, Nat.and_one_is_mod]

theorem index_lt (r : Rows) {i j : Nat} (hi : i ≤ r.a_len) : r.index i j < 2 * (r.a_len + 1) := by
  rw [index_eq]
  rcases Nat.mod_two_eq_zero_or_one j with h | h <;> rw [h] <;> omega

/-- Cells of one row, or of adjacent ones, are apart. -/
theorem index_ne (r : Rows) {i i' j j' : Nat} (hi : i ≤ r.a_len) (hi' : i' ≤ r.a_len)
    (h : i ≠ i' ∨ j % 2 ≠ j' % 2) : r.index i j ≠ r.index i' j' := by
  rw [index_eq, index_eq]
  rcases Nat.mod_two_eq_zero_or_one j with hj | hj <;>
    rcases Nat.mod_two_eq_zero_or_one j' with hj' | hj' <;> rw [hj, hj'] at h ⊢ <;> omega

end Rows

/-- The lists `a` and `b` are in the memory, apart from the rows. -/
structure Inputs (as bs : List Int) (a b : Nat) (r : Rows) (mem : List Int) : Prop where
  first : ∀ i, i < as.length → mem[a + i]? = as[i]?
  second : ∀ j, j < bs.length → mem[b + j]? = bs[j]?
  firstApart : a + as.length ≤ r.buf ∨ r.buf + r.buf_len ≤ a
  secondApart : b + bs.length ≤ r.buf ∨ r.buf + r.buf_len ≤ b
  fits : r.buf + r.buf_len ≤ mem.length

theorem Inputs.set {as bs : List Int} {a b : Nat} {r : Rows} {mem : List Int}
    (h : Inputs as bs a b r mem) {k : Nat} (hk : k < r.buf_len) (v : Int) :
    Inputs as bs a b r (mem.set (r.buf + k) v) where
  first i hi := by
    have := h.firstApart
    rw [List.getElem?_set_ne (by omega)]
    exact h.first i hi
  second j hj := by
    have := h.secondApart
    rw [List.getElem?_set_ne (by omega)]
    exact h.second j hj
  firstApart := h.firstApart
  secondApart := h.secondApart
  fits := by
    rw [List.length_set]
    exact h.fits

/-- The first `n` cells of row `j` hold the distances of prefixes. -/
def RowHolds (as bs : List Int) (r : Rows) (mem : List Int) (j n : Nat) : Prop :=
  ∀ i, i < n → mem[r.buf + r.index i j]? =
    some ((levenshtein (as.take i) (bs.take j) : Nat) : Int)

section

variable {as bs : List Int} {a b : Nat} {r : Rows} {mem : List Int}

theorem RowHolds.get {j n i : Nat} (h : RowHolds as bs r mem j n) (hi : i < n)
    (hindex : r.index i j < r.buf_len) :
    r.get mem i j = .ok ((levenshtein (as.take i) (bs.take j) : Nat) : Int) := by
  unfold Rows.get
  rw [if_pos hindex]
  exact load_eq (h i hi)

/-- A cell is stored behind those of its row; the other row stays. -/
theorem Inputs.store_cell (h : Inputs as bs a b r mem) (hlen : 2 * (r.a_len + 1) ≤ r.buf_len)
    {i j : Nat} (hi : i ≤ r.a_len) (hrow : RowHolds as bs r mem j i) :
    ∃ mem', r.set mem i j ((levenshtein (as.take i) (bs.take j) : Nat) : Int) = .ok mem' ∧
      Inputs as bs a b r mem' ∧ RowHolds as bs r mem' j (i + 1) ∧
      ∀ j' n, n ≤ r.a_len + 1 → j % 2 ≠ j' % 2 → RowHolds as bs r mem j' n →
        RowHolds as bs r mem' j' n := by
  have hindex := r.index_lt (j := j) hi
  have hmem : r.buf + r.index i j < mem.length := by
    have := h.fits
    omega
  have hset : r.set mem i j ((levenshtein (as.take i) (bs.take j) : Nat) : Int) =
      .ok (mem.set (r.buf + r.index i j) ((levenshtein (as.take i) (bs.take j) : Nat) : Int)) := by
    unfold Rows.set store
    rw [if_pos (by omega), if_pos hmem]
  refine ⟨_, hset, h.set (by omega) _, ?_, ?_⟩
  · intro i' hi'
    by_cases heq : i' = i
    · rw [heq, List.getElem?_set_self hmem]
    · have hne : r.index i j ≠ r.index i' j := r.index_ne hi (by omega) (.inl (Ne.symm heq))
      rw [List.getElem?_set_ne (by omega)]
      exact hrow i' (by omega)
  · intro j' n hn hparity hrow' i' hi'
    have hne := r.index_ne hi (show i' ≤ r.a_len by omega) (.inr hparity)
    rw [List.getElem?_set_ne (by omega)]
    exact hrow' i' hi'

/-- The inner loop continues the row. -/
theorem Inputs.cell (h : Inputs as bs a b r mem) (hlen : 2 * (r.a_len + 1) ≤ r.buf_len)
    (has : r.a_len = as.length) {i j : Nat} (hi : i + 1 ≤ r.a_len) (hj : j < bs.length)
    (hrow : RowHolds as bs r mem (j + 1) (i + 1)) (hlast : RowHolds as bs r mem j (r.a_len + 1)) :
    ∃ mem', r.cell a b (j + 1) mem (i + 1) = .ok mem' ∧ Inputs as bs a b r mem' ∧
      RowHolds as bs r mem' (j + 1) (i + 2) ∧ RowHolds as bs r mem' j (r.a_len + 1) := by
  have hi' : i < as.length := by omega
  have hx : as[i]? = some as[i] := List.getElem?_eq_getElem hi'
  have hy : bs[j]? = some bs[j] := List.getElem?_eq_getElem hj
  have hloadx : load mem (a + (i + 1) - 1) = .ok as[i] :=
    load_eq ((h.first i hi').trans hx)
  have hloady : load mem (b + (j + 1) - 1) = .ok bs[j] :=
    load_eq ((h.second j hj).trans hy)
  have hindex : ∀ i' j', i' ≤ r.a_len → r.index i' j' < r.buf_len := by
    intro i' j' hle
    have := r.index_lt (j := j') hle
    omega
  have hleft := hrow.get (Nat.lt_succ_self i) (hindex i (j + 1) (by omega))
  have hup := hlast.get (show i + 1 < r.a_len + 1 by omega) (hindex (i + 1) j hi)
  have hdiagonal := hlast.get (show i < r.a_len + 1 by omega) (hindex i j (by omega))
  have hcost : (if as[i] ≠ bs[j] then (1 : Int) else 0) = (substCost as[i] bs[j] : Nat) := by
    unfold substCost
    by_cases heq : as[i] = bs[j]
    · rw [if_neg (not_not_intro heq), if_pos heq]
      rfl
    · rw [if_pos heq, if_neg heq]
      rfl
  obtain ⟨mem', hset, hinputs, hrow', hother⟩ := h.store_cell hlen hi hrow
  refine ⟨mem', ?_, hinputs, hrow', hother j _ (Nat.le_refl _) (by omega) hlast⟩
  unfold Rows.cell
  rw [hloadx, hloady]
  show (r.get mem i (j + 1) >>= fun left => r.get mem (i + 1) j >>= fun up =>
    r.get mem i j >>= fun diagonal => r.set mem (i + 1) (j + 1)
      (min3 (left + 1) (up + 1) (diagonal + if as[i] ≠ bs[j] then 1 else 0))) = _
  rw [hleft, hup, hdiagonal, hcost]
  show r.set mem (i + 1) (j + 1) (min3 _ _ _) = _
  rw [← hset, levenshtein_take_succ hx hy]
  exact congrArg (r.set mem (i + 1) (j + 1)) (min3_cast _ _ _)

/-- The outer loop fills the next row. -/
theorem Inputs.row (h : Inputs as bs a b r mem) (hlen : 2 * (r.a_len + 1) ≤ r.buf_len)
    (has : r.a_len = as.length) {j : Nat} (hj : j < bs.length)
    (hlast : RowHolds as bs r mem j (r.a_len + 1)) :
    ∃ mem', r.row a b mem (j + 1) = .ok mem' ∧ Inputs as bs a b r mem' ∧
      RowHolds as bs r mem' (j + 1) (r.a_len + 1) := by
  obtain ⟨mem', hset, hinputs, hrow, hother⟩ := h.store_cell hlen (Nat.zero_le _)
    (show RowHolds as bs r mem (j + 1) 0 from fun i hi => absurd hi (Nat.not_lt_zero i))
  rw [levenshtein_take_zero_left (by omega)] at hset
  obtain ⟨mem'', hloop, hinputs', hrow', -⟩ := foldlM_range'_spec (f := r.cell a b (j + 1))
    (a := 1) (n := r.a_len) (s := mem')
    (fun i mem => Inputs as bs a b r mem ∧ RowHolds as bs r mem (j + 1) i ∧
      RowHolds as bs r mem j (r.a_len + 1))
    (by
      intro i mem hi hn hinv
      obtain ⟨i, rfl⟩ : ∃ k, i = k + 1 := ⟨i - 1, by omega⟩
      exact hinv.1.cell hlen has (by omega) hj hinv.2.1 hinv.2.2)
    ⟨hinputs, hrow, hother j _ (Nat.le_refl _) (by omega) hlast⟩
  rw [Nat.add_comm 1 r.a_len] at hrow'
  refine ⟨mem'', ?_, hinputs', hrow'⟩
  unfold Rows.row
  rw [hset]
  exact hloop

end

/-- The rows end with the distance of the whole lists. -/
theorem distRows_eq {as bs : List Int} {a b buf buf_len : Nat} {mem : List Int}
    (hlen : 2 * (as.length + 1) ≤ buf_len)
    (h : Inputs as bs a b ⟨buf, buf_len, as.length⟩ mem) :
    distRows mem a as.length b bs.length buf buf_len = .ok (levenshtein as bs : Nat) := by
  obtain ⟨mem', hloop, hinputs, hrow⟩ := foldlM_range'_spec (a := 0) (n := as.length + 1) (s := mem)
    (f := fun mem i => (⟨buf, buf_len, as.length⟩ : Rows).set mem i 0 i)
    (fun i mem => Inputs as bs a b ⟨buf, buf_len, as.length⟩ mem ∧
      RowHolds as bs ⟨buf, buf_len, as.length⟩ mem 0 i)
    (by
      intro i mem hi hn hinv
      obtain ⟨mem', hset, hinputs, hrow, -⟩ := hinv.1.store_cell hlen
        (show i ≤ as.length by omega) hinv.2
      rw [levenshtein_take_zero_right (by omega)] at hset
      exact ⟨mem', hset, hinputs, hrow⟩)
    ⟨h, fun i hi => absurd hi (Nat.not_lt_zero i)⟩
  obtain ⟨mem'', hloop', hinputs', hrow'⟩ := foldlM_range'_spec (a := 1) (n := bs.length) (s := mem')
    (f := (⟨buf, buf_len, as.length⟩ : Rows).row a b)
    (fun j mem => Inputs as bs a b ⟨buf, buf_len, as.length⟩ mem ∧
      RowHolds as bs ⟨buf, buf_len, as.length⟩ mem (j - 1) (as.length + 1))
    (by
      intro j mem hj hn hinv
      obtain ⟨j, rfl⟩ : ∃ k, j = k + 1 := ⟨j - 1, by omega⟩
      exact hinv.1.row hlen rfl (by omega) hinv.2)
    ⟨hinputs, by
      rw [Nat.zero_add] at hrow
      exact hrow⟩
  rw [Nat.add_sub_cancel_left] at hrow'
  have hindex := Rows.index_lt ⟨buf, buf_len, as.length⟩ (j := bs.length) (Nat.le_refl as.length)
  have hget := hrow'.get (Nat.lt_succ_self as.length) (Nat.lt_of_lt_of_le hindex hlen)
  rw [List.take_length, List.take_length] at hget
  unfold distRows
  dsimp only
  rw [hloop]
  show ((List.range' 1 bs.length).foldlM (Rows.row ⟨buf, buf_len, as.length⟩ a b) mem' >>=
    fun mem => Rows.get ⟨buf, buf_len, as.length⟩ mem as.length bs.length) = _
  rw [hloop']
  exact hget

theorem str_utf32_dist_buffer_eq {as bs : List Int} {a b buf buf_len : Nat} {mem : List Int}
    (hlen : (as.length + 1) + (bs.length + 1) ≤ buf_len)
    (hfirst : ∀ i, i < as.length → mem[a + i]? = as[i]?)
    (hsecond : ∀ j, j < bs.length → mem[b + j]? = bs[j]?)
    (hfirstApart : a + as.length ≤ buf ∨ buf + buf_len ≤ a)
    (hsecondApart : b + bs.length ≤ buf ∨ buf + buf_len ≤ b) (hfits : buf + buf_len ≤ mem.length) :
    str_utf32_dist_buffer mem a as.length b bs.length buf buf_len =
      .ok (levenshtein as bs : Nat) := by
  unfold str_utf32_dist_buffer
  rw [if_neg (by omega)]
  split
  · rw [levenshtein_comm]
    exact distRows_eq (by omega) ⟨hsecond, hfirst, hsecondApart, hfirstApart, hfits⟩
  · exact distRows_eq (by omega) ⟨hfirst, hsecond, hfirstApart, hsecondApart, hfits⟩

/-! ## Decoded strings -/

/-- The code points up to the end of the string, errors included. -/
def codePoints : List UInt8 → List Int
  | [] => []
  | byte :: str =>
      if (str_utf8_decode (byte :: str)).1 = 0 then []
      else (str_utf8_decode (byte :: str)).1 :: codePoints (str_utf8_decode (byte :: str)).2
termination_by str => str.length
decreasing_by
  have := length_str_utf8_decode byte str
  rw [List.length_cons]
  omega

theorem length_codePoints_le (s : List UInt8) : (codePoints s).length ≤ s.length := by
  fun_induction codePoints s with
  | case1 => exact Nat.le_refl 0
  | case2 => exact Nat.zero_le _
  | case3 byte str hne ih =>
      have hlength := length_str_utf8_decode byte str
      rw [List.length_cons, List.length_cons]
      omega

theorem str_to_utf32_unchecked_cons {mem : List Int} {out : Nat} (h : out < mem.length)
    (byte : UInt8) (str : List UInt8) :
    str_to_utf32_unchecked mem out (byte :: str) =
      if (str_utf8_decode (byte :: str)).1 = 0 then
        .ok (0, mem.set out (str_utf8_decode (byte :: str)).1, out)
      else
        str_to_utf32_unchecked (mem.set out (str_utf8_decode (byte :: str)).1) (out + 1)
          (str_utf8_decode (byte :: str)).2 >>= fun r => .ok (r.1 + 1, r.2.1, r.2.2) := by
  rw [str_to_utf32_unchecked, store_eq h]
  rfl

/-- The code points are stored from `out` on, before the memory stays as it was. -/
theorem str_to_utf32_unchecked_spec (str : List UInt8) {mem : List Int} {out : Nat}
    (hfits : out + (codePoints str).length < mem.length) :
    ∃ mem', str_to_utf32_unchecked mem out str =
        .ok ((codePoints str).length, mem', out + (codePoints str).length) ∧
      mem'.length = mem.length ∧ (∀ p, p < out → mem'[p]? = mem[p]?) ∧
      ∀ i, i < (codePoints str).length → mem'[out + i]? = (codePoints str)[i]? := by
  have hstop : ∀ (mem : List Int) (out : Nat) (v : Int),
      (mem.set out v).length = mem.length ∧ (∀ p, p < out → (mem.set out v)[p]? = mem[p]?) ∧
        ∀ i, i < ([] : List Int).length → (mem.set out v)[out + i]? = [][i]? := by
    intro mem out v
    refine ⟨List.length_set, fun p hp => List.getElem?_set_ne (by omega), fun i hi => ?_⟩
    cases hi
  fun_induction codePoints str generalizing mem out with
  | case1 =>
      refine ⟨mem.set out 0, ?_, hstop mem out 0⟩
      rw [str_to_utf32_unchecked, store_eq (by omega)]
      rfl
  | case2 byte str hzero =>
      refine ⟨mem.set out 0, ?_, hstop mem out 0⟩
      rw [str_to_utf32_unchecked_cons (by omega), if_pos hzero, hzero]
      rfl
  | case3 byte str hne ih =>
      rw [List.length_cons] at hfits
      obtain ⟨mem', hrun, hlength, hbefore, hheld⟩ :=
        @ih (mem.set out (str_utf8_decode (byte :: str)).1) (out + 1)
          (by rw [List.length_set]; omega)
      rw [List.length_set] at hlength
      refine ⟨mem', ?_, hlength, ?_, ?_⟩
      · rw [str_to_utf32_unchecked_cons (by omega), if_neg hne, hrun, Nat.add_right_comm,
          Nat.add_assoc]
        rfl
      · intro p hp
        rw [hbefore p (by omega), List.getElem?_set_ne (by omega)]
      · intro i hi
        cases i with
        | zero =>
            rw [Nat.add_zero, hbefore out (by omega), List.getElem?_set_self (by omega)]
            rfl
        | succ i =>
            rw [List.getElem?_cons_succ, ← hheld i (Nat.lt_of_succ_lt_succ hi), Nat.add_right_comm,
              Nat.add_assoc]

theorem str_utf8_dist_buffer_eq {mem : List Int} {a b : List UInt8} {buf buf_len : Nat}
    (hlen : 2 * (a.length + 1 + b.length + 1) ≤ buf_len) (hfits : buf + buf_len ≤ mem.length) :
    str_utf8_dist_buffer mem a b buf buf_len =
      .ok (levenshtein (codePoints a) (codePoints b) : Nat) := by
  have hdist : ∀ a b : List UInt8, 2 * (a.length + 1 + b.length + 1) ≤ buf_len →
      (do
        let (a_len, mem, bufB) ← str_to_utf32_unchecked mem buf a
        let (b_len, mem, bufR) ← str_to_utf32_unchecked mem bufB b
        str_utf32_dist_buffer mem buf a_len bufB b_len bufR (buf_len - b_len - a_len)) =
        .ok ((levenshtein (codePoints a) (codePoints b) : Nat) : Int) := by
    intro a b hlen
    have ha := length_codePoints_le a
    have hb := length_codePoints_le b
    obtain ⟨mem', hrun, hlength, -, hheld⟩ :=
      @str_to_utf32_unchecked_spec a mem buf (by omega)
    obtain ⟨mem'', hrun', hlength', hbefore', hheld'⟩ :=
      @str_to_utf32_unchecked_spec b mem' (buf + (codePoints a).length) (by omega)
    rw [hrun]
    show (str_to_utf32_unchecked mem' (buf + (codePoints a).length) b >>= fun r =>
      str_utf32_dist_buffer r.2.1 buf (codePoints a).length (buf + (codePoints a).length) r.1 r.2.2
        (buf_len - r.1 - (codePoints a).length)) = _
    rw [hrun']
    show str_utf32_dist_buffer mem'' buf (codePoints a).length (buf + (codePoints a).length)
      (codePoints b).length (buf + (codePoints a).length + (codePoints b).length)
      (buf_len - (codePoints b).length - (codePoints a).length) = _
    refine str_utf32_dist_buffer_eq (by omega) (fun i hi => ?_) hheld' (.inl (by omega))
      (.inl (by omega)) (by omega)
    rw [hbefore' _ (by omega)]
    exact hheld i hi
  unfold str_utf8_dist_buffer
  simp only
  rw [if_neg (by omega)]
  split
  · rw [levenshtein_comm]
    exact hdist b a (by omega)
  · exact hdist a b hlen

/-- The distance in the rows is the Levenshtein distance and no access leaves the buffer;
so is the distance of strings, of their code points. -/
theorem edit_distance :
    (∀ (as bs mem : List Int) (a b buf buf_len : Nat),
      (as.length + 1) + (bs.length + 1) ≤ buf_len →
      (∀ i, i < as.length → mem[a + i]? = as[i]?) →
      (∀ j, j < bs.length → mem[b + j]? = bs[j]?) →
      (a + as.length ≤ buf ∨ buf + buf_len ≤ a) → (b + bs.length ≤ buf ∨ buf + buf_len ≤ b) →
      buf + buf_len ≤ mem.length →
      str_utf32_dist_buffer mem a as.length b bs.length buf buf_len =
        .ok (levenshtein as bs : Nat)) ∧
    ∀ a b : List UInt8, str_utf8_dist a b = .ok (levenshtein (codePoints a) (codePoints b) : Nat) := by
  constructor
  · intro as bs mem a b buf buf_len hlen hfirst hsecond hfirstApart hsecondApart hfits
    exact str_utf32_dist_buffer_eq hlen hfirst hsecond hfirstApart hsecondApart hfits
  · intro a b
    exact str_utf8_dist_buffer_eq (Nat.le_refl _) (by rw [List.length_replicate]; omega)

/-- `flaw` and `lawn`. -/
theorem edit_distance_flaw :
    str_utf32_dist_buffer ([102, 108, 97, 119] ++ [108, 97, 119, 110] ++ List.replicate 10 0) 0 4 4
      4 8 10 = .ok 2 ∧ str_utf8_dist [97] [] = .ok 1 := by
  have hflaw := edit_distance.1 [102, 108, 97, 119] [108, 97, 119, 110]
    ([102, 108, 97, 119] ++ [108, 97, 119, 110] ++ List.replicate 10 0) 0 4 8 10 (by decide)
    (by decide) (by decide) (.inl (by decide)) (.inl (by decide)) (by decide)
  have hempty := edit_distance.2 [97] []
  have hlev : levenshtein [(102 : Int), 108, 97, 119] [108, 97, 119, 110] = 2 := by decide +kernel
  have hlev' : levenshtein (codePoints [97]) (codePoints []) = 1 := by decide +kernel
  rw [hlev] at hflaw
  rw [hlev'] at hempty
  exact ⟨hflaw, hempty⟩

end Fex.Base
