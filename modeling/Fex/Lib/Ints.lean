import Fex.Lib.CInt
import Mathlib.Data.List.Basic

/-!
# Object representation of `int`

An `int` is four bytes in memory, the least significant one first.  `intBytes`
and `readInt` convert between the two, and `ints` reads a block of memory.
-/

namespace Fex.Lib

/-- The bytes of an `int`. -/
def intBytes (x : Int) : List UInt8 :=
  let n := (x % 4294967296).toNat
  [UInt8.ofNat n, UInt8.ofNat (n / 256), UInt8.ofNat (n / 65536), UInt8.ofNat (n / 16777216)]

/-- The `int` in the first four bytes. -/
def readInt : List UInt8 → Int
  | b₀ :: b₁ :: b₂ :: b₃ :: _ =>
      wrap32 (b₀.toNat + 256 * b₁.toNat + 65536 * b₂.toNat + 16777216 * b₃.toNat)
  | _ => 0

/-- The whole `int`s in a block of memory. -/
def ints : List UInt8 → List Int
  | b₀ :: b₁ :: b₂ :: b₃ :: l => readInt [b₀, b₁, b₂, b₃] :: ints l
  | _ => []

@[simp] theorem length_intBytes (x : Int) : (intBytes x).length = 4 := rfl

theorem isInt32_readInt (l : List UInt8) : IsInt32 (readInt l) := by
  unfold readInt
  split
  · exact isInt32_wrap32 _
  · decide

@[simp] theorem readInt_intBytes_append {x : Int} (h : IsInt32 x) (l : List UInt8) :
    readInt (intBytes x ++ l) = x := by
  unfold IsInt32 at h
  simp only [intBytes, readInt, List.cons_append, UInt8.toNat_ofNat']
  unfold wrap32
  omega

theorem readInt_intBytes {x : Int} (h : IsInt32 x) : readInt (intBytes x) = x := by
  have happend := readInt_intBytes_append h []
  rw [List.append_nil] at happend
  exact happend

theorem intBytes_readInt (b₀ b₁ b₂ b₃ : UInt8) :
    intBytes (readInt [b₀, b₁, b₂, b₃]) = [b₀, b₁, b₂, b₃] := by
  have h₀ := b₀.toNat_lt
  have h₁ := b₁.toNat_lt
  have h₂ := b₂.toNat_lt
  have h₃ := b₃.toNat_lt
  have hn : (readInt [b₀, b₁, b₂, b₃] % 4294967296).toNat =
      b₀.toNat + 256 * b₁.toNat + 65536 * b₂.toNat + 16777216 * b₃.toNat := by
    simp only [readInt]
    unfold wrap32
    omega
  have hbyte : ∀ (b : UInt8) (n : Nat), n % 256 = b.toNat → UInt8.ofNat n = b := by
    intro b n hn
    apply UInt8.toNat_inj.mp
    rw [UInt8.toNat_ofNat', hn]
  unfold intBytes
  simp only [hn]
  rw [hbyte b₀ _ (by omega), hbyte b₁ _ (by omega), hbyte b₂ _ (by omega), hbyte b₃ _ (by omega)]

@[simp] theorem ints_intBytes_append {x : Int} (h : IsInt32 x) (l : List UInt8) :
    ints (intBytes x ++ l) = x :: ints l := by
  show readInt (intBytes x) :: ints l = _
  rw [readInt_intBytes h]

/-- Reading what was written. -/
theorem ints_flatMap {xs : List Int} (h : ∀ x ∈ xs, IsInt32 x) :
    ints (xs.flatMap intBytes) = xs := by
  induction xs with
  | nil => rfl
  | cons x xs ih =>
      rw [List.flatMap_cons, ints_intBytes_append (h x (by simp)), ih fun y hy => h y (by simp [hy])]

theorem length_flatMap_intBytes (xs : List Int) : (xs.flatMap intBytes).length = 4 * xs.length := by
  induction xs with
  | nil => rfl
  | cons x xs ih =>
      rw [List.flatMap_cons, List.length_append, ih, length_intBytes, List.length_cons]
      omega

theorem drop_flatMap_intBytes (xs : List Int) (k : Nat) :
    (xs.flatMap intBytes).drop (4 * k) = (xs.drop k).flatMap intBytes := by
  induction k generalizing xs with
  | zero => rfl
  | succ k ih =>
      cases xs with
      | nil => simp
      | cons x xs =>
          have hk : 4 * (k + 1) = 4 + 4 * k := by omega
          rw [hk, ← List.drop_drop, List.flatMap_cons, List.drop_left' (length_intBytes x), ih,
            List.drop_succ_cons]

theorem take_flatMap_intBytes (xs : List Int) (k : Nat) :
    (xs.flatMap intBytes).take (4 * k) = (xs.take k).flatMap intBytes := by
  induction k generalizing xs with
  | zero => rfl
  | succ k ih =>
      cases xs with
      | nil => simp
      | cons x xs =>
          have hk : 4 * (k + 1) = (intBytes x).length + 4 * k := by
            rw [length_intBytes]
            omega
          rw [hk, List.flatMap_cons, List.take_length_add_append, ih, List.take_succ_cons,
            List.flatMap_cons]

theorem length_ints (l : List UInt8) : (ints l).length = l.length / 4 := by
  induction l using ints.induct with
  | case1 b₀ b₁ b₂ b₃ l ih =>
      rw [ints, List.length_cons, ih]
      simp only [List.length_cons]
      omega
  | case2 l h =>
      have hlen : l.length < 4 := by
        by_contra hlen
        match l, h with
        | [], _ => simp at hlen
        | [_], _ => simp at hlen
        | [_, _], _ => simp at hlen
        | [_, _, _], _ => simp at hlen
        | b₀ :: b₁ :: b₂ :: b₃ :: l, h => exact h b₀ b₁ b₂ b₃ l rfl
      rw [ints, List.length_nil]
      · omega
      · exact h

theorem isInt32_of_mem_ints {l : List UInt8} {x : Int} (h : x ∈ ints l) : IsInt32 x := by
  induction l using ints.induct with
  | case1 b₀ b₁ b₂ b₃ l ih =>
      rw [ints] at h
      rcases List.mem_cons.mp h with hx | h
      · rw [hx]
        exact isInt32_readInt _
      · exact ih h
  | case2 l hl =>
      rw [ints] at h
      · cases h
      · exact hl

/-- Writing back what was read. -/
theorem flatMap_ints {l : List UInt8} (h : l.length % 4 = 0) : (ints l).flatMap intBytes = l := by
  induction l using ints.induct with
  | case1 b₀ b₁ b₂ b₃ l ih =>
      simp only [List.length_cons] at h
      rw [ints, List.flatMap_cons, intBytes_readInt, ih (by omega)]
      rfl
  | case2 l hl =>
      have hlen := length_ints l
      rw [ints] at hlen ⊢
      · have hnil : l.length = 0 := by
          rw [List.length_nil] at hlen
          omega
        exact (List.eq_nil_of_length_eq_zero hnil).symm
      · exact hl
      · exact hl

/-- The whole `int`s of a block with the most significant byte first. -/
def intsBE : List UInt8 → List Int
  | b₀ :: b₁ :: b₂ :: b₃ :: l => readInt [b₃, b₂, b₁, b₀] :: intsBE l
  | _ => []

/-- The block that `intsBE` reads. -/
def bytesBE (xs : List Int) : List UInt8 := xs.flatMap fun x => (intBytes x).reverse

theorem bytesBE_intsBE {l : List UInt8} (h : l.length % 4 = 0) : bytesBE (intsBE l) = l := by
  induction l using intsBE.induct with
  | case1 b₀ b₁ b₂ b₃ l ih =>
      simp only [List.length_cons] at h
      have htail := ih (by omega)
      unfold bytesBE at htail ⊢
      rw [intsBE, List.flatMap_cons, intBytes_readInt, htail]
      rfl
  | case2 l hl =>
      match l, hl with
      | [], _ => rfl
      | [_], _ => simp at h
      | [_, _], _ => simp at h
      | [_, _, _], _ => simp at h
      | b₀ :: b₁ :: b₂ :: b₃ :: l, hl => exact absurd rfl (hl b₀ b₁ b₂ b₃ l)

theorem isInt32_of_mem_intsBE {l : List UInt8} {x : Int} (h : x ∈ intsBE l) : IsInt32 x := by
  induction l using intsBE.induct with
  | case1 b₀ b₁ b₂ b₃ l ih =>
      rw [intsBE] at h
      rcases List.mem_cons.mp h with hx | h
      · rw [hx]
        exact isInt32_readInt _
      · exact ih h
  | case2 l hl =>
      rw [intsBE] at h
      · cases h
      · exact hl

/-- The `int` at a byte address. -/
def intAt (l : List UInt8) (a : Nat) : Int := readInt (l.drop a)

end Fex.Lib
