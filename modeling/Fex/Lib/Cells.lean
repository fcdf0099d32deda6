import Fex.Lib.CInt

/-!
# Arrays behind pointers

An array is a list and a pointer into it is a position.  Reading or writing at a
position outside the array is a fault.
-/

namespace Fex.Lib

variable {α : Type*} {mem : List α} {p : Nat} {v : α}

/-- A sequence ends if both parts do. -/
theorem bind_eq_ok {α β : Type} {x : Exec α} {f : α → Exec β} {b : β} :
    (x >>= f) = .ok b ↔ ∃ a, x = .ok a ∧ f a = .ok b := by
  cases x with
  | error e =>
      constructor
      · intro h
        cases h
      · rintro ⟨a, ha, -⟩
        cases ha
  | ok a =>
      constructor
      · exact fun h => ⟨a, rfl, h⟩
      · rintro ⟨a', ha, hf⟩
        cases ha
        exact hf

def load (mem : List α) (p : Nat) : Exec α :=
  match mem[p]? with
  | some v => .ok v
  | none => .error .outOfBounds

def store (mem : List α) (p : Nat) (v : α) : Exec (List α) :=
  if p < mem.length then .ok (mem.set p v) else .error .outOfBounds

theorem load_eq (h : mem[p]? = some v) : load mem p = .ok v := by
  unfold load
  rw [h]

theorem store_eq (h : p < mem.length) (v : α) : store mem p v = .ok (mem.set p v) := if_pos h

theorem getElem?_of_load (h : load mem p = .ok v) : mem[p]? = some v := by
  unfold load at h
  split at h
  next w hw => rw [hw, Except.ok.inj h]
  · cases h

theorem eq_set_of_store {mem' : List α} (h : store mem p v = .ok mem') :
    p < mem.length ∧ mem' = mem.set p v := by
  unfold store at h
  split at h
  next hlt => exact ⟨hlt, (Except.ok.inj h).symm⟩
  · cases h

/-- A pointer behind `pre` reads the element that follows. -/
@[simp] theorem load_append (pre : List α) (v : α) (post : List α) :
    load (pre ++ v :: post) pre.length = .ok v := by
  apply load_eq
  rw [List.getElem?_append_right (Nat.le_refl _), Nat.sub_self, List.getElem?_cons_zero]

@[simp] theorem store_append (pre : List α) (v : α) (post : List α) (w : α) :
    store (pre ++ v :: post) pre.length w = .ok (pre ++ w :: post) := by
  rw [store_eq (by rw [List.length_append, List.length_cons]; omega),
    List.set_append_right _ _ (Nat.le_refl _), Nat.sub_self]
  rfl

/-- An access with a signed index. -/
def loadInt (mem : List α) (i : Int) : Exec α :=
  if i < 0 then .error .outOfBounds else load mem i.toNat

theorem loadInt_eq {i : Int} (hi : 0 ≤ i) (h : mem[i.toNat]? = some v) : loadInt mem i = .ok v := by
  rw [loadInt, if_neg (by omega), load_eq h]

@[simp] theorem load_append_add (pre mem : List α) (k : Nat) :
    load (pre ++ mem) (pre.length + k) = load mem k := by
  unfold load
  rw [List.getElem?_append_right (Nat.le_add_right ..), Nat.add_sub_cancel_left]

/-- The block of `n` elements at a position. -/
def loadBlock (mem : List α) (p n : Nat) : Exec (List α) :=
  if p + n ≤ mem.length then .ok ((mem.drop p).take n) else .error .outOfBounds

@[simp] theorem loadBlock_append_add (pre mem : List α) (k n : Nat) :
    loadBlock (pre ++ mem) (pre.length + k) n = loadBlock mem k n := by
  unfold loadBlock
  rw [List.length_append, Nat.add_assoc, List.drop_length_add_append]
  exact if_congr (Nat.add_le_add_iff_left ..) rfl rfl

theorem loadBlock_append (bytes post : List α) :
    loadBlock (bytes ++ post) 0 bytes.length = .ok bytes := by
  unfold loadBlock
  rw [if_pos (by rw [List.length_append]; omega), List.drop_zero, List.take_left]

/-- A block is copied to a position. -/
def mem_copy (mem : List α) (p : Nat) (bytes : List α) : Exec (List α) :=
  if p + bytes.length ≤ mem.length then
    .ok (mem.take p ++ (bytes ++ mem.drop (p + bytes.length)))
  else .error .outOfBounds

/-- A block that fits behind `pre` replaces what was there. -/
theorem mem_copy_append (pre : List α) {post bytes : List α}
    (h : bytes.length ≤ post.length) :
    mem_copy (pre ++ post) pre.length bytes =
      .ok (pre ++ (bytes ++ post.drop bytes.length)) := by
  unfold mem_copy
  rw [if_pos (by rw [List.length_append]; omega), List.take_left, List.drop_append]
  rw [List.drop_eq_nil_of_le (Nat.le_add_right _ _), Nat.add_sub_cancel_left]
  rfl

/-- A block is moved, also onto a part of itself. -/
def mem_move (mem : List α) (dst src n : Nat) : Exec (List α) :=
  if n = 0 then .ok mem
  else if src + n ≤ mem.length ∧ dst + n ≤ mem.length then
    .ok (mem.take dst ++ ((mem.drop src).take n ++ mem.drop (dst + n)))
  else .error .outOfBounds

theorem mem_move_eq {dst src n : Nat} (hsrc : src + n ≤ mem.length) (hdst : dst + n ≤ mem.length) :
    mem_move mem dst src n =
      .ok (mem.take dst ++ ((mem.drop src).take n ++ mem.drop (dst + n))) := by
  unfold mem_move
  split
  next hn =>
    rw [hn, List.take_zero, List.nil_append, Nat.add_zero, List.take_append_drop]
  next => exact if_pos ⟨hsrc, hdst⟩

/-- A block that starts behind `gap` is moved to where `gap` starts. -/
theorem mem_move_left (pre gap : List α) {post : List α} {n : Nat} (h : n ≤ post.length) :
    mem_move (pre ++ (gap ++ post)) pre.length (pre.length + gap.length) n =
      .ok (pre ++ (post.take n ++ (gap ++ post).drop n)) := by
  have hsource : (pre ++ (gap ++ post)).drop (pre.length + gap.length) = post := by
    rw [← List.length_append, ← List.append_assoc, List.drop_left]
  rw [mem_move_eq (by simp only [List.length_append]; omega)
    (by simp only [List.length_append]; omega), hsource, List.take_left, List.drop_length_add_append]

/-- A block moves on by `n` and leaves a part of what was there. -/
theorem mem_move_right (pre : List α) {gap block post : List α} {n : Nat}
    (h : n ≤ gap.length + post.length) :
    ∃ between tail, between.length = n ∧
      between.length + tail.length = gap.length + post.length ∧
      mem_move (pre ++ (gap ++ (block ++ post))) (pre.length + n) (pre.length + gap.length)
        block.length = .ok (pre ++ (between ++ (block ++ tail))) := by
  refine ⟨(gap ++ (block ++ post)).take n, (gap ++ (block ++ post)).drop (n + block.length), ?_, ?_, ?_⟩
  · rw [List.length_take, List.length_append, List.length_append]
    omega
  · rw [List.length_take, List.length_drop, List.length_append, List.length_append]
    omega
  · have hsource : (pre ++ (gap ++ (block ++ post))).drop (pre.length + gap.length) =
        block ++ post := by
      rw [← List.length_append, ← List.append_assoc, List.drop_left]
    rw [mem_move_eq (by simp only [List.length_append]; omega)
      (by simp only [List.length_append]; omega), hsource, List.take_left,
      List.take_length_add_append, Nat.add_assoc, List.drop_length_add_append, List.append_assoc]

end Fex.Lib
