import Fex.Engine.Snapshot

/-!
# Snapshots in memory

Model of the readers of `CSnapshot` on the bytes of a buffer that holds one.  A pointer is a
position in the buffer, and a read that leaves it is a fault.
-/

namespace Fex.Engine.Snapshot.Memory

open Fex.Lib

variable (g_UuidManager : CUuidManager) (mem : List UInt8)

/-- The `int` at a position. -/
def load (p : Int) : Exec Int :=
  if 0 ≤ p ∧ p + 4 ≤ mem.length then .ok (intAt mem p.toNat) else .error .outOfBounds

/-- Bytes from a position on. -/
def loadBytes (p : Int) (n : Nat) : Exec (List UInt8) :=
  if 0 ≤ p ∧ p + n ≤ mem.length then .ok ((mem.drop p.toNat).take n) else .error .outOfBounds

/-- A difference of `int`s. -/
def sub (a b : Int) : Exec Int := if IsInt32 (a - b) then .ok (a - b) else .error .overflow

/-! ## Fields -/

def m_DataSize : Exec Int := load mem 0
def m_NumItems : Exec Int := load mem 4

/-- `Offsets()[Index]` -/
def Offset (Index : Int) : Exec Int := load mem (8 + 4 * Index)

def DataStart : Exec Int := do return 8 + 4 * (← m_NumItems mem)

def GetItem (Index : Int) : Exec Int := do return (← DataStart mem) + (← Offset mem Index)

/-- The size is a `size_t` before it is returned. -/
def GetItemSize (Index : Int) : Exec Int := do
  if Index = (← m_NumItems mem) - 1 then
    return wrap32 ((← sub (← m_DataSize mem) (← Offset mem Index)) - 4)
  else return wrap32 ((← sub (← Offset mem (Index + 1)) (← Offset mem Index)) - 4)

/-! ## Items -/

def Key (pItem : Int) : Exec Int := load mem pItem
def ItemType (pItem : Int) : Exec Int := do return (← load mem pItem) / 65536
def Id (pItem : Int) : Exec Int := do return (← load mem pItem) % 65536

/-- `Data()[i]` -/
def Data (pItem i : Int) : Exec Int := load mem (pItem + 4 + 4 * i)

/-- The loop of `GetItemIndex` with `n` items left; `-1` if there is none. -/
def GetItemIndexLoop (Key : Int) : Nat → Int → Exec Int
  | 0, _ => .ok (-1)
  | n + 1, i => do
      if (← Memory.Key mem (← GetItem mem i)) = Key then return i
      else GetItemIndexLoop Key n (i + 1)

def GetItemIndex (Key : Int) : Exec Int := do
  GetItemIndexLoop mem Key (← m_NumItems mem).toNat 0

def GetExternalItemType (InternalType : Int) : Exec Int := do
  if InternalType < OFFSET_UUID_TYPE then return InternalType
  let TypeItemIndex ← GetItemIndex mem InternalType
  if TypeItemIndex = -1 then return InternalType
  if (← GetItemSize mem TypeItemIndex) < 16 then return InternalType
  let pTypeItem ← GetItem mem TypeItemIndex
  let Bytes := bytesBE [← Data mem pTypeItem 0, ← Data mem pTypeItem 1, ← Data mem pTypeItem 2,
    ← Data mem pTypeItem 3]
  return g_UuidManager.LookupUuid (Vector.ofFn fun i => Bytes.getD i.val 0)

def GetItemType (Index : Int) : Exec Int := do
  GetExternalItemType g_UuidManager mem (← ItemType mem (← GetItem mem Index))

/-- The loop of `FindItem` over the items that describe extended types. -/
def FindTypeLoop (aTypeUuidItem : List UInt8) : Nat → Int → Exec (Option Int)
  | 0, _ => .ok none
  | n + 1, i => do
      let pItem ← GetItem mem i
      if (← ItemType mem pItem) = 0 ∧ (← Id mem pItem) ≥ OFFSET_UUID_TYPE then
        if mem_comp (← loadBytes mem (pItem + 4) 16) aTypeUuidItem = 0 then
          return some (← Id mem pItem)
        else FindTypeLoop aTypeUuidItem n (i + 1)
      else FindTypeLoop aTypeUuidItem n (i + 1)

/-- The pointer to the data, `none` is null. -/
def FindItem (ItemType Id : Int) : Exec (Option Int) := do
  let InternalType ←
    if ItemType ≥ OFFSET_UUID then do
      let TypeUuid ← g_UuidManager.GetUuid ItemType
      FindTypeLoop mem (CSnapshot.uuidData TypeUuid) (← m_NumItems mem).toNat 0
    else pure (some ItemType)
  match InternalType with
  | none => return none
  | some InternalType => do
      let Index ← GetItemIndex mem (makeKey InternalType Id)
      if Index < 0 then return none
      else return some ((← GetItem mem Index) + 4)

/-! ## Checksum and check -/

/-- The data of an item from `b` on, `n` ints of it. -/
def CrcItem (pItem : Int) : Nat → Int → UInt32 → Exec UInt32
  | 0, _, Crc => .ok Crc
  | n + 1, b, Crc => do CrcItem pItem n (b + 1) (Crc + UInt32.ofInt (← Data mem pItem b))

def CrcLoop : Nat → Int → UInt32 → Exec UInt32
  | 0, _, Crc => .ok Crc
  | n + 1, i, Crc => do
      let pItem ← GetItem mem i
      let Size ← GetItemSize mem i
      -- a negative size is a large `size_t`
      CrcLoop n (i + 1) (← CrcItem mem pItem ((Size % 2 ^ 64).toNat / 4) 0 Crc)

def Crc : Exec UInt32 := do CrcLoop mem (← m_NumItems mem).toNat 0 0

def offsetsLoop (DataSize : Int) : Nat → Int → Exec Bool
  | 0, _ => .ok true
  | n + 1, Index => do
      if (← Offset mem Index) < 0 ∨ (← Offset mem Index) > DataSize then return false
      else offsetsLoop DataSize n (Index + 1)

def sizesLoop : Nat → Int → Exec Bool
  | 0, _ => .ok true
  | n + 1, Index => do
      if (← GetItemSize mem Index) < 0 then return false
      else sizesLoop n (Index + 1)

def IsValid (ActualSize : Nat) : Exec Bool := do
  -- validate total size
  if ActualSize < 8 then return false
  let NumItems ← m_NumItems mem
  let DataSize ← m_DataSize mem
  if ActualSize > MAX_SIZE ∨ NumItems < 0 ∨ NumItems > MAX_ITEMS ∨ DataSize < 0 ∨
      (ActualSize : Int) ≠ 8 + 4 * NumItems + DataSize then return false
  -- validate item offsets
  if ¬ (← offsetsLoop mem DataSize NumItems.toNat 0) then return false
  -- validate item sizes
  sizesLoop mem NumItems.toNat 0

/-! ## What a valid snapshot looks like -/

/-- The header and the offsets `o` of a buffer, and their bounds. -/
structure Layout (D : Int) (N : Nat) (o : Nat → Int) : Prop where
  dataSize : m_DataSize mem = .ok D
  numItems : m_NumItems mem = .ok N
  offset : ∀ i < N, Offset mem i = .ok (o i)
  total : (mem.length : Int) = 8 + 4 * N + D
  small : D ≤ MAX_SIZE
  lower : ∀ i < N, 0 ≤ o i
  last : ∀ i, i + 1 = N → o i + 4 ≤ D
  next : ∀ i, i + 1 < N → o i + 4 ≤ o (i + 1)

/-- Where the item behind an item starts, or the data ends. -/
def itemEnd (D : Int) (N : Nat) (o : Nat → Int) (i : Nat) : Int := if i + 1 = N then D else o (i + 1)

section

variable {mem} {D : Int} {N : Nat} {o : Nat → Int}

/-- Offsets increase by the header of the item at least. -/
theorem Layout.mono (h : Layout mem D N o) {i j : Nat} (hij : i < j) (hj : j < N) :
    o i + 4 ≤ o j := by
  induction j with
  | zero => exact absurd hij (Nat.not_lt_zero i)
  | succ j ih =>
      have hnext := h.next j hj
      rcases Nat.lt_or_eq_of_le (Nat.le_of_lt_succ hij) with hlt | rfl
      · have hprev := ih hlt (by omega)
        omega
      · exact hnext

theorem Layout.upper (h : Layout mem D N o) {i : Nat} (hi : i < N) : o i + 4 ≤ D := by
  have hlast := h.last (N - 1) (by omega)
  rcases Nat.lt_or_ge i (N - 1) with hlt | hge
  · have hmono := h.mono hlt (by omega)
    omega
  · rw [show i = N - 1 by omega]
    exact hlast

theorem Layout.itemEnd_bounds (h : Layout mem D N o) {i : Nat} (hi : i < N) :
    o i + 4 ≤ itemEnd D N o i ∧ itemEnd D N o i ≤ D := by
  unfold itemEnd
  by_cases hlast : i + 1 = N
  · rw [if_pos hlast]
    exact ⟨h.last i hlast, Int.le_refl D⟩
  · have hupper := h.upper (show i + 1 < N by omega)
    rw [if_neg hlast]
    exact ⟨h.next i (by omega), by omega⟩

/-! ## Reads of a valid snapshot -/

/-- The computation ends without a fault. -/
def NoFault {α : Type} (m : Exec α) : Prop := ∃ r, m = .ok r

theorem NoFault.bind {α β : Type} {m : Exec α} {f : α → Exec β} (hm : NoFault m)
    (hf : ∀ r, m = .ok r → NoFault (f r)) : NoFault (m >>= f) := by
  obtain ⟨r, hr⟩ := hm
  have hnext := hf r hr
  rw [hr]
  exact hnext

theorem load_eq {p : Int} (hp : 0 ≤ p) (hend : p + 4 ≤ mem.length) :
    load mem p = .ok (intAt mem p.toNat) := if_pos ⟨hp, hend⟩

theorem sub_eq {a b : Int} (ha : 0 ≤ a ∧ a ≤ MAX_SIZE) (hb : 0 ≤ b ∧ b ≤ MAX_SIZE) :
    sub a b = .ok (a - b) := by
  apply if_pos
  unfold MAX_SIZE MAX_PARTS at ha hb
  unfold IsInt32
  omega

theorem Layout.dataStart (h : Layout mem D N o) : DataStart mem = .ok (8 + 4 * N) := by
  unfold DataStart
  rw [h.numItems]
  rfl

theorem Layout.getItem (h : Layout mem D N o) {i : Nat} (hi : i < N) :
    GetItem mem i = .ok (8 + 4 * N + o i) := by
  unfold GetItem
  rw [h.dataStart, h.offset i hi]
  rfl

theorem Layout.getItemSize (h : Layout mem D N o) {i : Nat} (hi : i < N) :
    GetItemSize mem i = .ok (itemEnd D N o i - o i - 4) := by
  obtain ⟨hlower, hupper⟩ := h.itemEnd_bounds hi
  have hsmall := h.small
  have hpos := h.lower i hi
  have hsub : sub (itemEnd D N o i) (o i) = .ok (itemEnd D N o i - o i) :=
    sub_eq ⟨by omega, by omega⟩ ⟨hpos, by omega⟩
  have hwrap : wrap32 (itemEnd D N o i - o i - 4) = itemEnd D N o i - o i - 4 := by
    unfold MAX_SIZE MAX_PARTS at hsmall
    unfold wrap32
    omega
  unfold GetItemSize
  rw [h.numItems]
  simp only [bind, Except.bind, h.dataSize, h.offset i hi]
  by_cases hlast : i + 1 = N
  · have hend : itemEnd D N o i = D := if_pos hlast
    rw [hend] at hsub hwrap ⊢
    rw [if_pos (by omega), hsub]
    exact congrArg Except.ok hwrap
  · have hend : itemEnd D N o i = o (i + 1) := if_neg hlast
    have hnext := h.offset (i + 1) (by omega)
    rw [Int.natCast_add, Int.natCast_one] at hnext
    rw [hend] at hsub hwrap ⊢
    rw [if_neg (by omega), hnext]
    simp only [hsub]
    exact congrArg Except.ok hwrap

/-- An `int` of an item is read. -/
theorem Layout.load_item (h : Layout mem D N o) {i : Nat} (hi : i < N) {k : Int} (hk : 0 ≤ k)
    (hend : o i + k + 4 ≤ D) : NoFault (load mem (8 + 4 * N + o i + k)) := by
  have htotal := h.total
  have hpos := h.lower i hi
  exact ⟨_, load_eq (by omega) (by omega)⟩

theorem Layout.load_header (h : Layout mem D N o) {i : Nat} (hi : i < N) :
    NoFault (load mem (8 + 4 * N + o i)) := by
  have hupper := h.upper hi
  have hload := h.load_item hi (Int.le_refl 0) (by omega)
  rw [Int.add_zero] at hload
  exact hload

/-- The index of an item, or `-1`. -/
theorem Layout.getItemIndexLoop (h : Layout mem D N o) (Key : Int) {n i : Nat} (hn : i + n = N) :
    ∃ r, GetItemIndexLoop mem Key n i = .ok r ∧ (r = -1 ∨ ∃ k < N, r = (k : Nat)) := by
  induction n generalizing i with
  | zero => exact ⟨-1, rfl, .inl rfl⟩
  | succ n ih =>
      have hi : i < N := by omega
      obtain ⟨key, hkey⟩ := h.load_header hi
      obtain ⟨r, hrest, hr⟩ := ih (i := i + 1) (by omega)
      unfold GetItemIndexLoop Memory.Key
      rw [h.getItem hi]
      simp only [bind, Except.bind, hkey]
      by_cases heq : key = Key
      · rw [if_pos heq]
        exact ⟨i, rfl, .inr ⟨i, hi, rfl⟩⟩
      · rw [if_neg heq]
        rw [Int.natCast_add, Int.natCast_one] at hrest
        exact ⟨r, hrest, hr⟩

theorem Layout.getItemIndex (h : Layout mem D N o) (Key : Int) :
    ∃ r, GetItemIndex mem Key = .ok r ∧ (r = -1 ∨ ∃ k < N, r = (k : Nat)) := by
  unfold GetItemIndex
  rw [h.numItems]
  exact h.getItemIndexLoop Key (Nat.zero_add N)

theorem Layout.getExternalItemType (h : Layout mem D N o) (InternalType : Int) :
    NoFault (GetExternalItemType g_UuidManager mem InternalType) := by
  unfold GetExternalItemType
  by_cases hsmall : InternalType < OFFSET_UUID_TYPE
  · rw [if_pos hsmall]
    exact ⟨_, rfl⟩
  rw [if_neg hsmall]
  obtain ⟨r, hindex, hr⟩ := h.getItemIndex InternalType
  simp only [bind, Except.bind, hindex]
  by_cases hnone : r = -1
  · rw [if_pos hnone]
    exact ⟨_, rfl⟩
  obtain ⟨k, hk, rfl⟩ := hr.resolve_left hnone
  rw [if_neg hnone]
  simp only [h.getItemSize hk]
  by_cases hshort : itemEnd D N o k - o k - 4 < 16
  · rw [if_pos hshort]
    exact ⟨_, rfl⟩
  rw [if_neg hshort]
  obtain ⟨-, hupper⟩ := h.itemEnd_bounds hk
  have hdata : ∀ i : Int, 0 ≤ i → i < 4 → NoFault (Data mem (8 + 4 * N + o k) i) := by
    intro i hlo hhi
    have hload := h.load_item hk (k := 4 + 4 * i) (by omega) (by omega)
    rw [← Int.add_assoc] at hload
    exact hload
  obtain ⟨_, h₀⟩ := hdata 0 (by decide) (by decide)
  obtain ⟨_, h₁⟩ := hdata 1 (by decide) (by decide)
  obtain ⟨_, h₂⟩ := hdata 2 (by decide) (by decide)
  obtain ⟨_, h₃⟩ := hdata 3 (by decide) (by decide)
  simp only [h.getItem hk, h₀, h₁, h₂, h₃]
  exact ⟨_, rfl⟩

theorem Layout.getItemType (h : Layout mem D N o) {i : Nat} (hi : i < N) :
    NoFault (GetItemType g_UuidManager mem i) := by
  obtain ⟨key, hkey⟩ := h.load_header hi
  unfold GetItemType ItemType
  rw [h.getItem hi]
  simp only [bind, Except.bind, hkey]
  exact h.getExternalItemType g_UuidManager _

theorem Layout.crcItem (h : Layout mem D N o) {i : Nat} (hi : i < N) {n : Nat} {b : Int}
    (hb : 0 ≤ b) (hn : o i + 4 + 4 * (b + n) ≤ D) (Crc : UInt32) :
    NoFault (CrcItem mem (8 + 4 * N + o i) n b Crc) := by
  induction n generalizing b Crc with
  | zero => exact ⟨Crc, rfl⟩
  | succ n ih =>
      rw [Int.natCast_add, Int.natCast_one] at hn
      have hdata : NoFault (Data mem (8 + 4 * N + o i) b) := by
        have hload := h.load_item hi (k := 4 + 4 * b) (by omega) (by omega)
        rw [← Int.add_assoc] at hload
        exact hload
      exact hdata.bind fun x _ => ih (by omega) (by omega) _

theorem Layout.crcLoop (h : Layout mem D N o) {n i : Nat} (hn : i + n = N) (Crc : UInt32) :
    NoFault (CrcLoop mem n i Crc) := by
  induction n generalizing i Crc with
  | zero => exact ⟨Crc, rfl⟩
  | succ n ih =>
      have hi : i < N := by omega
      obtain ⟨hlower, hupper⟩ := h.itemEnd_bounds hi
      have hsmall := h.small
      have hpos := h.lower i hi
      have hmod : (itemEnd D N o i - o i - 4) % 2 ^ 64 = itemEnd D N o i - o i - 4 := by
        unfold MAX_SIZE MAX_PARTS at hsmall
        omega
      obtain ⟨c, hitem⟩ := h.crcItem hi (n := (itemEnd D N o i - o i - 4).toNat / 4)
        (Int.le_refl 0) (by omega) Crc
      have hrest := ih (i := i + 1) (by omega) c
      rw [Int.natCast_add, Int.natCast_one] at hrest
      unfold CrcLoop
      rw [h.getItem hi]
      simp only [bind, Except.bind, h.getItemSize hi, hmod, hitem]
      exact hrest

theorem Layout.crc (h : Layout mem D N o) : NoFault (Crc mem) := by
  unfold Crc
  rw [h.numItems]
  exact h.crcLoop (Nat.zero_add N) 0

/-! ## The search for an extended type -/

end

/-- The header of an item, by the numbers in the buffer. -/
def itemPos (Index : Nat) : Nat := (8 + 4 * intAt mem 4 + intAt mem (8 + 4 * Index)).toNat

/-- The item describes an extended type. -/
def DescribesType (Index : Nat) : Prop :=
  intAt mem (itemPos mem Index) / 65536 = 0 ∧ intAt mem (itemPos mem Index) % 65536 ≥ OFFSET_UUID_TYPE

/-- The bytes that are compared with a UUID. -/
def typeData (Index : Nat) : List UInt8 := (mem.drop (itemPos mem Index + 4)).take 16

/-- The search for a UUID from an item on compares bytes of the buffer only: up to the item that
describes the UUID, the items that describe types have the bytes of a UUID before the end of the
buffer. -/
def TypesReadable (Uuid : CUuid) (first : Nat) : Prop :=
  ∀ i, first ≤ i → (i : Int) < intAt mem 4 → DescribesType mem i →
    (∀ j, first ≤ j → j < i → DescribesType mem j →
      mem_comp (typeData mem j) (CSnapshot.uuidData Uuid) ≠ 0) →
    itemPos mem i + 20 ≤ mem.length

section

variable {mem} {D : Int} {N : Nat} {o : Nat → Int}

theorem load_inv {p r : Int} (h : load mem p = .ok r) : r = intAt mem p.toNat := by
  unfold load at h
  split at h
  · exact (Except.ok.inj h).symm
  · cases h

theorem Layout.numItems_eq (h : Layout mem D N o) : intAt mem 4 = N := (load_inv h.numItems).symm

theorem Layout.itemPos_eq (h : Layout mem D N o) {i : Nat} (hi : i < N) :
    (itemPos mem i : Int) = 8 + 4 * N + o i := by
  have hoffset := load_inv (h.offset i hi)
  have hpos := h.lower i hi
  rw [show (8 + 4 * (i : Int)).toNat = 8 + 4 * i by omega] at hoffset
  unfold itemPos
  rw [h.numItems_eq, ← hoffset]
  omega

/-- An item that does not end the search is passed. -/
theorem typesReadable_next {Uuid : CUuid} {i : Nat} (hnot : DescribesType mem i →
      itemPos mem i + 20 ≤ mem.length ∧ mem_comp (typeData mem i) (CSnapshot.uuidData Uuid) ≠ 0) :
    TypesReadable mem Uuid i ↔ TypesReadable mem Uuid (i + 1) := by
  constructor
  · intro h k hk hN hdesc hbefore
    refine h k (by omega) hN hdesc fun j hj hlt hdescj => ?_
    rcases Nat.eq_or_lt_of_le hj with rfl | hlt'
    · exact (hnot hdescj).2
    · exact hbefore j hlt' hlt hdescj
  · intro h k hk hN hdesc hbefore
    rcases Nat.eq_or_lt_of_le hk with rfl | hlt
    · exact (hnot hdesc).1
    · exact h k hlt hN hdesc fun j hj => hbefore j (by omega)

theorem Layout.findTypeLoop (h : Layout mem D N o) (Uuid : CUuid) {n i : Nat} (hn : i + n = N) :
    NoFault (FindTypeLoop mem (CSnapshot.uuidData Uuid) n i) ↔ TypesReadable mem Uuid i := by
  induction n generalizing i with
  | zero =>
      refine iff_of_true ⟨none, rfl⟩ fun k hk hN => ?_
      rw [h.numItems_eq] at hN
      omega
  | succ n ih =>
      have hi : i < N := by omega
      have hpos := h.itemPos_eq hi
      obtain ⟨key, hkey⟩ := h.load_header hi
      have hkeyEq : key = intAt mem (itemPos mem i) := by
        rw [load_inv hkey, ← hpos]
        rfl
      rw [hkeyEq] at hkey
      have hrest := ih (i := i + 1) (by omega)
      rw [Int.natCast_add, Int.natCast_one] at hrest
      unfold FindTypeLoop ItemType Id
      rw [h.getItem hi]
      simp only [bind, Except.bind, pure, Except.pure, hkey]
      by_cases hval : intAt mem (itemPos mem i) / 65536 = 0 ∧
          intAt mem (itemPos mem i) % 65536 ≥ OFFSET_UUID_TYPE
      · have hdesc : DescribesType mem i := hval
        rw [if_pos hval]
        by_cases hroom : itemPos mem i + 20 ≤ mem.length
        · have hbytes : loadBytes mem (8 + 4 * N + o i + 4) 16 = .ok (typeData mem i) := by
            rw [← hpos]
            exact if_pos ⟨by omega, by omega⟩
          simp only [hbytes]
          by_cases heq : mem_comp (typeData mem i) (CSnapshot.uuidData Uuid) = 0
          · rw [if_pos heq]
            refine iff_of_true ⟨_, rfl⟩ fun k hk hN hdesck hbefore => ?_
            rcases Nat.eq_or_lt_of_le hk with rfl | hlt
            · exact hroom
            · exact absurd heq (hbefore i (Nat.le_refl i) hlt hdesc)
          · rw [if_neg heq, hrest]
            exact (typesReadable_next fun _ => ⟨hroom, heq⟩).symm
        · have hbytes : loadBytes mem (8 + 4 * N + o i + 4) 16 = .error .outOfBounds := by
            rw [← hpos]
            exact if_neg fun hc => hroom (by omega)
          simp only [hbytes]
          apply iff_of_false
          · rintro ⟨r, hr⟩
            cases hr
          · intro hread
            apply hroom
            refine hread i (Nat.le_refl i) ?_ hdesc fun j hj hlt => absurd hj (by omega)
            rw [h.numItems_eq]
            omega
      · rw [if_neg hval, hrest]
        exact (typesReadable_next fun hdesc => absurd hdesc hval).symm

theorem Layout.getItemIndex_noFault (h : Layout mem D N o) (Key : Int) :
    NoFault (GetItemIndex mem Key) := by
  obtain ⟨r, hrun, -⟩ := h.getItemIndex Key
  exact ⟨r, hrun⟩

/-- The last part of `FindItem`. -/
theorem Layout.findKey (h : Layout mem D N o) (Key : Int) :
    NoFault (do
      let Index ← GetItemIndex mem Key
      if Index < 0 then return none
      else return some ((← GetItem mem Index) + 4)) := by
  obtain ⟨r, hrun, hr⟩ := h.getItemIndex Key
  simp only [bind, Except.bind, hrun]
  by_cases hnone : r < 0
  · rw [if_pos hnone]
    exact ⟨_, rfl⟩
  · obtain ⟨k, hk, rfl⟩ := hr.resolve_left (by omega)
    rw [if_neg hnone, h.getItem hk]
    exact ⟨_, rfl⟩

theorem Layout.findItem (h : Layout mem D N o) {ItemType : Int}
    (hreg : ItemType ≥ OFFSET_UUID → NoFault (g_UuidManager.GetUuid ItemType)) (Id : Int) :
    NoFault (FindItem g_UuidManager mem ItemType Id) ↔
      ∀ Uuid, ItemType ≥ OFFSET_UUID → g_UuidManager.GetUuid ItemType = .ok Uuid →
        TypesReadable mem Uuid 0 := by
  unfold FindItem
  by_cases hext : ItemType ≥ OFFSET_UUID
  · obtain ⟨Uuid, huuid⟩ := hreg hext
    have hall : (∀ u, ItemType ≥ OFFSET_UUID → g_UuidManager.GetUuid ItemType = .ok u →
        TypesReadable mem u 0) ↔ TypesReadable mem Uuid 0 := by
      constructor
      · exact fun hu => hu Uuid hext huuid
      · intro hread u _ hu
        rw [huuid] at hu
        rw [← Except.ok.inj hu]
        exact hread
    rw [hall, ← h.findTypeLoop Uuid (Nat.zero_add N), if_pos hext]
    simp only [bind, Except.bind, huuid, h.numItems]
    cases hloop : FindTypeLoop mem (CSnapshot.uuidData Uuid) N ((0 : Nat) : Int) with
    | error e =>
        apply iff_of_false
        · rintro ⟨r, hr⟩
          have hfault : FindTypeLoop mem (CSnapshot.uuidData Uuid) (N : Int).toNat 0 = .error e :=
            hloop
          rw [hfault] at hr
          cases hr
        · rintro ⟨r, hr⟩
          cases hr
    | ok r =>
        have hrun : FindTypeLoop mem (CSnapshot.uuidData Uuid) (N : Int).toNat 0 = .ok r := hloop
        rw [hrun]
        apply iff_of_true _ ⟨r, rfl⟩
        cases r with
        | none => exact ⟨_, rfl⟩
        | some InternalType => exact h.findKey _
  · rw [if_neg hext]
    exact iff_of_true (h.findKey _) fun u hc => absurd hc hext

/-! ## The check -/

theorem offsetsLoop_true {DataSize : Int} {n : Nat} {i : Int}
    (h : offsetsLoop mem DataSize n i = .ok true) :
    ∀ k < n, ∃ v, Offset mem (i + k) = .ok v ∧ 0 ≤ v ∧ v ≤ DataSize := by
  induction n generalizing i with
  | zero => exact fun k hk => absurd hk (Nat.not_lt_zero k)
  | succ n ih =>
      unfold offsetsLoop at h
      cases hv : Offset mem i with
      | error e =>
          rw [hv] at h
          cases h
      | ok v =>
          simp only [bind, Except.bind, hv] at h
          by_cases hrange : v < 0 ∨ v > DataSize
          · rw [if_pos hrange] at h
            cases h
          · rw [if_neg hrange] at h
            intro k hk
            cases k with
            | zero => exact ⟨v, by rw [← hv]; simp, by omega, by omega⟩
            | succ k =>
                obtain ⟨w, hw, hbounds⟩ := ih h k (by omega)
                refine ⟨w, ?_, hbounds⟩
                rw [← hw]
                exact congrArg _ (by omega)

theorem sizesLoop_true {n : Nat} {i : Int} (h : sizesLoop mem n i = .ok true) :
    ∀ k < n, ∃ v, GetItemSize mem (i + k) = .ok v ∧ 0 ≤ v := by
  induction n generalizing i with
  | zero => exact fun k hk => absurd hk (Nat.not_lt_zero k)
  | succ n ih =>
      unfold sizesLoop at h
      cases hv : GetItemSize mem i with
      | error e =>
          rw [hv] at h
          cases h
      | ok v =>
          simp only [bind, Except.bind, hv] at h
          by_cases hneg : v < 0
          · rw [if_pos hneg] at h
            cases h
          · rw [if_neg hneg] at h
            intro k hk
            cases k with
            | zero => exact ⟨v, by rw [← hv]; simp, by omega⟩
            | succ k =>
                obtain ⟨w, hw, hbounds⟩ := ih h k (by omega)
                refine ⟨w, ?_, hbounds⟩
                rw [← hw]
                exact congrArg _ (by omega)

/-- The parts of the check. -/
theorem isValid_cases (h : IsValid mem mem.length = .ok true) :
    ∃ D N : Int, m_DataSize mem = .ok D ∧ m_NumItems mem = .ok N ∧ 0 ≤ D ∧ 0 ≤ N ∧
      (mem.length : Int) = 8 + 4 * N + D ∧ mem.length ≤ MAX_SIZE ∧
      offsetsLoop mem D N.toNat 0 = .ok true ∧ sizesLoop mem N.toNat 0 = .ok true := by
  unfold IsValid at h
  by_cases hsmall : mem.length < 8
  · rw [if_pos hsmall] at h
    cases h
  rw [if_neg hsmall] at h
  have hitems : m_NumItems mem = .ok (intAt mem 4) := load_eq (by decide) (by omega)
  have hsize : m_DataSize mem = .ok (intAt mem 0) := load_eq (by decide) (by omega)
  simp only [bind, Except.bind, hitems, hsize] at h
  split at h
  · cases h
  rename_i hrange
  rw [not_or, not_or, not_or, not_or, not_not] at hrange
  obtain ⟨hmax, hitems₀, -, hsize₀, htotal⟩ := hrange
  cases hoffsets : offsetsLoop mem (intAt mem 0) (intAt mem 4).toNat 0 with
  | error e =>
      rw [hoffsets] at h
      cases h
  | ok b =>
      rw [hoffsets] at h
      cases b with
      | false => cases h
      | true => exact ⟨_, _, hsize, hitems, by omega, by omega, htotal, by omega, hoffsets, h⟩

/-- What the check establishes. -/
theorem layout_of_isValid (h : IsValid mem mem.length = .ok true) :
    ∃ D N o, Layout mem D N o := by
  obtain ⟨D, N', hsize, hitems, hD, hN, htotal, hmax, hoffsets, hsizes⟩ := isValid_cases h
  obtain ⟨N, rfl⟩ := Int.eq_ofNat_of_zero_le hN
  have hoffset : ∀ i < N, Offset mem i = .ok (intAt mem (8 + 4 * i)) ∧
      0 ≤ intAt mem (8 + 4 * i) ∧ intAt mem (8 + 4 * i) ≤ D := by
    intro i hi
    obtain ⟨v, hv, hlo, hhi⟩ := offsetsLoop_true hoffsets i hi
    rw [Int.zero_add] at hv
    have hval : v = intAt mem (8 + 4 * i) := load_inv hv
    rw [hval] at hv hlo hhi
    exact ⟨hv, hlo, hhi⟩
  have hmax' : D ≤ MAX_SIZE := by omega
  have hstep : ∀ i < N, ∃ v, GetItemSize mem i = .ok v ∧ 0 ≤ v := by
    intro i hi
    obtain ⟨v, hv, hlo⟩ := sizesLoop_true hsizes i hi
    rw [Int.zero_add] at hv
    exact ⟨v, hv, hlo⟩
  have hsmall {e o : Int} (he : 0 ≤ e ∧ e ≤ D) (ho : 0 ≤ o ∧ o ≤ D) (hpos : 0 ≤ wrap32 (e - o - 4)) :
      o + 4 ≤ e := by
    unfold MAX_SIZE MAX_PARTS at hmax'
    unfold wrap32 at hpos
    omega
  refine ⟨D, N, fun i => intAt mem (8 + 4 * i), hsize, hitems, fun i hi => (hoffset i hi).1, htotal,
    hmax', fun i hi => (hoffset i hi).2.1, fun i hi => ?_, fun i hi => ?_⟩
  · obtain ⟨hload, hbounds⟩ := hoffset i (by omega)
    obtain ⟨v, hv, hlo⟩ := hstep i (by omega)
    have hsub : sub D (intAt mem (8 + 4 * i)) = .ok (D - intAt mem (8 + 4 * i)) :=
      sub_eq ⟨hD, hmax'⟩ ⟨hbounds.1, by omega⟩
    unfold GetItemSize at hv
    simp only [bind, Except.bind, hitems, hsize, hload, hsub] at hv
    rw [if_pos (by omega)] at hv
    rw [← Except.ok.inj hv] at hlo
    exact hsmall ⟨hD, Int.le_refl D⟩ hbounds hlo
  · obtain ⟨hload, hbounds⟩ := hoffset i (by omega)
    obtain ⟨hload', hbounds'⟩ := hoffset (i + 1) hi
    obtain ⟨v, hv, hlo⟩ := hstep i (by omega)
    have hsub : sub (intAt mem (8 + 4 * (i + 1))) (intAt mem (8 + 4 * i)) =
        .ok (intAt mem (8 + 4 * (i + 1)) - intAt mem (8 + 4 * i)) :=
      sub_eq ⟨hbounds'.1, by omega⟩ ⟨hbounds.1, by omega⟩
    rw [Int.natCast_add, Int.natCast_one] at hload'
    unfold GetItemSize at hv
    simp only [bind, Except.bind, hitems, hload, hload', hsub] at hv
    rw [if_neg (by omega)] at hv
    rw [← Except.ok.inj hv] at hlo
    exact hsmall hbounds' hbounds hlo

end

/-! ## Safety -/

/-- The items of a buffer: each one lies behind the offsets and within the buffer, and they follow
each other. -/
def ItemsInside : Prop :=
  ∃ N : Nat, m_NumItems mem = .ok (N : Int) ∧ ∃ pItem Size : Nat → Int,
    (∀ i < N, GetItem mem i = .ok (pItem i) ∧ GetItemSize mem i = .ok (Size i) ∧ 0 ≤ Size i ∧
      8 + 4 * N ≤ pItem i ∧ pItem i + 4 + Size i ≤ mem.length) ∧
    ∀ i j, i < j → j < N → pItem i + 4 + Size i ≤ pItem j

/-- The items are where they should be and the readers do not leave the buffer. -/
def Safe (Key ItemType Id : Int) : Prop :=
  ItemsInside mem ∧ NoFault (GetItemIndex mem Key) ∧
  (∀ N : Nat, m_NumItems mem = .ok (N : Int) → ∀ i < N, NoFault (GetItemType g_UuidManager mem i)) ∧
  NoFault (Crc mem) ∧ NoFault (FindItem g_UuidManager mem ItemType Id)

theorem Layout.itemsInside {D : Int} {N : Nat} {o : Nat → Int} (h : Layout mem D N o) :
    ItemsInside mem := by
  have htotal := h.total
  refine ⟨N, h.numItems, fun i => 8 + 4 * N + o i, fun i => itemEnd D N o i - o i - 4,
    fun i hi => ?_, fun i j hij hj => ?_⟩
  · obtain ⟨hlo, hhi⟩ := h.itemEnd_bounds hi
    have hpos := h.lower i hi
    refine ⟨h.getItem hi, h.getItemSize hi, ?_, ?_, ?_⟩ <;> simp only <;> omega
  · have hend : itemEnd D N o i = o (i + 1) := if_neg (by omega)
    simp only [hend]
    rcases Nat.lt_or_eq_of_le (show i + 1 ≤ j by omega) with hlt | rfl
    · have hmono := h.mono hlt hj
      omega
    · omega

/-- A buffer that passes the check is safe to read exactly if the search for the UUID of the type,
where there is one, compares bytes of the buffer only. -/
theorem safe_of_isValid {mem : List UInt8} (h : IsValid mem mem.length = .ok true) {ItemType : Int}
    (hreg : ItemType ≥ OFFSET_UUID → NoFault (g_UuidManager.GetUuid ItemType)) (Key Id : Int) :
    Safe g_UuidManager mem Key ItemType Id ↔
      ∀ Uuid, ItemType ≥ OFFSET_UUID → g_UuidManager.GetUuid ItemType = .ok Uuid →
        TypesReadable mem Uuid 0 := by
  obtain ⟨D, N, o, hlayout⟩ := layout_of_isValid h
  rw [← hlayout.findItem g_UuidManager hreg Id]
  constructor
  · exact fun hsafe => hsafe.2.2.2.2
  · intro hfind
    refine ⟨hlayout.itemsInside, hlayout.getItemIndex_noFault Key, fun n hn i hi => ?_, hlayout.crc,
      hfind⟩
    rw [hlayout.numItems, Except.ok.injEq] at hn
    exact hlayout.getItemType g_UuidManager (by omega)

/-- A snapshot with one item, of type 0 with the id of an extended type and without data. -/
def bareItem : List UInt8 := [4, 0, 0, 0, 1, 0, 0, 0, 0, 0, 0, 0, 0, 0x40, 0, 0]

/-- A manager with one registered type. -/
def oneType : CUuidManager where
  m_vNames := [.replicate 16 0]
  m_vNamesSorted := [{ m_Uuid := .replicate 16 0, m_Id := 0 }]

theorem safe_of_isValid_bareItem :
    Safe oneType bareItem 0x4000 1 0 ↔
      ∀ Uuid, (1 : Int) ≥ OFFSET_UUID → oneType.GetUuid 1 = .ok Uuid →
        TypesReadable bareItem Uuid 0 :=
  @safe_of_isValid oneType bareItem (by decide) 1 (fun h => absurd h (by decide)) 0x4000 0

/-- The snapshot passes the check, and the search for the registered type reads behind it. -/
theorem findItem_outOfBounds :
    IsValid bareItem bareItem.length = .ok true ∧
      NoFault (oneType.GetUuid OFFSET_UUID) ∧ ¬ Safe oneType bareItem 0 OFFSET_UUID 0 := by
  refine ⟨by decide, ⟨.replicate 16 0, by decide⟩, ?_⟩
  rintro ⟨-, -, -, -, r, hr⟩
  have hfault : FindItem oneType bareItem OFFSET_UUID 0 = .error .outOfBounds := by decide
  rw [hfault] at hr
  cases hr

end Fex.Engine.Snapshot.Memory
