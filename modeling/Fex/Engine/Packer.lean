import Fex.Base.Utf8
import Fex.Engine.Snapshot
import Mathlib.Data.Nat.Digits.Defs

/-!
# Packing messages

Model of `CVariableInt::Pack`, of `packer.cpp` and of `CMsgPacker`.  A packer is
the bytes it wrote and the size of its buffer.
-/

namespace Fex.Engine.Packer

open Fex.Lib Fex.Base

/-! ## Integers -/

/-- The loop of `Pack`, `byte` is the byte that is written and `i` what is left. -/
def CVariableInt.packLoop (byte i : Nat) : Nat → Option (List UInt8)
  | 0 => if i = 0 then some [.ofNat byte] else none
  | DstSize + 1 =>
      if i = 0 then some [.ofNat byte]
      else (packLoop (i &&& 0x7F) (i >>> 7) DstSize).map fun pDst => .ofNat (byte ||| 0x80) :: pDst

def CVariableInt.Pack (i : Int) : Nat → Option (List UInt8)
  | 0 => none
  | DstSize + 1 =>
      let sign := if i < 0 then 0x40 else 0
      let i := if i < 0 then (-i - 1).toNat else i.toNat
      packLoop (sign ||| (i &&& 0x3F)) (i >>> 6) DstSize

/-! ## Packers -/

structure CAbstractPacker where
  m_BufferSize : Nat
  m_pBuffer : List UInt8
  m_Error : Bool

namespace CAbstractPacker

def Size (p : CAbstractPacker) : Nat := p.m_pBuffer.length

def AddInt (p : CAbstractPacker) (i : Int) : CAbstractPacker :=
  if p.m_Error then p
  else
    match CVariableInt.Pack i (p.m_BufferSize - p.Size) with
    | none => { p with m_Error := true }
    | some pNext => { p with m_pBuffer := p.m_pBuffer ++ pNext }

/-- The loop of `AddString`, `none` is an error. -/
def addCodepoints (BufferSize : Nat) (AllowTruncation : Bool) (pStr : List UInt8) (Limit : Int)
    (pCurrent : List UInt8) : Option (List UInt8) :=
  match pStr with
  | [] => some pCurrent
  | byte :: ptr =>
      let r := str_utf8_decode (byte :: ptr)
      let Codepoint := if r.1 = -1 then 0xfffd else r.1
      let aEncoded := str_utf8_encode Codepoint.toNat
      if Limit < aEncoded.length then if AllowTruncation then some pCurrent else none
      else if pCurrent.length + aEncoded.length + 1 > BufferSize then none
      else addCodepoints BufferSize AllowTruncation r.2 (Limit - aEncoded.length)
        (pCurrent ++ aEncoded)
termination_by pStr.length
decreasing_by exact Nat.lt_succ_of_le (length_str_utf8_decode byte ptr)

/-- The terminating NUL is written without a check of the buffer. -/
def AddString (p : CAbstractPacker) (pStr : List UInt8) (Limit : Int) (AllowTruncation : Bool) :
    Exec CAbstractPacker :=
  if p.m_Error then .ok p
  else
    let Limit := if Limit ≤ 0 then (p.m_BufferSize : Int) else Limit
    match addCodepoints p.m_BufferSize AllowTruncation pStr Limit p.m_pBuffer with
    | none => .ok { p with m_Error := true }
    | some pCurrent =>
        if pCurrent.length < p.m_BufferSize then .ok { p with m_pBuffer := pCurrent ++ [0] }
        else .error .outOfBounds

def AddRaw (p : CAbstractPacker) (pData : List UInt8) : CAbstractPacker :=
  if p.m_Error then p
  else if p.Size + pData.length > p.m_BufferSize then { p with m_Error := true }
  else { p with m_pBuffer := p.m_pBuffer ++ pData }

end CAbstractPacker

def PACKER_BUFFER_SIZE : Nat := 1024 * 2

def CPacker : CAbstractPacker :=
  { m_BufferSize := PACKER_BUFFER_SIZE, m_pBuffer := [], m_Error := false }

structure CMsgPacker where
  m_MsgId : Int
  m_System : Bool
  packer : CAbstractPacker

namespace CMsgPacker

def new (MsgId : Int) (System : Bool) : CMsgPacker :=
  { m_MsgId := MsgId, m_System := System, packer := CPacker }

def AddInt (m : CMsgPacker) (i : Int) : CMsgPacker := { m with packer := m.packer.AddInt i }

def AddString (m : CMsgPacker) (pStr : List UInt8) (Limit : Int) (AllowTruncation : Bool) :
    Exec CMsgPacker := do
  return { m with packer := ← m.packer.AddString pStr Limit AllowTruncation }

def Size (m : CMsgPacker) : Nat := m.packer.Size

def Error (m : CMsgPacker) : Bool := m.packer.m_Error

end CMsgPacker

/-! ## Network messages -/

open Snapshot in
/-- `RepackMsg` for a client of the own protocol, whose ids are not translated. -/
def RepackMsg (g_UuidManager : CUuidManager) (pMsg : CMsgPacker) : Exec CAbstractPacker := do
  let sys : Int := if pMsg.m_System then 1 else 0
  let Packer ←
    if pMsg.m_MsgId < OFFSET_UUID then pure (CPacker.AddInt (pMsg.m_MsgId * 2 + sys))
    else do
      let Uuid ← g_UuidManager.GetUuid pMsg.m_MsgId
      pure ((CPacker.AddInt sys).AddRaw Uuid.toList)
  return Packer.AddRaw pMsg.packer.m_pBuffer

def OFFSET_NETMSG_UUID : Int := Snapshot.OFFSET_UUID
def NETMSG_MAPLIST_ADD : Int := OFFSET_NETMSG_UUID + 18
def NETMSG_MAPLIST_GROUP_START : Int := OFFSET_NETMSG_UUID + 19
def NETMSG_MAPLIST_GROUP_END : Int := OFFSET_NETMSG_UUID + 20

/-! ## What is packed of a string -/

/-- A string as it is packed: what is no UTF-8 is replaced. -/
def packedText (pStr : List UInt8) : List UInt8 :=
  match pStr with
  | [] => []
  | byte :: ptr =>
      let r := str_utf8_decode (byte :: ptr)
      str_utf8_encode (if r.1 = -1 then 0xfffd else r.1).toNat ++ packedText r.2
termination_by pStr.length
decreasing_by exact Nat.lt_succ_of_le (length_str_utf8_decode byte ptr)

@[simp] theorem packedText_nil : packedText [] = [] := by rw [packedText]

theorem packedText_cons (b : UInt8) (s : List UInt8) :
    packedText (b :: s) =
      str_utf8_encode (if (str_utf8_decode (b :: s)).1 = -1 then 0xfffd
        else (str_utf8_decode (b :: s)).1).toNat ++ packedText (str_utf8_decode (b :: s)).2 := by
  rw [packedText]

/-- Strings are packed as they are where they are UTF-8. -/
theorem packedText_eq_self (s : List UInt8) (hnul : 0 ∉ s) :
    packedText s = s ↔ str_utf8_check s = true := by
  induction hn : s.length using Nat.strongRecOn generalizing s with
  | ind n ih =>
      cases s with
      | nil => simp [str_utf8_check]
      | cons b s =>
          have hlength := length_str_utf8_decode b s
          rw [packedText_cons, str_utf8_check]
          rcases str_utf8_decode_spec b s with herr | ⟨chr, hchr, hsplit⟩
          · rw [herr]
            constructor
            · intro heq
              exfalso
              have hread := str_utf8_decode_replacement (packedText (str_utf8_decode (b :: s)).2)
              have hcode : str_utf8_encode (if (-1 : Int) = -1 then (0xfffd : Int) else -1).toNat =
                  str_utf8_encode 0xfffd := rfl
              rw [hcode] at heq
              rw [heq, Prod.ext_iff] at hread
              rw [herr] at hread
              exact absurd hread.1 (by decide : ¬ (-1 : Int) = 0xfffd)
            · intro h
              cases h
          · have hne : ¬ (chr : Int) = -1 := by omega
            have hzero : ¬ (chr : Int) = 0 := by
              intro hz
              apply hnul
              rw [hsplit, show chr = 0 by omega]
              exact List.mem_cons_self
            have hrest : 0 ∉ (str_utf8_decode (b :: s)).2 := by
              intro hmem
              apply hnul
              rw [hsplit]
              exact List.mem_append_right _ hmem
            rw [hchr, if_neg hne, if_neg hzero, if_neg hne, ← ih _ (by
              rw [← hn]
              exact Nat.lt_succ_of_le hlength) _ hrest rfl]
            rw [Int.toNat_natCast]
            constructor
            · intro heq
              exact List.append_cancel_left (heq.trans hsplit)
            · intro heq
              rw [heq, ← hsplit]

/-- Packing makes a string at most four times as long. -/
theorem length_packedText_le (s : List UInt8) : (packedText s).length ≤ 4 * s.length := by
  induction hn : s.length using Nat.strongRecOn generalizing s with
  | ind n ih =>
      cases s with
      | nil => simp
      | cons b s =>
          have hlength := length_str_utf8_decode b s
          have hencode := length_str_utf8_encode (if (str_utf8_decode (b :: s)).1 = -1 then 0xfffd
            else (str_utf8_decode (b :: s)).1).toNat
          rw [List.length_cons] at hn
          have hrest := ih _ (by omega) (str_utf8_decode (b :: s)).2 rfl
          rw [packedText_cons, List.length_append]
          omega

theorem zero_notMem_packedText {s : List UInt8} (h : 0 ∉ s) : 0 ∉ packedText s := by
  induction hn : s.length using Nat.strongRecOn generalizing s with
  | ind n ih =>
      cases s with
      | nil => simp
      | cons b s =>
          have hlength := length_str_utf8_decode b s
          rw [List.length_cons] at hn
          have hrest : 0 ∉ (str_utf8_decode (b :: s)).2 := fun hmem =>
            h (List.mem_cons_of_mem _ ((suffix_str_utf8_decode b s).subset hmem))
          have hcode : (if (str_utf8_decode (b :: s)).1 = -1 then 0xfffd
              else (str_utf8_decode (b :: s)).1).toNat ≠ 0 := by
            rcases str_utf8_decode_spec b s with herr | ⟨chr, hchr, hsplit⟩
            · rw [herr]
              decide
            · rw [hchr, if_neg (by omega), Int.toNat_natCast]
              intro hzero
              rw [hzero] at hsplit
              apply h
              rw [hsplit]
              exact List.mem_cons_self
          rw [packedText_cons, List.mem_append]
          rintro (hmem | hmem)
          · exact zero_notMem_str_utf8_encode hcode hmem
          · exact ih _ (by omega) hrest rfl hmem

theorem packedText_ascii {s : List UInt8} (h : ∀ b ∈ s, b.toNat ≤ 0x7F) : packedText s = s := by
  induction s with
  | nil => rw [packedText_nil]
  | cons b s ih =>
      have hb := h b (by simp)
      have hdecode : str_utf8_decode (b :: s) = ((b.toNat : Int), s) := if_pos hb
      have hencode : str_utf8_encode b.toNat = [b] := by
        unfold str_utf8_encode
        rw [if_pos hb, UInt8.ofNat_toNat]
      rw [packedText_cons, hdecode]
      simp only
      rw [if_neg (by omega), Int.toNat_natCast, hencode, ih fun c hc => h c (by simp [hc])]
      rfl

/-! ## What a packer holds -/

namespace CAbstractPacker

theorem addCodepoints_eq {BufferSize : Nat} (s : List UInt8) {Limit : Int} {pCurrent : List UInt8}
    (hroom : pCurrent.length + Limit + 1 ≤ BufferSize) :
    addCodepoints BufferSize false s Limit pCurrent =
      if (packedText s).length ≤ Limit ∨ s = [] then some (pCurrent ++ packedText s) else none := by
  induction hn : s.length using Nat.strongRecOn generalizing s Limit pCurrent with
  | ind n ih =>
      cases s with
      | nil => simp [addCodepoints]
      | cons b s =>
          have hlength := length_str_utf8_decode b s
          rw [List.length_cons] at hn
          rw [addCodepoints, packedText_cons]
          set encoded := str_utf8_encode (if (str_utf8_decode (b :: s)).1 = -1 then 0xfffd
            else (str_utf8_decode (b :: s)).1).toNat
          set rest := (str_utf8_decode (b :: s)).2
          by_cases hlimit : Limit < encoded.length
          · rw [if_pos hlimit, if_neg (by decide), if_neg]
            rw [List.length_append]
            rintro (h | h)
            · omega
            · cases h
          · rw [if_neg hlimit, if_neg (by omega), ih _ (by omega) rest (by
              rw [List.length_append]
              omega) rfl]
            have hnext : ((packedText rest).length ≤ Limit - encoded.length ∨ rest = []) ↔
                ((encoded ++ packedText rest).length ≤ Limit ∨ b :: s = []) := by
              rw [List.length_append]
              constructor
              · rintro (h | h)
                · exact .inl (by omega)
                · rw [h]
                  exact .inl (by simp; omega)
              · rintro (h | h)
                · exact .inl (by omega)
                · cases h
            rw [List.append_assoc]
            simp only [hnext]

/-- A string is packed whole or the packer is in error. -/
theorem addString_eq (p : CAbstractPacker) (hp : p.m_Error = false) (s : List UInt8) {Limit : Int}
    (hlimit : 0 < Limit) (hroom : p.Size + Limit + 1 ≤ p.m_BufferSize) :
    p.AddString s Limit false =
      .ok (if (packedText s).length ≤ Limit then
        { p with m_pBuffer := p.m_pBuffer ++ (packedText s ++ [0]) }
      else { p with m_Error := true }) := by
  unfold AddString
  unfold Size at hroom
  rw [hp, if_neg (by decide), if_neg (by omega)]
  simp only [addCodepoints_eq s hroom]
  by_cases hfits : (packedText s).length ≤ Limit
  · rw [if_pos (.inl hfits), if_pos hfits]
    simp only
    rw [if_pos (by rw [List.length_append]; omega), List.append_assoc]
  · have hne : s ≠ [] := by
      rintro rfl
      apply hfits
      simp
      omega
    rw [if_neg (by rintro (h | h); exact hfits h; exact hne h), if_neg hfits]

theorem addRaw_eq (p : CAbstractPacker) (hp : p.m_Error = false) (pData : List UInt8)
    (hroom : p.Size + pData.length ≤ p.m_BufferSize) :
    p.AddRaw pData = { p with m_pBuffer := p.m_pBuffer ++ pData } := by
  unfold AddRaw
  rw [hp, if_neg (by decide), if_neg (by omega)]

end CAbstractPacker

end Fex.Engine.Packer

/-!
## Sizes of packed integers

`Compress` packs integers one behind the other.  An integer has a byte for its lowest six bits and
one for each digit to base 128 of what is left, so the size of the output is known beforehand.
-/

namespace Fex.Engine.Packer

open Fex.Lib

/-- `none` is `-1`. -/
def CVariableInt.Compress : List Int → Nat → Option (List UInt8)
  | [], _ => some []
  | i :: pSrc, DstSize =>
      match CVariableInt.Pack i DstSize with
      | none => none
      | some pDst => (Compress pSrc (DstSize - pDst.length)).map (pDst ++ ·)

/-- The bytes of a packed integer. -/
def packedLength (i : Int) : Nat :=
  1 + (Nat.digits 128 ((if i < 0 then (-i - 1).toNat else i.toNat) / 64)).length

def packedSize (is : List Int) : Nat := (is.map packedLength).sum

/-- The loop writes a byte for each digit and the last one, as far as there is room. -/
theorem packLoop_spec (byte i DstSize : Nat) :
    ((Nat.digits 128 i).length ≤ DstSize ∧ ∃ pDst, CVariableInt.packLoop byte i DstSize = some pDst ∧
        pDst.length = 1 + (Nat.digits 128 i).length) ∨
      (DstSize < (Nat.digits 128 i).length ∧ CVariableInt.packLoop byte i DstSize = none) := by
  induction DstSize generalizing byte i with
  | zero =>
      unfold CVariableInt.packLoop
      by_cases hi : i = 0
      · rw [hi, if_pos rfl, Nat.digits_zero]
        exact .inl ⟨Nat.le_refl 0, _, rfl, rfl⟩
      · rw [if_neg hi, Nat.digits_def' (by decide) (Nat.pos_of_ne_zero hi)]
        exact .inr ⟨Nat.succ_pos _, rfl⟩
  | succ DstSize ih =>
      unfold CVariableInt.packLoop
      by_cases hi : i = 0
      · rw [hi, if_pos rfl, Nat.digits_zero]
        exact .inl ⟨Nat.zero_le _, _, rfl, rfl⟩
      · have hshift : i >>> 7 = i / 128 := Nat.shiftRight_eq_div_pow i 7
        rw [if_neg hi, Nat.digits_def' (by decide) (Nat.pos_of_ne_zero hi), List.length_cons, hshift]
        rcases ih (i &&& 0x7F) (i / 128) with ⟨hle, pDst, hrun, hlength⟩ | ⟨hlt, hrun⟩
        · left
          refine ⟨Nat.succ_le_succ hle, _, by rw [hrun]; rfl, ?_⟩
          rw [List.length_cons, hlength]
          omega
        · right
          refine ⟨Nat.succ_lt_succ hlt, by rw [hrun]; rfl⟩

theorem pack_spec (i : Int) (DstSize : Nat) :
    (packedLength i ≤ DstSize ∧ ∃ pDst, CVariableInt.Pack i DstSize = some pDst ∧
        pDst.length = packedLength i) ∨
      (DstSize < packedLength i ∧ CVariableInt.Pack i DstSize = none) := by
  unfold packedLength
  cases DstSize with
  | zero => exact .inr ⟨by omega, rfl⟩
  | succ DstSize =>
      have hshift : ∀ n : Nat, n >>> 6 = n / 64 := fun n => Nat.shiftRight_eq_div_pow n 6
      unfold CVariableInt.Pack
      simp only [hshift]
      rcases packLoop_spec ((if i < 0 then 0x40 else 0) |||
        ((if i < 0 then (-i - 1).toNat else i.toNat) &&& 0x3F))
        ((if i < 0 then (-i - 1).toNat else i.toNat) / 64) DstSize with ⟨hle, hrun⟩ | ⟨hlt, hrun⟩
      · exact .inl ⟨by omega, hrun⟩
      · exact .inr ⟨by omega, hrun⟩

/-- `Compress` succeeds exactly where there is room for all bytes. -/
theorem compress_spec (is : List Int) (DstSize : Nat) :
    (packedSize is ≤ DstSize ∧ ∃ pDst, CVariableInt.Compress is DstSize = some pDst ∧
        pDst.length = packedSize is) ∨
      (DstSize < packedSize is ∧ CVariableInt.Compress is DstSize = none) := by
  induction is generalizing DstSize with
  | nil => exact .inl ⟨Nat.zero_le _, [], rfl, rfl⟩
  | cons i is ih =>
      have hcons : packedSize (i :: is) = packedLength i + packedSize is := rfl
      unfold CVariableInt.Compress
      rw [hcons]
      rcases pack_spec i DstSize with ⟨hle, pDst, hpack, hlength⟩ | ⟨hlt, hpack⟩
      · rw [hpack]
        simp only
        rcases ih (DstSize - pDst.length) with ⟨hrest, pRest, hrun, hsize⟩ | ⟨hrest, hrun⟩
        · left
          refine ⟨by omega, pDst ++ pRest, by rw [hrun]; rfl, ?_⟩
          rw [List.length_append, hlength, hsize]
        · right
          exact ⟨by omega, by rw [hrun]; rfl⟩
      · right
        rw [hpack]
        exact ⟨by omega, rfl⟩

end Fex.Engine.Packer
