import Fex.Engine.Packer

/-!
# Unpacking messages

Model of `CVariableInt::Unpack` and of `CUnpacker`.  An unpacker is the bytes
from `m_pCurrent` to `m_pEnd`; strings are read without sanitizing.
-/

namespace Fex.Engine.Packer

open Fex.Lib Fex.Base

/-- The loop of `Unpack` over the masks and shifts, `pSrc` is behind the byte read last. -/
def CVariableInt.unpackLoop : List (Nat × Nat) → UInt8 → Nat → List UInt8 →
    Option (Nat × List UInt8)
  | [], _, pInOut, pSrc => some (pInOut, pSrc)
  | (mask, shift) :: masks, byte, pInOut, pSrc =>
      if byte &&& 0x80 = 0 then some (pInOut, pSrc)
      else
        match pSrc with
        | [] => none
        | byte :: pSrc => unpackLoop masks byte (pInOut ||| (byte.toNat &&& mask) <<< shift) pSrc

/-- `s_aMasks` and `s_aShifts` -/
def CVariableInt.masks : List (Nat × Nat) :=
  [(0x7F, 6), (0x7F, 6 + 7), (0x7F, 6 + 7 + 7), (0x0F, 6 + 7 + 7 + 7)]

def CVariableInt.Unpack : List UInt8 → Option (Int × List UInt8)
  | [] => none
  | byte :: pSrc =>
      (unpackLoop masks byte (byte.toNat &&& 0x3F) pSrc).map fun r =>
        -- if(sign) *i = ~(*i)
        (if (byte.toNat >>> 6) &&& 1 = 1 then -(r.1 : Int) - 1 else r.1, r.2)

structure CUnpacker where
  m_pCurrent : List UInt8
  m_Error : Bool

namespace CUnpacker

def Reset (pData : List UInt8) : CUnpacker := { m_pCurrent := pData, m_Error := false }

def GetInt (u : CUnpacker) : Int × CUnpacker :=
  if u.m_Error then (0, u)
  else
    match CVariableInt.Unpack u.m_pCurrent with
    | none => (0, { u with m_Error := true })
    | some (i, pNext) => (i, { u with m_pCurrent := pNext })

def GetString (u : CUnpacker) : List UInt8 × CUnpacker :=
  if u.m_Error then ([], u)
  else if u.m_pCurrent = [] then ([], { u with m_Error := true })
  else
    -- skip the string
    let pPtr := u.m_pCurrent.takeWhile fun c => c ≠ 0
    match u.m_pCurrent.dropWhile fun c => c ≠ 0 with
    | [] => ([], { m_pCurrent := [], m_Error := true })
    | _ :: pNext =>
        if str_utf8_check pPtr then (pPtr, { u with m_pCurrent := pNext })
        else ([], { m_pCurrent := pNext, m_Error := true })

def GetRaw (u : CUnpacker) (Size : Int) : Option (List UInt8) × CUnpacker :=
  if u.m_Error then (none, u)
  -- check for nasty sizes
  else if Size < 0 ∨ u.m_pCurrent.length < Size then (none, { u with m_Error := true })
  else
    (some (u.m_pCurrent.take Size.toNat), { u with m_pCurrent := u.m_pCurrent.drop Size.toNat })

end CUnpacker

end Fex.Engine.Packer
