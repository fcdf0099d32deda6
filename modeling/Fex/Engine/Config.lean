import Fex.Engine.Console

/-!
# Config variables

Model of the int and string variables of `CConfigManager` and of the lines that are written for
them.
-/

namespace Fex.Engine.Config

open Fex.Lib Fex.Base Server Console

/-! ## Variables -/

structure SIntConfigVariable where
  m_pScriptName : CString
  m_Flags : Nat
  m_ReadOnly : Bool
  m_pVariable : Int
  m_Default : Int
  m_Min : Int
  m_Max : Int

structure SStringConfigVariable where
  m_pScriptName : CString
  m_Flags : Nat
  m_ReadOnly : Bool
  m_pStr : CString
  m_pDefault : CString
  m_MaxSize : Nat

namespace SIntConfigVariable

/-- `str_format` with `"%s %i"`. -/
def Serialize (v : SIntConfigVariable) (Size : Nat) : CString :=
  str_utf8_fix_truncation
    ((v.m_pScriptName ++ 32 :: formatInt v.m_pVariable).take (Size - 1))

def clamp (v : SIntConfigVariable) (Value : Int) : Int :=
  if v.m_Min ≠ v.m_Max then
    let Value := if Value < v.m_Min then v.m_Min else Value
    if v.m_Max ≠ 0 ∧ Value > v.m_Max then v.m_Max else Value
  else Value

def CommandCallback (v : SIntConfigVariable) : List CString → SIntConfigVariable
  | [] => v
  | arg :: _ =>
      if v.m_ReadOnly then v else { v with m_pVariable := v.clamp (wrap32 (strtol arg).1) }

end SIntConfigVariable

def str_append (dst src : CString) (dst_size : Nat) : CString :=
  str_utf8_fix_truncation ((dst ++ src).take (dst_size - 1))

namespace SStringConfigVariable

/-- `EscapeParam` leaves a byte for the final quote and one for the NUL. -/
def Serialize (v : SStringConfigVariable) (Size : Nat) (pValue : CString) : CString :=
  let pOut := str_copy v.m_pScriptName Size
  let pOut := str_append pOut [32, 34] Size
  let pOut := pOut ++ str_escape (Size - pOut.length - 1 - 1) pValue
  str_append pOut [34] Size

def CommandCallback (v : SStringConfigVariable) : List CString → SStringConfigVariable
  | [] => v
  | arg :: _ => if v.m_ReadOnly then v else { v with m_pStr := str_copy arg v.m_MaxSize }

end SStringConfigVariable

def LINE_SIZE : Nat := 2048

end Fex.Engine.Config
