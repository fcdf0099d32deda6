import Fex.Base.Truncation
import Fex.Client.QuickActions
import Fex.Engine.Console.Escaped

/-!
# Saved binds

A bind is written as a line with two quoted texts, into a buffer that has no room for the command,
the name and the quotes when all bytes of the bind are escaped.
-/

namespace Fex.Client.SavedBinds

open Fex.Base Fex.Engine Fex.Engine.Server Fex.Engine.Console Fex.Lib
open Fex.Client.QuickActions (Registered clientCommand CFGFLAG_CLIENT)

/-- The line that is written for a bind, `command` is what comes before the name. -/
def bindLine (command : CString) (size : Nat) (m_aName m_aCommand : CString) : CString :=
  let aBuf := str_append [] command size
  -- Escape name
  let aBuf := aBuf ++ str_escape (size - 1 - aBuf.length) m_aName
  let aBuf := str_append aBuf [34, 32, 34] size
  -- Escape command
  let aBuf := aBuf ++ str_escape (size - 1 - aBuf.length) m_aCommand
  str_append aBuf [34] size

/-- The whole line of a bind. -/
def wholeLine (nm m_aName m_aCommand : CString) : CString :=
  nm ++ quotedArgs [escape m_aName, escape m_aCommand]

/-- The line has room for the bind, which is not empty, and a name that ends in a backslash, which
hides its closing quote from the scanner for the parts, hides no separator of the command. -/
structure Kept (nm a b : CString) : Prop where
  nonempty : ¬(a = [] ∧ b = [])
  fits : (wholeLine nm a b).length ≤ 2047
  shown : EndsBackslash a → separators b = 0

variable {nm a b : CString}

end Fex.Client.SavedBinds
