import Fex.Base.Characters
import Fex.Engine.Console.Saved

/-!
# Escaped texts

What escaping a text keeps, and when it fits a buffer.
-/

namespace Fex.Engine.Console

open Fex.Lib Fex.Base Server

end Fex.Engine.Console
