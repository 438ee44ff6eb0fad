import Purr.Line
import Purr.Statement

/-!
# Functions

A function keeps its body as lines of code; they are read anew by every call.
-/

namespace Purr

set_option autoImplicit false

structure Function where
  header : Header
  body : List Line
  line : Nat
deriving DecidableEq

end Purr
