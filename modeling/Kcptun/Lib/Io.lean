/- Kcptun/Lib/Io
   digest: What polls and fallible calls on a connection return. -/

import Mathlib.Tactic.TypeStar

set_option autoImplicit false
set_option relaxedAutoImplicit false

namespace Kcptun.Lib

inductive Poll (α : Type*) where
  | pending
  | ready (x : α)
deriving DecidableEq, Repr

/-- The kinds of error that are made here, and one for what only a connection fails with. -/
inductive ErrorKind where
  | invalidInput
  | invalidData
  | unexpectedEof
  | writeZero
  | timedOut
  | other
  | connection
deriving DecidableEq, Repr

/-- An error made here, or one of the connection. -/
inductive IoError (ε : Type*) where
  | new (kind : ErrorKind) (msg : String)
  | conn (e : ε)
deriving DecidableEq, Repr

end Kcptun.Lib
