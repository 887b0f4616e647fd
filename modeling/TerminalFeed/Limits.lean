/-!
How much the decoder keeps before it gives a stream up.
-/

namespace TerminalFeed

structure Limits where
  envelope : Nat
  output : Nat
  deriving DecidableEq, Repr

def Limits.standard : Limits := ⟨1048576, 16777216⟩

end TerminalFeed
