import Lisplet.Token.Scan

/-!
# Limits

How much of a source is read: the cap on the scanner's attempts to read characters, and the cap on
the tokens that are made into a tree. A limit that is not positive stands for the usual cap.
-/

namespace Lisplet

/-- The limits of a program. -/
structure Limits where
  tokenizerReads : Int := 0
  parserReads : Int := 0
  deriving DecidableEq, Repr, Inhabited

namespace Limits

/-- Replace each limit that another set of limits states. -/
def override (l other : Limits) : Limits where
  tokenizerReads := if 0 < other.tokenizerReads then other.tokenizerReads else l.tokenizerReads
  parserReads := if 0 < other.parserReads then other.parserReads else l.parserReads

/-- The same limit for scanning and reading. -/
def both (n : Int) : Limits := ⟨n, n⟩

end Limits

end Lisplet
