import Lisplet.Environment
import Lisplet.Value.Comparison

/-!
# Listing the innermost frame
-/

namespace Lisplet.Environment

/-- The names of the innermost frame with their values, sorted by name. -/
def snapshot (e : Environment) : List (String × Value) :=
  e.inner.mergeSort fun a b => !textLess b.1 a.1

/-- The names of the innermost frame, sorted. -/
def keys (e : Environment) : List String := e.snapshot.map Prod.fst

end Lisplet.Environment
