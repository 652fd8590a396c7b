import Lisplet.Number.Numeral

/-!
# Integers within a word

Reading integers that have to fit in sixty-four bits. A text may be malformed or out of range, and
reading stops at whichever comes first from the left.
-/

namespace Lisplet

/-- Why a text is no integer of a word. -/
inductive IntegerFault where
  | malformed
  | outOfRange
  deriving DecidableEq, Repr

namespace Numeral

/-- The value of a letter or digit as a digit of a base up to 36. -/
def digitOf? (c : Char) : Option Nat :=
  if c.isDigit then some (c.toNat - 0x30)
  else if 'a' ≤ c && c ≤ 'z' then some (c.toNat - 0x57)
  else if 'A' ≤ c && c ≤ 'Z' then some (c.toNat - 0x37)
  else none

/-- The largest unsigned number of a word. -/
def maxUnsigned : Nat := twoPow 64 - 1

/-- Read the digits of a base, `n` being the value of those before them. -/
def digitsFrom (base : Nat) : Nat → List Char → Except IntegerFault Nat
  | n, [] => .ok n
  | n, c :: cs =>
    match digitOf? c with
    | none => .error .malformed
    | some d =>
      if base ≤ d then .error .malformed
      else if maxUnsigned < n * base + d then .error .outOfRange
      else digitsFrom base (n * base + d) cs

/-- Read an unsigned number in a given base. -/
def unsigned (base : Nat) (cs : List Char) : Except IntegerFault Nat :=
  if cs.isEmpty then .error .malformed else digitsFrom base 0 cs

/-- Split the prefix of a base from a numeral: `0b`, `0o`, `0x`, or a leading `0` for base 8. -/
def baseOf : List Char → Nat × List Char
  | '0' :: b :: c :: rest =>
    match b.toLower with
    | 'b' => (2, c :: rest)
    | 'o' => (8, c :: rest)
    | 'x' => (16, c :: rest)
    | _ => (8, b :: c :: rest)
  | '0' :: rest => (8, rest)
  | cs => (10, cs)

/-- Read an unsigned number whose base is told by its prefix. -/
def prefixedUnsigned (cs : List Char) : Except IntegerFault Nat :=
  if cs.isEmpty then .error .malformed
  else
    let (base, digits) := baseOf cs
    match digitsFrom base 0 (dropSeparators digits) with
    | .ok n => if separated cs then .ok n else .error .malformed
    | .error e => .error e

/-- Read a signed number, its digits being read by the given function. -/
def signedBy (digits : List Char → Except IntegerFault Nat) (cs : List Char) :
    Except IntegerFault Int :=
  match digits (dropSign cs) with
  | .error e => .error e
  | .ok n =>
    if cs.head? = some '-' then if n ≤ twoPow 63 then .ok (-n) else .error .outOfRange
    else if n < twoPow 63 then .ok n else .error .outOfRange

/-- Read a signed number in a given base. -/
def signed (base : Nat) (cs : List Char) : Except IntegerFault Int := signedBy (unsigned base) cs

/-- Read a signed number whose base is told by its prefix. -/
def prefixedSigned (cs : List Char) : Except IntegerFault Int := signedBy prefixedUnsigned cs

end Numeral

end Lisplet
