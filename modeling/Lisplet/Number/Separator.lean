/-!
# Digit separators

A numeral may have underscores between its digits. An underscore stands directly between two
digits, the prefix of a base counting as a digit before it.
-/

namespace Lisplet.Numeral

/-- The last thing seen in a numeral whose separators are checked. -/
inductive Seen where
  | digit
  | separator
  | neither
  deriving DecidableEq, Repr

/-- Whether a character is a hexadecimal digit. -/
def isHexDigit (c : Char) : Bool :=
  c.isDigit || ('a' ≤ c && c ≤ 'f') || ('A' ≤ c && c ≤ 'F')

/-- Drop the sign of a numeral. -/
def dropSign : List Char → List Char
  | '+' :: cs => cs
  | '-' :: cs => cs
  | cs => cs

/-- Check the separators in the rest of a numeral. -/
def separatedFrom (hex : Bool) : Seen → List Char → Bool
  | seen, [] => seen ≠ .separator
  | seen, c :: cs =>
    if c.isDigit || (hex && isHexDigit c) then separatedFrom hex .digit cs
    else if c = '_' then seen == .digit && separatedFrom hex .separator cs
    else seen ≠ .separator && separatedFrom hex .neither cs

/-- Whether every underscore of a numeral stands between digits. -/
def separated (text : List Char) : Bool :=
  match dropSign text with
  | '0' :: b :: cs =>
    if b = 'x' || b = 'X' then separatedFrom true .digit cs
    else if b = 'o' || b = 'O' || b = 'b' || b = 'B' then separatedFrom false .digit cs
    else separatedFrom false .neither ('0' :: b :: cs)
  | cs => separatedFrom false .neither cs

/-- A numeral without its underscores. -/
def dropSeparators (cs : List Char) : List Char := cs.filter (· ≠ '_')

end Lisplet.Numeral
