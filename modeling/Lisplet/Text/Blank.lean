/-!
# White space

`isBlank` is the Unicode property White_Space, and `trim` removes it from both ends of a text.
-/

namespace Lisplet.Text

/-- The white space characters of Unicode. -/
def isBlank (c : Char) : Bool :=
  let n := c.toNat
  (0x09 ≤ n && n ≤ 0x0d) || n == 0x20 || n == 0x85 || n == 0xa0 || n == 0x1680 ||
    (0x2000 ≤ n && n ≤ 0x200a) || n == 0x2028 || n == 0x2029 || n == 0x202f || n == 0x205f ||
    n == 0x3000

/-- Drop the white space at both ends of a list of characters. -/
def trimChars (cs : List Char) : List Char :=
  (((cs.dropWhile isBlank).reverse).dropWhile isBlank).reverse

/-- Drop the white space at both ends of a text. -/
def trim (s : String) : String := String.ofList (trimChars s.toList)

/-- A text with nothing but white space in it. -/
def isBlankText (s : String) : Bool := (trim s).isEmpty

end Lisplet.Text
