/-!
# UTF-8 with replacement

`decode` reads any sequence of bytes as text. A byte that starts no well-formed character stands
for U+FFFD, and reading goes on with the next byte. Overlong forms, surrogates and code points
above U+10FFFF are not well-formed.
-/

namespace Lisplet.Text

/-- The character that stands for a byte outside every well-formed character. -/
def replacement : Char := '�'

/-- Whether a byte continues a character. -/
def isTail (b : UInt8) : Bool := 0x80 ≤ b && b ≤ 0xbf

/-- The six payload bits of a continuing byte. -/
def tailBits (b : UInt8) : Nat := b.toNat % 0x40

/-- Whether `b` may follow the leading byte `a` of a character of three or four bytes. The bounds
keep out overlong forms, surrogates and code points that are too large. -/
def isSecond (a b : UInt8) : Bool :=
  if a == 0xe0 then 0xa0 ≤ b && b ≤ 0xbf
  else if a == 0xed then 0x80 ≤ b && b ≤ 0x9f
  else if a == 0xf0 then 0x90 ≤ b && b ≤ 0xbf
  else if a == 0xf4 then 0x80 ≤ b && b ≤ 0x8f
  else isTail b

/-- The text of a sequence of bytes. -/
def decode : List UInt8 → List Char
  | [] => []
  | a :: rest =>
    if a < 0x80 then Char.ofNat a.toNat :: decode rest
    else if 0xc2 ≤ a && a ≤ 0xdf then
      match rest with
      | b :: tail =>
        if isTail b then Char.ofNat (a.toNat % 0x20 * 0x40 + tailBits b) :: decode tail
        else replacement :: decode (b :: tail)
      | [] => [replacement]
    else if 0xe0 ≤ a && a ≤ 0xef then
      match rest with
      | b :: c :: tail =>
        if isSecond a b && isTail c then
          Char.ofNat ((a.toNat % 0x10 * 0x40 + tailBits b) * 0x40 + tailBits c) :: decode tail
        else replacement :: decode (b :: c :: tail)
      | rest => replacement :: decode rest
    else if 0xf0 ≤ a && a ≤ 0xf4 then
      match rest with
      | b :: c :: d :: tail =>
        if isSecond a b && isTail c && isTail d then
          Char.ofNat (((a.toNat % 0x08 * 0x40 + tailBits b) * 0x40 + tailBits c) * 0x40 +
            tailBits d) :: decode tail
        else replacement :: decode (b :: c :: d :: tail)
      | rest => replacement :: decode rest
    else replacement :: decode rest
termination_by bytes => bytes.length
decreasing_by all_goals grind

/-- The bytes of a text. -/
def bytes (s : String) : List UInt8 := s.toUTF8.toList

/-- The text of the first `n` bytes of a text, a character cut in two replaced byte by byte. -/
def takeBytes (n : Nat) (s : String) : String := String.ofList (decode ((bytes s).take n))

end Lisplet.Text
