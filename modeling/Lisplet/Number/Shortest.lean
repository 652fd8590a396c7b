import Lisplet.Number.Decimal

/-!
# The shortest decimal of a double

Among the decimals that read back as a given double, the one with the fewest digits is taken, and
of several with that many digits the nearest. On the grid of decimals with a given last place only
the two neighbours of the double can be that one, so the search tries these two for one digit, two
digits and so on up to seventeen, which always suffice. Should it not end there, the exact value
itself is a decimal.
-/

namespace Lisplet.Decimal

/-- The place of the leading digit of a positive quotient: the greatest `p` with `10 ^ p ≤ num /
den`. It is estimated from the binary logarithms, and the estimate corrected by one. -/
def leadingPlace (num den : Nat) : Int :=
  let estimate := ((Nat.log2 num : Int) - Nat.log2 den) * 30103 / 100000
  let fits (p : Int) : Bool :=
    match p with
    | .ofNat k => den * tenPow k ≤ num
    | .negSucc k => den ≤ num * tenPow (k + 1)
  if fits (estimate + 1) then estimate + 1
  else if fits estimate then estimate
  else estimate - 1

/-- A quotient in units of `10 ^ place`, as numerator and denominator. -/
def inPlace (num den : Nat) (place : Int) : Nat × Nat :=
  match place with
  | .ofNat k => (num, den * tenPow k)
  | .negSucc k => (num * tenPow (k + 1), den)

/-- The nearer one of the two neighbours of a quotient with a given last place that read back as
`bits`, the even one on a tie; none if neither reads back. -/
def neighbour? (bits num den : Nat) (place : Int) : Option Decimal :=
  let (n, d) := inPlace num den place
  let below : Decimal := ⟨n / d, place⟩
  let above : Decimal := ⟨n / d + 1, place⟩
  let preferBelow := 2 * (n % d) < d || (2 * (n % d) == d && n / d % 2 == 0)
  match below.nearestBits == bits, above.nearestBits == bits with
  | true, true => some (if preferBelow then below else above)
  | true, false => some below
  | false, true => some above
  | false, false => none

/-- Search for a decimal that reads back, giving up a place at a time: the last place starts at
`place` and moves down `fuel` times at most. -/
def search (bits num den : Nat) : Nat → Int → Option Decimal
  | 0, _ => none
  | fuel + 1, place =>
    match neighbour? bits num den place with
    | some d => some d
    | none => search bits num den fuel (place - 1)

/-- The exact value of a finite magnitude as a decimal. -/
def exact (bits : Nat) : Decimal :=
  match Binary.unit bits with
  | .ofNat k => ⟨Binary.significand bits * twoPow k, 0⟩
  | .negSucc k => ⟨Binary.significand bits * Nat.pow 5 (k + 1), .negSucc k⟩

/-- The shortest decimal that reads back as a positive finite magnitude. -/
def shortest (bits : Nat) : Decimal :=
  let (num, den) := Binary.quotient bits
  ((search bits num den 17 (leadingPlace num den)).getD (exact bits)).normalize

end Lisplet.Decimal
