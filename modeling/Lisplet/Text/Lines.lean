/-!
# Lines

Lines are read through a buffer of fixed size. A line ends at a newline, and a carriage return
before the newline does not belong to it. A line that does not fit in the buffer comes in pieces.
-/

namespace Lisplet.Text

/-- A line, or a piece of one. -/
structure Line where
  bytes : List UInt8
  /-- Whether the line did not fit, so that this is a piece of it. -/
  isPiece : Bool := false
  deriving DecidableEq, Repr, Inhabited

/-- The size of the buffer. -/
def bufferSize : Nat := 4096

/-- The byte of a newline. -/
def newline : UInt8 := 10

/-- The byte of a carriage return. -/
def carriageReturn : UInt8 := 13

/-- Drop a carriage return at the end. -/
def dropReturn (bs : List UInt8) : List UInt8 :=
  if bs.getLast? = some carriageReturn then bs.dropLast else bs

/-- How many bytes the first piece of a line that fills the buffer has: a carriage return at its
end is left for the next piece. -/
def pieceSize (bs : List UInt8) : Nat :=
  if (bs.take bufferSize).getLast? = some carriageReturn then bufferSize - 1 else bufferSize

theorem pieceSize_pos (bs : List UInt8) : 0 < pieceSize bs := by
  unfold pieceSize bufferSize
  split <;> omega

/-- The first line, and the bytes after it. -/
def firstLine (bs : List UInt8) : Line × List UInt8 :=
  let buffer := bs.take bufferSize
  let line := buffer.takeWhile (· ≠ newline)
  if line.length < buffer.length then ({ bytes := dropReturn line }, bs.drop (line.length + 1))
  else if buffer.length < bufferSize then ({ bytes := bs }, [])
  else ({ bytes := bs.take (pieceSize bs), isPiece := true }, bs.drop (pieceSize bs))

/-- The first line has at least one byte. -/
theorem length_firstLine_lt (b : UInt8) (bs : List UInt8) :
    (firstLine (b :: bs)).2.length < (b :: bs).length := by
  have := pieceSize_pos (b :: bs)
  unfold firstLine
  simp only
  split
  · simp only [List.length_drop, List.length_cons]; omega
  · split
    · simp
    · simp only [List.length_drop, List.length_cons]; omega

/-- All lines. -/
def lines (bs : List UInt8) : List Line :=
  match bs with
  | [] => []
  | b :: rest => (firstLine (b :: rest)).1 :: lines (firstLine (b :: rest)).2
termination_by bs.length
decreasing_by exact length_firstLine_lt b rest

@[simp] theorem lines_nil : lines [] = [] := by rw [lines]

theorem lines_cons (b : UInt8) (bs : List UInt8) :
    lines (b :: bs) = (firstLine (b :: bs)).1 :: lines (firstLine (b :: bs)).2 := by
  rw [lines]

end Lisplet.Text
