import Lisplet.Text.Lines
import Lisplet.Text.Utf8

/-!
# History

The inputs of past sessions, kept in a file with one line for each. An input that repeats the one
before it is kept once, and only the latest inputs are kept.
-/

namespace Lisplet.History

/-- The name of the file that keeps the history. -/
def fileName : String := ".trivial_history"

/-- How many inputs are kept. -/
def limit : Nat := 1000

/-- Drop the oldest entry if there are too many. -/
def bounded (entries : List String) : List String :=
  if limit < entries.length then entries.drop 1 else entries

/-- Add an input, unless it repeats the last one. -/
def append (entries : List String) (input : String) : List String :=
  if entries.getLast? = some input then entries else bounded (entries ++ [input])

/-- The entries of a file, up to a line that is too long. -/
def ofLines : List String → List Text.Line → List String
  | entries, [] => entries
  | entries, l :: rest =>
    if l.isPiece then entries
    else ofLines (bounded (entries ++ [String.ofList (Text.decode l.bytes)])) rest

/-- The entries that a file holds. -/
def ofText (text : String) : List String := ofLines [] (Text.lines (Text.bytes text))

/-- The text of the file that holds entries. -/
def toText (entries : List String) : String := String.join (entries.map (· ++ "\n"))

end Lisplet.History
