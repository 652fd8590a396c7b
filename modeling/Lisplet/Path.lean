/-!
# Paths

Paths are texts whose names are divided by slashes. A path is cleaned by dropping empty names and
single dots and by letting each double dot take back the name before it.

* `Path.clean`: the shortest path with the same meaning;
* `Path.join`, `Path.directory`, `Path.base`, `Path.extension`: putting paths together and taking
  them apart.
-/

namespace Lisplet.Path

/-- The pieces of a text between slashes. There is always one. -/
def pieces : List Char → List (List Char)
  | [] => [[]]
  | c :: cs =>
    if c = '/' then [] :: pieces cs
    else
      match pieces cs with
      | [] => [[c]]
      | p :: ps => (c :: p) :: ps

/-- Pieces with slashes between them. -/
def joined : List (List Char) → List Char
  | [] => []
  | [p] => p
  | p :: ps => p ++ '/' :: joined ps

/-- Whether a path starts at the root. -/
def isAbsolute (p : String) : Bool := p.toList.head? == some '/'

/-- Take one more piece; the names so far are kept with the last one first. -/
def visit (rooted : Bool) (names : List (List Char)) : List Char → List (List Char)
  | [] | ['.'] => names
  | ['.', '.'] =>
    match names with
    | [] => if rooted then [] else [['.', '.']]
    | top :: rest => if top = ['.', '.'] then ['.', '.'] :: names else rest
  | name => name :: names

/-- The shortest path with the same meaning. -/
def clean (p : String) : String :=
  let rooted := isAbsolute p
  let names := ((pieces p.toList).foldl (visit rooted) []).reverse
  match rooted, names with
  | false, [] => "."
  | false, _ => String.ofList (joined names)
  | true, _ => String.ofList ('/' :: joined names)

/-- A path below another one, cleaned. -/
def join (p q : String) : String :=
  if !p.isEmpty then clean (p ++ "/" ++ q) else if !q.isEmpty then clean q else ""

/-- The characters after the last slash. -/
def lastPiece (cs : List Char) : List Char := (cs.reverse.takeWhile (· ≠ '/')).reverse

/-- The directory of a path: everything up to the last slash, cleaned. -/
def directory (p : String) : String :=
  clean (String.ofList (p.toList.reverse.dropWhile (· ≠ '/')).reverse)

/-- The last name of a path. -/
def base (p : String) : String :=
  if p.isEmpty then "."
  else
    match (p.toList.reverse.dropWhile (· = '/')).reverse with
    | [] => "/"
    | cs => String.ofList (lastPiece cs)

/-- The last name of a path from its last dot on. -/
def extension (p : String) : String :=
  let name := (lastPiece p.toList).reverse
  if name.contains '.' then String.ofList ('.' :: (name.takeWhile (· ≠ '.')).reverse) else ""

/-- The last name of a path without its extension. -/
def stem (p : String) : String :=
  let name := base p
  let ext := extension p
  if ext.toList.isSuffixOf name.toList then
    String.ofList (name.toList.take (name.toList.length - ext.toList.length))
  else name

/-- A clean path from the root, and each directory above it. -/
def upward (p : String) : List String :=
  let names := (pieces p.toList).filter (· ≠ [])
  (List.range (names.length + 1)).reverse.map fun n =>
    String.ofList ('/' :: joined (names.take n))

end Lisplet.Path
