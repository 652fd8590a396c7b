import Lisplet.Text.Base64
import Lisplet.Text.Quoted
import Lisplet.Text.Utf8
import Lisplet.Yaml.Implicit
import Lisplet.Yaml.Tree.Read

/-!
# Decoding a tree by its shape

A shape says what a node has to be: a text, an integer, a record with known fields, or one of these
or nothing. Decoding collects every mismatch before it gives up, except for faults that leave nothing
to go on with. A record may merge other mappings into itself, whose fields count only where it has
none of its own.
-/

namespace Lisplet.Yaml

/-- What a node has to be. -/
inductive Shape where
  | text
  | integer
  | record (name : String) (fields : List (String × Shape))
  /-- The given shape, or null. -/
  | optional (shape : Shape)
  deriving Repr, Inhabited

/-- What a node was decoded to. -/
inductive Datum where
  | text (s : String)
  | integer (n : Int)
  | record (fields : List (String × Datum))
  deriving Repr, Inhabited

/-- The datum of a field of a record. -/
def Datum.field? (name : String) : Datum → Option Datum
  | .record fields => fields.lookup name
  | _ => none

namespace Shape

/-- The name of a shape in reports. -/
def name : Shape → String
  | .text => "string"
  | .integer => "int"
  | .record name _ => name
  | .optional shape => "*" ++ shape.name

/-- The shape of what is not null. -/
def present : Shape → Shape
  | .optional shape => shape.present
  | shape => shape

end Shape

/-- A part of a document that does not fit. -/
inductive Mismatch where
  | duplicateKey (line : Nat) (key : String) (first : Nat)
  | repeatedField (line : Nat) (field shape : String)
  | unknownField (line : Nat) (field shape : String)
  /-- A node of a tag stands where a shape is wanted; the text is that of a scalar. -/
  | wrongShape (line : Nat) (tag text shape : String)
  deriving DecidableEq, Repr, Inhabited

namespace Mismatch

/-- A text as it is shown in a report: one with more than ten bytes is cut to seven. -/
def excerpt (s : String) : String :=
  if 10 < s.utf8ByteSize then Text.takeBytes 7 s ++ "..." else s

/-- The wording of a mismatch. -/
def message : Mismatch → String
  | .duplicateKey line key first =>
    "line " ++ toString line ++ ": mapping key " ++ Text.quote key ++ " already defined at line " ++
      toString first
  | .repeatedField line field shape =>
    "line " ++ toString line ++ ": field " ++ field ++ " already set in type " ++ shape
  | .unknownField line field shape =>
    "line " ++ toString line ++ ": field " ++ field ++ " not found in type " ++ shape
  | .wrongShape line tag text shape =>
    let shown :=
      if tag = "!!seq" || tag = "!!map" then text else " `" ++ excerpt text ++ "`"
    "line " ++ toString line ++ ": cannot unmarshal " ++ tag ++ shown ++ " into " ++ shape

/-- The report of all mismatches. -/
def report (ms : List Mismatch) : String :=
  "yaml: unmarshal errors:\n  " ++ "\n  ".intercalate (ms.map message)

end Mismatch

namespace Tree

/-- The text of the key of a merge. -/
def mergeText : String := "<<"

/-- The tag of the key of a merge. -/
def mergeTag : String := "!!merge"

/-- The tag of a node: its own, or the one that its sort or its spelling gives it. -/
def shortTag : Tree → String
  | .scalar _ tag plain text =>
    if tag ≠ "" && tag ≠ "!" then Yaml.shortTag tag
    else if plain && text = mergeText then mergeTag
    else if plain then ((Implicit.special? true text).getD (.text text)).tag
    else "!!str"
  | .sequence _ tag _ => if tag ≠ "" && tag ≠ "!" then Yaml.shortTag tag else "!!seq"
  | .mapping _ tag _ => if tag ≠ "" && tag ≠ "!" then Yaml.shortTag tag else "!!map"
  | .alias .. => ""

/-- Whether a node is the key of a merge. -/
def isMergeKey : Tree → Bool
  | .scalar l tag plain text =>
    text == mergeText && (Tree.scalar l tag plain text).shortTag == mergeTag
  | _ => false

/-- The mismatch of a node with a shape. -/
def mismatch (t : Tree) (shape : Shape) : Mismatch :=
  .wrongShape t.line t.shortTag t.keyText shape.name

/-- What a scalar stands for. -/
def resolved (t : Tree) : Except Fault Resolved := resolve t.shortTag t.keyText

/-- The keys of a mapping that were defined before. -/
def duplicates : List Tree → List Mismatch
  | [] => []
  | k :: ks =>
    (ks.filter fun j => k.sameSort j && k.keyText == j.keyText).map
      (fun j => .duplicateKey j.line j.keyText k.line) ++ duplicates ks

end Tree

namespace Decode

/-- What is known while a document is decoded: the mismatches so far, newest first. -/
abbrev Decoding (α : Type) : Type := StateT (List Mismatch) (Except Fault) α

/-- Report a mismatch. -/
def report (m : Mismatch) : Decoding Unit := modify (m :: ·)

/-- A double as an integer: the fraction is cut off, and what is beyond the words below is the least
one. None for what is not a number, and for numbers that are too large. -/
def integerOfFloat? (x : Float) : Option Int :=
  let bits := Binary.magnitude x
  if Binary.infinityBits < bits then none
  else if bits = Binary.infinityBits then if Binary.isNegative x then some (-twoPow 63) else none
  else
    let (num, den) := Binary.quotient bits
    let n : Int := num / den
    let n := if Binary.isNegative x then -n else n
    if n < twoPow 63 then some (if n < -twoPow 63 then -twoPow 63 else n)
    else if n = twoPow 63 then some (-twoPow 63)
    else none

/-- The text that binary data stand for. -/
def binaryText? (s : String) : Option String :=
  (Text.Base64.decode? s).map fun bytes => String.ofList (Text.decode bytes)

/-- Decode a scalar. Null decodes to nothing. -/
def scalar (t : Tree) (text : String) (shape : Shape) : Decoding (Option Datum) := do
  match ← t.resolved, shape with
  | .null, _ => return none
  | .binary s, shape =>
    match binaryText? s with
    | none => throw { problem := .binaryData }
    | some data =>
      match shape with
      | .text => return some (.text data)
      | _ =>
        report (t.mismatch shape)
        return none
  | _, .text => return some (.text text)
  | .integer n, .integer =>
    if n < twoPow 63 then return some (.integer n)
    else
      report (t.mismatch shape)
      return none
  | .float x, .integer =>
    match integerOfFloat? x with
    | some n => return some (.integer n)
    | none =>
      report (t.mismatch shape)
      return none
  | _, _ =>
    report (t.mismatch shape)
    return none

/-- The fields that a record has so far. -/
structure Fields where
  values : List (String × Datum) := []
  /-- The fields that mappings merged later do not set, if this is a merge. -/
  merged : Option (List String) := none

/-- Set a field. -/
def Fields.set (f : Fields) (name : String) (d : Option Datum) : Fields :=
  let others := f.values.filter (·.1 ≠ name)
  { f with values := match d with
    | some d => others ++ [(name, d)]
    | none => others }

/-- The text of a key that stands for one. -/
def textKey? (t : Tree) : Option String :=
  match t with
  | .scalar .. =>
    match t.resolved with
    | .ok (.text s) => some s
    | .ok (.tagged _ s) => some s
    | .ok (.binary s) => binaryText? s
    | _ => none
  | _ => none

/-- The texts among the keys of a mapping. -/
def textKeys (doc : Document) (entries : List (Tree × Tree)) : List String :=
  entries.filterMap fun (k, _) =>
    match k with
    | .alias _ _ _ target => (doc.node? target).bind textKey?
    | k => textKey? k

mutual

/-- Decode a node. `seen` are the places of the aliases on the way to it, and `start` is what a
record begins with. Nothing is decoded from null or from what does not fit. -/
def node (doc : Document) :
    Nat → List Nat → Fields → Tree → Shape → Decoding (Option Datum × Fields)
  | 0, _, start, _, _ => return (none, start)
  | fuel + 1, seen, start, t, wanted =>
    let shape := if t.shortTag = "!!null" then wanted else wanted.present
    match t with
    | .alias _ name place target => do
      if seen.contains place then throw { problem := .selfReference name }
      match doc.node? target with
      | some t => node doc fuel (place :: seen) start t wanted
      | none => return (none, start)
    | .scalar _ _ _ text => do return (← scalar t text shape, start)
    | .sequence .. => do
      report (t.mismatch shape)
      return (none, start)
    | .mapping _ _ entries => do
      match Tree.duplicates (entries.map Prod.fst) with
      | m :: ms =>
        (m :: ms).forM report
        return (none, start)
      | [] =>
        match shape with
        | .record name fields =>
          let (merge, f) ← record doc fuel seen name fields [] none start entries
          let f ←
            match merge with
            | none => pure f
            | some source => do
              let inner := { f with merged := some (f.merged.getD (textKeys doc entries)) }
              let g ← mergeFrom doc fuel seen (.record name fields) inner source
              pure { g with merged := if f.merged.isSome then g.merged else none }
          return (some (.record f.values), f)
        | shape =>
          report (t.mismatch shape)
          return (none, start)

/-- Decode the entries of a record. `done` are the fields that were set here. Returns the value of
the last merge key, too. -/
def record (doc : Document) : Nat → List Nat → String → List (String × Shape) → List String →
    Option Tree → Fields → List (Tree × Tree) → Decoding (Option Tree × Fields)
  | 0, _, _, _, _, merge, f, _ => return (merge, f)
  | _ + 1, _, _, _, _, merge, f, [] => return (merge, f)
  | fuel + 1, seen, name, fields, done, merge, f, (k, v) :: rest => do
    if k.isMergeKey then record doc fuel seen name fields done (some v) f rest
    else
      match ← node doc fuel seen {} k .text with
      | (some (.text key), _) =>
        if (f.merged.getD []).contains key then record doc fuel seen name fields done merge f rest
        else
          let f := { f with merged := f.merged.map (key :: ·) }
          match fields.find? (·.1 == key) with
          | none => do
            report (.unknownField k.line key name)
            record doc fuel seen name fields done merge f rest
          | some (_, shape) =>
            if done.contains key then do
              report (.repeatedField k.line key name)
              record doc fuel seen name fields done merge f rest
            else do
              let (d, _) ← node doc fuel seen {} v shape
              record doc fuel seen name fields (key :: done) merge (f.set key d) rest
      | _ => record doc fuel seen name fields done merge f rest

/-- Merge mappings into a record: one, or each of a sequence. -/
def mergeFrom (doc : Document) : Nat → List Nat → Shape → Fields → Tree → Decoding Fields
  | 0, _, _, f, _ => return f
  | fuel + 1, seen, shape, f, source =>
    match source with
    | .sequence _ _ items => mergeAll doc fuel seen shape f items
    | source => mergeOne doc fuel seen shape f source

/-- Merge each of a list of mappings into a record. -/
def mergeAll (doc : Document) : Nat → List Nat → Shape → Fields → List Tree → Decoding Fields
  | 0, _, _, f, _ => return f
  | _ + 1, _, _, f, [] => return f
  | fuel + 1, seen, shape, f, t :: ts => do
    let f ← mergeOne doc fuel seen shape f t
    mergeAll doc fuel seen shape f ts

/-- Merge a mapping, or an alias of one, into a record. -/
def mergeOne (doc : Document) : Nat → List Nat → Shape → Fields → Tree → Decoding Fields
  | 0, _, _, f, _ => return f
  | fuel + 1, seen, shape, f, t => do
    let mapping :=
      match t with
      | .alias _ _ _ target => (doc.node? target).any Tree.isMapping
      | t => t.isMapping
    if !mapping then throw { problem := .mergeValue }
    let (_, f) ← node doc fuel seen f t shape
    return f

end

end Decode

/-- Why a text could not be decoded. -/
inductive DecodeFault where
  | unreadable (f : Fault)
  | mismatches (ms : List Mismatch)
  deriving Repr

/-- The report of a failed decoding. -/
def DecodeFault.message : DecodeFault → String
  | .unreadable f => f.message
  | .mismatches ms => Mismatch.report ms

/-- Decode the first document of a text; none if it has none. Null decodes to an empty record. -/
def decode (shape : Shape) (text : String) : Except DecodeFault (Option Datum) :=
  match Document.ofText? text with
  | .error f => .error (.unreadable f)
  | .ok none => .ok none
  | .ok (some doc) =>
    let size := 16 * (text.length + 16)
    let fuel := size * size
    match (Decode.node doc fuel [] {} doc.root shape).run [] with
    | .error f => .error (.unreadable f)
    | .ok ((d, _), []) => .ok (some (d.getD (.record [])))
    | .ok (_, ms) => .error (.mismatches ms.reverse)

end Lisplet.Yaml
