import Lisplet.Yaml.Token.Queue
import Lisplet.Yaml.Tree

/-!
# Reading a document

The first document of a stream is read from its tokens by recursive descent. Every function that
descends or goes round a collection spends one step, and a text needs no more steps than a small
multiple of its length.
-/

namespace Lisplet.Yaml

/-- What is known while a document is read. -/
structure Reading where
  queue : Queue
  /-- The short forms of tags, the newest first. -/
  handles : List (String × String) := []
  /-- The anchors seen so far and the places of their nodes, newest first. -/
  anchors : List (String × Nat) := []
  /-- The anchored nodes that are complete. -/
  anchored : List (Nat × Tree) := []

/-- An action of the reader. -/
abbrev Read (α : Type) : Type := StateT Reading (Except Fault) α

namespace Read

/-- The first token. -/
def peek : Read Token := do
  let q ← (← get).queue.filled
  modify fun r => { r with queue := q }
  return q.front

/-- Take the first token. -/
def next : Read Unit := modify fun r => { r with queue := r.queue.next }

/-- Take the first token and look at the one after it. -/
def nextPeek : Read Token := do
  next
  peek

/-- An empty node. -/
def empty (m : Mark) : Tree := .scalar (m.line + 1) "" true ""

/-! ### Directives -/

/-- The short forms that every document has. -/
def usualHandles : List (String × String) := [("!", "!"), ("!!", "tag:yaml.org,2002:")]

/-- Read the directives before a document. -/
def directives : Nat → Bool → Read Unit
  | 0, _ => pure ()
  | fuel + 1, versioned => do
    let t ← peek
    match t.kind with
    | .version major minor =>
      if versioned then throw (.inStructure {} t.start .duplicateVersion)
      if major ≠ 1 || minor ≠ 1 then throw (.inStructure {} t.start .incompatibleVersion)
      next
      directives fuel true
    | .tagPrefix handle tag =>
      if (← get).handles.any (·.1 == handle) then throw (.inStructure {} t.start .duplicateTag)
      modify fun r => { r with handles := r.handles ++ [(handle, tag)] }
      next
      directives fuel versioned
    | _ => modify fun r => { r with handles := r.handles ++ usualHandles }

/-! ### Nodes -/

/-- What stands before the content of a node. -/
structure Properties where
  /-- The place where the node starts. -/
  start : Mark
  anchor : Option String := none
  tag : String := ""

/-- The tag that a handle and a suffix stand for. -/
def tagOf (handle suffix : String) (start mark : Mark) : Read String := do
  if handle.isEmpty then return suffix
  let tag := ((← get).handles.find? (·.1 == handle)).map fun h => h.2 ++ suffix
  match tag with
  | some tag => if tag.isEmpty then throw (.inStructure start mark .tagHandle) else return tag
  | none => throw (.inStructure start mark .tagHandle)

/-- Read an anchor and a tag, in either order. -/
def properties : Read Properties := do
  let t ← peek
  match t.kind with
  | .anchor name =>
    let u ← nextPeek
    match u.kind with
    | .tag handle suffix =>
      let _ ← nextPeek
      return { start := t.start, anchor := some name, tag := ← tagOf handle suffix t.start u.start }
    | _ => return { start := t.start, anchor := some name }
  | .tag handle suffix =>
    let u ← nextPeek
    match u.kind with
    | .anchor name =>
      let _ ← nextPeek
      return { start := t.start, anchor := some name, tag := ← tagOf handle suffix t.start t.start }
    | _ => return { start := t.start, tag := ← tagOf handle suffix t.start t.start }
  | _ => return { start := t.start }

/-- An alias of an anchor that was seen. -/
def reference (name : String) (m : Mark) : Read Tree := do
  match (← get).anchors.find? (·.1 == name) with
  | some (_, target) => return .alias (m.line + 1) name m.index target
  | none => throw { problem := .unknownAnchor name }

/-- Read the content of an anchored node. The anchor is known inside it, and the node is listed when
it is complete. -/
def withAnchor (p : Properties) (content : Read Tree) : Read Tree := do
  match p.anchor with
  | none => content
  | some name =>
    modify fun r => { r with anchors := (name, p.start.index) :: r.anchors }
    let t ← content
    modify fun r => { r with anchored := (p.start.index, t) :: r.anchored }
    return t

mutual

/-- Read a node; block collections may start here, or a sequence without indentation of its own. -/
def node : Nat → Bool → Bool → Read Tree
  | 0, _, _ => throw { problem := .nodeContent }
  | fuel + 1, block, indentless => do
    let t ← peek
    match t.kind with
    | .alias name =>
      next
      reference name t.start
    | _ =>
      let p ← properties
      let t ← peek
      let line := p.start.line + 1
      match t.kind, block, indentless with
      | .blockEntry, _, true =>
        withAnchor p do return .sequence line p.tag (← indentlessItems fuel)
      | .scalar plain text, _, _ =>
        next
        withAnchor p do return .scalar line p.tag plain text
      | .flowSequenceStart, _, _ =>
        withAnchor p do
          next
          return .sequence line p.tag (← flowItems fuel t.start true)
      | .flowMappingStart, _, _ =>
        withAnchor p do
          next
          return .mapping line p.tag (← flowEntries fuel t.start true)
      | .blockSequenceStart, true, _ =>
        withAnchor p do
          next
          return .sequence line p.tag (← blockItems fuel t.start)
      | .blockMappingStart, true, _ =>
        withAnchor p do
          next
          return .mapping line p.tag (← blockEntries fuel t.start)
      | _, _, _ =>
        if p.anchor.isSome || !p.tag.isEmpty then withAnchor p do return .scalar line p.tag true ""
        else throw (.inStructure p.start t.start .nodeContent)

/-- Read the items of a block sequence. -/
def blockItems : Nat → Mark → Read (List Tree)
  | 0, _ => throw { problem := .dashMissing }
  | fuel + 1, start => do
    let t ← peek
    match t.kind with
    | .blockEntry =>
      let u ← nextPeek
      let item ←
        match u.kind with
        | .blockEntry => pure (empty t.stop)
        | .blockEnd => pure (empty t.stop)
        | _ => node fuel true false
      return item :: (← blockItems fuel start)
    | .blockEnd =>
      next
      return []
    | _ => throw (.inStructure start t.start .dashMissing)

/-- Read the items of a sequence that has no indentation of its own. -/
def indentlessItems : Nat → Read (List Tree)
  | 0 => return []
  | fuel + 1 => do
    let t ← peek
    match t.kind with
    | .blockEntry =>
      let u ← nextPeek
      let item ←
        match u.kind with
        | .blockEntry => pure (empty t.stop)
        | .key => pure (empty t.stop)
        | .value => pure (empty t.stop)
        | .blockEnd => pure (empty t.stop)
        | _ => node fuel true false
      return item :: (← indentlessItems fuel)
    | _ => return []

/-- Read a part of an entry of a block mapping after its mark. -/
def blockPart : Nat → Mark → Token → Read Tree
  | 0, _, _ => throw { problem := .keyMissing }
  | fuel + 1, mark, t =>
    match t.kind with
    | .key => return empty mark
    | .value => return empty mark
    | .blockEnd => return empty mark
    | _ => node fuel true true

/-- Read the entries of a block mapping. -/
def blockEntries : Nat → Mark → Read (List (Tree × Tree))
  | 0, _ => throw { problem := .keyMissing }
  | fuel + 1, start => do
    let t ← peek
    match t.kind with
    | .key =>
      let u ← nextPeek
      let key ← blockPart fuel t.stop u
      let t ← peek
      let value ←
        match t.kind with
        | .value =>
          let u ← nextPeek
          blockPart fuel t.stop u
        | _ => pure (empty t.start)
      return (key, value) :: (← blockEntries fuel start)
    | .blockEnd =>
      next
      return []
    | _ => throw (.inStructure start t.start .keyMissing)

/-- Read the items of a flow sequence up to its bracket. -/
def flowItems : Nat → Mark → Bool → Read (List Tree)
  | 0, _, _ => throw { problem := .sequenceEnd }
  | fuel + 1, start, first => do
    let t ← peek
    if t.kind = .flowSequenceEnd then
      next
      return []
    let t ←
      if first then pure t
      else if t.kind = .flowEntry then nextPeek
      else throw (.inStructure start t.start .sequenceEnd)
    match t.kind with
    | .flowSequenceEnd =>
      next
      return []
    | .key =>
      next
      let pair ← flowPair fuel t.start
      return pair :: (← flowItems fuel start false)
    | _ =>
      let item ← node fuel false false
      return item :: (← flowItems fuel start false)

/-- Read a single pair in a flow sequence, which is a mapping of its own. -/
def flowPair : Nat → Mark → Read Tree
  | 0, _ => throw { problem := .sequenceEnd }
  | fuel + 1, start => do
    let t ← peek
    let key ←
      match t.kind with
      | .value | .flowEntry | .flowSequenceEnd =>
        next
        pure (empty t.stop)
      | _ => node fuel false false
    let t ← peek
    let value ←
      match t.kind with
      | .value =>
        let u ← nextPeek
        match u.kind with
        | .flowEntry | .flowSequenceEnd => pure (empty u.start)
        | _ => node fuel false false
      | _ => pure (empty t.start)
    return .mapping (start.line + 1) "" [(key, value)]

/-- Read the entries of a flow mapping up to its brace. -/
def flowEntries : Nat → Mark → Bool → Read (List (Tree × Tree))
  | 0, _, _ => throw { problem := .mappingEnd }
  | fuel + 1, start, first => do
    let t ← peek
    if t.kind = .flowMappingEnd then
      next
      return []
    let t ←
      if first then pure t
      else if t.kind = .flowEntry then nextPeek
      else throw (.inStructure start t.start .mappingEnd)
    match t.kind with
    | .flowMappingEnd =>
      next
      return []
    | .key =>
      let u ← nextPeek
      let key ←
        match u.kind with
        | .value | .flowEntry | .flowMappingEnd => pure (empty u.start)
        | _ => node fuel false false
      let t ← peek
      let value ←
        match t.kind with
        | .value =>
          let u ← nextPeek
          match u.kind with
          | .flowEntry | .flowMappingEnd => pure (empty u.start)
          | _ => node fuel false false
        | _ => pure (empty t.start)
      return (key, value) :: (← flowEntries fuel start false)
    | _ =>
      let key ← node fuel false false
      let t ← peek
      return (key, empty t.start) :: (← flowEntries fuel start false)

end

/-! ### Documents -/

/-- Read the first document; none if the stream has no document. -/
def document (fuel : Nat) : Read (Option Document) := do
  let _ ← peek
  let t ← nextPeek
  match t.kind with
  | .streamEnd => return none
  | .version .. | .tagPrefix .. | .documentStart =>
    directives fuel false
    let t ← peek
    if t.kind ≠ .documentStart then throw (.inStructure {} t.start .documentStart)
    let u ← nextPeek
    match u.kind with
    | .version .. | .tagPrefix .. | .documentStart | .documentEnd | .streamEnd =>
      return some { root := empty u.start }
    | _ => finish fuel
  | _ =>
    directives fuel false
    finish fuel
where
  /-- Read the root, and look at what follows it. -/
  finish (fuel : Nat) : Read (Option Document) := do
    let root ← node fuel true false
    let _ ← peek
    return some { root, anchored := (← get).anchored }

end Read

/-- The first document of a text; none if the text has none. -/
def Document.ofText? (text : String) : Except Fault (Option Document) :=
  let cs := text.toList
  if cs.all isAllowed then
    ((Read.document (8 * cs.length + 64)).run { queue := .ofText cs }).map Prod.fst
  else .error { problem := .controlCharacter }

end Lisplet.Yaml
