import Lisplet.Number.Numeral
import Lisplet.Text.Blank
import Lisplet.Text.Letter
import Lisplet.Text.Quoted
import Lisplet.Timestamp
import Lisplet.Git.Repository

/-!
# Revisions

A revision is an expression for a commit: the name of a commit and then steps to others, such as
`HEAD~2` for the parent of the parent of the current commit.

* `Revision.Part`: the parts of a revision, read by `Revision.parts`;
* `Revision.check`: where each part may stand;
* `Repository.resolve`: the commit that a revision stands for.
-/

namespace Lisplet

namespace Revision

/-! ### Lexemes -/

/-- The smallest pieces of a revision. -/
inductive Lexeme where
  | mark (c : Char)
  | blank (c : Char)
  | control (c : Char)
  | word (text : List Char)
  | number (text : List Char)
  | other (c : Char)
  deriving DecidableEq, Repr, Inhabited

/-- The characters with a meaning of their own. -/
def marks : List Char :=
  [':', '~', '^', '.', '/', '\x7b', '\x7d', '-', '@', '\\', '?', '*', '[', '!']

/-- The characters of a lexeme. -/
def Lexeme.text : Lexeme → List Char
  | .mark c | .blank c | .control c | .other c => [c]
  | .word cs | .number cs => cs

/-- Whether a character controls a device. -/
def isControl (c : Char) : Bool := c.toNat < 0x20 || (0x7f ≤ c.toNat && c.toNat < 0xa0)

/-- Drop the character NUL that ends a run. -/
def dropNul : List Char → List Char
  | '\x00' :: rest => rest
  | cs => cs

theorem length_dropNul_le (cs : List Char) : (dropNul cs).length ≤ cs.length := by
  unfold dropNul; split <;> simp

/-- The lexemes of a text, which ends at a NUL that stands alone. -/
def lexemes (cs : List Char) : List Lexeme :=
  match cs with
  | [] => []
  | c :: rest =>
    if c = '\x00' then []
    else if marks.contains c then .mark c :: lexemes rest
    else if Text.isBlank c then .blank c :: lexemes rest
    else if isControl c then .control c :: lexemes rest
    else if Text.isLetter c then
      .word (c :: rest.takeWhile Text.isLetter) :: lexemes (dropNul (rest.dropWhile Text.isLetter))
    else if Text.isNumeral c then
      .number (c :: rest.takeWhile Text.isNumeral) ::
        lexemes (dropNul (rest.dropWhile Text.isNumeral))
    else .other c :: lexemes rest
termination_by cs.length
decreasing_by
  all_goals simp only [List.length_cons]
  all_goals first
    | omega
    | exact Nat.lt_succ_of_le (Nat.le_trans (length_dropNul_le _)
        (List.dropWhile_suffix _).length_le)

/-! ### Parts -/

/-- A part of a revision. -/
inductive Part where
  /-- The name of a commit. -/
  | ref (name : String)
  /-- So many first parents back. -/
  | back (n : Nat)
  /-- A parent by its number; the number zero stands for the commit itself. -/
  | parent (n : Nat)
  /-- The nearest commit whose message has, or has not, a text in it. -/
  | message (text : String) (negated : Bool)
  /-- A kind of object. -/
  | kind
  | date
  | reflog
  | checkout
  | tracked
  | push
  /-- Any commit whose message has a text in it. -/
  | anyMessage
  | path
  | stagePath
  deriving DecidableEq, Repr, Inhabited

/-- Why a text is not a revision. -/
inductive Fault where
  /-- A name has a character that names do not have. -/
  | forbidden (c : String)
  | badStart (c : String)
  | badEnd (c : String)
  | lockEnd
  | doubled (what : String)
  | doubledSlash
  | openBrace (form : String)
  | badDate (text : String)
  | badParent (text : String)
  | reserved
  | badBrace (text : String)
  | secondName
  | misplacedAt (forms : String)
  | noName
  | misplacedColon (forms : String)
  deriving DecidableEq, Repr, Inhabited

/-- The wording of a fault. -/
def Fault.message (f : Fault) : String :=
  "Revision invalid : " ++
    match f with
    | .forbidden c => "must not contains \"" ++ c ++ "\""
    | .badStart c => "must not start with \"" ++ c ++ "\""
    | .badEnd c => "must not end with \"" ++ c ++ "\""
    | .lockEnd => "cannot end with .lock"
    | .doubled what => "must not contains \"" ++ what ++ "\""
    | .doubledSlash => "must not contains consecutively \"/\""
    | .openBrace form => "missing \"\x7d\" in " ++ form ++ " structure"
    | .badDate text =>
      "wrong date \"" ++ text ++ "\" must fit ISO-8601 format : 2006-01-02T15:04:05Z"
    | .badParent text => "\"" ++ text ++ "\" found must be 0, 1 or 2 after \"^\""
    | .reserved =>
      "revision suffix brace component sequences starting with \"/!\" others than those defined " ++
        "are reserved"
    | .badBrace text => "\"" ++ text ++ "\" is not a valid revision suffix brace component"
    | .secondName => "reference must be defined once at the beginning"
    | .misplacedAt forms => "\"@\" statement is not valid, could be : " ++ forms
    | .noName => "\"~\" or \"^\" statement must have a reference defined at the beginning"
    | .misplacedColon forms => "\":\" statement is not valid, could be : " ++ forms

/-- The value of a number; digits other than those of ASCII count as nothing, and no number is
larger than the largest word. -/
def numberValue (cs : List Char) : Nat :=
  if cs.all Char.isDigit then min (Decimal.ofDigits cs) (twoPow 63 - 1) else 0

/-- Check a name at its next lexeme, given the lexeme before and the name so far; there is no
lexeme at the name's end. -/
def checkName (next before : Option Lexeme) (name : List Char) : Except Fault Unit :=
  let isMark (l : Option Lexeme) (c : Char) : Bool := l == some (.mark c)
  let here := String.ofList ((next.map Lexeme.text).getD [])
  let forbidden :=
    match next with
    | some (.blank _) | some (.control _) => true
    | some (.mark c) => ['\\', '?', '*', '['].contains c
    | _ => false
  let isLock := ".lock".toList.isSuffixOf name
  if forbidden then .error (.forbidden here)
  else if (isMark next '.' || isMark next '/') && name.isEmpty then .error (.badStart here)
  else if isMark before '/' && next.isNone then .error (.badEnd "/")
  else if isMark before '.' && next.isNone then .error (.badEnd ".")
  else if isMark next '.' && isMark before '/' then .error (.doubled "/.")
  else if isMark before '.' && isMark next '.' then .error (.doubled "..")
  else if isMark before '/' && isMark next '/' then .error .doubledSlash
  else if (isMark next '/' || next.isNone) && isLock then .error .lockEnd
  else .ok ()

/-- Whether a lexeme ends a name. -/
def endsName : Lexeme → Bool
  | .mark c => ['@', ':', '~', '^'].contains c
  | _ => false

/-- Read a name. -/
def refName : Option Lexeme → List Char → List Lexeme → Except Fault (Part × List Lexeme)
  | before, name, [] => do
    checkName none before name
    return (.ref (String.ofList name), [])
  | before, name, l :: rest => do
    if endsName l then
      checkName none before name
      return (.ref (String.ofList name), l :: rest)
    else
      checkName (some l) before name
      refName (some l) (name ++ l.text) rest

/-- Read a date in braces. -/
def dateTo : List Char → List Lexeme → Except Fault (Part × List Lexeme)
  | _, [] => .error (.openBrace "@\x7b<data>\x7d")
  | text, l :: rest =>
    if l = .mark '\x7d' then
      if Timestamp.isInstant (String.ofList text) then .ok (.date, rest)
      else .error (.badDate (String.ofList text))
    else dateTo (text ++ l.text) rest

/-- Read what follows an at sign. -/
def atPart : List Lexeme → Except Fault (Part × List Lexeme)
  | .mark '\x7b' :: .word w :: .mark '\x7d' :: rest =>
    if w = "u".toList || w = "upstream".toList then .ok (.tracked, rest)
    else if w = "push".toList then .ok (.push, rest)
    else dateTo w (.mark '\x7d' :: rest)
  | .mark '\x7b' :: .number _ :: .mark '\x7d' :: rest => .ok (.reflog, rest)
  | .mark '\x7b' :: .mark '-' :: .number _ :: rest =>
    match rest with
    | .mark '\x7d' :: rest => .ok (.checkout, rest)
    | _ => .error (.openBrace "@\x7b-n\x7d")
  | .mark '\x7b' :: l :: rest => dateTo l.text rest
  | [.mark '\x7b'] => dateTo [] []
  | rest => .ok (.ref "HEAD", rest)

/-- Read the braces after a caret. A kind of object, or a text to look for after a slash; the text
starts with an exclamation mark only if it is doubled or a minus sign follows it. -/
def braces : Bool → Bool → List Char → List Lexeme → Except Fault (Part × List Lexeme)
  | start, _, _, [] =>
    if start then .error (.badBrace "") else .error (.openBrace "^\x7b<data>\x7d")
  | start, negated, text, l :: rest =>
    let kinds := ["commit", "tree", "blob", "tag", "object"].map String.toList
    let isKind : Bool :=
      match l with
      | .word w => kinds.contains w
      | _ => false
    if isKind && rest.head? == some (.mark '\x7d') then .ok (.kind, rest.tail)
    else if text.isEmpty && l = .mark '\x7d' then .ok (.kind, rest.tail)
    else if text.isEmpty && l = .mark '!' then
      match rest with
      | .mark '!' :: rest => braces false negated ['!'] rest
      | .mark '-' :: rest => braces false true text rest
      | _ => .error .reserved
    else if text.isEmpty && l = .mark '/' then braces false negated text rest
    else if l ≠ .mark '/' && start then .error (.badBrace (String.ofList l.text))
    else if l ≠ .mark '\x7d' then braces false negated (text ++ l.text) rest
    else .ok (.message (String.ofList text) negated, rest)

/-- Read what follows a caret. -/
def caretPart : List Lexeme → Except Fault (Part × List Lexeme)
  | .mark '\x7b' :: rest => braces true false [] rest
  | .number n :: rest =>
    if 2 < numberValue n then .error (.badParent (String.ofList n))
    else .ok (.parent (numberValue n), rest)
  | rest => .ok (.parent 1, rest)

/-- Read what follows a tilde. -/
def tildePart : List Lexeme → Except Fault (Part × List Lexeme)
  | .number n :: rest => .ok (.back (numberValue n), rest)
  | rest => .ok (.back 1, rest)

/-- Check a text to look for: it starts with an exclamation mark only if that is doubled or a minus
sign follows it. `empty` tells whether nothing of it is read yet. -/
def checkPattern : Bool → List Lexeme → Except Fault Unit
  | _, [] => .ok ()
  | _, .mark '!' :: .mark '!' :: rest => checkPattern false rest
  | empty, .mark '!' :: .mark '-' :: rest => checkPattern empty rest
  | true, .mark '!' :: _ => .error .reserved
  | _, _ :: rest => checkPattern false rest

/-- Read what follows a colon, which goes to the end. -/
def colonPart : List Lexeme → Except Fault (Part × List Lexeme)
  | .mark '/' :: rest => do
    checkPattern true rest
    return (.anyMessage, [])
  | .number n :: .mark ':' :: _ => .ok (if numberValue n ≤ 3 then .stagePath else .path, [])
  | _ => .ok (.path, [])

/-- Read one part; there is at least one lexeme. -/
def part (l : Lexeme) (rest : List Lexeme) : Except Fault (Part × List Lexeme) :=
  match l with
  | .mark '@' => atPart rest
  | .mark '~' => tildePart rest
  | .mark '^' => caretPart rest
  | .mark ':' => colonPart rest
  | _ => refName none [] (l :: rest)

/-- Read the parts of a revision. Each part has a lexeme, so their number bounds the steps. -/
def partsFrom : Nat → List Lexeme → Except Fault (List Part)
  | _, [] => .ok []
  | 0, _ => .ok []
  | steps + 1, l :: rest => do
    let (p, rest) ← part l rest
    return p :: (← partsFrom steps rest)

/-! ### Where parts may stand -/

/-- Check the parts from a place on, given how many there are and whether the first is a name. -/
def checkFrom (total : Nat) : Nat → Bool → List Part → Except Fault Unit
  | _, _, [] => .ok ()
  | i, named, p :: rest =>
    let afterName := total == 1 || (named && total == 2)
    match p with
    | .ref _ => if i = 0 then checkFrom total 1 true rest else .error .secondName
    | .date =>
      if afterName then .ok ()
      else .error (.misplacedAt "<refname>@\x7b<ISO-8601 date>\x7d, @\x7b<ISO-8601 date>\x7d")
    | .reflog =>
      if afterName then .ok () else .error (.misplacedAt "<refname>@\x7b<n>\x7d, @\x7b<n>\x7d")
    | .checkout => if total = 1 then .ok () else .error (.misplacedAt "@\x7b-<n>\x7d")
    | .tracked =>
      if afterName then .ok ()
      else .error (.misplacedAt
        "<refname>@\x7bupstream\x7d, @\x7bupstream\x7d, <refname>@\x7bu\x7d, @\x7bu\x7d")
    | .push =>
      if afterName then .ok () else .error (.misplacedAt "<refname>@\x7bpush\x7d, @\x7bpush\x7d")
    | .back _ | .parent _ | .message _ _ =>
      if named then checkFrom total (i + 1) named rest else .error .noName
    | .anyMessage => if total = 1 then .ok () else .error (.misplacedColon ":/<regexp>")
    | .path =>
      if (i + 1 == total && named) || total == 1 then .ok ()
      else .error (.misplacedColon "<revision>:<path>")
    | .stagePath => if total = 1 then .ok () else .error (.misplacedColon ":<n>:<path>")
    | .kind => checkFrom total (i + 1) named rest

/-- Check where the parts of a revision stand. -/
def check (parts : List Part) : Except Fault Unit := checkFrom parts.length 0 false parts

/-- The parts of a revision. -/
def parts (text : String) : Except Fault (List Part) := do
  let ls := lexemes text.toList
  let ps ← partsFrom ls.length ls
  check ps
  return ps

end Revision

/-! ### Resolving -/

/-- Why a revision stands for no commit. -/
inductive ResolveFault where
  | invalid (f : Revision.Fault)
  | unknownName
  /-- A commit has no such parent. -/
  | noParent
  | noMessage (text : String)
  deriving DecidableEq, Repr, Inhabited

/-- The wording of a fault. -/
def ResolveFault.message : ResolveFault → String
  | .invalid f => f.message
  | .unknownName => "reference not found"
  | .noParent => "EOF"
  | .noMessage text => "no commit message match regexp: " ++ Text.quote text

namespace Repository

/-- The spellings that a short name may have in full. -/
def spellings (name : String) : List String :=
  [name, "refs/" ++ name, "refs/tags/" ++ name, "refs/heads/" ++ name, "refs/remotes/" ++ name,
    "refs/remotes/" ++ name ++ "/HEAD"]

/-- The commit of a name: of a hash that starts with it, or else of the first spelling that is
known. -/
def named? (r : Repository) (name : String) : Option Commit :=
  (r.hashesFrom name ++ ((spellings name).findSome? r.target?).toList).findSome? r.peel?

/-- A parent of a commit, counted from zero. -/
def parent? (r : Repository) (c : Commit) (n : Nat) : Option Commit := c.parents[n]?.bind r.commit?

/-- Go back a number of first parents. -/
def back? (r : Repository) : Nat → Commit → Option Commit
  | 0, c => some c
  | n + 1, c => (r.parent? c 0).bind (r.back? n)

/-- The commits that lead to a commit, each before its parents. The steps bound how many are
visited. -/
def ancestors (r : Repository) : Nat → List String → List Commit → List Commit
  | 0, _, _ => []
  | _, _, [] => []
  | steps + 1, seen, c :: rest =>
    if seen.contains c.hash then r.ancestors steps seen rest
    else c :: r.ancestors steps (c.hash :: seen) (c.parents.filterMap r.commit? ++ rest)

/-- Whether a text has another one in it. -/
def hasText (text : List Char) : List Char → Bool
  | [] => text.isEmpty
  | c :: cs => text.isPrefixOf (c :: cs) || hasText text cs

/-- Take a part of a revision, given the commit so far. -/
def resolvePart (r : Repository) (at? : Option Commit) (p : Revision.Part) :
    Except ResolveFault (Option Commit) :=
  match p, at? with
  | .ref name, _ =>
    match r.named? name with
    | some c => .ok (some c)
    | none => .error .unknownName
  | .parent 0, c => .ok c
  | .parent (n + 1), some c =>
    match r.parent? c n with
    | some c => .ok (some c)
    | none => .error .noParent
  | .back n, some c =>
    -- Beyond as many steps as there are commits there is no parent.
    match r.back? (min n (r.commits.length + 1)) c with
    | some c => .ok (some c)
    | none => .error .noParent
  | .message text negated, some c =>
    let candidates := r.ancestors (2 * r.commits.length + 2) [] [c]
    match candidates.find? fun d => hasText text.toList d.message.toList != negated with
    | some d => .ok (some d)
    | none => .error (.noMessage text)
  | _, c => .ok c

/-- The commit that a revision stands for. -/
def resolve (r : Repository) (revision : String) : Except ResolveFault Commit :=
  match Revision.parts revision with
  | .error f => .error (.invalid f)
  | .ok ps => do
    match ← ps.foldlM r.resolvePart none with
    | some c => return c
    | none => .error .unknownName

end Repository

end Lisplet
