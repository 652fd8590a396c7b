import Lisplet.Yaml.Cursor

/-!
# Faults in a YAML text
-/

namespace Lisplet.Yaml

/-- What is wrong with a text. -/
inductive Problem where
  | controlCharacter
  -- Tokens
  | entryNotAllowed
  | keyNotAllowed
  | valueNotAllowed
  | strayCharacter
  | missingColon
  | tooDeep
  | directiveUnknown
  | directiveUnnamed
  | directiveName
  | lineEnd
  | versionPoint
  | versionLong
  | versionMissing
  | whiteSpace
  | whiteSpaceOrBreak
  | anchorName
  | tagClosing
  | tagMark
  | tagText
  | escapedOctet
  | leadingOctet
  | trailingOctet
  | zeroIndentation
  | tabInBlock
  | tabInPlain
  | markerInQuotes
  | endInQuotes
  | escapeUnknown
  | escapeDigits
  | escapeCode
  -- Structure
  | documentStart
  | duplicateVersion
  | incompatibleVersion
  | duplicateTag
  | tagHandle
  | nodeContent
  | dashMissing
  | keyMissing
  | sequenceEnd
  | mappingEnd
  -- Meaning
  | unknownAnchor (name : String)
  | selfReference (name : String)
  | mergeValue
  | binaryData
  | wrongTag (found text wanted : String)
  deriving DecidableEq, Repr, Inhabited

/-- The wording of a problem. -/
def Problem.text : Problem → String
  | .controlCharacter => "control characters are not allowed"
  | .entryNotAllowed => "block sequence entries are not allowed in this context"
  | .keyNotAllowed => "mapping keys are not allowed in this context"
  | .valueNotAllowed => "mapping values are not allowed in this context"
  | .strayCharacter => "found character that cannot start any token"
  | .missingColon => "could not find expected ':'"
  | .tooDeep => "exceeded max depth of 10000"
  | .directiveUnknown => "found unknown directive name"
  | .directiveUnnamed => "could not find expected directive name"
  | .directiveName => "found unexpected non-alphabetical character"
  | .lineEnd => "did not find expected comment or line break"
  | .versionPoint => "did not find expected digit or '.' character"
  | .versionLong => "found extremely long version number"
  | .versionMissing => "did not find expected version number"
  | .whiteSpace => "did not find expected whitespace"
  | .whiteSpaceOrBreak => "did not find expected whitespace or line break"
  | .anchorName => "did not find expected alphabetic or numeric character"
  | .tagClosing => "did not find the expected '>'"
  | .tagMark => "did not find expected '!'"
  | .tagText => "did not find expected tag URI"
  | .escapedOctet => "did not find URI escaped octet"
  | .leadingOctet => "found an incorrect leading UTF-8 octet"
  | .trailingOctet => "found an incorrect trailing UTF-8 octet"
  | .zeroIndentation => "found an indentation indicator equal to 0"
  | .tabInBlock => "found a tab character where an indentation space is expected"
  | .tabInPlain => "found a tab character that violates indentation"
  | .markerInQuotes => "found unexpected document indicator"
  | .endInQuotes => "found unexpected end of stream"
  | .escapeUnknown => "found unknown escape character"
  | .escapeDigits => "did not find expected hexdecimal number"
  | .escapeCode => "found invalid Unicode character escape code"
  | .documentStart => "did not find expected <document start>"
  | .duplicateVersion => "found duplicate %YAML directive"
  | .incompatibleVersion => "found incompatible YAML document"
  | .duplicateTag => "found duplicate %TAG directive"
  | .tagHandle => "found undefined tag handle"
  | .nodeContent => "did not find expected node content"
  | .dashMissing => "did not find expected '-' indicator"
  | .keyMissing => "did not find expected key"
  | .sequenceEnd => "did not find expected ',' or ']'"
  | .mappingEnd => "did not find expected ',' or '\x7d'"
  | .unknownAnchor name => "unknown anchor '" ++ name ++ "' referenced"
  | .selfReference name => "anchor '" ++ name ++ "' value contains itself"
  | .mergeValue => "map merge requires map or sequence of maps as the value"
  | .binaryData => "!!binary value contains invalid base64 data"
  | .wrongTag found text wanted =>
    "cannot decode " ++ found ++ " `" ++ text ++ "` as a " ++ wanted

/-- A problem and the line it is reported at; line 0 is not reported. -/
structure Fault where
  line : Nat := 0
  problem : Problem
  deriving DecidableEq, Repr, Inhabited

namespace Fault

/-- A fault among the characters: reported at the line where the construct started or, if that is
the first line, where it went wrong, counted from 1. -/
def inToken (start here : Mark) (problem : Problem) : Fault where
  line :=
    if start.line ≠ 0 then start.line + 1
    else if here.line ≠ 0 then here.line + 1
    else 0
  problem := problem

/-- A fault among the tokens: reported at the line where the construct started or, if that is the
first line, where it went wrong, counted from 0. -/
def inStructure (start here : Mark) (problem : Problem) : Fault where
  line := if start.line ≠ 0 then start.line else here.line
  problem := problem

/-- The report of a fault. -/
def message (f : Fault) : String :=
  "yaml: " ++ (if f.line = 0 then "" else "line " ++ toString f.line ++ ": ") ++ f.problem.text

end Fault

end Lisplet.Yaml
