import LineScript.Number.Decimal

/-!
# What can be wrong with a document

Settings are written in YAML. A document can be wrong in its characters, in its tokens, in their order,
or in what its nodes stand for. Messages about tokens and their order name a line, but never the first
one, and the two kinds count lines differently.
-/

namespace LineScript.Yaml

/-- What can be wrong with a document. -/
inductive Trouble where
  -- characters
  | controlCharacter | invalidLead | incompleteCharacter | invalidTrail | invalidLength
  | invalidCharacter
  -- tokens
  | cannotStart | mappingNotAllowed | keyNotAllowed | sequenceNotAllowed | expectedColon
  | unexpectedEnd | documentIndicator | unknownEscape | hexDigits | invalidEscape | tabIndentation
  | tabInBlock | zeroIndentation | expectedLineEnd | expectedName | expectedTagEnd | expectedTagUri
  | expectedAngle | expectedOctet | invalidOctetLead | invalidOctetTrail | expectedDirectiveName
  | unexpectedInDirective | unknownDirective | expectedVersion | longVersion | expectedVersionDot
  | expectedHandle | expectedBlank | tooDeep
  -- their order
  | expectedDocumentStart | expectedNode | expectedKey | expectedDash | expectedMappingEnd
  | expectedSequenceEnd | undefinedHandle | duplicateVersion | incompatibleVersion | duplicateHandle
  -- what nodes stand for
  | unknownAnchor (name : Bytes)
  | containsItself (name : Bytes)
  | undecodable (tag text wanted : Bytes)
  | invalidBinary
  | mergeValue
  deriving DecidableEq, Repr

/-- The text of a trouble. -/
def Trouble.text : Trouble → Bytes
  | controlCharacter => bytes "control characters are not allowed"
  | invalidLead => bytes "invalid leading UTF-8 octet"
  | incompleteCharacter => bytes "incomplete UTF-8 octet sequence"
  | invalidTrail => bytes "invalid trailing UTF-8 octet"
  | invalidLength => bytes "invalid length of a UTF-8 sequence"
  | invalidCharacter => bytes "invalid Unicode character"
  | cannotStart => bytes "found character that cannot start any token"
  | mappingNotAllowed => bytes "mapping values are not allowed in this context"
  | keyNotAllowed => bytes "mapping keys are not allowed in this context"
  | sequenceNotAllowed => bytes "block sequence entries are not allowed in this context"
  | expectedColon => bytes "could not find expected ':'"
  | unexpectedEnd => bytes "found unexpected end of stream"
  | documentIndicator => bytes "found unexpected document indicator"
  | unknownEscape => bytes "found unknown escape character"
  | hexDigits => bytes "did not find expected hexdecimal number"
  | invalidEscape => bytes "found invalid Unicode character escape code"
  | tabIndentation => bytes "found a tab character that violates indentation"
  | tabInBlock => bytes "found a tab character where an indentation space is expected"
  | zeroIndentation => bytes "found an indentation indicator equal to 0"
  | expectedLineEnd => bytes "did not find expected comment or line break"
  | expectedName => bytes "did not find expected alphabetic or numeric character"
  | expectedTagEnd => bytes "did not find expected whitespace or line break"
  | expectedTagUri => bytes "did not find expected tag URI"
  | expectedAngle => bytes "did not find the expected '>'"
  | expectedOctet => bytes "did not find URI escaped octet"
  | invalidOctetLead => bytes "found an incorrect leading UTF-8 octet"
  | invalidOctetTrail => bytes "found an incorrect trailing UTF-8 octet"
  | expectedDirectiveName => bytes "could not find expected directive name"
  | unexpectedInDirective => bytes "found unexpected non-alphabetical character"
  | unknownDirective => bytes "found unknown directive name"
  | expectedVersion => bytes "did not find expected version number"
  | longVersion => bytes "found extremely long version number"
  | expectedVersionDot => bytes "did not find expected digit or '.' character"
  | expectedHandle => bytes "did not find expected '!'"
  | expectedBlank => bytes "did not find expected whitespace"
  | tooDeep => bytes "exceeded max depth of 10000"
  | expectedDocumentStart => bytes "did not find expected <document start>"
  | expectedNode => bytes "did not find expected node content"
  | expectedKey => bytes "did not find expected key"
  | expectedDash => bytes "did not find expected '-' indicator"
  | expectedMappingEnd => bytes "did not find expected ',' or '\x7d'"
  | expectedSequenceEnd => bytes "did not find expected ',' or ']'"
  | undefinedHandle => bytes "found undefined tag handle"
  | duplicateVersion => bytes "found duplicate %YAML directive"
  | incompatibleVersion => bytes "found incompatible YAML document"
  | duplicateHandle => bytes "found duplicate %TAG directive"
  | unknownAnchor name => bytes "unknown anchor '" ++ name ++ bytes "' referenced"
  | containsItself name => bytes "anchor '" ++ name ++ bytes "' value contains itself"
  | undecodable tag text wanted =>
    bytes "cannot decode " ++ tag ++ bytes " `" ++ text ++ bytes "` as a " ++ wanted
  | invalidBinary => bytes "!!binary value contains invalid base64 data"
  | mergeValue => bytes "map merge requires map or sequence of maps as the value"

/-- A trouble with the number of the line that its message names, if it names one. -/
structure Problem where
  /-- What is wrong. -/
  trouble : Trouble
  /-- The line that the message names. -/
  line : Option Nat := none
  deriving DecidableEq, Repr

namespace Problem

/-- The message of a problem. -/
def message (p : Problem) : Bytes :=
  match p.line with
  | none => p.trouble.text
  | some line => bytes "line " ++ decimal line ++ bytes ": " ++ p.trouble.text

/-- The line to name, of two that count from zero: where the construct began, or where it went wrong if
it began in the first line; the first line is not named. -/
def namedLine (began wrong : Nat) : Option Nat :=
  if began ≠ 0 then some began else if wrong ≠ 0 then some wrong else none

/-- A problem with a token: the named line counts from one. -/
def lexical (trouble : Trouble) (began wrong : Nat) : Problem :=
  ⟨trouble, (namedLine began wrong).map (· + 1)⟩

/-- A problem with the order of tokens: the named line counts from zero. -/
def structural (trouble : Trouble) (began wrong : Nat) : Problem :=
  ⟨trouble, namedLine began wrong⟩

end Problem

end LineScript.Yaml
