import SectScript.Text.Decimal

/-!
# Problems of a settings document

Why a text is not a document, from its bytes up to its structure, and where. A problem has up to two
places: where it showed and where the part began that it is in. The beginning is named unless it is
on the first line; a problem whose places are both on the first line is reported without a line. A
problem of the bytes has no place of its own, but takes over those of a problem before it.
-/

namespace SectScript.Yaml

/-- A place in a text, counted from zero in characters. -/
structure Mark where
  /-- How many characters are in front of it in the whole text. -/
  index : Nat := 0
  line : Nat := 0
  column : Nat := 0
  deriving DecidableEq

/-- What a problem is one of. -/
inductive Stage where
  | bytes
  | tokens
  | trees
  deriving DecidableEq

inductive Problem where
  -- bytes
  | leadingOctet
  | incompleteOctets
  | trailingOctet
  | octetLength
  | noCharacter
  | incompleteUnit
  | incompletePair
  | loneLowSurrogate
  | missingLowSurrogate
  | control
  -- tokens
  | missingColon
  | misplacedEntry
  | misplacedKey
  | misplacedValue
  | strayCharacter
  | indicatorInQuotes
  | endInQuotes
  | unknownEscape
  | missingHexDigit
  | badEscapeCode
  | tabInIndentation
  | tooDeep
  -- trees
  | missingKey
  | missingEntry
  | unclosedSequence
  | unclosedMapping
  | missingContent
  deriving DecidableEq

def Problem.text : Problem → Bytes
  | leadingOctet => ascii "invalid leading UTF-8 octet"
  | incompleteOctets => ascii "incomplete UTF-8 octet sequence"
  | trailingOctet => ascii "invalid trailing UTF-8 octet"
  | octetLength => ascii "invalid length of a UTF-8 sequence"
  | noCharacter => ascii "invalid Unicode character"
  | incompleteUnit => ascii "incomplete UTF-16 character"
  | incompletePair => ascii "incomplete UTF-16 surrogate pair"
  | loneLowSurrogate => ascii "unexpected low surrogate area"
  | missingLowSurrogate => ascii "expected low surrogate area"
  | control => ascii "control characters are not allowed"
  | missingColon => ascii "could not find expected ':'"
  | misplacedEntry => ascii "block sequence entries are not allowed in this context"
  | misplacedKey => ascii "mapping keys are not allowed in this context"
  | misplacedValue => ascii "mapping values are not allowed in this context"
  | strayCharacter => ascii "found character that cannot start any token"
  | indicatorInQuotes => ascii "found unexpected document indicator"
  | endInQuotes => ascii "found unexpected end of stream"
  | unknownEscape => ascii "found unknown escape character"
  | missingHexDigit => ascii "did not find expected hexdecimal number"
  | badEscapeCode => ascii "found invalid Unicode character escape code"
  | tabInIndentation => ascii "found a tab character that violates indentation"
  | tooDeep => ascii "exceeded max depth of 10000"
  | missingKey => ascii "did not find expected key"
  | missingEntry => ascii "did not find expected '-' indicator"
  | unclosedSequence => ascii "did not find expected ',' or ']'"
  | unclosedMapping => ascii "did not find expected ',' or '\x7d'"
  | missingContent => ascii "did not find expected node content"

def Problem.stage : Problem → Stage
  | leadingOctet | incompleteOctets | trailingOctet | octetLength | noCharacter | incompleteUnit
  | incompletePair | loneLowSurrogate | missingLowSurrogate | control => .bytes
  | missingKey | missingEntry | unclosedSequence | unclosedMapping | missingContent => .trees
  | _ => .tokens

/-- A problem, with the lines of the beginning and of the problem itself, counted from zero. -/
structure Error where
  problem : Problem
  start : Nat := 0
  line : Nat := 0
  deriving DecidableEq

namespace Error

/-- The error behind one that has been kept in mind. -/
def behind (e : Error) (kept : Option Error) : Error :=
  match e.problem.stage, kept with
  | .bytes, some k => { k with problem := e.problem }
  | _, _ => e

/-- The line to name. Only problems with tokens count lines from one. -/
def namedLine (e : Error) : Option Nat :=
  let n := if e.start = 0 then e.line else e.start
  if n = 0 then none else some (if e.problem.stage = .tokens then n + 1 else n)

def text (e : Error) : Bytes :=
  ascii "yaml: " ++
    (match e.namedLine with
      | some n => ascii "line " ++ Decimal.ofNat n ++ ascii ": "
      | none => []) ++
    e.problem.text

end Error

end SectScript.Yaml
