import SectScript.Yaml.Problem

/-!
# Tokens

The indicators of a document, the blocks that its indentation forms, and its scalars. A scalar or
bracket may turn out to be a mapping key only when the colon behind it is met, on the same line and
within 1024 characters; until then it is a candidate.
-/

namespace SectScript.Yaml

inductive Token.Kind where
  | streamStart
  | streamEnd
  | documentStart
  | documentEnd
  | blockSequenceStart
  | blockMappingStart
  | blockEnd
  | sequenceStart
  | sequenceEnd
  | mappingStart
  | mappingEnd
  | dash
  | comma
  | key
  | value
  | scalar (quoted : Bool) (text : Bytes)
  deriving DecidableEq

structure Token where
  kind : Token.Kind
  mark : Mark

/-- A token that may turn out to be a key. -/
structure Candidate where
  possible : Bool := false
  required : Bool := false
  /-- How many tokens were before it. -/
  number : Nat := 0
  mark : Mark := {}

/-- A colon further away does not make a key. -/
def keyReach : Nat := 1024

/-- A colon at `m` is too far away. -/
def Candidate.isStale (k : Candidate) (m : Mark) : Bool :=
  k.mark.line < m.line || k.mark.index + keyReach < m.index

end SectScript.Yaml
