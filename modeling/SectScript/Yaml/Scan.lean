import SectScript.Yaml.Comment
import SectScript.Yaml.Token

/-!
# Reading a text as tokens

The state of a scanner, and what all of its steps are made of. There is one candidate for each depth
of brackets, and one column for each open block. A reader of the tokens stays two behind those that
it is given and waits at a candidate, so that the key can be announced in front of it. A step that
fails leaves the state as it was when the problem showed; problems that are passed over are kept.
-/

namespace SectScript.Yaml

structure Scan where
  cursor : Cursor
  size : Nat
  tokens : Array Token := #[]
  given : Nat := 0
  outer : Array Candidate := #[]
  candidate : Candidate := {}
  /-- The tokens at which a reader waits, each with the depth of brackets of its candidate. -/
  awaited : List (Nat × Nat) := []
  indents : List Nat := []
  depth : Nat := 0
  keyAllowed : Bool := true
  comments : List Comment := []
  kept : Option Error := none

abbrev Scanner := EStateM Error Scan

namespace Scan

def ofSource (s : Source) : Scan := { cursor := .ofSource s, size := s.text.length }

def flowDepth (s : Scan) : Nat := s.outer.size

def inFlow (s : Scan) : Bool := 0 < s.flowDepth

def mark (s : Scan) : Mark := s.cursor.toMark

def keep (e : Error) (s : Scan) : Scan := { s with kept := some (e.behind s.kept) }

def emit (kind : Token.Kind) (mark : Mark) (s : Scan) : Scan :=
  { s with tokens := s.tokens.push ⟨kind, mark⟩ }

/-- A token in front of the one with the given number, or behind all if that has been given. -/
def insert (number : Nat) (t : Token) (s : Scan) : Scan :=
  if number < s.given then { s with tokens := s.tokens.push t }
  else { s with tokens := s.tokens.insertIdxIfInBounds number t }

def release (number : Nat) (s : Scan) : Scan :=
  { s with awaited := s.awaited.filter fun a => a.1 != number }

/-! ## Steps -/

def walk {α : Type} (f : List Char → Place → Attempt (α × Cursor)) : Scanner α := fun s =>
  match f s.cursor.rest s.cursor.toPlace with
  | .ok (a, cursor) => .ok a { s with cursor }
  | .error (e, cursor) => .error e { s with cursor }

/-- A problem at the cursor with what began at `start`. -/
def refuse {α : Type} (problem : Problem) (start : Mark) : Scanner α := fun s =>
  .error ⟨problem, start.line, s.cursor.line⟩ s

def need (n : Nat) : Scanner Unit := walk fun rest p => do return ((), ⟨← p.need n rest, rest⟩)

/-- Asks for characters that may be missing; the problem is passed over. -/
def look (n : Nat) : Scanner Bool := fun s =>
  match s.cursor.request n s.cursor.rest with
  | (p, none) => .ok true { s with cursor := ⟨p, s.cursor.rest⟩ }
  | (p, some problem) => .ok false ({ s with cursor := ⟨p, s.cursor.rest⟩ }.keep { problem })

/-- Moves over the next character, which does not end the line. -/
def advance (s : Scan) : Scan :=
  { s with cursor := ⟨s.cursor.step (s.cursor.rest.headD nothing), s.cursor.rest.tail⟩ }

def indicator (kind : Token.Kind) : Scanner Unit := modify fun s => (s.emit kind s.mark).advance

end Scan

end SectScript.Yaml
