import SectScript.Yaml.Source

/-!
# Places in a text

A reader goes through a text character by character and asks for a number of characters to be at
hand before it looks at them. Portions are loaded when they are asked for, so a bad portion is found
only then. Behind the end of the text there is always `nothing` to be had, one more character.
Whoever meets a problem stays where it showed, so that reading can go on from there.
-/

namespace SectScript.Yaml

def isBlank (c : Char) : Bool := c == ' ' || c == '\t'

/-- Line ends of which the code takes more than one octet; only the first is seen as a line end when
looking for further comments. -/
def isWideBreak (c : Char) : Bool := c == '\u0085' || c == '\u2028' || c == '\u2029'

def isBreak (c : Char) : Bool := c == '\n' || c == '\r' || isWideBreak c

def endsWord : List Char → Bool
  | [] => true
  | c :: _ => isBlank c || isBreak c

/-- The mark of a document's beginning or end, which counts at the start of a line only. -/
def isIndicator : List Char → Bool
  | '-' :: '-' :: '-' :: rest => endsWord rest
  | '.' :: '.' :: '.' :: rest => endsWord rest
  | _ => false

def width (c : Char) : Nat := if c == '\r' then 2 else 1

def byteOrderMark : Char := '\ufeff'

def nothing : Char := '\x00'

structure Place extends Mark where
  /-- Line ends since the last character that is no blank. -/
  breaks : Nat := 0
  /-- Characters at hand, those behind the end included. -/
  held : Nat := 0
  /-- What was at hand after the last loading began with a byte order mark. -/
  marked : Bool := false
  portions : List Nat := []
  failure : Option Failure := none

structure Cursor extends Place where
  rest : List Char

abbrev Attempt := Except (Error × Cursor)

namespace Place

def load (n : Nat) : (held : Nat) → (portions : List Nat) → Nat × List Nat
  | held, [] => (held, [])
  | held, size :: sizes => if n ≤ held then (held, size :: sizes) else load n (held + size) sizes

/-- Asks for `n` characters; `rest` is the text from here on. In front of a bad portion the request
fails, and the good characters of that portion are at hand from then on. -/
def request (n : Nat) (rest : List Char) (p : Place) : Place × Option Problem :=
  if n ≤ p.held then (p, none)
  else
    let (held, portions) := load n p.held p.portions
    let p := { p with held, portions, marked := rest.head? == some byteOrderMark }
    if n ≤ held then (p, none)
    else
      match p.failure with
      | none => ({ p with held := held + 1 }, none)
      | some f =>
        ({ p with held := held + f.before, failure := some ⟨f.problem, 0⟩ }, some f.problem)

def need (n : Nat) (rest : List Char) (p : Place) : Attempt Place :=
  match p.request n rest with
  | (p, none) => .ok p
  | (p, some problem) => .error ({ problem }, ⟨p, rest⟩)

def refuse {α : Type} (problem : Problem) (start : Nat) (rest : List Char) (p : Place) :
    Attempt α :=
  .error (⟨problem, start, p.line⟩, ⟨p, rest⟩)

def step (c : Char) (p : Place) : Place :=
  { p with
    index := p.index + 1
    column := p.column + 1
    held := p.held - 1
    breaks := if isBlank c then p.breaks else 0 }

def past (c : Char) (p : Place) : Place :=
  if isBreak c then
    { p with
      index := p.index + width c
      line := p.line + 1
      column := 0
      held := p.held - width c
      breaks := p.breaks + 1 }
  else p.step c

end Place

def Cursor.ofSource (s : Source) : Cursor :=
  { rest := s.text, portions := s.portions, failure := s.failure }

end SectScript.Yaml
