import SectScript.Yaml.Place

/-!
# Comments

Comments do not change what a document says, but where the blocks in front of them end. A comment on
the line of a token belongs to that token. Comments on lines of their own, where columns are counted
from one, are read together in a group: they are the head of what follows, or the foot of what comes
before if they stand close to it (there has been no empty line yet), further left, or in front of a
closing bracket. The text of a group is collected last character first.
-/

namespace SectScript.Yaml

inductive Comment.Kind where
  | head
  | line
  | foot
  deriving DecidableEq

structure Comment where
  kind : Comment.Kind
  text : List Char
  /-- Where the token begins that it belongs to. -/
  token : Nat
  start : Mark
  /-- Where the blanks around it begin and end, if it stands on a line of its own. -/
  opening : Nat := 0
  closing : Nat := 0

namespace Comment

def reach : Nat := 512

/-- Where a block at `column` ends that is closed behind the given comments, last first: with the
first of them that stands at its column. `m` is the end without comments. -/
def blockEnd (column : Nat) : List Comment → (least : Nat) → (m : Mark) → Mark
  | [], _, m => m
  | c :: cs, least, m =>
    if c.closing < least then m
    else blockEnd column cs c.opening (if c.start.column = column + 1 then c.start else m)

/-- A line comment behind the first dash of a sequence is the head of what follows at `m`; from the
line before it belongs to what is there. -/
def ahead (m : Mark) (c : Comment) : Comment :=
  if c.kind = .line then
    { c with kind := .head, token := if c.start.line + 1 = m.line then m.index else c.token }
  else c

/-- The comments, first first, that belong to a token at `index` or before it are left behind, and
those that are heads are put below `head`. Heads wait if they cannot belong to the token. -/
def claim (index : Nat) (heads : Bool) : List Comment → (head : List Char) →
    List Comment × List Char
  | [], head => ([], head)
  | c :: cs, head =>
    if index < c.token || (c.kind = .head && !heads) then (c :: cs, head)
    else if c.kind = .head then
      claim index heads cs (if head.isEmpty then c.text else head ++ '\n' :: c.text)
    else claim index heads cs head

/-! ## Looking ahead -/

inductive Sight where
  | blank
  | newline
  | closer
  | hash
  | other
  | ending

/-- A character as it is seen, octet by octet. -/
def sights (flow : Bool) (c : Char) : List Sight :=
  if isBlank c then [.blank]
  else if c == '\n' then [.newline]
  else if c == '\r' then [.newline, .newline]
  else if isWideBreak c then [.newline, .other]
  else if flow && (c == ']' || c == '\x7d') then [.closer]
  else if c == '#' then [.hash]
  else [.other]

structure Surroundings where
  flow : Bool
  least : Nat
  /-- A comment on this line may be a foot. -/
  footLine : Option Nat
  afterColon : Bool

structure Group where
  opening : Nat
  token : Nat
  text : List Char := []
  start : Mark := {}
  close : Bool
  gap : Bool := false
  line : Nat
  column : Nat

namespace Group

/-- Further left than the block around it. -/
def isOutside (s : Surroundings) (g : Group) : Bool := g.start.column ≤ s.least

def isFoot (s : Surroundings) (g : Group) : Bool :=
  (s.footLine = some g.start.line && !s.afterColon) || g.isOutside s

def foot (index : Nat) (g : Group) : Comment :=
  { kind := .foot, text := g.text.reverse, token := g.token, start := g.start,
    opening := g.opening, closing := index }

def afterFoot (index : Nat) (g : Group) : Group :=
  { g with opening := index, token := index, text := [] }

def head (index : Nat) (g : Group) : Comment :=
  { kind := .head, text := g.text.reverse, token := g.start.index, start := g.start,
    opening := g.opening, closing := index }

def begin (index : Nat) (g : Group) : Group :=
  if g.text.isEmpty then { g with start := ⟨index, g.line, g.column⟩ }
  else { g with text := '\n' :: g.text }

def nextLine (g : Group) : Group :=
  { g with close := false, gap := true, column := 0, line := g.line + 1 }

end Group

end Comment

end SectScript.Yaml
