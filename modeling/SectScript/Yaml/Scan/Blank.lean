import SectScript.Yaml.Scan

/-!
# Blanks and comments

What stands between tokens. Comments are found by looking ahead at most 512 characters; a bad
portion that is met on the way is passed over.
-/

namespace SectScript.Yaml.Scan

/-! ## Comments -/

/-- Reads a comment up to the end of its line; what is in front of `start` is passed over. The text
is last character first. -/
def restOfLine (start : Nat) : (text : List Char) → List Char → Place →
    Attempt (List Char × Cursor)
  | text, [], p => do return (text, ⟨← p.need 1 [], []⟩)
  | text, c :: cs, p => do
    let p ← p.need 1 (c :: cs)
    if isBreak c then
      if start ≤ p.index then return (text, ⟨p, c :: cs⟩)
      else restOfLine start text cs ((← p.need 2 (c :: cs)).past c)
    else restOfLine start (if start ≤ p.index then c :: text else text) cs (p.step c)

def addComment (c : Comment) : Scanner Unit :=
  modify fun s => { s with comments := c :: s.comments }

/-- How many blanks are in front of a comment on the same line; `ahead` is the text behind `n` of
them. -/
def blanksBeforeComment : (n : Nat) → (ahead : List Char) → Scanner (Option Nat)
  | n, ahead => do
    if Comment.reach ≤ n then return none
    if !(← look (n + 1)) then return none
    match ahead with
    | c :: cs =>
      if isBlank c then blanksBeforeComment (n + 1) cs
      else if c == '#' then return some n
      else return none
    | [] => return none

def lineComment (token : Nat) : Scanner Unit := do
  let p := (← get).cursor.toPlace
  if p.breaks = 0 then
    match ← blanksBeforeComment 0 (← get).cursor.rest with
    | none => return
    | some n =>
      let text ← walk (restOfLine (p.index + n) [])
      addComment
        { kind := .line, text := text.reverse, token
          start := ⟨p.index + n, p.line, p.column + n⟩ }

open Comment

/-- A group of comments in front of the end of a line or text, or of a closing bracket. -/
def groupEnd (s : Surroundings) (sight : Sight) (index : Nat) (g : Group) : Scanner Group := do
  let closer := sight matches .closer
  if g.gap && !closer then return g
  else if g.text.isEmpty then return g
  else if closer || (g.close && g.isFoot s) then
    addComment ((if g.isOutside s then { g with token := g.start.index } else g).foot index)
    return g.afterFoot index
  else if sight matches .ending then return g
  else return { g with text := '\n' :: g.text }

def groupBreak (s : Surroundings) (index : Nat) (g : Group) : Scanner Group := do
  if !g.text.isEmpty && g.column ≤ s.least && g.column != g.start.column then
    addComment (g.foot index)
    return g.afterFoot index
  else return g

/-- Looks over blanks and line ends for a further comment, from `n` characters on; gives also how
far it got and whether it found one. -/
def survey (s : Surroundings) : List Sight → (n : Nat) → Group → Scanner (Group × Nat × Bool)
  | ahead, n, g => do
    if Comment.reach ≤ n then return (g, n, false)
    if !(← look (n + 1)) then return (g, n, false)
    let g := { g with column := g.column + 1 }
    let index := (← get).cursor.index + n
    match ahead with
    | .blank :: ahead => survey s ahead (n + 1) g
    | .newline :: ahead => survey s ahead (n + 1) (← groupEnd s .newline index g).nextLine
    | .hash :: _ => return (← groupBreak s index g, n, true)
    | .other :: _ => return (← groupBreak s index g, n, false)
    | .closer :: _ => return (← groupEnd s .closer index g, n, false)
    | .ending :: _ | [] => return (← groupEnd s .ending index g, n, false)

def passComments (s : Surroundings) : (fuel n : Nat) → Group → Scanner Unit
  | 0, _, _ => return
  | fuel + 1, n, g => do
    let index := (← get).cursor.index + n
    let g := g.begin index
    let text ← walk (restOfLine index g.text)
    let cursor := (← get).cursor
    let ahead := (cursor.rest.take Comment.reach).flatMap (sights s.flow)
    let (g, n, found) ←
      survey s ahead.tail 1 { g with text, gap := false, column := 0, line := cursor.line }
    if found then passComments s fuel n g
    else if !g.text.isEmpty then addComment (g.head (cursor.index + n - 1))

def commentedToken (s : Scan) : Token :=
  let last (n : Nat) := s.tokens.getD (s.tokens.size - n) ⟨.streamStart, {}⟩
  if (last 1).kind = .comma then last 2 else last 1

/-- Where the comments at the cursor stand; the blanks in front of them began at `before`. -/
def surroundings (before : Mark) (s : Scan) : Surroundings :=
  let p := s.cursor.toPlace
  { flow := s.inFlow
    least := s.indents.headD 0
    footLine :=
      if before.line = 0 then none
      else some (p.line + 1 - p.breaks + if p.breaks = 0 && 1 < p.column then 1 else 0)
    afterColon := s.commentedToken.kind = .value }

def ownLineComments (before : Mark) : Scanner Unit := do
  let s ← get
  let p := s.cursor.toPlace
  passComments (s.surroundings before) s.size 0
    { opening := before.index, token := s.commentedToken.mark.index, close := p.breaks ≤ 1
      line := p.line, column := p.column + 1 }

/-! ## Blanks -/

/-- What is left behind one character; a pair of carriage return and line feed is halved. -/
def withoutFirst : List Char → List Char
  | '\r' :: cs => '\n' :: cs
  | cs => cs.tail

/-- While what is at hand began with a byte order mark, the first character of a line is passed as
one. -/
def passMark : Scanner Unit := modify fun s =>
  let c := s.cursor
  if c.column == 0 && c.marked then
    { s with cursor := ⟨c.step (c.rest.headD nothing), withoutFirst c.rest⟩ }
  else s

def passBlanks (tabs : Bool) : List Char → Place → Attempt (Unit × Cursor)
  | [], p => .ok ((), ⟨p, []⟩)
  | c :: cs, p => do
    if c == ' ' || (c == '\t' && tabs) then passBlanks tabs cs (← (p.step c).need 1 cs)
    else return ((), ⟨p, c :: cs⟩)

/-- The last tokens are the beginning of a block sequence and its first dash. -/
def atFirstDash (s : Scan) : Bool :=
  let kind? (n : Nat) : Option Token.Kind :=
    if n ≤ s.tokens.size then s.tokens[s.tokens.size - n]?.map (·.kind) else none
  kind? 2 = some .blockSequenceStart && kind? 1 = some .dash

def turnComment : Scanner Unit := modify fun s =>
  match s.comments with
  | [] => s
  | c :: cs =>
    if s.atFirstDash && !s.cursor.rest.head?.any isBreak then
      { s with comments := c.ahead s.mark :: cs }
    else s

/-- Passes blanks, comments and line ends; `before` is where they began. A line end outside brackets
allows a key, and a tabulator is no blank where a key may begin. -/
def skipBlanks (before : Mark) : (fuel : Nat) → Scanner Unit
  | 0 => return
  | fuel + 1 => do
    need 1
    passMark
    need 1
    let s ← get
    walk (passBlanks (s.inFlow || !s.keyAllowed))
    turnComment
    if (← get).cursor.rest.head? == some '#' then ownLineComments before
    match (← get).cursor.rest with
    | [] => return
    | c :: cs =>
      if isBreak c then
        need 2
        modify fun s =>
          { s with cursor := ⟨s.cursor.past c, cs⟩, keyAllowed := s.keyAllowed || !s.inFlow }
        skipBlanks before fuel

end SectScript.Yaml.Scan
