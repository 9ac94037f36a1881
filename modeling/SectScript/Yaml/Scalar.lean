import SectScript.Yaml.Place

/-!
# The text of scalars

A scalar is plain or stands in single or double quotes, and may run over several lines. Line ends
inside it are folded: one becomes a blank, of more than one all but the first are kept. Texts are
collected last character first. Each function is at a character that is at hand, and asks for those
that it looks at next.
-/

namespace SectScript.Yaml

/-- A line end in a text; only the line and paragraph separators are told apart. -/
def foldedBreak (c : Char) : Char := if c == '\u2028' || c == '\u2029' then c else '\n'

/-- Blanks and line ends between two words of a scalar. -/
inductive Gap where
  | none
  | blanks (reversed : List Char)
  /-- The first line end, unless it was escaped, and those after it. Blanks beside a line end do not
  count. -/
  | broken (first : Option Char) (reversed : List Char)

namespace Gap

def isNone : Gap → Bool
  | none => true
  | _ => false

def isBroken : Gap → Bool
  | broken _ _ => true
  | _ => false

def add (c : Char) : Gap → Gap
  | none => if isBlank c then blanks [c] else broken (some (foldedBreak c)) []
  | blanks cs => if isBlank c then blanks (c :: cs) else broken (some (foldedBreak c)) []
  | broken first cs => if isBlank c then broken first cs else broken first (foldedBreak c :: cs)

/-- What stands for the gap in the text, last character first. -/
def fold : Gap → List Char
  | none => []
  | blanks cs => cs
  | broken Option.none cs => cs
  | broken (some c) cs =>
    if c == '\n' then (if cs.isEmpty then [' '] else cs) else cs ++ [c]

end Gap

def passBlank (c : Char) (cs : List Char) (p : Place) : Attempt Place := do
  let p ← if isBreak c then p.need 2 (c :: cs) else pure p
  (p.past c).need 1 cs

/-- A word inside quotes begins; it must not be the mark of a document. -/
def beginWord (start : Nat) (gap : Gap) (cs : List Char) (p : Place) : Attempt Place := do
  if gap.isNone then return p
  let p ← p.need 4 cs
  if p.column == 0 && isIndicator cs then p.refuse .indicatorInQuotes start cs else return p

def endInQuotes {α : Type} (start : Nat) (p : Place) : Attempt α := do
  (← p.need 4 []).refuse .endInQuotes start []

/-- A text in single quotes, in which a quote is written twice. -/
def single (start : Nat) : (text : List Char) → Gap → List Char → Place →
    Attempt (List Char × Cursor)
  | _, _, [], p => endInQuotes start p
  | text, gap, c :: cs, p => do
    if isBlank c || isBreak c then
      single start text (gap.add c) cs (← passBlank c cs p)
    else
      let p ← beginWord start gap (c :: cs) p
      if c == '\x27' then
        match cs with
        | '\x27' :: cs =>
          single start (c :: (gap.fold ++ text)) .none cs (← ((p.step c).step c).need 2 cs)
        | cs => return (gap.fold ++ text, ⟨p.step c, cs⟩)
      else
        single start (c :: (gap.fold ++ text)) .none cs (← (p.step c).need 2 cs)

def hexDigit? (c : Char) : Option Nat :=
  if '0' ≤ c && c ≤ '9' then some (c.toNat - 48)
  else if 'a' ≤ c && c ≤ 'f' then some (c.toNat - 87)
  else if 'A' ≤ c && c ≤ 'F' then some (c.toNat - 55)
  else none

/-- The character with the code of the first `n` hexadecimal digits. -/
def hexEscape (n : Nat) (cs : List Char) : Except Problem Char :=
  match (cs.take n).mapM hexDigit? with
  | none => .error .missingHexDigit
  | some ds =>
    let code := ds.foldl (fun v d => v * 16 + d) 0
    if ds.length < n then .error .missingHexDigit
    else if (0xD800 ≤ code && code ≤ 0xDFFF) || 0x10FFFF < code then .error .badEscapeCode
    else .ok (Char.ofNat code)

def letterEscape? (c : Char) : Option Char :=
  if c == '0' then some '\x00'
  else if c == 'a' then some '\x07'
  else if c == 'b' then some '\x08'
  else if c == 't' || c == '\t' then some '\t'
  else if c == 'n' then some '\n'
  else if c == 'v' then some '\x0b'
  else if c == 'f' then some '\x0c'
  else if c == 'r' then some '\r'
  else if c == 'e' then some '\x1b'
  else if c == ' ' || c == '\x22' || c == '\x27' || c == '\\' then some c
  else if c == 'N' then some '\u0085'
  else if c == '_' then some '\u00a0'
  else if c == 'L' then some '\u2028'
  else if c == 'P' then some '\u2029'
  else none

def codeLength? (c : Char) : Option Nat :=
  if c == 'x' then some 2
  else if c == 'u' then some 4
  else if c == 'U' then some 8
  else none

/-- The character that an escape stands for, and how many characters behind the letter belong to
it; `p` is the place of the backslash. -/
def escape (start : Nat) (c : Char) (cs : List Char) (p : Place) : Attempt (Char × Nat × Place) :=
  let behind := (p.step '\\').step c
  match letterEscape? c with
  | some d => do return (d, 0, ← behind.need 2 cs)
  | none =>
    match codeLength? c with
    | none => p.refuse .unknownEscape start ('\\' :: c :: cs)
    | some n => do
      let p ← behind.need n cs
      match hexEscape n cs with
      | .error problem => p.refuse problem start cs
      | .ok d => return (d, n, p)

/-- A text in double quotes, with escapes; an escaped line end joins two lines. The first `skip`
characters belong to an escape that has been read. -/
def double (start : Nat) : (skip : Nat) → (text : List Char) → Gap → List Char → Place →
    Attempt (List Char × Cursor)
  | _, _, _, [], p => endInQuotes start p
  | skip + 1, text, gap, c :: cs, p => do
    let p := p.step c
    double start skip text gap cs (← if skip = 0 then p.need 2 cs else pure p)
  | 0, text, gap, c :: cs, p => do
    if isBlank c || isBreak c then
      double start 0 text (gap.add c) cs (← passBlank c cs p)
    else
      let p ← beginWord start gap (c :: cs) p
      let text := gap.fold ++ text
      if c == '\x22' then return (text, ⟨p.step c, cs⟩)
      else if c == '\\' then
        match cs with
        | [] => p.refuse .unknownEscape start [c]
        | d :: cs =>
          if isBreak d then
            let p ← p.need 3 (c :: d :: cs)
            let p ← ((p.step c).past d).need 1 cs
            match cs with
            | '\x22' :: cs => return (text, ⟨p.step '\x22', cs⟩)
            | cs => double start 0 text (.broken none []) cs p
          else
            let (e, skip, p) ← escape start d cs p
            double start skip (e :: text) .none cs p
      else double start 0 (c :: text) .none cs (← (p.step c).need 2 cs)

/-- Where a plain scalar stands: inside brackets or not, and the least column of its further
lines. -/
structure PlainPlace where
  flow : Bool
  least : Nat

def isFlowIndicator (c : Char) : Bool :=
  c == ',' || c == '[' || c == ']' || c == '\x7b' || c == '\x7d'

def PlainPlace.isOutside (place : PlainPlace) (p : Place) : Bool :=
  !place.flow && p.column < place.least

def endsWords (p : Place) (cs : List Char) : Bool :=
  (p.column == 0 && isIndicator cs) || cs.head? == some '#'

def endsPlain (flow : Bool) (c : Char) (cs : List Char) : Bool :=
  (c == ':' && endsWord cs) || (flow && (isFlowIndicator c || c == '?'))

/-- A plain text, whether a line end follows it, and the cursor behind the blanks that follow. -/
def plain (place : PlainPlace) (start : Nat) : (text : List Char) → Gap → List Char → Place →
    Attempt (List Char × Bool × Cursor)
  | text, gap, [], p => do
    let p ← if gap.isNone || place.isOutside p then pure p else p.need 4 []
    return (text, gap.isBroken, ⟨p, []⟩)
  | text, gap, c :: cs, p => do
    if c == '\t' && gap.isBroken && p.column < place.least then
      p.refuse .tabInIndentation start (c :: cs)
    else if isBlank c || isBreak c then
      plain place start text (gap.add c) cs (← passBlank c cs p)
    else if !gap.isNone && place.isOutside p then return (text, gap.isBroken, ⟨p, c :: cs⟩)
    else
      let p ← if gap.isNone then pure p else p.need 4 (c :: cs)
      if (!gap.isNone && endsWords p (c :: cs)) || endsPlain place.flow c cs then
        return (text, gap.isBroken, ⟨p, c :: cs⟩)
      else
        plain place start (c :: (gap.fold ++ text)) .none cs (← (p.step c).need 2 cs)

end SectScript.Yaml
