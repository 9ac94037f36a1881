import SectScript.Yaml.Scan.Next

/-!
# Reading tokens

A reader of trees gets one token after the other, and the text is scanned only as far as needed for
that. Reading pauses behind every scalar and at both ends of every collection: a problem that has
been passed over shows then. Comments in front of a token are collected until they are used.
-/

namespace SectScript.Yaml

structure Feed where
  scan : Scan
  ready : Bool := false
  head : List Char := []

abbrev Reader := EStateM Error Feed

namespace Feed

def scanning {α : Type} (x : Scanner α) : Reader α := fun ⟨scan, ready, head⟩ =>
  match x scan with
  | .ok a scan => .ok a ⟨scan, ready, head⟩
  | .error e scan => .error e ⟨scan, ready, head⟩

/-- The next token takes the comments that belong to it; heads stay with what follows a block. -/
def claim (t : Token) (f : Feed) : Feed :=
  match f.scan.comments with
  | [] => f
  | comments =>
    let (left, head) := Comment.claim t.mark.index (t.kind != .blockEnd) comments.reverse f.head
    { f with scan := { f.scan with comments := left.reverse }, head }

def peek : Reader (Token.Kind × Mark) := do
  if !(← get).ready then
    scanning Scan.prepare
    modify fun f => { f with ready := true }
  let t := (← get).scan.front
  modify (·.claim t)
  return (t.kind, t.mark)

/-- The next token, if there is no problem with it; otherwise the problem is passed over. -/
def peek? : Reader (Option Token.Kind) := fun f =>
  match peek f with
  | .ok (kind, _) f => .ok (some kind) f
  | .error e f => .ok none { f with scan := f.scan.keep e }

def skip : Reader Unit := modify fun f => { f with scan := f.scan.give, ready := false }

def clear : Reader Unit := modify fun f => { f with head := [] }

def pause : Reader Unit := do
  match (← get).scan.kept with
  | some e => throw e
  | none => return

def yield {α : Type} (a : α) : Reader α := do
  pause
  return a

def yieldPast {α : Type} (a : α) : Reader α := do
  skip
  yield a

/-- What is left of a text behind its last empty line. -/
def afterGap? : List Char → Option (List Char)
  | [] => none
  | a :: s =>
    (afterGap? s).or
      (match s with
        | b :: s => if a == '\n' && b == '\n' then some s else none
        | [] => none)

/-- Of the comments in front of a document, only those right in front belong to its first node. -/
def separate : Reader Unit := modify fun f =>
  { f with head := if f.head.getLast? = some '\n' then [] else (afterGap? f.head).getD f.head }

/-- Passes a dash. If there are comments in front of it, a look at the next token tells whether they
belong to the entry alone, in which case a block behind the dash does not get them. -/
def passDash : Reader Unit := do
  let n := (← get).head.length
  skip
  if 0 < n then
    match ← peek? with
    | some .blockSequenceStart | some .blockMappingStart =>
      modify fun f => { f with head := f.head.drop (n + 1) }
    | _ => return

/-- The outcome for a text. A problem of its bytes takes the place of one that has been passed
over. -/
def run {α : Type} (x : Reader α) (s : Scan) : Except Error α :=
  match x { scan := s } with
  | .ok a _ => .ok a
  | .error e f => .error (e.behind f.scan.kept)

end Feed

end SectScript.Yaml
