import SectScript.Yaml.Feed

/-!
# Documents as trees

Scalars, sequences and mappings, each with the line it begins on. `Tree.ofBytes?` reads the first
document of a text; a text without any content holds none.
-/

namespace SectScript.Yaml

inductive Tree where
  | scalar (line : Nat) (quoted : Bool) (text : Bytes)
  | sequence (line : Nat) (items : List Tree)
  | mapping (line : Nat) (pairs : List (Tree × Tree))

namespace Tree

open Feed

def line : Tree → Nat
  | scalar n _ _ | sequence n _ | mapping n _ => n

/-- A scalar without text, where something was left out. -/
def absent (m : Mark) : Tree := .scalar (m.line + 1) false []

/-- What ends an entry of a block sequence, of one without indentation of its own, and a key or
value of a block mapping. -/
def endsEntry (k : Token.Kind) : Bool := k = .dash || k = .blockEnd

def endsBare (k : Token.Kind) : Bool := k = .dash || k = .key || k = .value || k = .blockEnd

def endsBlock (k : Token.Kind) : Bool := k = .key || k = .value || k = .blockEnd

/-- What ends a key or value within brackets, before the closing one. -/
def endsFlow (closer k : Token.Kind) : Bool := k = .comma || k = closer

/-- The calls were nested more deeply than there are tokens for. -/
def exhausted {α : Type} : Reader α := throw { problem := .tooDeep }

/-- A problem at `m` in what began at `start`. -/
def refuse {α : Type} (problem : Problem) (start m : Mark) : Reader α :=
  throw ⟨problem, start.line, m.line⟩

mutual

/-- A tree. `block` allows a block, `bare` a sequence at the column of the mapping around it. -/
def node : (fuel : Nat) → (block bare : Bool) → Reader Tree
  | 0, _, _ => exhausted
  | fuel + 1, block, bare => do
    let (kind, m) ← peek
    match kind, block, bare with
    | .scalar quoted text, _, _ =>
      clear
      yieldPast (.scalar (m.line + 1) quoted text)
    | .sequenceStart, _, _ =>
      clear
      pause
      skip
      return .sequence (m.line + 1) (← flowItems fuel m true)
    | .mappingStart, _, _ =>
      clear
      pause
      skip
      return .mapping (m.line + 1) (← flowPairs fuel m true)
    | .blockSequenceStart, true, _ =>
      pause
      skip
      return .sequence (m.line + 1) (← blockItems fuel m)
    | .blockMappingStart, true, _ =>
      pause
      skip
      return .mapping (m.line + 1) (← blockPairs fuel m)
    | .dash, _, true =>
      pause
      return .sequence (m.line + 1) (← bareItems fuel)
    | _, _, _ => refuse .missingContent m m

/-- A tree, or nothing at `place` if the next token is one that ends it. -/
def nodeBefore : (fuel : Nat) → (stops : Token.Kind → Bool) → (block bare : Bool) →
    (place : Option Mark) → Reader Tree
  | 0, _, _, _, _ => exhausted
  | fuel + 1, stops, block, bare, place => do
    let (kind, m) ← peek
    if stops kind then yield (absent (place.getD m))
    else node fuel block bare

/-- The entries of a block sequence that began at `start`. -/
def blockItems : (fuel : Nat) → (start : Mark) → Reader (List Tree)
  | 0, _ => exhausted
  | fuel + 1, start => do
    let (kind, m) ← peek
    match kind with
    | .dash =>
      passDash
      let item ← nodeBefore fuel endsEntry true false (some m)
      return item :: (← blockItems fuel start)
    | .blockEnd => yieldPast []
    | _ => refuse .missingEntry start m

/-- The entries of a sequence at the column of the mapping around it. -/
def bareItems : (fuel : Nat) → Reader (List Tree)
  | 0 => exhausted
  | fuel + 1 => do
    let (kind, m) ← peek
    match kind with
    | .dash =>
      passDash
      let item ← nodeBefore fuel endsBare true false (some m)
      return item :: (← bareItems fuel)
    | _ => yield []

/-- The pairs of a block mapping. -/
def blockPairs : (fuel : Nat) → (start : Mark) → Reader (List (Tree × Tree))
  | 0, _ => exhausted
  | fuel + 1, start => do
    let (kind, m) ← peek
    match kind with
    | .key =>
      skip
      let key ← nodeBefore fuel endsBlock true true (some m)
      let value ← valueAfter fuel endsBlock true
      return (key, value) :: (← blockPairs fuel start)
    | .blockEnd =>
      clear
      yieldPast []
    | _ => refuse .missingKey start m

/-- A value, if the mark of one comes next. -/
def valueAfter : (fuel : Nat) → (stops : Token.Kind → Bool) → (block : Bool) → Reader Tree
  | 0, _, _ => exhausted
  | fuel + 1, stops, block => do
    let (kind, m) ← peek
    match kind with
    | .value =>
      skip
      nodeBefore fuel stops block block (if block then some m else none)
    | _ => yield (absent m)

/-- The items of a bracketed sequence; a single pair among them is a mapping. -/
def flowItems : (fuel : Nat) → (start : Mark) → (first : Bool) → Reader (List Tree)
  | 0, _, _ => exhausted
  | fuel + 1, start, first => do
    let (kind, m) ← peek
    if kind = .sequenceEnd then
      clear
      yieldPast []
    else
      if !first then
        if kind != .comma then refuse .unclosedSequence start m
        skip
      let (kind, m) ← peek
      match kind with
      | .sequenceEnd =>
        clear
        yieldPast []
      | .key =>
        skip
        pause
        let pair ← flowPair fuel
        return .mapping (m.line + 1) [pair] :: (← flowItems fuel start false)
      | _ =>
        let item ← node fuel false false
        return item :: (← flowItems fuel start false)

/-- A pair in a bracketed sequence. In place of a key that was left out one token is lost. -/
def flowPair : (fuel : Nat) → Reader (Tree × Tree)
  | 0 => exhausted
  | fuel + 1 => do
    let (kind, m) ← peek
    let key ←
      if kind = .value || endsFlow .sequenceEnd kind then yieldPast (absent m)
      else node fuel false false
    let value ← valueAfter fuel (endsFlow .sequenceEnd) false
    let _ ← peek
    yield (key, value)

/-- The pairs of a bracketed mapping; a key may stand alone. -/
def flowPairs : (fuel : Nat) → (start : Mark) → (first : Bool) → Reader (List (Tree × Tree))
  | 0, _, _ => exhausted
  | fuel + 1, start, first => do
    let (kind, m) ← peek
    if kind = .mappingEnd then
      clear
      yieldPast []
    else
      if !first then
        if kind != .comma then refuse .unclosedMapping start m
        skip
      let (kind, _) ← peek
      match kind with
      | .mappingEnd =>
        clear
        yieldPast []
      | .key =>
        skip
        let stops := fun k => k = .value || endsFlow .mappingEnd k
        let key ← nodeBefore fuel stops false false none
        let value ← valueAfter fuel (endsFlow .mappingEnd) false
        return (key, value) :: (← flowPairs fuel start false)
      | _ =>
        let key ← node fuel false false
        let (_, m) ← peek
        pause
        return (key, absent m) :: (← flowPairs fuel start false)

end

/-- The first document, which must be followed by a token. -/
def document (fuel : Nat) : Reader (Option Tree) := do
  let _ ← peek
  skip
  pause
  let (kind, _) ← peek
  match kind with
  | .streamEnd => yieldPast none
  | .documentStart =>
    skip
    pause
    let stops := fun k => k = .documentStart || k = .documentEnd || k = .streamEnd
    let t ← nodeBefore fuel stops true false none
    let _ ← peek
    yield (some t)
  | _ =>
    separate
    pause
    let t ← node fuel true false
    let _ ← peek
    yield (some t)

/-- The first document of a text. Of four calls in a row one takes up a token, and a character
begins or ends at most four tokens, which bounds the depth. -/
def ofSource? (s : Source) : Except Error (Option Tree) :=
  run (document (16 * s.text.length + 64)) (.ofSource s)

def ofBytes? (s : Bytes) : Except Error (Option Tree) := ofSource? (.ofBytes s)

/-- The text of the problem with a document. -/
def problem? (s : Bytes) : Option Bytes :=
  match ofBytes? s with
  | .error e => some e.text
  | .ok _ => none

example : (ofBytes? (ascii "- a\n- [b, c: d]\n")).toOption.isSome := by decide +kernel
example : problem? (ascii "a: [?]\n# c\n") =
    some (ascii "yaml: line 1: did not find expected ',' or ']'") := by decide +kernel
example : problem? (ascii "# c\n- a\n\x22\x22'x") =
    some (ascii "yaml: line 3: could not find expected ':'") := by decide +kernel

end Tree

end SectScript.Yaml
