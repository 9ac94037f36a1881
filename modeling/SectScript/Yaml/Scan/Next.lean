import SectScript.Text.Utf8
import SectScript.Yaml.Scalar
import SectScript.Yaml.Scan.Blank

/-!
# The next token

Indentation opens and closes blocks, and brackets switch it off. A candidate at the column of the
enclosing block must turn out to be a key.
-/

namespace SectScript.Yaml.Scan

def maxDepth : Nat := 10000

/-! ## Candidates -/

def setCandidate (k : Candidate) : Scanner Unit := modify fun s => { s with candidate := k }

/-- The candidate of these brackets did not become a key. -/
def dropKey : Scanner Unit := do
  let k := (← get).candidate
  if k.possible then
    if k.required then refuse .missingColon k.mark
    modify fun s => { s with candidate := { k with possible := false } }.release k.number

def saveKey : Scanner Unit := do
  if (← get).keyAllowed then
    dropKey
    modify fun s =>
      let k : Candidate :=
        { possible := true
          required := !s.inFlow && s.indents.head? == some s.cursor.column
          number := s.tokens.size
          mark := s.mark }
      { s with candidate := k, awaited := (k.number, s.flowDepth) :: s.awaited }

def allowKey (allowed : Bool) : Scanner Unit := modify fun s => { s with keyAllowed := allowed }

/-! ## Blocks -/

/-- Opens a block at a column further right than the open ones; `number` is the token before which
the block begins, if not behind all. -/
def openBlock (number : Option Nat) (t : Token) : Scanner Unit := do
  let s ← get
  if !s.inFlow && !s.indents.head?.any (t.mark.column ≤ ·) then
    set { s with indents := t.mark.column :: s.indents, depth := s.depth + 1 }
    if maxDepth < (← get).depth then refuse .tooDeep (← get).candidate.mark
    match number with
    | none => modify (·.emit t.kind t.mark)
    | some n => modify (·.insert n t)

/-- Closes the blocks of the listed columns as long as `outside` says so; they end at `m`, or with a
comment of their own behind that. -/
def closeWhile (outside : Nat → Bool) : List Nat → (m : Mark) → Scan → Scan
  | [], _, s => s
  | column :: columns, m, s =>
    if outside column then
      let m := Comment.blockEnd column s.comments m.index m
      closeWhile outside columns m
        ({ s with indents := columns, depth := s.depth - 1 }.emit .blockEnd m)
    else s

/-- Closes blocks in front of the blanks that began at `before`. -/
def closeBlocks (outside : Nat → Bool) (before : Mark) : Scanner Unit := modify fun s =>
  if s.inFlow then s
  else closeWhile outside s.indents { before with index := before.index - 1 } s

/-! ## Single tokens -/

/-- Opens brackets. They have no candidate yet, but keep the number of the token that opens them. -/
def openFlow (kind : Token.Kind) : Scanner Unit := do
  saveKey
  modify fun s =>
    { s with
      outer := s.outer.push s.candidate
      candidate := { number := s.tokens.size, mark := s.mark } }
  if maxDepth < (← get).flowDepth then refuse .tooDeep (← get).mark
  allowKey true
  indicator kind

/-- Leaves the innermost brackets. If they never had a candidate, a reader does not wait any more at
the token that opened them. -/
def leaveFlow : Scanner Unit := modify fun s =>
  match s.outer.back? with
  | some k =>
    let s := s.release s.candidate.number
    { s with outer := s.outer.pop, candidate := k }
  | none => s

def closeFlow (kind : Token.Kind) : Scanner Unit := do
  dropKey
  leaveFlow
  allowKey false
  indicator kind

def comma : Scanner Unit := do
  dropKey
  allowKey true
  indicator .comma

def blockIndicator (refusal : Problem) (block : Token.Kind) : Scanner Unit := do
  let s ← get
  if !s.inFlow then
    if !s.keyAllowed then refuse refusal s.mark
    openBlock none ⟨block, s.mark⟩

def dash : Scanner Unit := do
  blockIndicator .misplacedEntry .blockSequenceStart
  dropKey
  allowKey true
  indicator .dash

def key : Scanner Unit := do
  blockIndicator .misplacedKey .blockMappingStart
  dropKey
  allowKey !(← get).inFlow
  indicator .key

/-- A colon behind a candidate: the candidate is a key, and a block may begin with it. -/
def valueOf (k : Candidate) : Scanner Unit := do
  modify (·.insert k.number ⟨.key, k.mark⟩)
  openBlock (some k.number) ⟨.blockMappingStart, k.mark⟩
  modify fun s => { s with candidate := { k with possible := false } }.release k.number
  allowKey false
  indicator .value

def bareValue : Scanner Unit := do
  blockIndicator .misplacedValue .blockMappingStart
  allowKey !(← get).inFlow
  indicator .value

def value : Scanner Unit := do
  let s ← get
  let k := s.candidate
  if !k.possible then bareValue
  else if !k.isStale s.mark then valueOf k
  else
    if k.required then refuse .missingColon k.mark
    setCandidate { k with possible := false }
    bareValue

/-- Emits the scalar that began at `start`; `reversed` is its text. -/
def emitScalar (quoted : Bool) (start : Mark) (reversed : List Char) : Scanner Unit :=
  modify (·.emit (.scalar quoted (reversed.reverse.flatMap fun c => Utf8.encode c.toNat)) start)

/-- A scalar that `read` finishes, behind the opening quote. -/
def quotedScalar
    (read : (start : Nat) → List Char → Place → Attempt (List Char × Cursor)) : Scanner Unit := do
  saveKey
  allowKey false
  let start := (← get).mark
  modify advance
  need 4
  emitScalar true start (← walk (read start.line))

def plainScalar : Scanner Unit := do
  saveKey
  allowKey false
  need 4
  let s ← get
  let start := s.mark
  let place : PlainPlace := ⟨s.inFlow, s.indents.head?.elim 0 (· + 1)⟩
  let (text, broken) ← walk fun rest p => do
    let (text, broken, cursor) ← plain place start.line [] .none rest p
    return ((text, broken), cursor)
  emitScalar false start text
  allowKey broken

def isReserved (c : Char) : Bool :=
  isBlank c || isFlowIndicator c || "#&*!|>'\"%@\x60".toList.contains c

def token (c : Char) (cs : List Char) : Scanner Unit := do
  let flow := (← get).inFlow
  if c == '[' then openFlow .sequenceStart
  else if c == '\x7b' then openFlow .mappingStart
  else if c == ']' then closeFlow .sequenceEnd
  else if c == '\x7d' then closeFlow .mappingEnd
  else if c == ',' then comma
  else if c == '-' && endsWord cs then dash
  else if c == '?' && (flow || endsWord cs) then key
  else if c == ':' && (flow || endsWord cs) then value
  else if c == '\x27' then quotedScalar fun start => single start [] .none
  else if c == '\x22' then quotedScalar fun start => double start 0 [] .none
  else if isReserved c then refuse .strayCharacter (← get).mark
  else plainScalar

def lastMark (s : Scan) : Mark := (s.tokens.back?.map (·.mark)).getD {}

def hasLast (kind : Token.Kind) (s : Scan) : Bool := s.tokens.back?.any fun t => t.kind = kind

/-- The token that begins with `c`, and the comment that belongs to it, or to the token before if
`c` divides. -/
def commentedBy (c : Char) (cs : List Char) : Scanner Unit := do
  let s ← get
  let divides := c == (if s.inFlow then ',' else ':')
  let commented := if divides then s.lastMark.index else s.cursor.index
  token c cs
  if !(← get).hasLast .dash then lineComment commented

/-- The end of the text begins a new line, which closes all blocks. -/
def finish : Scanner Unit := do
  modify fun s =>
    if s.cursor.column = 0 then s
    else { s with cursor := { s.cursor with line := s.cursor.line + 1, column := 0 } }
  let m := (← get).mark
  closeBlocks (fun _ => true) m
  dropKey
  allowKey false
  modify (·.emit .streamEnd m)

def documentMark (kind : Token.Kind) : Scanner Unit := do
  closeBlocks (fun _ => true) (← get).mark
  dropKey
  allowKey false
  indicator kind
  modify (·.advance.advance)

/-- The next token, with the ends of blocks in front of it. -/
def next : Scanner Unit := do
  need 1
  if (← get).tokens.isEmpty then modify (·.emit .streamStart {})
  else
    let before := (← get).mark
    skipBlanks before ((← get).size + 1)
    let column := (← get).cursor.column
    closeBlocks (column < ·) before
    need 4
    match (← get).cursor.rest with
    | [] => finish
    | c :: cs =>
      if column = 0 && isIndicator (c :: cs) then
        documentMark (if c == '-' then .documentStart else .documentEnd)
      else commentedBy c cs

/-! ## Giving tokens -/

def lookahead : Nat := 2

def keyAt? (depth : Nat) (s : Scan) : Option Candidate :=
  if depth = s.flowDepth then some s.candidate else s.outer[depth]?

def awaitedKey? (s : Scan) : Option (Nat × Candidate) :=
  match s.awaited.find? fun a => a.1 == s.given with
  | none => none
  | some (_, depth) => (s.keyAt? depth).map (depth, ·)

def setKey (depth : Nat) (k : Candidate) (s : Scan) : Scan :=
  if depth = s.flowDepth then { s with candidate := k }
  else { s with outer := s.outer.setIfInBounds depth k }

/-- Whether a reader can have its next token, or more has to be known first. -/
def isReady : Scanner Bool := do
  let s ← get
  if !s.hasLast .streamEnd && s.tokens.size ≤ s.given + lookahead then return false
  match s.awaitedKey? with
  | none => return true
  | some (depth, k) =>
    if !k.possible then return true
    if !k.isStale s.mark then return false
    if k.required then refuse .missingColon k.mark
    modify (·.setKey depth { k with possible := false })
    return true

/-- Goes on until a reader can have its next token. Each step takes up a character or ends the
text. -/
def prepareWithin : (fuel : Nat) → Scanner Unit
  | 0 => return
  | fuel + 1 => do
    if !(← isReady) then
      next
      prepareWithin fuel

def prepare : Scanner Unit := do prepareWithin ((← get).size + 4)

/-- The token that a reader gets next; behind all others there is the end of the stream. -/
def front (s : Scan) : Token := s.tokens.getD s.given ⟨.streamEnd, {}⟩

def give (s : Scan) : Scan := { s.release s.given with given := s.given + 1 }

end SectScript.Yaml.Scan
