import SectScript.Error
import SectScript.Node
import SectScript.Text.Blank
import SectScript.Value

/-!
# Statements

A line is classified each time it is executed. The shapes are tried in a fixed order: comment,
print, assignment, call, if, exit; an earlier shape shadows a later one. Expressions and the
consequent of an `if` are kept as raw text.
-/

namespace SectScript

def sigil : Bytes := ascii "$"

def printWord : Bytes := ascii "print"

def ifWord : Bytes := ascii "if"

def thenWord : Bytes := ascii "then"

def exitWord : Bytes := ascii "exit"

/-- The word is the whole line, or a blank byte follows it. -/
def hasKeyword (line word : Bytes) : Bool :=
  match word.isPrefixOf? line with
  | some [] => true
  | some (b :: _) => Bytes.isBlankByte b
  | none => false

def isAssignment (line : Bytes) : Bool :=
  Bytes.startsWith sigil line && Bytes.contains (ascii "=") line

/-- The word `then` is at the front, behind a blank byte, and ends the text or has one behind it. -/
def standsAlone (before : Option UInt8) (s : Bytes) : Bool :=
  before.any Bytes.isBlankByte && hasKeyword s thenWord

/-- The position of the first `then` that stands alone. `skip` bytes still belong to an occurrence
that does not; `i` counts the bytes passed and `before` is the last of them. -/
def seekThen : (skip : Nat) → (before : Option UInt8) → (i : Nat) → Bytes → Option Nat
  | _, _, _, [] => none
  | skip + 1, _, i, b :: s => seekThen skip (some b) (i + 1) s
  | 0, before, i, b :: s =>
    if Bytes.startsWith thenWord (b :: s) then
      if standsAlone before (b :: s) then some i
      else seekThen (thenWord.length - 1) (some b) (i + 1) s
    else seekThen 0 (some b) (i + 1) s

def findThen (s : Bytes) : Option Nat := seekThen 0 none 0 s

namespace Node

/-- An operand of a comparison: a variable, a quoted text or a bare word. -/
def ofOperand (s : Bytes) : Node :=
  match sigil.isPrefixOf? s with
  | some name => .leaf .varName name
  | none =>
    match unquote? s with
    | some inside => .leaf .quoted inside
    | none => .leaf .bare s

/-- Comparison operators, in the order in which a condition is searched for them. -/
def relations : List Token := [.eq, .ne, .ge, .le, .lt, .gt]

/-- A comparison. The first operator of the list that occurs splits it; it must occur once, with
text on both sides. -/
def ofCondition (text : Bytes) : Except Cause Node :=
  match relations.find? fun rel => Bytes.contains rel.name text with
  | none => .error (.malformedCondition text)
  | some rel =>
    match Bytes.cut rel.name text with
    | none => .error (.malformedCondition text)
    | some (left, right) =>
      if Bytes.contains rel.name right then .error (.malformedCondition text)
      else if Bytes.trim left == [] || Bytes.trim right == [] then
        .error (.malformedCondition text)
      else .ok (.inner rel [ofOperand (Bytes.trim left), ofOperand (Bytes.trim right)])

end Node

namespace Statement

def ofPrint (line rest : Bytes) : Except Cause Statement :=
  let arg := Bytes.trim rest
  if arg == [] then .error .missingPrintArgument
  else
    match sigil.isPrefixOf? arg with
    | some name => .ok ⟨.print, line, [.leaf .varName name]⟩
    | none =>
      match unquote? arg with
      | some inside => .ok ⟨.print, line, [.leaf .quoted inside]⟩
      | none => .error .badPrintArgument

/-- `rest` is what follows the sigil. -/
def ofAssignment (line rest : Bytes) : Except Cause Statement :=
  let (name, expr) := (Bytes.cut (ascii "=") rest).getD (rest, [])
  if Bytes.trim name == [] then .error .missingVariableName
  else .ok ⟨.assign, line, [.leaf .varName (Bytes.trim name), .leaf .expr (Bytes.trim expr)]⟩

/-- `rest` is what follows the word `if`. -/
def ofIf (line rest : Bytes) : Except Cause Statement :=
  match findThen rest with
  | none => .error (.malformedCondition (Bytes.trim rest))
  | some i =>
    let consequent := Bytes.trim (rest.drop (i + thenWord.length))
    if consequent == [] then .error .missingConsequent
    else
      match Node.ofCondition (Bytes.trim (rest.take i)) with
      | .error c => .error c
      | .ok condition => .ok ⟨.cond, line, [condition, .leaf .stmtText consequent]⟩

/-- The name that a call line names; a lone `@` is no call. -/
def callee? (line : Bytes) : Option Bytes :=
  match (ascii "@").isPrefixOf? line with
  | some rest => if Bytes.trim rest == [] then none else some (Bytes.trim rest)
  | none => none

/-- The statement on a trimmed line. -/
def ofTrimmed (line : Bytes) : Except Cause Statement :=
  if Bytes.startsWith (ascii "--") line then .ok ⟨.comment, line, []⟩
  else if hasKeyword line printWord then ofPrint line (line.drop printWord.length)
  else if isAssignment line then ofAssignment line (line.drop sigil.length)
  else
    match callee? line with
    | some name => .ok ⟨.call, line, [.leaf .sectName name]⟩
    | none =>
      if hasKeyword line ifWord && Bytes.contains thenWord line then
        ofIf line (line.drop ifWord.length)
      else if hasKeyword line exitWord then .ok ⟨.exit, line, []⟩
      else .error .unrecognized

def ofLine (line : Bytes) : Except Cause Statement := ofTrimmed (Bytes.trim line)

end Statement

example : findThen (ascii "$athens == 1 then exit") = some 13 := by decide +kernel
example : hasKeyword (ascii "printer") printWord = false := by decide +kernel

end SectScript
