import SectScript.Statement
import SectScript.Table

/-!
# Conditions

Both operands of a comparison are texts in the end. Two texts of digits compare as numbers, all
others bytewise.
-/

namespace SectScript

def unexpectedToken (t : Token) : Fault :=
  .internal (ascii "Unexpected token " ++ t.name ++ ascii " (" ++ Decimal.ofInt t.code ++ ascii ")")

def fetch (vars : Table Value) (name : Bytes) : Except Cause Value :=
  match vars.find? name with
  | some v => .ok v
  | none => .error (.undefinedVariable name)

namespace Condition

def compareTexts (a b : Bytes) : Ordering :=
  if Decimal.isDigits a && Decimal.isDigits b then compareDigits a b else compare a b

/-- Whether a relation holds between texts that compare so; none if the token is no relation. -/
def relates? : Token → Ordering → Option Bool
  | .eq, o => some (o == .eq)
  | .ne, o => some (o != .eq)
  | .ge, o => some (o != .lt)
  | .le, o => some (o != .gt)
  | .lt, o => some (o == .lt)
  | .gt, o => some (o == .gt)
  | _, _ => none

def operandText (vars : Table Value) (n : Node) : Except Fault Bytes :=
  match n.token, n.data? with
  | .varName, some name =>
    match fetch vars name with
    | .ok v => .ok v.natural
    | .error c => .error (.ofCause c)
  | .quoted, some s | .bare, some s => .ok s
  | .varName, none | .quoted, none | .bare, none => .error .crash
  | t, _ => .error (unexpectedToken t)

def holds (vars : Table Value) (n : Node) : Except Fault Bool :=
  match n.operands with
  | [left, right] =>
    match operandText vars left with
    | .error f => .error f
    | .ok a =>
      match operandText vars right with
      | .error f => .error f
      | .ok b =>
        match relates? n.token (compareTexts a b) with
        | some r => .ok r
        | none => .error (unexpectedToken n.token)
  | _ => .error (.internal (ascii "Condition botch"))

end Condition

end SectScript
