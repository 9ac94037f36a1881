import SectScript.Error
import SectScript.Statement
import SectScript.Table

/-!
# Expressions

The right-hand side of an assignment holds at most one operation. The text is searched for the first
operator of the list `+ - * / %` that occurs in it, and must hold it once. The result is a text.
-/

namespace SectScript

inductive Operand where
  | missing
  | number (text : Bytes) (n : Int64)
  | text (s : Bytes)

namespace Operand

/-- A text that reads as an integer is a number. -/
def ofText (s : Bytes) : Operand :=
  match Decimal.read? s with
  | some n => number s n
  | none => text s

/-- A variable is replaced by its value; a quoted text is never a number. -/
def resolve (dialect : Dialect) (vars : Table Value) (s : Bytes) : Except Cause Operand :=
  if s == [] then .ok missing
  else
    match sigil.isPrefixOf? s with
    | some name =>
      match vars.find? name with
      | none =>
        if dialect.keepsUndefined then .ok (text s) else .error (.undefinedVariable name)
      | some (.integer n) => .ok (number (Decimal.ofInt64 n) n)
      | some (.text t) => .ok (ofText t)
    | none =>
      match unquote? s with
      | some inside => .ok (text inside)
      | none => .ok (ofText s)

/-- An empty left side of `+` or `-` before a number makes a sign. -/
def signed (op : Operator) (left right : Operand) : Operand :=
  match left, right with
  | missing, number _ _ => if op == .sub || op == .add then number (ascii "0") 0 else missing
  | left, _ => left

end Operand

namespace Expression

/-- The first operator of the list that occurs. -/
def operator? (expr : Bytes) : Option Operator :=
  Operator.all.find? fun op => Bytes.contains op.symbol expr

/-- Numbers are computed with, and `+` joins other texts. -/
def apply (expr : Bytes) (op : Operator) (left right : Operand) : Except Cause Bytes :=
  match Operand.signed op left right, right with
  | .number _ a, .number _ b =>
    match op.apply a b with
    | .ok n => .ok (Decimal.ofInt64 n)
    | .error why => .error (.invalidExpression expr (some why))
  | .missing, _ | _, .missing => .error (.invalidExpression expr none)
  | .number s _, .text t | .text s, .number t _ | .text s, .text t =>
    if op == .add then .ok (s ++ t) else .error (.invalidExpression expr none)

def evaluate (dialect : Dialect) (vars : Table Value) (expr : Bytes) : Except Cause Bytes :=
  if isQuotedLiteral expr then .ok expr
  else
    match operator? expr with
    | none => .ok expr
    | some op =>
      match Bytes.cut op.symbol expr with
      | none => .ok expr
      | some (left, right) =>
        if Bytes.contains op.symbol right then .error (.invalidExpression expr none)
        else
          match Operand.resolve dialect vars (Bytes.trim left) with
          | .error c => .error c
          | .ok left =>
            match Operand.resolve dialect vars (Bytes.trim right) with
            | .error c => .error c
            | .ok right => apply expr op left right

end Expression

end SectScript
