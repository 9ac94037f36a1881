import SectScript.Machine
import SectScript.Proofs.Strict.Statement

/-!
# Computing within the domain of each operation

Quotient and remainder have no meaning for the divisor zero, and an operator that was found as a
text has none unless the text is one of the five. Here both are partial. The value of an assignment
is given once more over them and over the cutting of texts within their bounds; it is always there
and is the one that `Machine.assigned` gives.
-/

namespace SectScript.Strict

/-! ## Words -/

def quotient (a b : Int64) : Option Int64 := if b = 0 then none else some (a / b)

def remainder (a b : Int64) : Option Int64 := if b = 0 then none else some (a % b)

theorem quotient_eq (a : Int64) {b : Int64} (h : b ≠ 0) : quotient a b = some (a / b) := if_neg h

theorem remainder_eq (a : Int64) {b : Int64} (h : b ≠ 0) : remainder a b = some (a % b) := if_neg h

def mul (a b : Int64) : Option (Except ArithError Int64) :=
  if a = 0 || b = 0 then some (.ok 0)
  else do
    let q ← quotient (a * b) b
    if q != a || (a == -1 && b == Int64.minValue) || (b == -1 && a == Int64.minValue) then
      some (.error .overflow)
    else some (.ok (a * b))

theorem mul_eq (a b : Int64) : mul a b = some (Arithmetic.mul a b) := by
  rw [mul, Arithmetic.mul]
  split
  · rfl
  case isFalse h =>
    have hb : b ≠ 0 := by
      rintro rfl
      simp at h
    rw [quotient_eq _ hb, apply_ite some]
    rfl

def div (a b : Int64) : Option (Except ArithError Int64) :=
  if b = 0 then some (.error .divisionByZero)
  else if a = Int64.minValue && b = -1 then some (.error .overflow)
  else do
    let q ← quotient a b
    let r ← remainder a b
    if r != 0 && (a < 0) != (b < 0) then some (.ok (q - 1)) else some (.ok q)

theorem div_eq (a b : Int64) : div a b = some (Arithmetic.div a b) := by
  rw [div, Arithmetic.div]
  split
  · rfl
  case isFalse hb =>
    rw [quotient_eq a hb, remainder_eq a hb, apply_ite some, apply_ite some]
    rfl

def mod (a b : Int64) : Option (Except ArithError Int64) :=
  if b = 0 then some (.error .divisionByZero)
  else if b = -1 then some (.ok 0)
  else do
    let r ← remainder a b
    if r != 0 && (r < 0) != (b < 0) then some (.ok (r + b)) else some (.ok r)

theorem mod_eq (a b : Int64) : mod a b = some (Arithmetic.mod a b) := by
  rw [mod, Arithmetic.mod]
  split
  · rfl
  case isFalse hb =>
    rw [remainder_eq a hb, apply_ite some, apply_ite some]
    rfl

theorem ofSymbol?_symbol (op : Operator) : Operator.ofSymbol? op.symbol = some op := by
  cases op <;> decide

/-- The operation that a text names, applied; none if it names no operation. -/
def arith (symbol : Bytes) (a b : Int64) : Option (Except ArithError Int64) := do
  match ← Operator.ofSymbol? symbol with
  | .add => some (Arithmetic.add a b)
  | .sub => some (Arithmetic.sub a b)
  | .mul => mul a b
  | .div => div a b
  | .mod => mod a b

theorem arith_eq (op : Operator) (a b : Int64) : arith op.symbol a b = some (op.apply a b) := by
  rw [arith, ofSymbol?_symbol]
  cases op with
  | add | sub => rfl
  | mul => exact mul_eq a b
  | div => exact div_eq a b
  | mod => exact mod_eq a b

/-! ## Expressions -/

def resolve (dialect : Dialect) (vars : Table Value) (s : Bytes) :
    Option (Except Cause Operand) :=
  if s == [] then some (.ok .missing)
  else do
    match ← after sigil s with
    | some name =>
      match vars.find? name with
      | none =>
        some (if dialect.keepsUndefined then .ok (.text s) else .error (.undefinedVariable name))
      | some (.integer n) => some (.ok (.number (Decimal.ofInt64 n) n))
      | some (.text t) => some (.ok (.ofText t))
    | none =>
      match ← unquote s with
      | some inside => some (.ok (.text inside))
      | none => some (.ok (.ofText s))

theorem resolve_eq (dialect : Dialect) (vars : Table Value) (s : Bytes) :
    resolve dialect vars s = some (Operand.resolve dialect vars s) := by
  rw [resolve, Operand.resolve, after_eq, unquote_eq]
  split
  · rfl
  · cases sigil.isPrefixOf? s with
    | some name =>
      simp only [Option.bind_eq_bind, Option.bind_some]
      rcases vars.find? name with _ | (n | t) <;> rfl
    | none => cases unquote? s <;> rfl

/-- The first operator of the list that occurs, as a text. -/
def scan (expr : Bytes) : Option Bytes :=
  (Operator.all.map Operator.symbol).find? fun s => Bytes.contains s expr

theorem scan_eq (expr : Bytes) : scan expr = (Expression.operator? expr).map Operator.symbol :=
  List.find?_map

/-- The operation that a text names, applied to operands of any kind. -/
def apply (expr symbol : Bytes) (left right : Operand) : Option (Except Cause Bytes) := do
  let op ← Operator.ofSymbol? symbol
  match Operand.signed op left right, right with
  | .number _ a, .number _ b =>
    match ← arith symbol a b with
    | .ok n => some (.ok (Decimal.ofInt64 n))
    | .error why => some (.error (.invalidExpression expr (some why)))
  | _, _ => some (Expression.apply expr op left right)

theorem apply_eq (expr : Bytes) (op : Operator) (left right : Operand) :
    apply expr op.symbol left right = some (Expression.apply expr op left right) := by
  simp only [apply, ofSymbol?_symbol, arith_eq, Option.bind_eq_bind, Option.bind_some]
  split
  case h_1 _ a _ b hsigned =>
    simp only [Expression.apply, hsigned]
    cases op.apply a b <;> rfl
  case h_2 => rfl

def isQuotedLiteral (s : Bytes) : Option Bool :=
  (unquote s).map fun inside? =>
    match inside? with
    | some inside => !inside.any (· == 0x22)
    | none => false

theorem isQuotedLiteral_eq (s : Bytes) :
    isQuotedLiteral s = some (SectScript.isQuotedLiteral s) := by
  rw [isQuotedLiteral, unquote_eq, SectScript.isQuotedLiteral]
  rfl

def evaluate (dialect : Dialect) (vars : Table Value) (expr : Bytes) :
    Option (Except Cause Bytes) := do
  let literal ← isQuotedLiteral expr
  if literal then some (.ok expr)
  else
    match scan expr with
    | none => some (.ok expr)
    | some symbol =>
      match Bytes.cut symbol expr with
      | none => some (.ok expr)
      | some (left, right) =>
        if Bytes.contains symbol right then some (.error (.invalidExpression expr none))
        else
          match ← resolve dialect vars (Bytes.trim left) with
          | .error c => some (.error c)
          | .ok left =>
            match ← resolve dialect vars (Bytes.trim right) with
            | .error c => some (.error c)
            | .ok right => apply expr symbol left right

theorem evaluate_eq (dialect : Dialect) (vars : Table Value) (expr : Bytes) :
    evaluate dialect vars expr = some (Expression.evaluate dialect vars expr) := by
  simp only [evaluate, Expression.evaluate, isQuotedLiteral_eq, scan_eq, resolve_eq,
    Option.bind_eq_bind, Option.bind_some]
  split
  · rfl
  cases Expression.operator? expr with
  | none => rfl
  | some op =>
    simp only [Option.map_some]
    cases Bytes.cut op.symbol expr with
    | none => rfl
    | some parts =>
      dsimp only
      split
      · rfl
      cases Operand.resolve dialect vars (Bytes.trim parts.1) with
      | error c => rfl
      | ok left =>
        dsimp only
        cases Operand.resolve dialect vars (Bytes.trim parts.2) with
        | error c => rfl
        | ok right => exact apply_eq expr op left right

/-! ## The value of an assignment -/

def ofResult (raw : Bytes) : Option (Option Value) :=
  if Decimal.isDigits raw then some ((Decimal.read? raw).map .integer)
  else (unquote raw).map fun inside? => some (.text (inside?.getD raw))

theorem ofResult_eq (raw : Bytes) : ofResult raw = some (Value.ofResult? raw) := by
  rw [ofResult, Value.ofResult?, unquote_eq, apply_ite some]
  rfl

def assigned (setup : Setup) (sect name expr : Bytes) (vars : Table Value) :
    Option (Except Cause Value) := do
  match ← evaluate setup.dialect vars expr with
  | .error c => some (.error c)
  | .ok result =>
    match ← ofResult result with
    | none => some (.error (.arithmetic .overflow))
    | some v =>
      some (if setup.dialect.restrictsDefinitions && (vars.find? name).isNone &&
          sect != dataSection then .error .misplacedDefinition
        else .ok v)

theorem assigned_eq (setup : Setup) (sect name expr : Bytes) (vars : Table Value) :
    assigned setup sect name expr vars = some (Machine.assigned setup sect name expr vars) := by
  simp only [assigned, Machine.assigned, evaluate_eq, ofResult_eq, Option.bind_eq_bind,
    Option.bind_some]
  cases Expression.evaluate setup.dialect vars expr with
  | error c => rfl
  | ok result =>
    dsimp only
    cases Value.ofResult? result <;> rfl

end SectScript.Strict
