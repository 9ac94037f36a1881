import SectScript.Text.Bytes

/-!
# Integer arithmetic

The five operations work on 64-bit words, which wrap. Each is guarded by a test in words that tells
when the wrapped result is not the true one. Quotient and remainder are those of floored division:
the remainder has the sign of the divisor.
-/

namespace SectScript

inductive Operator where
  | add
  | sub
  | mul
  | div
  | mod
  deriving DecidableEq, Repr

namespace Operator

/-- In the order in which an expression is searched for them. -/
def all : List Operator := [add, sub, mul, div, mod]

def symbol : Operator → Bytes
  | add => ascii "+"
  | sub => ascii "-"
  | mul => ascii "*"
  | div => ascii "/"
  | mod => ascii "%"

def ofSymbol? (s : Bytes) : Option Operator := all.find? fun op => op.symbol == s

end Operator

inductive ArithError where
  | overflow
  | divisionByZero
  deriving DecidableEq, Repr

namespace Arithmetic

def add (a b : Int64) : Except ArithError Int64 :=
  if (0 < b && Int64.maxValue - b < a) || (b < 0 && a < Int64.minValue - b) then .error .overflow
  else .ok (a + b)

def sub (a b : Int64) : Except ArithError Int64 :=
  if (b < 0 && Int64.maxValue + b < a) || (0 < b && a < Int64.minValue + b) then .error .overflow
  else .ok (a - b)

def mul (a b : Int64) : Except ArithError Int64 :=
  if a = 0 || b = 0 then .ok 0
  else if a * b / b != a || (a == -1 && b == Int64.minValue) ||
      (b == -1 && a == Int64.minValue) then
    .error .overflow
  else .ok (a * b)

/-- Word division goes toward zero, so the quotient is corrected when a remainder is left and the
signs differ. -/
def div (a b : Int64) : Except ArithError Int64 :=
  if b = 0 then .error .divisionByZero
  else if a = Int64.minValue && b = -1 then .error .overflow
  else if a % b != 0 && (a < 0) != (b < 0) then .ok (a / b - 1)
  else .ok (a / b)

def mod (a b : Int64) : Except ArithError Int64 :=
  if b = 0 then .error .divisionByZero
  else if b = -1 then .ok 0
  else if a % b != 0 && (a % b < 0) != (b < 0) then .ok (a % b + b)
  else .ok (a % b)

end Arithmetic

def Operator.apply : Operator → Int64 → Int64 → Except ArithError Int64
  | add => Arithmetic.add
  | sub => Arithmetic.sub
  | mul => Arithmetic.mul
  | div => Arithmetic.div
  | mod => Arithmetic.mod

example : (Operator.div.apply (-7) 2).toOption = some (-4) := by decide +kernel
example : (Operator.mod.apply (-7) 2).toOption = some 1 := by decide +kernel
example : (Operator.mul.apply (-1) Int64.minValue).toOption = none := by decide +kernel

end SectScript
