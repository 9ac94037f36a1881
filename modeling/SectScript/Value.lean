import SectScript.Text.Decimal

/-!
# Values

A variable holds a 64-bit integer or a text. Assignment decides which by the look of the result:
digits only make an integer, a quoted literal loses its quotes, all else stays as it is. So a
negative number is held as text.
-/

namespace SectScript

inductive Value where
  | integer (n : Int64)
  | text (s : Bytes)
  deriving DecidableEq

namespace Value

/-- The form in which `print` and comparisons see a value. -/
def natural : Value → Bytes
  | integer n => Decimal.ofInt64 n
  | text s => s

end Value

/-- The inside of a text with a double quote at both ends; one lone quote is no such text. -/
def unquote? : Bytes → Option Bytes
  | 0x22 :: s => if s.getLast? = some 0x22 then some s.dropLast else none
  | _ => none

/-- One whole literal: quotes at both ends and none inside. -/
def isQuotedLiteral (s : Bytes) : Bool :=
  match unquote? s with
  | some inside => !inside.any (· == 0x22)
  | none => false

/-- The value that an assignment stores for a result; none if its digits exceed a 64-bit word. -/
def Value.ofResult? (raw : Bytes) : Option Value :=
  if Decimal.isDigits raw then (Decimal.read? raw).map .integer
  else some (.text ((unquote? raw).getD raw))

/-- Compares digit texts of any length as numbers. -/
def compareDigits (a b : Bytes) : Ordering :=
  let a := a.dropWhile (· == 0x30)
  let b := b.dropWhile (· == 0x30)
  if a.length < b.length then .lt
  else if b.length < a.length then .gt
  else compare a b

example : unquote? (ascii "\"") = none := by decide +kernel
example : Value.ofResult? (ascii "007") = some (.integer 7) := by decide +kernel
example : Value.ofResult? (ascii "-3") = some (.text (ascii "-3")) := by decide +kernel

end SectScript
