import SectScript.Text.Bytes

/-!
# Decimal numbers

Writing has no leading zeros; reading takes an optional sign and any number of digits, and refuses
what does not fit a 64-bit word.
-/

namespace SectScript.Decimal

def isDigit (b : UInt8) : Bool := 0x30 ≤ b && b ≤ 0x39

def isDigits (s : Bytes) : Bool := !s.isEmpty && s.all isDigit

/-- The number that digits denote, most significant first. -/
def value (s : Bytes) : Nat := s.foldl (fun n b => n * 10 + (b.toNat - 0x30)) 0

/-- The digits of `n`, in front of `s`. The fuel is at least the number of digits. -/
def prepend : (fuel n : Nat) → (s : Bytes) → Bytes
  | 0, _, s => s
  | fuel + 1, n, s =>
    let s := (0x30 + n % 10).toUInt8 :: s
    if n < 10 then s else prepend fuel (n / 10) s

def ofNat (n : Nat) : Bytes := prepend (n + 1) n []

def ofInt (n : Int) : Bytes := if n < 0 then 0x2D :: ofNat n.natAbs else ofNat n.natAbs

def ofInt64 (n : Int64) : Bytes := ofInt n.toInt

/-- Sign and the rest; no sign means positive. -/
def sign : Bytes → Bool × Bytes
  | 0x2B :: s => (false, s)
  | 0x2D :: s => (true, s)
  | s => (false, s)

def inRange (n : Int) : Bool := -9223372036854775808 ≤ n && n ≤ 9223372036854775807

def readInt? (s : Bytes) : Option Int :=
  let (negative, digits) := sign s
  if isDigits digits then
    some (if negative then -(value digits : Int) else value digits)
  else none

/-- An integer that fits a 64-bit word. -/
def read? (s : Bytes) : Option Int64 :=
  match readInt? s with
  | some n => if inRange n then some (Int64.ofInt n) else none
  | none => none

/-- At least two characters, the sign counted, with zeros between sign and digits. -/
def ofIntPadded₂ (n : Int) : Bytes :=
  if n < 0 then ofInt n else Bytes.padLeft 0x30 2 (ofInt n)

example : ofInt (-120) = ascii "-120" := by decide
example : read? (ascii "-9223372036854775808") = some (-9223372036854775808) := by decide
example : read? (ascii "9223372036854775808") = none := by decide
example : read? (ascii "+") = none := by decide

end SectScript.Decimal
