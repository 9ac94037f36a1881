import SectScript.Text.Decimal

/-!
# Numerals with a radix mark

Besides decimal numbers, settings take numerals marked `0x`, `0o` or `0b`, octal ones with a bare
leading zero, and underscores between digits. A numeral that leaves 64 bits is told apart from a
malformed one; of the two the one met first from the left counts.
-/

namespace SectScript.Numeral

inductive Refusal where
  | malformed
  | outOfRange
  deriving DecidableEq, Repr

def digit? (b : UInt8) : Option Nat :=
  if 0x30 ≤ b && b ≤ 0x39 then some (b.toNat - 0x30)
  else if 0x61 ≤ b && b ≤ 0x7A then some (b.toNat - 0x57)
  else if 0x41 ≤ b && b ≤ 0x5A then some (b.toNat - 0x37)
  else none

/-- Digits of the given base after a number `n`, underscores passed over if allowed. -/
def readDigits (base : Nat) (underscores : Bool) : Nat → Bytes → Except Refusal Nat
  | n, [] => .ok n
  | n, b :: s =>
    if underscores && b == 0x5F then readDigits base underscores n s
    else
      match digit? b with
      | none => .error .malformed
      | some d =>
        if base ≤ d then .error .malformed
        else if 2 ^ 64 ≤ n * base + d then .error .outOfRange
        else readDigits base underscores (n * base + d) s

/-- The base that the front of a numeral announces, and the digits. -/
def splitRadix : Bytes → Nat × Bytes
  | 0x30 :: mark :: d :: s =>
    if mark == 0x62 || mark == 0x42 then (2, d :: s)
    else if mark == 0x6F || mark == 0x4F then (8, d :: s)
    else if mark == 0x78 || mark == 0x58 then (16, d :: s)
    else (8, mark :: d :: s)
  | 0x30 :: s => (8, s)
  | s => (10, s)

/-- What stood before a position: a digit or radix mark, an underscore, or something else. -/
inductive Before where
  | digit
  | underscore
  | other
  deriving DecidableEq

/-- Each underscore stands between digits, a radix mark counting as one. -/
def separates (hexadecimal : Bool) : Before → Bytes → Bool
  | before, [] => before != .underscore
  | before, b :: s =>
    if Decimal.isDigit b || (hexadecimal && (digit? b).any (· < 16)) then
      separates hexadecimal .digit s
    else if b == 0x5F then before == .digit && separates hexadecimal .underscore s
    else before != .underscore && separates hexadecimal .other s

def underscoresSeparate : Bytes → Bool
  | 0x30 :: mark :: s =>
    if mark == 0x62 || mark == 0x42 || mark == 0x6F || mark == 0x4F then separates false .digit s
    else if mark == 0x78 || mark == 0x58 then separates true .digit s
    else separates false .other (0x30 :: mark :: s)
  | s => separates false .other s

/-- A numeral without sign, below 2 ^ 64. -/
def readUnsigned (s : Bytes) : Except Refusal Nat :=
  if s.isEmpty then .error .malformed
  else
    match readDigits (splitRadix s).1 true 0 (splitRadix s).2 with
    | .error e => .error e
    | .ok n => if s.any (· == 0x5F) && !underscoresSeparate s then .error .malformed else .ok n

/-- Brings a magnitude under its sign into the range of a 64-bit word. -/
def signed (negative : Bool) : Except Refusal Nat → Except Refusal Int
  | .error e => .error e
  | .ok n =>
    let n : Int := if negative then -n else n
    if Decimal.inRange n then .ok n else .error .outOfRange

/-- A numeral with an optional sign, as a 64-bit word. -/
def read (s : Bytes) : Except Refusal Int :=
  signed (Decimal.sign s).1 (readUnsigned (Decimal.sign s).2)

/-- Digits of a known base with an optional sign, as a 64-bit word. -/
def readBase (base : Nat) (s : Bytes) : Except Refusal Int :=
  let (negative, digits) := Decimal.sign s
  signed negative (if digits.isEmpty then .error .malformed else readDigits base false 0 digits)

example : (read (ascii "-0x_1F")).toOption = some (-31) := by decide +kernel
example : (read (ascii "017")).toOption = some 15 := by decide +kernel
example : (read (ascii "1__0")).toOption = none := by decide +kernel

end SectScript.Numeral
