import SectScript.Text.Numeral

/-!
# Numbers with a fraction or an exponent

Digits with a point among them and a power of ten behind them.
-/

namespace SectScript.Fraction

/-- A decimal: its digits, and how many places behind the last digit the point is. -/
structure Scientific where
  negative : Bool
  digits : Bytes
  scale : Int

/-- An exponent with its mark, or nothing. -/
def exponent? : Bytes → Option Int
  | [] => some 0
  | e :: s => if e == 0x65 || e == 0x45 then Decimal.readInt? s else none

/-- Digits, with a point anywhere among or beside them and an optional exponent. -/
def read? (s : Bytes) : Option Scientific :=
  let (negative, s) := Decimal.sign s
  let whole := s.takeWhile Decimal.isDigit
  let rest := s.dropWhile Decimal.isDigit
  let (places, rest) :=
    match rest with
    | 0x2E :: r => (r.takeWhile Decimal.isDigit, r.dropWhile Decimal.isDigit)
    | r => ([], r)
  if whole.isEmpty && places.isEmpty then none
  else (exponent? rest).map fun e => ⟨negative, whole ++ places, e - places.length⟩

end SectScript.Fraction
