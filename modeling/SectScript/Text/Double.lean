import SectScript.Text.Blank
import SectScript.Text.Fraction

/-!
# Binary numbers of 53 significant bits

A finite number is a multiple of the smallest one, 2 ^ -1074, and is kept as that multiple.
Decimals are rounded to the nearest number, a tie going to the even one. A number is written with
the fewest digits that read back as the same number.
-/

namespace SectScript

inductive Double where
  | finite (negative : Bool) (units : Nat)
  | infinite (negative : Bool)
  | nan
  deriving DecidableEq

namespace Double

def one : Nat := Nat.pow 2 1074

def spacing (units : Nat) : Nat := Nat.pow 2 (units.log2 - 52)

/-- The nearest multiple of `den` to `num`, counted in `den`. -/
def roundDiv (num den : Nat) : Nat :=
  let q := num / den
  let r := num % den
  if den < 2 * r || (den = 2 * r && q % 2 = 1) then q + 1 else q

/-- The units of the number nearest to `num / den`, unless it is too large. -/
def unitsOf? (num den : Nat) : Option Nat :=
  let step := spacing (num * one / den)
  let units := roundDiv (num * one) (den * step) * step
  if units < Nat.pow 2 1024 * one then some units else none

/-- The number nearest to a decimal. Decimals below 10 ^ -330 are nearest to zero. -/
def ofScientific? (d : Fraction.Scientific) : Option Double :=
  let n := Decimal.value d.digits
  let point : Int := (d.digits.dropWhile (· == 0x30)).length + d.scale
  if n = 0 || point < -330 then some (finite d.negative 0)
  else if 310 < point then none
  else
    (unitsOf? (n * Nat.pow 10 d.scale.toNat) (Nat.pow 10 (-d.scale).toNat)).map
      (finite d.negative)

def whole? : Double → Option Int
  | finite negative units =>
    let n : Int := units / one
    some (if negative then -n else n)
  | _ => none

/-- Equal as numbers: zeros are, whatever their sign, and what is no number equals nothing. -/
def same : Double → Double → Bool
  | finite a m, finite b n => m = n && (a = b || m = 0)
  | infinite a, infinite b => a = b
  | _, _ => false

/-- A key that grows with the number; what is no number comes first. -/
def rank : Double → Int
  | nan => -Nat.pow 2 2100
  | infinite true => -Nat.pow 2 2099
  | infinite false => Nat.pow 2 2099
  | finite true units => -units
  | finite false units => units

/-! ## Writing -/

/-- Digits and the place of the point behind the first of them. -/
structure Digits where
  digits : Bytes
  point : Int

/-- The place of the point in `num / den`, which is not zero: how many digits are in front of it, or
minus the zeros behind it. -/
def pointOf (num den : Nat) : Int :=
  if den ≤ num then (Decimal.ofNat (num / den)).length
  else
    0 - (((List.range 330).find? fun k => den ≤ num * Nat.pow 10 (k + 1)).getD 0 : Int)

/-- The decimal of at most `n` digits that is nearest to `num / den` among those between `low` and
`high`, counted in the same way. -/
def withDigits? (num den low high : Nat) (closed : Bool) (point : Int) (n : Nat) : Option Digits :=
  let up := Nat.pow 10 ((n : Int) - point).toNat
  let down := Nat.pow 10 (point - n).toNat
  let c := num * up / (den * down)
  let inside (c : Nat) : Bool :=
    let x := c * den * down
    if closed then low * up ≤ x && x ≤ high * up else low * up < x && x < high * up
  let distance (c : Nat) : Nat :=
    let x := c * den * down
    if x ≤ num * up then num * up - x else x - num * up
  let digits (c : Nat) : Digits :=
    let s := Decimal.ofNat c
    ⟨s, point + s.length - n⟩
  if inside c && inside (c + 1) then
    some (digits (if distance c < distance (c + 1) || (distance c = distance (c + 1) && c % 2 = 0)
      then c else c + 1))
  else if inside c then some (digits c)
  else if inside (c + 1) then some (digits (c + 1))
  else none

/-- The fewest digits that read back as the number, which is not zero; 17 are always enough. -/
def shortest (units : Nat) : Digits :=
  let step := spacing units
  let below := if units = Nat.pow 2 52 * step && 1 < step then step else 2 * step
  let num := 4 * units
  let den := 4 * one
  let found := (List.range 17).findSome? fun n =>
    withDigits? num den (num - below) (num + 2 * step) (units / step % 2 = 0)
      (pointOf num den) (n + 1)
  let d := found.getD ⟨Decimal.ofNat units, 0⟩
  { d with digits := Bytes.dropRightWhile (· == 0x30) d.digits }

/-- Positional from 0.0001 to below a million, with an exponent of at least two digits otherwise. -/
def Digits.text (d : Digits) : Bytes :=
  let exponent := d.point - 1
  if exponent < -4 || 6 ≤ exponent then
    d.digits.take 1 ++ (if d.digits.length ≤ 1 then [] else ascii "." ++ d.digits.drop 1) ++
      ascii (if exponent < 0 then "e-" else "e+") ++
      Bytes.padLeft 0x30 2 (Decimal.ofNat exponent.natAbs)
  else if d.point ≤ 0 then
    ascii "0." ++ List.replicate (-d.point).toNat 0x30 ++ d.digits
  else
    let front := d.point.toNat
    d.digits.take front ++ List.replicate (front - d.digits.length) 0x30 ++
      (if d.digits.length ≤ front then [] else ascii "." ++ d.digits.drop front)

def text : Double → Bytes
  | nan => ascii "NaN"
  | infinite negative => ascii (if negative then "-Inf" else "+Inf")
  | finite negative units =>
    (if negative then ascii "-" else []) ++
      (if units = 0 then ascii "0" else (shortest units).text)

example : (ofScientific? ⟨true, ascii "125", 0⟩).bind whole? = some (-125) := by decide +kernel
example : (ofScientific? ⟨false, ascii "1", 309⟩).isNone := by decide +kernel
example : ((Fraction.read? (ascii "1234567.80")).bind ofScientific?).map text =
    some (ascii "1.2345678e+06") := by decide +kernel

end Double

end SectScript
