import SectScript.Text.Double
import SectScript.Yaml.Timestamp

/-!
# What a plain scalar means

A scalar without quotes is a null, a truth value, a number, a time or a text, by its spelling; one
spelling asks for a merge. Numbers may have a radix mark and underscores anywhere.
-/

namespace SectScript.Yaml

inductive Meaning where
  | null
  | boolean (b : Bool)
  | integer (n : Int)
  /-- A number with a fraction or an exponent. -/
  | real (x : Double)
  | time (t : Timestamp)
  /-- As a key: the pairs of the value belong to the mapping around it. -/
  | merge
  | text
  deriving DecidableEq

namespace Meaning

def tag : Meaning → Bytes
  | null => ascii "!!null"
  | boolean _ => ascii "!!bool"
  | integer _ => ascii "!!int"
  | real _ => ascii "!!float"
  | time _ => ascii "!!timestamp"
  | merge => ascii "!!merge"
  | text => ascii "!!str"

/-- Spellings of fixed meaning. -/
def words : List (String × Meaning) :=
  [ ("", null), ("~", null), ("null", null), ("Null", null), ("NULL", null),
    ("true", boolean true), ("True", boolean true), ("TRUE", boolean true),
    ("false", boolean false), ("False", boolean false), ("FALSE", boolean false),
    (".nan", real .nan), (".NaN", real .nan), (".NAN", real .nan),
    (".inf", real (.infinite false)), (".Inf", real (.infinite false)),
    (".INF", real (.infinite false)), ("+.inf", real (.infinite false)),
    ("+.Inf", real (.infinite false)), ("+.INF", real (.infinite false)),
    ("-.inf", real (.infinite true)), ("-.Inf", real (.infinite true)),
    ("-.INF", real (.infinite true)),
    ("<<", merge) ]

def word? (s : Bytes) : Option Meaning := (words.find? fun w => ascii w.1 == s).map (·.2)

/-- A number with a fraction, unless it is too large. -/
def ofFraction (s : Bytes) : Option Meaning :=
  ((Fraction.read? s).bind Double.ofScientific?).map real

/-- An integer, with or without radix mark; one without sign may need all of 64 bits. -/
def ofInteger (s : Bytes) : Option Meaning :=
  match Numeral.read s with
  | .ok n => some (integer n)
  | .error _ =>
    match Numeral.readUnsigned s with
    | .ok n => some (integer n)
    | .error _ => none

/-- A radix mark in front of a sign. -/
def ofMarked (s : Bytes) : Option Meaning :=
  let read (base : Nat) (digits : Bytes) : Option Meaning :=
    match Numeral.readBase base digits with
    | .ok n => some (integer n)
    | .error _ => none
  match s with
  | 0x30 :: 0x62 :: digits => read 2 digits
  | 0x30 :: 0x6F :: digits => read 8 digits
  | _ => none

def ofNumeral (s : Bytes) : Meaning :=
  let s := s.filter (· != 0x5F)
  (((ofInteger s).or (ofFraction s)).or (ofMarked s)).getD text

/-- A number that begins with its point keeps its underscores between digits. -/
def ofPointed (s : Bytes) : Meaning :=
  if s.any (· == 0x5F) && !Numeral.underscoresSeparate s then text
  else (ofFraction (s.filter (· != 0x5F))).getD text

def ofPlain (s : Bytes) : Meaning :=
  match word? s with
  | some m => m
  | none =>
    match s with
    | [] => null
    | b :: _ =>
      if b == 0x2E then ofPointed s
      else if Decimal.isDigit b || b == 0x2B || b == 0x2D then
        ((Timestamp.read? s).map time).getD (ofNumeral s)
      else text

example : ofPlain (ascii "0x1_F") = integer 31 := by decide +kernel
example : ofPlain (ascii "3.0") = real (.finite false (3 * Double.one)) := by decide +kernel
example : ofPlain (ascii "2001-1-2") = time { year := 2001, month := 1, day := 2 } := by
  decide +kernel
example : ofPlain (ascii "1.2.3") = text := by decide +kernel

end Meaning

end SectScript.Yaml
