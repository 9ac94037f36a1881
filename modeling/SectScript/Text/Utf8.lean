import SectScript.Text.Bytes

/-!
# UTF-8

A byte string is read as a sequence of units: a well-formed character, or a single byte that belongs
to none. Surrogates, overlong forms and code points above U+10FFFF are not well formed.
-/

namespace SectScript.Utf8

inductive Item where
  | char (code : Nat) (bytes : Bytes)
  | stray (byte : UInt8)

def isContinuation (b : UInt8) : Bool := 0x80 ≤ b && b ≤ 0xBF

/-- The low six bits of a continuation byte. -/
def low (b : UInt8) : Nat := b.toNat % 64

/-- The first unit of a non-empty text; the unit's bytes are at its front. -/
def first (a : UInt8) (s : Bytes) : Item :=
  if a < 0x80 then .char a.toNat [a]
  else
    match s with
    | b :: c :: d :: _ =>
      if 0xC2 ≤ a && a ≤ 0xDF && isContinuation b then two a b
      else if isTriple a b c then three a b c
      else if isQuadruple a b c d then
        .char ((a.toNat % 8) * 262144 + low b * 4096 + low c * 64 + low d) [a, b, c, d]
      else .stray a
    | [b, c] =>
      if 0xC2 ≤ a && a ≤ 0xDF && isContinuation b then two a b
      else if isTriple a b c then three a b c
      else .stray a
    | [b] => if 0xC2 ≤ a && a ≤ 0xDF && isContinuation b then two a b else .stray a
    | [] => .stray a
where
  two (a b : UInt8) : Item := .char ((a.toNat % 32) * 64 + low b) [a, b]
  three (a b c : UInt8) : Item := .char ((a.toNat % 16) * 4096 + low b * 64 + low c) [a, b, c]
  isTriple (a b c : UInt8) : Bool :=
    0xE0 ≤ a && a ≤ 0xEF && isContinuation b && isContinuation c &&
      !(a == 0xE0 && b < 0xA0) && !(a == 0xED && 0xA0 ≤ b)
  isQuadruple (a b c d : UInt8) : Bool :=
    0xF0 ≤ a && a ≤ 0xF4 && isContinuation b && isContinuation c && isContinuation d &&
      !(a == 0xF0 && b < 0x90) && !(a == 0xF4 && 0x90 ≤ b)

def Item.width : Item → Nat
  | .char _ bytes => bytes.length
  | .stray _ => 1

/-- Passes over `skip` bytes that belong to the unit before, then reads unit after unit. -/
def itemsFrom : (skip : Nat) → Bytes → List Item
  | _, [] => []
  | skip + 1, _ :: s => itemsFrom skip s
  | 0, a :: s => first a s :: itemsFrom ((first a s).width - 1) s

def items (s : Bytes) : List Item := itemsFrom 0 s

def isValid (s : Bytes) : Bool :=
  (items s).all fun
    | .char _ _ => true
    | .stray _ => false

/-- The form of a code point below U+110000. -/
def encode (n : Nat) : Bytes :=
  if n < 0x80 then [n.toUInt8]
  else if n < 0x800 then [(0xC0 + n / 64).toUInt8, tail n]
  else if n < 0x10000 then [(0xE0 + n / 4096).toUInt8, tail (n / 64), tail n]
  else [(0xF0 + n / 262144).toUInt8, tail (n / 4096), tail (n / 64), tail n]
where
  tail (n : Nat) : UInt8 := (0x80 + n % 64).toUInt8

/-- Every stray byte replaced by U+FFFD. -/
def repair (s : Bytes) : Bytes :=
  (items s).flatMap fun
    | .char _ bytes => bytes
    | .stray _ => encode 0xFFFD

example : encode 0x20AC = [0xE2, 0x82, 0xAC] := by decide
example : isValid [0xED, 0xA0, 0x80] = false := by decide

end SectScript.Utf8
