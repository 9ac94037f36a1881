import SectScript.Text.Bytes

/-!
# Blanks

Two notions of white space meet in the language. `isBlankByte` looks at a single byte as if it were
a code point, so the last byte of a longer character may count. `trim` works on characters: it takes
the UTF-8 forms of the white-space code points off both ends and never touches an invalid byte.
-/

namespace SectScript.Bytes

/-- Code points below 256 that are white space. -/
def isBlankByte (b : UInt8) : Bool := (0x09 ≤ b && b ≤ 0x0D) || b == 0x20 || b == 0x85 || b == 0xA0

/-- White space of one byte. -/
def isBlank₁ (a : UInt8) : Bool := (0x09 ≤ a && a ≤ 0x0D) || a == 0x20

/-- White space of two bytes: U+0085 and U+00A0. -/
def isBlank₂ (a b : UInt8) : Bool := a == 0xC2 && (b == 0x85 || b == 0xA0)

/-- White space of three bytes: U+1680, U+2000 to U+200A, U+2028, U+2029, U+202F, U+205F, U+3000. -/
def isBlank₃ (a b c : UInt8) : Bool :=
  (a == 0xE1 && b == 0x9A && c == 0x80) ||
  (a == 0xE2 && b == 0x80 && ((0x80 ≤ c && c ≤ 0x8A) || c == 0xA8 || c == 0xA9 || c == 0xAF)) ||
  (a == 0xE2 && b == 0x81 && c == 0x9F) ||
  (a == 0xE3 && b == 0x80 && c == 0x80)

/-- Drops units of one, two or three bytes from the front as long as one is there. -/
def dropUnits (one : UInt8 → Bool) (two : UInt8 → UInt8 → Bool)
    (three : UInt8 → UInt8 → UInt8 → Bool) : Bytes → Bytes
  | [] => []
  | a :: s =>
    if one a then dropUnits one two three s
    else
      match s with
      | [] => [a]
      | b :: s =>
        if two a b then dropUnits one two three s
        else
          match s with
          | [] => [a, b]
          | c :: s => if three a b c then dropUnits one two three s else a :: b :: c :: s

def trimLeft (s : Bytes) : Bytes := dropUnits isBlank₁ isBlank₂ isBlank₃ s

def trimRight (s : Bytes) : Bytes :=
  (dropUnits isBlank₁ (fun b a => isBlank₂ a b) (fun c b a => isBlank₃ a b c) s.reverse).reverse

def trim (s : Bytes) : Bytes := trimRight (trimLeft s)

/-- Drops the trailing bytes that satisfy `p`. -/
def dropRightWhile (p : UInt8 → Bool) (s : Bytes) : Bytes := (s.reverse.dropWhile p).reverse


example : trim (ascii " \t a b\r\n") = ascii "a b" := by decide +kernel
example : trim [0xC2, 0xA0, 0x61, 0xE3, 0x80, 0x80] = [0x61] := by decide +kernel
example : trim [0xA0, 0x61, 0x85] = [0xA0, 0x61, 0x85] := by decide +kernel

end SectScript.Bytes
