import SectScript.Text.Category

/-!
# Quoted texts

A text between double quotes in which everything unprintable is written as an escape. `json` is the
other quoting in use: it keeps all characters but controls and the two line separators.
-/

namespace SectScript.Quoted

def hexDigit (n : Nat) : UInt8 := if n < 10 then (0x30 + n).toUInt8 else (0x57 + n).toUInt8

/-- The last `width` hexadecimal digits of `n`. -/
def hex : (width n : Nat) → Bytes
  | 0, _ => []
  | width + 1, n => hex width (n / 16) ++ [hexDigit (n % 16)]

/-- The letter of a control that has an escape of its own. -/
def letter? (code : Nat) : Option UInt8 :=
  if code == 0x07 then some 0x61
  else if code == 0x08 then some 0x62
  else if code == 0x0C then some 0x66
  else if code == 0x0A then some 0x6E
  else if code == 0x0D then some 0x72
  else if code == 0x09 then some 0x74
  else if code == 0x0B then some 0x76
  else none

def escape : Utf8.Item → Bytes
  | .stray b => ascii "\\x" ++ hex 2 b.toNat
  | .char code bytes =>
    if code == 0x22 || code == 0x5C then 0x5C :: bytes
    else if Category.isPrintable code then bytes
    else
      match letter? code with
      | some l => [0x5C, l]
      | none =>
        if code < 0x80 then ascii "\\x" ++ hex 2 code
        else if code < 0x10000 then ascii "\\u" ++ hex 4 code
        else ascii "\\U" ++ hex 8 code

def quote (s : Bytes) : Bytes := 0x22 :: (Utf8.items s).flatMap escape ++ [0x22]

def jsonEscape : Utf8.Item → Bytes
  | .stray _ => ascii "\\ufffd"
  | .char code bytes =>
    if code == 0x22 || code == 0x5C then 0x5C :: bytes
    else if code == 0x08 then ascii "\\b"
    else if code == 0x0C then ascii "\\f"
    else if code == 0x0A then ascii "\\n"
    else if code == 0x0D then ascii "\\r"
    else if code == 0x09 then ascii "\\t"
    else if code < 0x20 || code == 0x2028 || code == 0x2029 then ascii "\\u" ++ hex 4 code
    else bytes

def json (s : Bytes) : Bytes := 0x22 :: (Utf8.items s).flatMap jsonEscape ++ [0x22]

example : quote (ascii "a\"b\n\x7f") = ascii "\"a\\\"b\\n\\x7f\"" := by decide +kernel
example : quote [0xFF, 0xC2, 0xA0] = ascii "\"\\xff\\u00a0\"" := by decide +kernel

end SectScript.Quoted
