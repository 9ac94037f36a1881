import SectScript.Error
import SectScript.Text.Blank

/-!
# Choosing the dialect

A dialect is named by the user or follows from the suffix of the program file. A dialect that is
forced must agree with the suffix. Names and suffixes are compared without regard to case.
-/

namespace SectScript.Dialect

/-- Lower case, as far as the lower-case form is an ASCII letter: besides the capital letters,
U+0130 is mapped to `i` and U+212A to `k`. That decides equality with a word of lower-case
letters. -/
def lower : Bytes → Bytes
  | [] => []
  | 0xC4 :: 0xB0 :: s => 0x69 :: lower s
  | 0xE2 :: 0x84 :: 0xAA :: s => 0x6B :: lower s
  | b :: s => (if 0x41 ≤ b && b ≤ 0x5A then b + 0x20 else b) :: lower s

def ofName (name : Bytes) : Except Cause Dialect :=
  let word := lower (Bytes.trim name)
  if word == [] then .ok unset
  else if word == ascii "clarity" || word == ascii "lnh" then .ok clarity
  else if word == ascii "timballo" || word == ascii "tim" then .ok timballo
  else .error (.unknownDialect name)

/-- The dialect of a program file. -/
def ofFile (file : Bytes) (forced : Dialect) : Except Cause Dialect :=
  let suffix := lower (splitExtension file).2
  match forced with
  | unset =>
    if suffix == clarity.suffix then .ok clarity
    else if suffix == timballo.suffix then .ok timballo
    else .error (.invalidExtension file [clarity, timballo])
  | forced =>
    if suffix == forced.suffix then .ok forced else .error (.invalidExtension file [forced])

end SectScript.Dialect
