import SectScript.Yaml.Problem

/-!
# The characters of a document

A document is UTF-8, or UTF-16 if it begins with a byte order mark of that form. It holds printable
characters, tabulators and line ends only. It comes in portions: each takes up to 512 bytes, and a
character that does not fit into one begins the next. A portion that holds a bad byte cannot be had,
and ends the text.
-/

namespace SectScript.Yaml

def isText (n : Nat) : Bool :=
  n == 0x09 || n == 0x0A || n == 0x0D || (0x20 ≤ n && n ≤ 0x7E) || n == 0x85 ||
  (0xA0 ≤ n && n ≤ 0xD7FF) || (0xE000 ≤ n && n ≤ 0xFFFD) || (0x10000 ≤ n && n ≤ 0x10FFFF)

structure Failure where
  problem : Problem
  /-- How many good characters its portion begins with. -/
  before : Nat

structure Source where
  /-- All good characters, those of a portion that cannot be had included. -/
  text : List Char
  portions : List Nat
  failure : Option Failure

/-- One character for each line end: a carriage return stands for the pair of carriage return and
line feed, and a lone one becomes a line feed. -/
def joinPairs : List Nat → List Char
  | [] => []
  | [n] => [if n = 0x0D then '\n' else Char.ofNat n]
  | n :: m :: rest =>
    if n = 0x0D && m = 0x0A then '\r' :: joinPairs rest
    else (if n = 0x0D then '\n' else Char.ofNat n) :: joinPairs (m :: rest)

/-! ## Portions -/

def portionSize : Nat := 512

/-- The portions so far; what has been collected is last first. -/
structure Loading where
  codes : List Nat := []
  sizes : List Nat := []
  count : Nat := 0
  room : Nat := portionSize

namespace Loading

def next (l : Loading) : Loading :=
  { l with sizes := l.count :: l.sizes, count := 0, room := portionSize }

/-- Takes `width` bytes, out of the next portion if they do not fit. -/
def reserve (l : Loading) (width : Nat) : Loading :=
  let l := if width ≤ l.room then l else l.next
  { l with room := l.room - width }

def push (l : Loading) (width code : Nat) : Loading :=
  let l := l.reserve width
  { l with codes := code :: l.codes, count := l.count + 1 }

def finish (l : Loading) : Source := ⟨joinPairs l.codes.reverse, l.next.sizes.reverse, none⟩

def fail (l : Loading) (width : Nat) (p : Problem) : Source :=
  let l := l.reserve width
  ⟨joinPairs l.codes.reverse, l.sizes.reverse, some ⟨p, l.count⟩⟩

/-- The last character is incomplete, which shows only behind all others. -/
def cut (l : Loading) (p : Problem) : Source := { l.finish with failure := some ⟨p, 0⟩ }

end Loading

/-! ## Encodings -/

/-- The code of an octet sequence: its octets are complete, it is not longer than needed, and it is
a character that may occur. -/
def ofOctets (least lead : Nat) (tail : List UInt8) : Except Problem Nat :=
  if tail.any fun b => b.toNat / 64 != 2 then .error .trailingOctet
  else
    let n := tail.foldl (fun n b => n * 64 + b.toNat % 64) lead
    if n < least then .error .octetLength
    else if (0xD800 ≤ n && n ≤ 0xDFFF) || 0x10FFFF < n then .error .noCharacter
    else if isText n then .ok n
    else .error .control

def ofUtf8 (l : Loading) : Bytes → Source
  | [] => l.finish
  | a :: s =>
    if a < 0x80 then
      match ofOctets 0 a.toNat [] with
      | .ok n => ofUtf8 (l.push 1 n) s
      | .error p => l.fail 1 p
    else if a < 0xC0 || 0xF8 ≤ a then l.fail 1 .leadingOctet
    else if a < 0xE0 then
      match s with
      | b :: s =>
        match ofOctets 0x80 (a.toNat % 32) [b] with
        | .ok n => ofUtf8 (l.push 2 n) s
        | .error p => l.fail 2 p
      | _ => l.cut .incompleteOctets
    else if a < 0xF0 then
      match s with
      | b :: c :: s =>
        match ofOctets 0x800 (a.toNat % 16) [b, c] with
        | .ok n => ofUtf8 (l.push 3 n) s
        | .error p => l.fail 3 p
      | _ => l.cut .incompleteOctets
    else
      match s with
      | b :: c :: d :: s =>
        match ofOctets 0x10000 (a.toNat % 8) [b, c, d] with
        | .ok n => ofUtf8 (l.push 4 n) s
        | .error p => l.fail 4 p
      | _ => l.cut .incompleteOctets

/-- Units of two bytes; a pair of surrogates is one character. -/
def ofUtf16 (unit : UInt8 → UInt8 → Nat) (l : Loading) : Bytes → Source
  | [] => l.finish
  | [_] => l.cut .incompleteUnit
  | a :: b :: s =>
    let n := unit a b
    if n / 1024 == 55 then l.fail 2 .loneLowSurrogate
    else if n / 1024 == 54 then
      match s with
      | c :: d :: s =>
        if unit c d / 1024 == 55 then
          ofUtf16 unit (l.push 4 (0x10000 + n % 1024 * 1024 + unit c d % 1024)) s
        else l.fail 4 .missingLowSurrogate
      | _ => l.cut .incompletePair
    else if isText n then ofUtf16 unit (l.push 2 n) s
    else l.fail 2 .control

/-- The characters of a document, without the byte order mark that tells its encoding. -/
def Source.ofBytes : Bytes → Source
  | 0xEF :: 0xBB :: 0xBF :: s => ofUtf8 (({} : Loading).reserve 3) s
  | 0xFF :: 0xFE :: s =>
    ofUtf16 (fun a b => a.toNat + b.toNat * 256) (({} : Loading).reserve 2) s
  | 0xFE :: 0xFF :: s =>
    ofUtf16 (fun a b => a.toNat * 256 + b.toNat) (({} : Loading).reserve 2) s
  | s => ofUtf8 {} s

example : (Source.ofBytes (ascii "a\r\nb\rc")).text = ['a', '\r', 'b', '\n', 'c'] := by
  decide +kernel
example : (Source.ofBytes (List.replicate 511 0x61 ++ [0xC3, 0xA4])).portions = [511, 1] := by
  decide +kernel

end SectScript.Yaml
