import SectScript.Node
import SectScript.Text.Columns
import SectScript.Text.Decimal

/-!
# Statement dumps

A statement written as a coloured tree of records, the field names of a record aligned. Controls in
texts are written as escapes.
-/

namespace SectScript.Dump

def paint (color : String) (s : Bytes) : Bytes :=
  ascii "\x1b[" ++ ascii color ++ ascii "m" ++ s ++ ascii "\x1b[0m"

def gray (s : Bytes) : Bytes := paint "90" s

def yellow (s : Bytes) : Bytes := paint "33" s

def lime (s : Bytes) : Bytes := paint "38;5;113" s

def cyan (s : Bytes) : Bytes := paint "38;5;38" s

def escapeByte (b : UInt8) : Bytes :=
  if b == 0x09 then ascii "\\t"
  else if b == 0x0A then ascii "\\n"
  else if b == 0x0D then ascii "\\r"
  else if b == 0x0B then ascii "\\v"
  else if b == 0x0C then ascii "\\f"
  else if b == 0x1B then ascii "\\x1b"
  else [b]

def text (s : Bytes) : Bytes :=
  yellow (ascii "\"") ++ lime (s.flatMap escapeByte) ++ yellow (ascii "\"")

def number (n : Int) : Bytes := cyan (Decimal.ofInt n)

def absent (type : String) : Bytes := lime (ascii type) ++ gray (ascii "(nil)")

def indent (depth : Nat) : Bytes := List.replicate (2 * depth) 0x20

/-- A field line; the tabulator ends the aligned part. -/
def field (depth : Nat) (name : String) (value : Bytes) : Bytes :=
  indent (depth + 1) ++ yellow (ascii "-") ++ ascii name ++ ascii "\t=> " ++ value ++ Bytes.newline

def record (depth : Nat) (type : String) (fields : List Bytes) : Bytes :=
  gray (ascii "#main." ++ ascii type) ++ ascii " \n" ++ fields.flatten ++ indent depth ++
    ascii "\x7d"

/-- A list of records, each written for the depth of its line. -/
def items (depth : Nat) (records : List Bytes) : Bytes :=
  if records.isEmpty then absent "[]*main.tokenNode"
  else
    ascii "[\n" ++
      (records.zipIdx.flatMap fun r =>
        indent (depth + 1) ++ number r.2 ++ ascii " => " ++ r.1 ++ Bytes.newline) ++
      indent depth ++ ascii "]"

mutual

def node (depth : Nat) : Node → Bytes
  | .leaf t data =>
    record depth "tokenNode"
      [field depth "operands" (items (depth + 1) []), field depth "tokenData" (text data),
        field depth "token" (number t.code)]
  | .inner t operands =>
    record depth "tokenNode"
      [field depth "operands" (items (depth + 1) (nodes (depth + 2) operands)),
        field depth "tokenData" (absent "interface \x7b\x7d"), field depth "token" (number t.code)]

def nodes (depth : Nat) : List Node → List Bytes
  | [] => []
  | n :: ns => node depth n :: nodes depth ns

end

def statement (s : Statement) : Bytes :=
  gray (ascii "<#dump // execute.go") ++ Bytes.newline ++
    Columns.align (record 0 "stmtNode"
      [field 0 "token" (number s.token.code), field 0 "line" (text s.line),
        field 0 "operands" (items 1 (nodes 2 s.operands))]) ++ Bytes.newline

end SectScript.Dump
