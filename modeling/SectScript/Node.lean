import SectScript.Text.Bytes

/-!
# Nodes

A statement is a line with its token and operands. Operands are nodes: a leaf carries a text (a
name, a literal, a raw piece of the line), an inner node carries further nodes. Nodes are plain
data, so a node that no line gives can be built as well; whoever evaluates one has to expect that.
-/

namespace SectScript

inductive Token where
  | comment
  | print
  | assign
  | call
  | cond
  | exit
  | varName
  | quoted
  | bare
  | expr
  | sectName
  | stmtText
  | eq
  | ne
  | ge
  | le
  | lt
  | gt
  | other (code : Int)
  deriving DecidableEq

namespace Token

/-- The named tokens, numbered from 1. -/
def named : List Token :=
  [comment, print, assign, call, cond, exit, varName, quoted, bare, expr, sectName, stmtText,
    eq, ne, ge, le, lt, gt]

def code : Token → Int
  | comment => 1
  | print => 2
  | assign => 3
  | call => 4
  | cond => 5
  | exit => 6
  | varName => 7
  | quoted => 8
  | bare => 9
  | expr => 10
  | sectName => 11
  | stmtText => 12
  | eq => 13
  | ne => 14
  | ge => 15
  | le => 16
  | lt => 17
  | gt => 18
  | other n => n

def ofCode (n : Int) : Token := (named.find? fun t => t.code == n).getD (other n)

def name : Token → Bytes
  | comment => ascii "COMMENT"
  | print => ascii "PRINT"
  | assign => ascii "LET"
  | call => ascii "CALL"
  | cond => ascii "IF"
  | exit => ascii "EXIT"
  | varName => ascii "VAR"
  | quoted => ascii "STRING"
  | bare => ascii "LITERAL"
  | expr => ascii "EXPR"
  | sectName => ascii "SECTION"
  | stmtText => ascii "STMT"
  | eq => ascii "=="
  | ne => ascii "!="
  | ge => ascii ">="
  | le => ascii "<="
  | lt => ascii "<"
  | gt => ascii ">"
  | other _ => ascii "UNKNOWN"

end Token

inductive Node where
  | leaf (token : Token) (data : Bytes)
  | inner (token : Token) (operands : List Node)

namespace Node

def token : Node → Token
  | leaf t _ => t
  | inner t _ => t

def data? : Node → Option Bytes
  | leaf _ d => some d
  | inner _ _ => none

def operands : Node → List Node
  | leaf _ _ => []
  | inner _ ns => ns

end Node

structure Statement where
  token : Token
  line : Bytes
  operands : List Node

example : Token.named.map Token.code = (List.range 18).map fun (n : Nat) => Int.ofNat (n + 1) := by
  decide

end SectScript
