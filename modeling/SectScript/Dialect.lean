import SectScript.Text.Bytes

/-!
# Dialects

All that differs between the dialects is answered here. Clarity defines variables anywhere, even
outside a section; Timballo only in its section `data`. The unset dialect has none of the special
rules and enters at `main`.
-/

namespace SectScript

def mainSection : Bytes := ascii "main"

def dataSection : Bytes := ascii "data"

inductive Dialect where
  | unset
  | clarity
  | timballo
  deriving DecidableEq, Repr

namespace Dialect

def name : Dialect → Bytes
  | unset => ascii "unset"
  | clarity => ascii "Clarity"
  | timballo => ascii "Timballo"

def suffix : Dialect → Bytes
  | timballo => ascii ".tim"
  | _ => ascii ".lnh"

/-- The sections that a program must have, in the order in which they run. -/
def entrySections : Dialect → List Bytes
  | timballo => [dataSection, mainSection]
  | _ => [mainSection]

def allowsTopLevelAssign (d : Dialect) : Bool := d == clarity

/-- An undefined variable in an expression stands for its own text. -/
def keepsUndefined (d : Dialect) : Bool := d == clarity

/-- Variables are defined in the section `data` only. -/
def restrictsDefinitions (d : Dialect) : Bool := d == timballo

end Dialect

end SectScript
