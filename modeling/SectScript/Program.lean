import SectScript.Error
import SectScript.Table

/-!
# Programs

A program is a table of sections. Inserting a section under a name that is taken replaces its line
number and statements. The listing writes the sections back in name order.
-/

namespace SectScript

def sectWord : Bytes := ascii "sect"

def closer : Bytes := ascii ";"

structure Section where
  lineNo : Int
  body : List SourceLine
  deriving DecidableEq

abbrev Program := Table Section

namespace Program

/-- A statement line of the listing, its number right-aligned to five places. -/
def listLine (l : SourceLine) : Bytes :=
  Bytes.padLeft 0x20 5 (Decimal.ofInt l.number) ++ ascii "  " ++ l.text ++ Bytes.newline

def listSection (name : Bytes) (s : Section) : List Bytes :=
  (sectWord ++ ascii " " ++ name ++ Bytes.newline) ::
    s.body.map listLine ++ [closer ++ Bytes.newline]

/-- The listing, line by line. -/
def list (p : Program) : List Bytes := p.entries.flatMap fun e => listSection e.1 e.2

end Program

end SectScript
