import SectScript.Text.Bytes

/-!
# Output

Program output is a sequence of writes. It may accept only so many; a refused write leaves no trace.
-/

namespace SectScript

structure Output where
  /-- How many more writes are accepted; none if all are. -/
  budget : Option Nat := none
  writes : Array Bytes := #[]

namespace Output

def write? (o : Output) (text : Bytes) : Option Output :=
  match o.budget with
  | none => some { o with writes := o.writes.push text }
  | some 0 => none
  | some (n + 1) => some { budget := some n, writes := o.writes.push text }

/-- Writes if that is accepted. -/
def offer (o : Output) (text : Bytes) : Output := (o.write? text).getD o

def text (o : Output) : Bytes := o.writes.toList.flatten

end Output

end SectScript
