import SectScript.Node
import SectScript.Program
import SectScript.Value

/-!
# Events

What an observer can be told about a run: the statements entered, the variables changed, the section
table after loading, the variables at the end, and each statement as it was understood. `Watch` says
which events are of interest; nothing else about a run depends on it.
-/

namespace SectScript

inductive Event where
  | entered (sect : Bytes) (line : SourceLine)
  | changed (name : Bytes) (before : Option Bytes) (now : Bytes)
  | loaded (sections : List Bytes)
  | final (name value : Bytes)
  | understood (stmt : Statement)

structure Watch where
  /-- Statements and the section table. -/
  exec : Bool := false
  /-- All variables. -/
  vars : Bool := false
  /-- Single variables. -/
  names : List Bytes := []
  /-- Statements as they were understood. -/
  dump : Bool := false

namespace Watch

def wantsVariable (w : Watch) (name : Bytes) : Bool := w.vars || w.names.any (· == name)

def entered (w : Watch) (sect : Bytes) (line : SourceLine) : List Event :=
  if w.exec then [.entered sect line] else []

def changed (w : Watch) (name : Bytes) (before : Option Value) (now : Value) : List Event :=
  if w.wantsVariable name then [.changed name (before.map (·.natural)) now.natural] else []

def loaded (w : Watch) (p : Program) : List Event := if w.exec then [.loaded p.names] else []

def final (w : Watch) (vars : Table Value) : List Event :=
  if w.vars then vars.entries.map fun e => .final e.1 e.2.natural else []

def understood (w : Watch) (stmt : Statement) : List Event :=
  if w.dump then [.understood stmt] else []

end Watch

/-- Which observers a user asked for, as written in the settings. -/
structure TraceSettings where
  exec : Bool := false
  vars : Bool := false
  watched : List Bytes := []
  deriving DecidableEq

/-- A watched variable may be written with its sigil. -/
def TraceSettings.watch (t : TraceSettings) (dump : Bool) : Watch :=
  { exec := t.exec, vars := t.vars, names := t.watched.map (Bytes.dropPrefix (ascii "$")), dump }

end SectScript
