import SectScript.Clock
import SectScript.Dialect.Selection
import SectScript.Error.Report
import SectScript.Event.Journal
import SectScript.Loading
import SectScript.Settings

/-!
# Launching a program

The whole way of one program file: choose the dialect, read the source, load it, run it. Program
output and the error report go to the output; traces, dumps and statistics are kept apart in the
log.
-/

namespace SectScript

/-- How the content of a file is had. -/
abbrev FileReader := Bytes → Except ReadError Bytes

structure Launch where
  /-- The exit status, or the reason why the interpreter gave up. -/
  status : Except Fault Int
  state : State
  /-- The statement count, if statistics are due. -/
  statistics : Option Nat := none

namespace Launch

/-- The program text; a missing file is told apart from an unreadable one. -/
def source (read : FileReader) (file : Bytes) : Except Cause Bytes :=
  match read file with
  | .ok text => .ok text
  | .error .missing => .error (.fileNotFound file)
  | .error why => .error (.unreadableFile why)

/-- The dialect and the text of a program file. A bad name is found before the file is opened. -/
def prepare (settings : Settings) (read : FileReader) (file : Bytes) :
    Except Cause (Dialect × Bytes) :=
  match Dialect.ofName settings.dialect with
  | .error c => .error c
  | .ok forced =>
    match Dialect.ofFile file forced with
    | .error c => .error c
    | .ok dialect =>
      match source read file with
      | .error c => .error c
      | .ok text => .ok (dialect, text)

/-- The report on a failure, unless the interpreter itself gave up. -/
def failed (color : Bool) (f : Fault) (st : State) (statistics : Option Nat) : Launch :=
  if f.isAbort then ⟨.error f, st, none⟩
  else
    let report := Report.fault f color ++ Bytes.newline
    ⟨.ok 1, { st with output := st.output.offer report }, statistics⟩

def listing (p : Program) (st : State) : State :=
  { st with output := (Program.list p).foldl Output.offer st.output }

/-- Runs a loaded program and closes the books. -/
def execute (settings : Settings) (setup : Setup) (fuel : Nat) (st : State) : Launch :=
  match Machine.run setup fuel st with
  | (.ok _, st) =>
    ⟨.ok 0, st.note (setup.watch.final st.vars), if settings.stats then some st.executed else none⟩
  | (.error f, st) =>
    if f.isAbort then ⟨.error f, st, none⟩
    else
      failed settings.color f (st.note (setup.watch.final st.vars))
        (if settings.stats then some st.executed else none)

/-- One program file. -/
def file (settings : Settings) (read : FileReader) (fuel : Nat) (name : Bytes) (st : State) :
    Launch :=
  match prepare settings read name with
  | .error c => failed settings.color (.ofCause c) st none
  | .ok (dialect, text) =>
    let setup : Setup := { dialect, watch := settings.watch }
    match Loading.load setup text st with
    | (.error f, st) => failed settings.color f st none
    | (.ok p, st) =>
      let st := st.note (setup.watch.loaded p)
      if settings.list then ⟨.ok 0, listing p st, none⟩
      else execute settings { setup with program := some p } fuel st

/-- Traces, dumps and statistics. -/
def logText (l : Launch) (usage : Clock.Usage) : Bytes :=
  Event.renderAll l.state.log ++
    match l.statistics with
    | some n => Clock.statistics n usage
    | none => []

end Launch

end SectScript
