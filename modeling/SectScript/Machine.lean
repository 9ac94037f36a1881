import SectScript.Condition
import SectScript.Event
import SectScript.Expression
import SectScript.Input
import SectScript.Output

/-!
# The machine

`State` is all that a run changes, `Setup` all that it only looks at. `step` executes one line up to
the point where it ends or calls a section; the consequent of an `if` is part of the line. `runLine`
adds what surrounds a line: the poll for a stop request, the count, the trace and the location of
errors. `invoke` runs sections; its fuel bounds how deeply calls nest and nothing else.
-/

namespace SectScript

structure State where
  vars : Table Value := .empty
  input : Input := .absent
  output : Output := {}
  log : Array Event := #[]
  /-- Lines executed so far. -/
  executed : Nat := 0
  /-- A stop request is pending. -/
  interrupted : Bool := false
  /-- Stop requests from outside: whether one arrives before the next line, the one after, … -/
  arrivals : List Bool := []

structure Setup where
  dialect : Dialect
  program : Option Program := none
  watch : Watch := {}

abbrev Outcome (α : Type) := Except Fault α × State

namespace State

def note (st : State) (events : List Event) : State :=
  { st with log := events.foldl Array.push st.log }

/-- Takes what arrived from outside since the last poll. -/
def poll (st : State) : State :=
  match st.arrivals with
  | [] => st
  | arrived :: later =>
    { st with interrupted := st.interrupted || arrived, arrivals := later }

def store (w : Watch) (name : Bytes) (v : Value) (st : State) : State :=
  { st.note (w.changed name (st.vars.find? name) v) with vars := st.vars.insert name v }

/-- One trimmed line of input. -/
def readLine (st : State) : Outcome Bytes :=
  match st.input.read? with
  | none => (.error (.internal (ascii "No input source")), st)
  | some (reply, interrupts, left) =>
    let st := { st with input := left, interrupted := st.interrupted || interrupts }
    match reply.line? with
    | .ok line => (.ok (Bytes.trim line), st)
    | .error c => (.error (.ofCause c), st)

end State

namespace Machine

/-- The text that a print argument stands for. -/
def printed (vars : Table Value) (arg : Node) : Except Fault Bytes :=
  match arg.token, arg.data? with
  | .varName, some name =>
    match fetch vars name with
    | .ok v => .ok v.natural
    | .error c => .error (.ofCause c)
  | .quoted, some s => .ok s
  | .varName, none | .quoted, none => .error .crash
  | t, _ => .error (unexpectedToken t)

def print (arg : Node) (st : State) : Outcome Unit :=
  match printed st.vars arg with
  | .error f => (.error f, st)
  | .ok text =>
    match st.output.write? (text ++ Bytes.newline) with
    | some output => (.ok (), { st with output })
    | none => (.error .refused, st)

/-- The value of an assignment and whether its place may define `name`, in this order. -/
def assigned (setup : Setup) (sect name expr : Bytes) (vars : Table Value) : Except Cause Value :=
  match Expression.evaluate setup.dialect vars expr with
  | .error c => .error c
  | .ok result =>
    match Value.ofResult? result with
    | none => .error (.arithmetic .overflow)
    | some v =>
      if setup.dialect.restrictsDefinitions && (vars.find? name).isNone && sect != dataSection then
        .error .misplacedDefinition
      else .ok v

def assignText (setup : Setup) (sect name expr : Bytes) (st : State) : Outcome Unit :=
  match assigned setup sect name expr st.vars with
  | .error c => (.error (.ofCause c), st)
  | .ok v => (.ok (), st.store setup.watch name v)

/-- The expression `%` stands for a line of input. -/
def assign (setup : Setup) (sect name expr : Bytes) (st : State) : Outcome Unit :=
  if expr == ascii "%" then
    match st.readLine with
    | (.error f, st) => (.error f, st)
    | (.ok line, st) => assignText setup sect name line st
  else assignText setup sect name expr st

/-- The section that a line calls, if it comes to that. -/
abbrev Callee := Option Bytes

/-- Executes a line up to a call. Each consequent is shorter than its line, so the fuel, which is
taken from the length, does not run out. -/
def stepWith (setup : Setup) (sect : Bytes) : (fuel : Nat) → Bytes → State → Outcome Callee
  | 0, _, st => (.error .unfinished, st)
  | fuel + 1, line, st =>
    match Statement.ofLine line with
    | .error c => (.error (.ofCause c), st)
    | .ok stmt =>
      let st := st.note (setup.watch.understood stmt)
      match stmt.token, stmt.operands with
      | .comment, _ => (.ok none, st)
      | .print, arg :: _ =>
        match print arg st with
        | (.ok _, st) => (.ok none, st)
        | (.error f, st) => (.error f, st)
      | .assign, .leaf _ name :: .leaf _ expr :: _ =>
        match assign setup sect name expr st with
        | (.ok _, st) => (.ok none, st)
        | (.error f, st) => (.error f, st)
      | .call, .leaf _ name :: _ => (.ok (some name), st)
      | .cond, condition :: .leaf _ consequent :: _ =>
        match Condition.holds st.vars condition with
        | .error f => (.error f, st)
        | .ok false => (.ok none, st)
        | .ok true => stepWith setup sect fuel consequent st
      | .exit, _ => (.error .exit, st)
      | .print, _ | .assign, _ | .call, _ | .cond, _ => (.error .crash, st)
      | t, _ => (.error (unexpectedToken t), st)

def step (setup : Setup) (sect line : Bytes) (st : State) : Outcome Callee :=
  stepWith setup sect (line.length + 1) line st

/-- A line with the section it calls, `call` saying how a section is run. -/
def perform (setup : Setup) (call : Bytes → State → Outcome Unit) (sect line : Bytes) (st : State) :
    Outcome Unit :=
  match step setup sect line st with
  | (.error f, st) => (.error f, st)
  | (.ok none, st) => (.ok (), st)
  | (.ok (some name), st) => call name st

def interruptedAt (l : SourceLine) : Fault := .error (LangError.at { cause := .interrupted } l)

/-- A source line. A pending stop request ends the run before it. -/
def runLine (setup : Setup) (call : Bytes → State → Outcome Unit) (sect : Bytes) (l : SourceLine)
    (st : State) : Outcome Unit :=
  let st := st.poll
  if st.interrupted then (.error (interruptedAt l), { st with interrupted := false })
  else
    let st := { st with executed := st.executed + 1 }.note (setup.watch.entered sect l)
    match perform setup call sect l.text st with
    | (.ok _, st) => (.ok (), st)
    | (.error f, st) => (.error (f.locate l), st)

/-- Lines in order; the first that fails ends the section. -/
def runLines (setup : Setup) (call : Bytes → State → Outcome Unit) (sect : Bytes) :
    List SourceLine → State → Outcome Unit
  | [], st => (.ok (), st)
  | l :: ls, st =>
    match runLine setup call sect l st with
    | (.ok _, st) => runLines setup call sect ls st
    | (.error f, st) => (.error f, st)

def invoke (setup : Setup) : (fuel : Nat) → Bytes → State → Outcome Unit
  | 0, _, st => (.error .unfinished, st)
  | fuel + 1, name, st =>
    match setup.program with
    | none => (.error .crash, st)
    | some program =>
      match program.find? name with
      | none => (.error (.ofCause (.sectionNotFound name)), st)
      | some s => runLines setup (invoke setup fuel) name s.body st

/-- Sections one after the other; `exit` in one is the end of all. -/
def runEntries (setup : Setup) (fuel : Nat) : List Bytes → State → Outcome Unit
  | [], st => (.ok (), st)
  | name :: names, st =>
    match invoke setup fuel name st with
    | (.ok _, st) => runEntries setup fuel names st
    | (.error .exit, st) => (.ok (), st)
    | (.error f, st) => (.error f, st)

/-- The whole program. -/
def run (setup : Setup) (fuel : Nat) (st : State) : Outcome Unit :=
  match setup.program with
  | none => (.error (.internal (ascii "No program loaded")), st)
  | some _ => runEntries setup fuel setup.dialect.entrySections st

end Machine

end SectScript
