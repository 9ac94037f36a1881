import SectScript.Event.Journal
import SectScript.Loading

/-!
# Sessions

An interpreter that is used step by step. A step may load a program, run it or a part of it, or look
at a single piece; failure of one step does not end the session.
-/

namespace SectScript

structure Session where
  setup : Setup
  state : State

namespace Session

def fresh (dialect : Dialect) (watch : Watch) (input : Input) (budget : Option Nat) : Session :=
  ⟨{ dialect, watch }, { input, output := { budget } }⟩

/-- Runs an action of the machine. -/
def act {α : Type} (s : Session) (f : State → Outcome α) : Except Fault α × Session :=
  match f s.state with
  | (result, state) => (result, { s with state })

/-- A loaded program takes the place of the one before. -/
def load (s : Session) (source : Bytes) : Except Fault Program × Session :=
  match Loading.load s.setup source s.state with
  | (.ok p, state) => (.ok p, { setup := { s.setup with program := some p }, state })
  | (.error f, state) => (.error f, { s with state })

def newProgram (s : Session) : Session :=
  { s with setup := { s.setup with program := some .empty } }

def run (s : Session) (fuel : Nat) : Except Fault Unit × Session := s.act (Machine.run s.setup fuel)

def call (s : Session) (fuel : Nat) (name : Bytes) : Except Fault Unit × Session :=
  s.act (Machine.invoke s.setup fuel name)

/-- A statement without the surroundings of a source line. -/
def execute (s : Session) (fuel : Nat) (sect line : Bytes) : Except Fault Unit × Session :=
  s.act (Machine.perform s.setup (Machine.invoke s.setup fuel) sect line)

def executeLine (s : Session) (fuel : Nat) (sect : Bytes) (l : SourceLine) :
    Except Fault Unit × Session :=
  s.act (Machine.runLine s.setup (Machine.invoke s.setup fuel) sect l)

def evaluate (s : Session) (expr : Bytes) : Except Cause Bytes :=
  Expression.evaluate s.setup.dialect s.state.vars expr

def operand (s : Session) (text : Bytes) : Except Cause Operand :=
  Operand.resolve s.setup.dialect s.state.vars text

def condition (s : Session) (text : Bytes) : Except Fault Bool :=
  match Node.ofCondition text with
  | .error c => .error (.ofCause c)
  | .ok n => Condition.holds s.state.vars n

def print (s : Session) (n : Node) : Except Fault Unit × Session := s.act (Machine.print n)

def readLine (s : Session) : Except Fault Bytes × Session := s.act State.readLine

def store (s : Session) (name : Bytes) (v : Value) : Session :=
  { s with state := s.state.store s.setup.watch name v }

def interrupt (s : Session) : Session := { s with state := { s.state with interrupted := true } }

/-- Works on the program, which has to be there. -/
def withProgram {α : Type} (s : Session) (f : Program → α) : Except Fault α :=
  match s.setup.program with
  | some p => .ok (f p)
  | none => .error .crash

def insert (s : Session) (name : Bytes) (sect : Section) : Except Fault (Program × Session) :=
  s.withProgram fun p =>
    let p := p.insert name sect
    (p, { s with setup := { s.setup with program := some p } })

def listing (s : Session) : Except Fault Bytes := s.withProgram fun p => (Program.list p).flatten

def watch (s : Session) (w : Watch) : Session := { s with setup := { s.setup with watch := w } }

def noteFinal (s : Session) : Session :=
  { s with state := s.state.note (s.setup.watch.final s.state.vars) }

def noteLoaded (s : Session) : Except Fault Session :=
  s.withProgram fun p => { s with state := s.state.note (s.setup.watch.loaded p) }

/-- What the state has gained on an earlier one: output and log. -/
def gained (s : Session) (before : State) : Bytes × Bytes :=
  ((s.state.output.writes.toList.drop before.output.writes.size).flatten,
    Event.renderAll (s.state.log.extract before.log.size s.state.log.size))

end Session

end SectScript
