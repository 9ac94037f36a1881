import SectScript.Machine

/-!
# Loading

A source text is split into sections without looking into their statements. A section that is opened
before the last one was closed drops it. In Clarity an assignment may stand outside all sections; it
is executed on the spot.
-/

namespace SectScript.Loading

/-- A section that is being read. -/
structure Pending where
  name : Bytes
  lineNo : Int
  body : List SourceLine

/-- What the lines so far have left behind. -/
structure Progress where
  pending : Option Pending := none
  program : Program := .empty

/-- Calls do not occur outside sections. -/
def noCall (_ : Bytes) (st : State) : Outcome Unit := (.error .crash, st)

def failAt (c : Cause) (l : SourceLine) : Fault := .error (LangError.at { cause := c } l)

/-- One line of the source, trimmed and not empty. -/
def line (setup : Setup) (l : SourceLine) (p : Progress) (st : State) : Outcome Progress :=
  if hasKeyword l.text sectWord then
    let name := Bytes.trim (l.text.drop sectWord.length)
    if name == [] then (.error (failAt .missingSectionName l), st)
    else (.ok { p with pending := some ⟨name, l.number, []⟩ }, st)
  else if l.text == closer then
    match p.pending with
    | none => (.error (failAt .strayCloser l), st)
    | some s => (.ok ⟨none, p.program.insert s.name ⟨s.lineNo, s.body⟩⟩, st)
  else
    match p.pending with
    | some s => (.ok { p with pending := some { s with body := s.body ++ [l] } }, st)
    | none =>
      if setup.dialect.allowsTopLevelAssign && isAssignment l.text then
        match Machine.runLine setup noCall [] l st with
        | (.ok _, st) => (.ok p, st)
        | (.error f, st) => (.error f, st)
      else (.error (failAt .codeOutsideSection l), st)

/-- The lines of a source, the first being number `n`. -/
def lines (setup : Setup) : (n : Nat) → List Bytes → Progress → State → Outcome Progress
  | _, [], p, st => (.ok p, st)
  | n, raw :: rest, p, st =>
    if Bytes.trim raw == [] then lines setup (n + 1) rest p st
    else
      match line setup ⟨n, Bytes.trim raw⟩ p st with
      | (.ok p, st) => lines setup (n + 1) rest p st
      | (.error f, st) => (.error f, st)

/-- The end of the source: no section is open and all entry sections are there. -/
def finish (dialect : Dialect) (p : Progress) : Except Fault Program :=
  match p.pending with
  | some s => .error (.ofCause (.unclosedSection s.name))
  | none =>
    if dialect.entrySections.all fun name => (p.program.find? name).isSome then .ok p.program
    else .error (.ofCause (.missingEntry dialect))

def load (setup : Setup) (source : Bytes) (st : State) : Outcome Program :=
  match lines setup 1 (Bytes.pieces 0x0A source) {} st with
  | (.error f, st) => (.error f, st)
  | (.ok p, st) => (finish setup.dialect p, st)

end SectScript.Loading
