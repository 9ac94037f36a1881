import SectScript.Error

/-!
# Error reports

What the user sees of an error: the category and the place in red, the offending line in yellow
below it, then the hints, one a line.
-/

namespace SectScript.Report

structure Palette where
  red : Bytes
  yellow : Bytes
  reset : Bytes

def palette (color : Bool) : Palette :=
  if color then ⟨ascii "\x1b[91m", ascii "\x1b[93m", ascii "\x1b[0m"⟩ else ⟨[], [], []⟩

def format (category message : Bytes) (lineNo : Int) (line : Bytes) (color : Bool) : Bytes :=
  let p := palette color
  if 0 < lineNo then
    p.red ++ category ++ ascii " at line " ++ Decimal.ofInt lineNo ++ ascii ":" ++ p.reset ++
      ascii " " ++ message ++
      (if line.isEmpty then [] else ascii "\n  " ++ p.yellow ++ line ++ p.reset)
  else p.red ++ category ++ ascii ":" ++ p.reset ++ ascii " " ++ message

def hintLines (hints : List Bytes) : Bytes := hints.flatMap fun h => Bytes.newline ++ h

def error (e : LangError) (color : Bool) : Bytes :=
  format e.cause.kind.name e.cause.message e.lineNo e.line color ++ hintLines e.cause.hints

/-- The report on anything that is not an error of the language. -/
def unexpected (text : Bytes) (color : Bool) : Bytes :=
  format (ascii "Internal Error") (ascii "An unexpected error occurred: " ++ text) 0 [] color

def faultText : Fault → Bytes
  | .error e => e.cause.message
  | .exit => ascii "exit"
  | .refused => ascii "write refused"
  | .internal message => message
  | .crash => ascii "runtime error: invalid memory address or nil pointer dereference"
  | .unfinished => ascii "sections are called too deeply"

def fault (f : Fault) (color : Bool) : Bytes :=
  match f with
  | .error e => error e color
  | f => unexpected (faultText f) color

/-- An error in one line, without hints. -/
def oneLine (e : LangError) : Bytes :=
  if 0 < e.lineNo then
    e.cause.kind.name ++ ascii " at line " ++ Decimal.ofInt e.lineNo ++ ascii ": " ++
      e.cause.message
  else e.cause.kind.name ++ ascii ": " ++ e.cause.message

/-- The report on an interpreter that gave up, `place` saying where. -/
def abortText (text place : Bytes) : Bytes :=
  format (ascii "Internal Error") (text ++ ascii " at " ++ place) 0 [] false

/-- A message of the interpreter itself is quoted. -/
def abort (f : Fault) (place : Bytes) : Bytes :=
  match f with
  | .internal message => abortText (Quoted.quote message) place
  | f => abortText (faultText f) place

end SectScript.Report
