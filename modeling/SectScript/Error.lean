import SectScript.Arithmetic
import SectScript.Dialect
import SectScript.Files
import SectScript.Text.Blank
import SectScript.Text.Decimal
import SectScript.Text.Quoted

/-!
# Errors

A `Cause` says what went wrong in a program or its settings; its wording is `Cause.message`. An
error carries a cause and the source line it belongs to, 0 standing for none. `Fault` is every way
in which work can end early: with an error, by `exit`, by a refused write, or because the
interpreter itself cannot go on.
-/

namespace SectScript

inductive ErrorKind where
  | syntactic
  | runtime
  | file
  | unknown
  deriving DecidableEq, Repr

def ErrorKind.name : ErrorKind → Bytes
  | syntactic => ascii "Syntax Error"
  | runtime => ascii "Runtime Error"
  | file => ascii "File Error"
  | unknown => ascii "Error"

def ErrorKind.ofCode (n : Int) : ErrorKind :=
  if n = 1 then syntactic else if n = 2 then runtime else if n = 3 then file else unknown

def ArithError.message : ArithError → Bytes
  | overflow => ascii "Integer overflow"
  | divisionByZero => ascii "Division by 0"

inductive Cause where
  | missingSectionName
  | strayCloser
  | codeOutsideSection
  | unclosedSection (name : Bytes)
  | missingEntry (dialect : Dialect)
  | missingPrintArgument
  | badPrintArgument
  | missingVariableName
  | missingConsequent
  | malformedCondition (text : Bytes)
  | unrecognized
  | undefinedVariable (name : Bytes)
  | sectionNotFound (name : Bytes)
  | misplacedDefinition
  | invalidExpression (text : Bytes) (why : Option ArithError)
  | arithmetic (why : ArithError)
  | endOfInput
  | interrupted
  | timedOut
  | inputFailed (text : Bytes)
  | invalidExtension (file : Bytes) (wanted : List Dialect)
  | unknownDialect (name : Bytes)
  | fileNotFound (name : Bytes)
  | unreadableFile (why : ReadError)
  | badSettings (path : Bytes) (problem : Bytes)
  /-- An error that a caller states in its own words. -/
  | stated (kind : ErrorKind) (text : Bytes) (hints : List Bytes)
  deriving DecidableEq

/-- A path in front of its extension, and the extension from its dot on. Only the part behind the
last slash has one. -/
def splitExtension (path : Bytes) : Bytes × Bytes :=
  let plain := fun b : UInt8 => b != 0x2E && b != 0x2F
  match path.reverse.dropWhile plain with
  | 0x2E :: base => (base.reverse, 0x2E :: (path.reverse.takeWhile plain).reverse)
  | _ => (path, [])

namespace Cause

def kind : Cause → ErrorKind
  | missingSectionName | strayCloser | codeOutsideSection | unclosedSection _ | missingEntry _
  | missingPrintArgument | badPrintArgument | missingVariableName | missingConsequent
  | malformedCondition _ | unrecognized => .syntactic
  | undefinedVariable _ | sectionNotFound _ | misplacedDefinition | invalidExpression _ _
  | arithmetic _ | endOfInput | interrupted | timedOut | inputFailed _ => .runtime
  | invalidExtension _ _ | unknownDialect _ | fileNotFound _ | unreadableFile _
  | badSettings _ _ => .file
  | stated k _ _ => k

def message : Cause → Bytes
  | missingSectionName => ascii "Missing section name"
  | strayCloser => ascii "Unexpected semicolon outside section"
  | codeOutsideSection => ascii "Code must be inside a section"
  | unclosedSection name => ascii "Unclosed section: " ++ name
  | missingEntry .timballo => ascii "No 'main' or 'data' section found in the program"
  | missingEntry _ => ascii "No 'main' section found in the program"
  | missingPrintArgument => ascii "Missing argument for print statement"
  | badPrintArgument => ascii "Print argument must be a variable or string literal"
  | missingVariableName => ascii "Missing variable name"
  | missingConsequent => ascii "Missing statement after 'then'"
  | malformedCondition text => ascii "Malformed condition '" ++ text ++ ascii "'"
  | unrecognized => ascii "Unrecognized statement"
  | undefinedVariable name => ascii "Variable '$" ++ name ++ ascii "' is not defined"
  | sectionNotFound name => ascii "Section '" ++ name ++ ascii "' not found"
  | misplacedDefinition =>
    ascii "Variable definitions are only allowed inside the 'data' section"
  | invalidExpression text none => ascii "Invalid expression '" ++ text ++ ascii "'"
  | invalidExpression text (some why) =>
    ascii "Invalid expression '" ++ text ++ ascii "': " ++ why.message
  | arithmetic why => why.message
  | endOfInput => ascii "End of input"
  | interrupted => ascii "Interrupted"
  | timedOut => ascii "Keyboard wait exhausted"
  | inputFailed text => text
  | invalidExtension _ _ => ascii "Invalid file extension"
  | unknownDialect name => ascii "Unknown dialect " ++ Quoted.quote name
  | fileNotFound name => ascii "File not found: " ++ name
  | unreadableFile why => ascii "Failed to read file: " ++ why.text
  | badSettings path problem => ascii "Invalid configuration file " ++ path ++ ascii ": " ++ problem
  | stated _ text _ => text

/-- The name that a file of the dialect would have. -/
def renamed (file : Bytes) (d : Dialect) : Bytes := (splitExtension file).1 ++ d.suffix

/-- Advice printed below the message. -/
def hints : Cause → List Bytes
  | invalidExtension file wanted =>
    wanted.flatMap fun d =>
      [ascii "The " ++ d.name ++ ascii " programming language requires files to have a " ++
          d.suffix ++ ascii " extension",
        ascii "Please rename '" ++ file ++ ascii "' to '" ++ renamed file d ++ ascii "'"]
  | stated _ _ hints => hints
  | _ => []

end Cause

structure LangError where
  cause : Cause
  lineNo : Int := 0
  line : Bytes := []
  deriving DecidableEq

inductive Fault where
  | error (e : LangError)
  /-- The `exit` statement, which ends a run normally. -/
  | exit
  /-- The output does not accept a write. -/
  | refused
  /-- A condition that the interpreter relies on does not hold. -/
  | internal (message : Bytes)
  /-- Something that is not there was used. -/
  | crash
  /-- Sections were called more deeply than allowed. -/
  | unfinished
  deriving DecidableEq

/-- One line of a program, with its number in the source. -/
structure SourceLine where
  number : Int
  text : Bytes
  deriving DecidableEq

def LangError.at (e : LangError) (l : SourceLine) : LangError :=
  { e with lineNo := l.number, line := l.text }

/-- Gives an error without location the line that was being executed; the innermost line wins. -/
def Fault.locate (l : SourceLine) : Fault → Fault
  | error e => if e.lineNo = 0 then error (e.at l) else error e
  | f => f

def Fault.ofCause (c : Cause) : Fault := .error { cause := c }

/-- The interpreter gives up with a message, which loses its line ends. -/
def Fault.fatal (message : Bytes) : Fault :=
  .internal (Bytes.dropRightWhile (· == 0x0A) message)

/-- A condition that the interpreter relies on. -/
def Fault.ensure (holds : Bool) (message : Bytes) : Except Fault Unit :=
  if holds then .ok () else .error (.fatal message)

/-- The interpreter itself gave up. -/
def Fault.isAbort : Fault → Bool
  | internal _ | crash | unfinished => true
  | error _ | exit | refused => false

end SectScript
