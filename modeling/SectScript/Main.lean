import SectScript.CommandLine

/-!
# The program

Reads the files that the command line names, launches the program, and prints. Standard input is
read only if the program asks for a line.
-/

namespace SectScript.Console

def bytesOf (s : String) : Bytes := s.toUTF8.toList

/-- Error numbers of the system come with either sign. -/
def isNumber (n code : UInt32) : Bool := code == n || code == 0 - n

def readError : IO.Error → ReadError
  | .noFileOrDirectory _ _ _ => .missing
  | .inappropriateType _ code _ => if isNumber 20 code then .notDirectory else .isDirectory
  | .invalidArgument _ code _ => if isNumber 36 code then .nameTooLong else .invalidName
  | .permissionDenied _ _ _ => .denied
  | _ => .isDirectory

/-- The content of a file, whose name must be well-formed UTF-8. -/
def readFile (name : Bytes) : IO (Except ReadError Bytes) := do
  match String.fromUTF8? ⟨name.toArray⟩ with
  | none => return .error .missing
  | some path =>
    try return .ok (← IO.FS.readBinFile path).toList
    catch e => return .error (readError e)

/-- A reader that knows the given files. -/
def readerOf (files : List (Bytes × Except ReadError Bytes)) : FileReader := fun name =>
  ((files.find? fun f => f.1 == name).map (·.2)).getD (.error .missing)

/-- All that is left of a stream. -/
partial def readAll (stream : IO.FS.Stream) (read : ByteArray) : IO ByteArray := do
  let more ← stream.read 65536
  if more.isEmpty then return read else readAll stream (read ++ more)

/-- Sections may be called this deeply. -/
def depth : Nat := 1000000

/-- The processor times so far, in seconds. -/
def times : IO (Except Clock.Problem (Int × Int)) := do
  match ← readFile (ascii "/proc/self/stat") with
  | .ok record => return Clock.processorTimes 1 record
  | .error _ => return .error .shortRecord

def usage (start : Nat) (before : Except Clock.Problem (Int × Int)) : IO Clock.Usage := do
  let elapsed := ((← IO.monoMsNow) - start) / 1000
  let zero := before.toOption.getD (0, 0)
  match ← times with
  | .ok now => return .ofSeconds elapsed (now.1 - zero.1) (now.2 - zero.2)
  | .error _ => return .ofElapsed elapsed

def print (stream : IO.FS.Stream) (text : Bytes) : IO Unit := do
  stream.write ⟨text.toArray⟩
  stream.flush

/-- The run asked for a line and there was no input to take it from. -/
def needsInput (l : Launch) : Bool :=
  match l.status with
  | .error (.internal _) => true
  | _ => false

/-- Launches without input and, if the program asks for a line, again with all of it. -/
def launch (settings : Settings) (read : FileReader) (file : Bytes) : IO Launch := do
  let l := Launch.file settings read depth file { input := .absent }
  if needsInput l then
    let stdin ← IO.getStdin
    let text := (← readAll stdin .empty).toList
    let interactive := (← stdin.isTty) && (← (← IO.getStdout).isTty)
    let input : Input :=
      if interactive then .terminal settings.readPrompt text [] else .stream text none
    return Launch.file settings read depth file { input }
  else return l

def finish (e : CommandLine.Ending) : IO UInt32 := do
  print (← IO.getStdout) e.out
  print (← IO.getStderr) e.err
  return e.status.toNat.toUInt32

def run (args : List Bytes) : IO UInt32 := do
  let files ← (CommandLine.filesNamed args).mapM fun name => return (name, ← readFile name)
  let read := readerOf files
  let stdout ← IO.getStdout
  match CommandLine.job [] read args with
  | .finished status out err => finish ⟨status, out, err⟩
  | .abandoned text => finish (.abandoned text (ascii "start"))
  | .launch settings file =>
    let start ← IO.monoMsNow
    let before ← times
    let settings := { settings with color := settings.color && (← stdout.isTty) }
    let l ← launch settings read file
    print stdout l.state.input.shown
    finish (.ofLaunch l (← usage start before) (ascii "run time"))

end SectScript.Console

def main (args : List String) : IO UInt32 :=
  SectScript.Console.run (args.map SectScript.Console.bytesOf)
