import SectScript.Launch
import SectScript.Settings.Document
import SectScript.Usage

/-!
# The command line

Settings come in three layers: defaults, then the settings file, then the flags, each overriding the
one before. `CommandLine.parseWith` combines them and leaves the program file; what a settings file
says is up to a decoder, which `CommandLine.parse` fixes. `CommandLine.job` decides what is to be
done.
-/

namespace SectScript

structure CommandLine where
  settings : Settings
  files : List Bytes

namespace CommandLine

inductive Refusal where
  | usage
  | flag (p : Flag.Problem)
  | settings (c : Cause)
  /-- The interpreter itself gave up. -/
  | abandoned (text : Bytes)

def Refusal.errorText : Refusal → Bytes
  | usage | flag .help => Usage.text
  | flag p => p.message ++ Bytes.newline ++ Usage.text
  | settings _ | abandoned _ => []

/-- The settings file that is read if it is there. -/
def defaultPath : Bytes := ascii ".clarity.yaml"

/-- The path in the last flag that names one; an empty path names none. -/
def namedPath (flags : List Flag) : Bytes :=
  flags.foldl (fun path f => match f with | .config p => p | _ => path) []

def settingsPath (flags : List Flag) : Bytes :=
  if (namedPath flags).isEmpty then defaultPath else namedPath flags

def unreadable (path : Bytes) (why : ReadError) : Bytes :=
  (if why = .isDirectory then ascii "read " else ascii "open ") ++ path ++ ascii ": " ++ why.text

/-- The entries of the settings file; only a file that a flag names must be there. -/
def entriesWith (decode : Decoder) (read : FileReader) (flags : List Flag) :
    Except Refusal (List Document.Entry) :=
  let path := settingsPath flags
  match read path with
  | .error why =>
    if why = .missing && (namedPath flags).isEmpty then .ok []
    else .error (.settings (.badSettings path (unreadable path why)))
  | .ok data =>
    match decode data with
    | .ok es => .ok es
    | .error .noDocument => .ok []
    | .error (.refused message) => .error (.settings (.badSettings path message))
    | .error (.abandoned text) => .error (.abandoned text)

/-- The settings of all three layers. -/
def layered (es : List Document.Entry) (flags : List Flag) : Settings :=
  (({} : Settings).enterAll es).setAll flags

def parseWith (decode : Decoder) (read : FileReader) (args : List Bytes) :
    Except Refusal CommandLine :=
  match Flag.split args with
  | .error p => .error (.flag p)
  | .ok (flags, files) =>
    if !(({} : Settings).setAll flags).version && files.length ≠ 1 then .error .usage
    else
      match entriesWith decode read flags with
      | .error r => .error r
      | .ok es => .ok { settings := layered es flags, files }

def parse (read : FileReader) (args : List Bytes) : Except Refusal CommandLine :=
  parseWith Document.decode read args

/-- Either all is said, or a program is to be launched. -/
inductive Job where
  | finished (status : Int) (out err : Bytes)
  /-- The interpreter gave up before there was a program. -/
  | abandoned (text : Bytes)
  | launch (settings : Settings) (file : Bytes)

/-- What a command line asks for; `built` is the time stamp of the program itself. -/
def job (built : Bytes) (read : FileReader) (args : List Bytes) : Job :=
  match parse read args with
  | .error (.flag .help) => .finished 0 [] (Refusal.flag .help).errorText
  | .error (.settings c) => .finished 1 (Report.error { cause := c } false ++ Bytes.newline) []
  | .error (.abandoned text) => .abandoned text
  | .error r => .finished 1 [] r.errorText
  | .ok line =>
    if line.settings.version then .finished 0 (Usage.versionText built) []
    else
      match line.files with
      | file :: _ => .launch line.settings file
      | [] => .finished 1 [] Refusal.usage.errorText

/-- The files that a command line may read, as far as it can be understood. -/
def filesNamed (args : List Bytes) : List Bytes :=
  match Flag.split args with
  | .error _ => []
  | .ok (flags, files) => settingsPath flags :: files

structure Ending where
  status : Int
  out : Bytes
  err : Bytes

def Ending.abandoned (text place : Bytes) : Ending :=
  ⟨1, Report.abortText text place ++ Bytes.newline, []⟩

/-- A launch that the interpreter gave up ends with a report of that; `place` says where. -/
def Ending.ofLaunch (l : Launch) (usage : Clock.Usage) (place : Bytes) : Ending :=
  match l.status with
  | .ok n => ⟨n, l.state.output.text, l.logText usage⟩
  | .error f =>
    ⟨1, l.state.output.text ++ Report.abort f place ++ Bytes.newline, l.logText usage⟩

end CommandLine

end SectScript
