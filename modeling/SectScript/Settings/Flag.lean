import SectScript.Settings
import SectScript.Text.Numeral
import SectScript.Text.Quoted

/-!
# Flags

A command line begins with flags, `-name`, `-name=value` or `-name value`, with one dash or two;
they end at the first word that is none, or behind `--`. A switch takes its value only behind an
equals sign. `Flag.split` gives the flags in the order in which they stand, and `Settings.set`
says what one flag changes, so that settings after several flags are a fold.
-/

namespace SectScript

inductive Flag where
  | color (on : Bool)
  | config (path : Bytes)
  | dialect (name : Bytes)
  | dump (on : Bool)
  | list (on : Bool)
  | prompt (text : Bytes)
  | stats (on : Bool)
  | timeout (seconds : Int)
  | trace (what : Bytes)
  | version (on : Bool)
  deriving DecidableEq

/-- Statements, all variables, or one variable, which may be written with its sigil. -/
def TraceSettings.add (t : TraceSettings) (what : Bytes) : TraceSettings :=
  if what = ascii "exec" then { t with exec := true }
  else if what = ascii "vars" then { t with vars := true }
  else { t with watched := t.watched ++ [Bytes.dropPrefix (ascii "$") what] }

/-- A time is brought into the range of 16 bits without sign. -/
def clampTimeout (seconds : Int) : Int := min (max seconds 0) 32767

/-- What a flag changes; the path of a settings file is no setting. -/
def Settings.set (s : Settings) : Flag → Settings
  | .color on => { s with color := on }
  | .config _ => s
  | .dialect name => { s with dialect := name }
  | .dump on => { s with dump := on }
  | .list on => { s with list := on }
  | .prompt text => { s with readPrompt := text }
  | .stats on => { s with stats := on }
  | .timeout seconds => { s with readTimeout := clampTimeout seconds }
  | .trace what => { s with trace := s.trace.add what }
  | .version on => { s with version := on }

def Settings.setAll (s : Settings) (flags : List Flag) : Settings := flags.foldl Settings.set s

namespace Flag

/-- What a flag wants as its value. -/
inductive Parameter where
  | switch (make : Bool → Flag)
  | text (make : Bytes → Flag)
  | number (make : Int → Flag)

/-- A flag as the usage text shows it. -/
structure Entry where
  name : Bytes
  parameter : Parameter
  /-- The word that stands for the value. -/
  word : Bytes
  help : Bytes

/-- All flags, in the order of their names. -/
def table : List Entry :=
  [ ⟨ascii "color", .switch .color, [], ascii "highlight error messages (default true)"⟩,
    ⟨ascii "config", .text .config, ascii "string", ascii "read settings from this YAML file"⟩,
    ⟨ascii "dialect", .text .dialect, ascii "string",
      ascii "force the dialect (clarity or timballo)"⟩,
    ⟨ascii "dump", .switch .dump, [], ascii "dump each statement node before it runs"⟩,
    ⟨ascii "list", .switch .list, [], ascii "list the program's sections and exit"⟩,
    ⟨ascii "prompt", .text .prompt, ascii "string",
      ascii "prompt shown when the program reads a line"⟩,
    ⟨ascii "stats", .switch .stats, [],
      ascii "print execution statistics when the program stops"⟩,
    ⟨ascii "timeout", .number .timeout, ascii "int",
      ascii "seconds to wait for a line of input (terminal only)"⟩,
    ⟨ascii "trace", .text .trace, ascii "value",
      ascii "trace 'exec', 'vars' or a variable name (repeatable)"⟩,
    ⟨ascii "version", .switch .version, [], ascii "print version information and exit"⟩ ]

def parameter? (name : Bytes) : Option Parameter :=
  (table.find? fun e => e.name == name).map (·.parameter)

inductive Problem where
  /-- Help was asked for. -/
  | help
  | malformed (word : Bytes)
  | undefined (name : Bytes)
  | missingValue (name : Bytes)
  | badSwitch (name value : Bytes)
  | badNumber (name value : Bytes) (why : Numeral.Refusal)
  deriving DecidableEq

def refusalText : Numeral.Refusal → Bytes
  | .malformed => ascii "parse error"
  | .outOfRange => ascii "value out of range"

def Problem.message : Problem → Bytes
  | help => ascii "flag: help requested"
  | malformed word => ascii "bad flag syntax: " ++ word
  | undefined name => ascii "flag provided but not defined: -" ++ name
  | missingValue name => ascii "flag needs an argument: -" ++ name
  | badSwitch name value =>
    ascii "invalid boolean value " ++ Quoted.quote value ++ ascii " for -" ++ name ++
      ascii ": parse error"
  | badNumber name value why =>
    ascii "invalid value " ++ Quoted.quote value ++ ascii " for flag -" ++ name ++ ascii ": " ++
      refusalText why

/-- How a word of the command line reads. -/
inductive Word where
  /-- Not a flag: flags are over, and the word belongs to what follows them. -/
  | operand
  /-- Two dashes alone: flags are over. -/
  | terminator
  | malformed
  | flag (name : Bytes) (value : Option Bytes)

/-- Name and value of a flag without its dashes. -/
def named (s : Bytes) : Word :=
  match s with
  | [] => .malformed
  | b :: rest =>
    if b == 0x2D || b == 0x3D then .malformed
    else
      match Bytes.cut (ascii "=") rest with
      | some (name, value) => .flag (b :: name) (some value)
      | none => .flag s none

def Word.ofBytes : Bytes → Word
  | 0x2D :: 0x2D :: [] => .terminator
  | 0x2D :: 0x2D :: s => named s
  | 0x2D :: b :: s => named (b :: s)
  | _ => .operand

def yes : List Bytes := ["1", "t", "T", "true", "TRUE", "True"].map ascii

def no : List Bytes := ["0", "f", "F", "false", "FALSE", "False"].map ascii

def switch? (value : Bytes) : Option Bool :=
  if yes.contains value then some true else if no.contains value then some false else none

/-- A flag that has its value. -/
def make (name : Bytes) (value : Bytes) : Parameter → Except Problem Flag
  | .switch f =>
    match switch? value with
    | some on => .ok (f on)
    | none => .error (.badSwitch name value)
  | .text f => .ok (f value)
  | .number f =>
    match Numeral.read value with
    | .ok n => .ok (f n)
    | .error why => .error (.badNumber name value why)

/-- A flag in front of those that follow. -/
def prepend (flag : Except Problem Flag) (rest : Except Problem (List Flag × List Bytes)) :
    Except Problem (List Flag × List Bytes) :=
  match flag with
  | .error e => .error e
  | .ok f => rest.map fun r => (f :: r.1, r.2)

def unknown (name : Bytes) : Problem :=
  if name = ascii "help" || name = ascii "h" then .help else .undefined name

/-- The flags of a command line and the words behind them. The first problem from the left counts.
-/
def split : List Bytes → Except Problem (List Flag × List Bytes)
  | [] => .ok ([], [])
  | word :: words =>
    match Word.ofBytes word with
    | .operand => .ok ([], word :: words)
    | .terminator => .ok ([], words)
    | .malformed => .error (.malformed word)
    | .flag name value =>
      match parameter? name, value with
      | none, _ => .error (unknown name)
      | some p, some v => prepend (make name v p) (split words)
      | some (.switch f), none => prepend (.ok (f true)) (split words)
      | some p, none =>
        match words with
        | [] => .error (.missingValue name)
        | v :: words => prepend (make name v p) (split words)

example : (split (["-stats", "--timeout", "0x10", "-color=f", "a.lnh", "-x"].map ascii)).toOption =
    some ([.stats true, .timeout 16, .color false], ["a.lnh", "-x"].map ascii) := by decide +kernel

end Flag

end SectScript
