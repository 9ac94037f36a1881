import SectScript.Settings

/-!
# Entries of a settings file

A settings file is a mapping from the names of settings to their values. A decoder takes it apart
into entries, one for each setting that the file names, and settings under the file are a fold of
these, so that what it does not name stays as it is. Nothing else is asked of a decoder: in which
notation files are written is left to it.
-/

namespace SectScript

inductive Document.Entry where
  | dialect (name : Bytes)
  | color (on : Bool)
  | stats (on : Bool)
  | dump (on : Bool)
  | readPrompt (text : Bytes)
  | readTimeout (seconds : Int)
  | traceExec (on : Bool)
  | traceVars (on : Bool)
  | traceVariables (names : List Bytes)
  deriving DecidableEq

/-- What an entry changes. -/
def Settings.enter (s : Settings) : Document.Entry → Settings
  | .dialect name => { s with dialect := name }
  | .color on => { s with color := on }
  | .stats on => { s with stats := on }
  | .dump on => { s with dump := on }
  | .readPrompt text => { s with readPrompt := text }
  | .readTimeout seconds => { s with readTimeout := seconds }
  | .traceExec on => { s with trace := { s.trace with exec := on } }
  | .traceVars on => { s with trace := { s.trace with vars := on } }
  | .traceVariables names => { s with trace := { s.trace with watched := names } }

def Settings.enterAll (s : Settings) (entries : List Document.Entry) : Settings :=
  entries.foldl Settings.enter s

/-- Why a file gives no entries. A file without a document is not at fault. -/
inductive Decoder.Failure where
  | noDocument
  | refused (message : Bytes)
  /-- The decoder itself gave up. -/
  | abandoned (text : Bytes)

/-- What takes the content of a file apart. -/
abbrev Decoder := Bytes → Except Decoder.Failure (List Document.Entry)

end SectScript
