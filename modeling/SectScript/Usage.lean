import SectScript.Dialect
import SectScript.Settings.Flag

/-!
# Help texts

The usage text, made from the table of flags, the summary of the language, and the version.
-/

namespace SectScript.Usage

def programName : Bytes := ascii "clarity"

def version : Bytes := ascii "1.2.0"

def flagLines (e : Flag.Entry) : Bytes :=
  ascii "  -" ++ e.name ++ (if e.word.isEmpty then [] else ascii " " ++ e.word) ++
    ascii "\n    \t" ++ e.help ++ Bytes.newline

/-- A summary of the language. -/
def statements : Bytes :=
  ascii "Statements:\n" ++
  ascii "\tsect <name> ... ;\tdefine a section\n" ++
  ascii "\t-- text\t\tcomment\n" ++
  ascii "\tprint $name\t\tprint a variable\n" ++
  ascii "\tprint \"text\"\t\tprint a string\n" ++
  ascii "\t$name = a op b\t\tassign (op is one of + - * / %)\n" ++
  ascii "\t$name = %\t\tassign a line read from standard input\n" ++
  ascii "\t@<section>\t\trun a section\n" ++
  ascii "\tif a op b then stmt\trun stmt if true (op is == != >= <= < >)\n" ++
  ascii "\texit\t\t\tstop the program\n" ++
  ascii "\n" ++
  Dialect.clarity.name ++ ascii " programs (" ++ Dialect.clarity.suffix ++
  ascii ") run main; variables may be assigned outside sections.\n" ++
  Dialect.timballo.name ++ ascii " programs (" ++ Dialect.timballo.suffix ++
  ascii ") run data then main; variables are defined only in data.\n"

/-- How the program is called. -/
def text : Bytes :=
  ascii "Usage: " ++ programName ++ ascii " [flags] program" ++ Dialect.clarity.suffix ++
  ascii "|program" ++ Dialect.timballo.suffix ++ ascii "\n\nFlags:\n" ++
  Flag.table.flatMap flagLines ++ Bytes.newline ++ statements

/-- The version; `built` is a time stamp or nothing. -/
def versionText (built : Bytes) : Bytes :=
  Dialect.clarity.name ++ ascii "/" ++ Dialect.timballo.name ++ ascii " interpreter version " ++
  version ++ (if built.isEmpty then [] else ascii " (built " ++ built ++ ascii ")") ++ Bytes.newline

end SectScript.Usage
