import SectScript.Event
import SectScript.Event.Dump

/-!
# Journal

Events as lines of text: a level, the message, then `key=value` fields in alphabetical order. Stray
bytes are repaired. A value is quoted if it holds a blank, a quote, a backslash or anything outside
printable ASCII.
-/

namespace SectScript.Event

def needsQuotes (value : Bytes) : Bool :=
  value.any fun b => b < 0x21 || 0x7E < b || b == 0x5C || b == 0x22

def field (key : String) (value : Bytes) : Bytes :=
  let value := Utf8.repair value
  ascii " " ++ ascii key ++ ascii "=" ++ (if needsQuotes value then Quoted.quote value else value)

/-- A line of the journal; an empty message leaves no gap. -/
def record (message : Bytes) (fields : List Bytes) : Bytes :=
  ascii "INF" ++ (if message.isEmpty then [] else ascii " " ++ Utf8.repair message) ++
    ascii " component=trace" ++ fields.flatten ++ Bytes.newline

def render : Event → Bytes
  | entered sect line =>
    record line.text [ascii " line=" ++ Decimal.ofInt line.number, field "section" sect]
  | changed name before now =>
    record (ascii "changed")
      [(before.map (field "from")).getD [], field "to" now, field "variable" (ascii "$" ++ name)]
  | loaded sections =>
    let names := sections.map fun name => Quoted.json (Utf8.repair name)
    record (ascii "loaded") [ascii " sections=[" ++ Bytes.join (ascii ",") names ++ ascii "]"]
  | final name value =>
    record (ascii "final") [field "value" value, field "variable" (ascii "$" ++ name)]
  | understood stmt => Dump.statement stmt

def renderAll (events : Array Event) : Bytes := events.toList.flatMap render

end SectScript.Event
