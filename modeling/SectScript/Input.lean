import SectScript.Error
import SectScript.Text.Blank
import SectScript.Text.Category

/-!
# Line input

Where a program's lines come from: a stream of bytes, a terminal with a prompt, or a prepared list
of replies. Reading a line gives the line or the cause of failure, and the input that is left.
-/

namespace SectScript

inductive Reply where
  | line (text : Bytes)
  | aborted
  | timedOut
  | failed (text : Bytes)
  | ended

/-- A prepared reply; a stop request may arrive with it. -/
structure Turn where
  interrupts : Bool
  reply : Reply

inductive Input where
  | absent
  | terminal (prompt rest shown : Bytes)
  | scripted (turns : List Turn)
  /-- A stream, which after its bytes ends or fails with a text. -/
  | stream (rest : Bytes) (failure : Option Bytes)

def Reply.line? : Reply → Except Cause Bytes
  | line text => .ok text
  | aborted => .error .interrupted
  | timedOut => .error .timedOut
  | failed text => .error (.inputFailed text)
  | ended => .error .endOfInput

namespace Input

def isLineEnd (b : UInt8) : Bool := b == 0x0D || b == 0x0A

/-- A line of a stream ends at a line feed; all carriage returns before it are dropped. A last line
without line feed counts if the stream ends, and is lost if it fails. -/
def readStream (rest : Bytes) (failure : Option Bytes) : Reply × Bytes :=
  match Bytes.cut Bytes.newline rest with
  | some (line, rest) => (.line (Bytes.dropRightWhile isLineEnd line), rest)
  | none =>
    match failure with
    | some text => (.failed text, [])
    | none =>
      if rest.isEmpty then (.ended, []) else (.line (Bytes.dropRightWhile isLineEnd rest), [])

/-- A terminal delivers at most this much of a line at once. -/
def terminalBuffer : Nat := 4096

def dropReturn (line : Bytes) : Bytes :=
  if line.getLast? = some 0x0D then line.dropLast else line

/-- A line of terminal text; one that fills the buffer is delivered in parts, and a carriage return
in the last place of a part is left for the next. -/
def readTerminal (rest : Bytes) : Reply × Bytes :=
  let buffer := rest.take terminalBuffer
  match Bytes.cut Bytes.newline buffer with
  | some (line, _) => (.line (dropReturn line), rest.drop (line.length + 1))
  | none =>
    if rest.isEmpty then (.ended, [])
    else if buffer.length < terminalBuffer then (.line rest, [])
    else (.line (dropReturn buffer), rest.drop (dropReturn buffer).length)

/-- The reply to one request, whether a stop request came with it, and the input that is left; none
without a source. -/
def read? : Input → Option (Reply × Bool × Input)
  | absent => none
  | terminal prompt rest shown =>
    if Category.hasOther prompt then
      some (.failed (ascii "invalid prompt"), false, terminal prompt rest shown)
    else
      let (reply, left) := readTerminal rest
      some (reply, false, terminal prompt left (shown ++ prompt))
  | scripted [] => some (.ended, false, scripted [])
  | scripted (turn :: turns) => some (turn.reply, turn.interrupts, scripted turns)
  | stream rest failure =>
    let (reply, left) := readStream rest failure
    some (reply, false, stream left failure)

def shown : Input → Bytes
  | terminal _ _ shown => shown
  | _ => []

/-- Reads until the first failure, at most `fuel` lines. -/
def readAll : (fuel : Nat) → Input → List Bytes × Except Fault Unit × Input
  | 0, i => ([], .error .unfinished, i)
  | fuel + 1, i =>
    match i.read? with
    | none => ([], .error (.internal (ascii "No input source")), i)
    | some (reply, _, left) =>
      match reply.line? with
      | .error c => ([], .error (.ofCause c), left)
      | .ok line =>
        let (lines, result, left) := readAll fuel left
        (line :: lines, result, left)

end Input

end SectScript
