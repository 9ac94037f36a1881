import SectScript.Error

/-!
# Statistics

How many statements a run executed and what time it took. Times are given in seconds by the caller,
who alone can ask a clock; the processor times come in ticks of the system clock.
-/

namespace SectScript.Clock

/-- Zero counts as many. -/
def plural (word : Bytes) (n : Int) : Bytes := if n = 1 then word else word ++ ascii "s"

/-- Hours, minutes and seconds; a negative time is left in the seconds. -/
def format (seconds : Int) : Bytes :=
  let hours := if 3600 ≤ seconds then seconds.tdiv 3600 else 0
  let seconds := if 3600 ≤ seconds then seconds.tmod 3600 else seconds
  let minutes := if 60 ≤ seconds then seconds.tdiv 60 else 0
  let seconds := if 60 ≤ seconds then seconds.tmod 60 else seconds
  Bytes.join (ascii ":") ([hours, minutes, seconds].map Decimal.ofIntPadded₂)

/-- The times of a run, as they are printed. -/
structure Usage where
  elapsed : Bytes
  user : Bytes
  system : Bytes

def Usage.ofSeconds (elapsed user system : Int) : Usage :=
  ⟨format elapsed, format user, format system⟩

/-- The processor times could not be had. -/
def Usage.ofElapsed (elapsed : Int) : Usage := ⟨format elapsed, ascii "n/a", ascii "n/a"⟩

def statistics (statements : Int) (u : Usage) : Bytes :=
  Decimal.ofInt statements ++ ascii " " ++ plural (ascii "statement") statements ++
    ascii " executed\nCPU Usage: elapsed = " ++ u.elapsed ++ ascii " / user = " ++ u.user ++
    ascii " / system = " ++ u.system ++ Bytes.newline

inductive Problem where
  | badRate (rate : Int)
  | shortRecord
  | badTicks
  | divisionByZero

def Problem.message : Problem → Bytes
  | badRate rate => ascii "bad clock tick rate " ++ Decimal.ofInt rate
  | shortRecord => ascii "short /proc/self/stat"
  | badTicks => ascii "bad processor time"
  | divisionByZero => ascii "division by zero"

/-- Ticks in a second. -/
def systemRate : Int := 100

/-- Ticks in the given part of a second, which must not vanish. -/
def tickRate (divisor : Int) : Except Problem Int :=
  if divisor = 0 then .error .divisionByZero
  else if systemRate.tdiv divisor ≤ 0 then .error (.badRate (systemRate.tdiv divisor))
  else .ok (systemRate.tdiv divisor)

/-- User and system time from a process record, whose 14th and 15th fields are ticks. -/
def processorTimes (divisor : Int) (record : Bytes) : Except Problem (Int × Int) :=
  match tickRate divisor with
  | .error e => .error e
  | .ok rate =>
    match ((Bytes.pieces 0x20 record).filter (· != [])).drop 13 with
    | user :: system :: _ =>
      match Decimal.read? user, Decimal.read? system with
      | some u, some s => .ok (u.toInt.tdiv rate, s.toInt.tdiv rate)
      | _, _ => .error .badTicks
    | _ => .error .shortRecord

example : format 3725 = ascii "01:02:05" := by decide +kernel

end SectScript.Clock
