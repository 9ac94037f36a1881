import SectScript.Text.Decimal

/-!
# Dates and times

A date is a year of four digits, a month and a day. A time of day may follow: behind a `T` with a
zone, or behind blanks without one. Month, day, hour, minute and second have one or two digits.
-/

namespace SectScript.Yaml

inductive Zone where
  | universal
  /-- A distance in minutes. -/
  | distance (west : Bool) (minutes : Nat)
  deriving DecidableEq

namespace Zone

/-- No distance is taken for the local zone. -/
def isLocal : Zone → Bool
  | .universal => false
  | .distance _ minutes => minutes = 0

/-- Only zones of whole hours, up to twelve west and fourteen east, are the same as themselves. -/
def isShared : Zone → Bool
  | .universal => true
  | .distance west minutes => minutes % 60 = 0 && minutes ≤ (if west then 720 else 840)

def text (z : Zone) : Bytes :=
  if z = .universal then ascii "time.UTC"
  else if z.isLocal then ascii "time.Local"
  else ascii "time.Location(\x22\x22)"

end Zone

/-- A time of day; of a second's fraction billionths count. -/
structure Clock where
  hour : Nat := 0
  minute : Nat := 0
  second : Nat := 0
  fraction : Nat := 0
  deriving DecidableEq

structure Timestamp extends Clock where
  year : Nat
  month : Nat
  day : Nat
  zone : Zone := .universal
  deriving DecidableEq

namespace Timestamp

def isLeap (year : Nat) : Bool := year % 4 == 0 && (year % 100 != 0 || year % 400 == 0)

def daysIn (year month : Nat) : Nat :=
  if month == 2 then (if isLeap year then 29 else 28)
  else if month == 4 || month == 6 || month == 9 || month == 11 then 30
  else 31

/-! ## Reading -/

/-- A number of one or two digits, and what follows. -/
def number? : Bytes → Option (Nat × Bytes)
  | [] => none
  | [a] => if Decimal.isDigit a then some (Decimal.value [a], []) else none
  | a :: b :: s =>
    if !Decimal.isDigit a then none
    else if Decimal.isDigit b then some (Decimal.value [a, b], s)
    else some (Decimal.value [a], b :: s)

/-- What follows a mark. -/
def after? (mark : UInt8) : Bytes → Option Bytes
  | [] => none
  | b :: s => if b == mark then some s else none

/-- A date that is in the calendar, and what follows. -/
def date? (s : Bytes) : Option (Timestamp × Bytes) := do
  let digits := s.takeWhile Decimal.isDigit
  if digits.length ≠ 4 then none
  let year := Decimal.value digits
  let s ← after? 0x2D (s.dropWhile Decimal.isDigit)
  let (month, s) ← number? s
  let s ← after? 0x2D s
  let (day, s) ← number? s
  if 1 ≤ month && month ≤ 12 && 1 ≤ day && day ≤ daysIn year month then
    some ({ year, month, day }, s)
  else none

/-- The billionths of a second in the digits behind the point. -/
def billionths (digits : Bytes) : Nat :=
  Decimal.value (digits.take 9) * Nat.pow 10 (9 - digits.length)

/-- The fraction of a second, which may be missing, and what follows. -/
def billionthsAt (s : Bytes) : Nat × Bytes :=
  match s with
  | point :: r =>
    let digits := r.takeWhile Decimal.isDigit
    if (point == 0x2E || point == 0x2C) && !digits.isEmpty then
      (billionths digits, r.dropWhile Decimal.isDigit)
    else (0, s)
  | [] => (0, [])

/-- Hour, minute and second, and what follows. -/
def clock? (s : Bytes) : Option (Clock × Bytes) := do
  let (hour, s) ← number? s
  let s ← after? 0x3A s
  let (minute, s) ← number? s
  let s ← after? 0x3A s
  let (second, s) ← number? s
  let (fraction, s) := billionthsAt s
  if hour < 24 && minute < 60 && second < 60 then some (⟨hour, minute, second, fraction⟩, s)
  else none

/-- A `Z`, or a distance of at most 24 hours and 60 minutes. -/
def zone? : Bytes → Option Zone
  | [z] => if z == 0x5A then some .universal else none
  | [sign, a, b, colon, c, d] =>
    if (sign == 0x2B || sign == 0x2D) && Decimal.isDigits [a, b] && colon == 0x3A &&
        Decimal.isDigits [c, d] && Decimal.value [a, b] ≤ 24 && Decimal.value [c, d] ≤ 60 then
      some (.distance (sign == 0x2D) (Decimal.value [a, b] * 60 + Decimal.value [c, d]))
    else none
  | _ => none

def read? (s : Bytes) : Option Timestamp := do
  let (t, s) ← date? s
  match s with
  | [] => some t
  | b :: s =>
    if b == 0x54 || b == 0x74 then
      let (clock, s) ← clock? s
      let zone ← zone? s
      some { t with toClock := clock, zone }
    else if b == 0x20 then
      let (clock, s) ← clock? (s.dropWhile (· == 0x20))
      if s.isEmpty then some { t with toClock := clock } else none
    else none

/-! ## Comparing -/

/-- Days since the first of March of year 0; the years begin with March here. -/
def dayNumber (t : Timestamp) : Int :=
  let year : Int := if t.month ≤ 2 then t.year - 1 else t.year
  let month := (t.month + 9) % 12
  365 * year + year / 4 - year / 100 + year / 400 + ((153 * month + 2) / 5 + t.day - 1 : Nat)

/-- Seconds, in universal time. -/
def instant (t : Timestamp) : Int :=
  let away : Int :=
    match t.zone with
    | .universal => 0
    | .distance west minutes => if west then -minutes else minutes
  t.dayNumber * 86400 + t.hour * 3600 + t.minute * 60 + t.second - away * 60

def same (a b : Timestamp) : Bool := a = b && a.zone.isShared

/-- Numbers that order times, the first of them first. -/
def order (t : Timestamp) : List Int :=
  [t.fraction, t.instant, if t.zone = .universal then 0 else if t.zone.isLocal then 1 else 2]

/-! ## Writing -/

def months : List String :=
  ["January", "February", "March", "April", "May", "June", "July", "August", "September",
    "October", "November", "December"]

def text (t : Timestamp) : Bytes :=
  let numbers := [t.day, t.hour, t.minute, t.second, t.fraction].map Decimal.ofNat
  ascii "time.Date(" ++ Bytes.join (ascii ", ")
    ([Decimal.ofNat t.year, ascii "time." ++ ascii (months.getD (t.month - 1) "")] ++ numbers ++
      [t.zone.text]) ++ ascii ")"

example : ((read? (ascii "2024-2-29T1:2:03.5+24:60")).map text) =
    some (ascii "time.Date(2024, time.February, 29, 1, 2, 3, 500000000, " ++
      ascii "time.Location(\x22\x22))") := by
  decide +kernel
example : (read? (ascii "2023-02-29")).isNone := by decide +kernel
example : (read? (ascii "0000-1-1  23:59:59,9")).isSome := by decide +kernel

end Timestamp

end SectScript.Yaml
