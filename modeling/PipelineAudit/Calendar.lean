import PipelineAudit.Number.Arithmetic
import PipelineAudit.Text.Lines

/-!
# Dates and times

Days of the Gregorian calendar from year 1 to 9999, and times of such days with microseconds and an
optional offset from universal time.
-/

namespace PipelineAudit

/-- A day. -/
structure Date where
  year : Nat
  month : Nat
  day : Nat
  deriving DecidableEq, Repr

/-- A time of a day. The offset, if known, counts microseconds east of universal time. -/
structure Moment where
  date : Date
  hour : Nat
  minute : Nat
  second : Nat
  microsecond : Nat
  offset : Option Int
  deriving DecidableEq, Repr

/-- Why numbers are no date or time. -/
inductive CalendarFault where
  | year (n : Nat)
  | month
  | day
  | hour
  | minute
  | second
  /-- The offset, in microseconds, is a day or more. -/
  | offset (microseconds : Int)
  deriving DecidableEq, Repr

/-- The microseconds of a minute. -/
def minuteSpan : Int := 60000000

/-- The microseconds of a day. -/
def daySpan : Int := 1440 * minuteSpan

/-- A span of microseconds, shown as whole days, and seconds and microseconds that are not
negative. -/
def spanText (microseconds : Int) : String :=
  let days := microseconds.fdiv daySpan
  let rest := microseconds.fmod daySpan
  let parts := [("days=", days), ("seconds=", rest / 1000000), ("microseconds=", rest % 1000000)]
  let shown := (parts.filter fun p => p.2 != 0).map fun p => p.1 ++ toString p.2
  "datetime.timedelta(" ++ (if shown.isEmpty then "0" else Text.join ", " shown) ++ ")"

/-- The message for a fault. -/
def CalendarFault.message : CalendarFault → String
  | year n => "year " ++ toString n ++ " is out of range"
  | month => "month must be in 1..12"
  | day => "day is out of range for month"
  | hour => "hour must be in 0..23"
  | minute => "minute must be in 0..59"
  | second => "second must be in 0..59"
  | offset microseconds =>
    "offset must be a timedelta strictly between -timedelta(hours=24) and timedelta(hours=24), not "
      ++ spanText microseconds ++ "."

namespace Date

/-- Whether a year has a leap day. -/
def isLeap (year : Nat) : Bool := year % 4 = 0 && (year % 100 ≠ 0 || year % 400 = 0)

/-- The number of days of a month. -/
def daysIn (year month : Nat) : Nat :=
  if month = 2 then (if isLeap year then 29 else 28)
  else if month = 4 || month = 6 || month = 9 || month = 11 then 30
  else 31

/-- The day with the given numbers. -/
def make (year month day : Nat) : Except CalendarFault Date :=
  if year < 1 || 9999 < year then .error (.year year)
  else if month < 1 || 12 < month then .error .month
  else if day < 1 || daysIn year month < day then .error .day
  else .ok ⟨year, month, day⟩

/-- The days before the first of a month, counted from the first day of year 1. -/
def daysBefore (year month : Nat) : Nat :=
  let y := year - 1
  y * 365 + y / 4 - y / 100 + y / 400 +
    sumOf ((List.range (month - 1)).map fun m => daysIn year (m + 1))

/-- The number of a day, counted from the first day of year 1. -/
def ordinal (d : Date) : Nat := daysBefore d.year d.month + d.day

/-- The day with a number, counted from the first day of year 1. -/
def ofOrdinal (n : Nat) : Date :=
  let latest := n / 365 + 1
  let year := (((List.range 10).map (latest - ·)).find? fun y => daysBefore y 1 < n).getD 1
  let month := (((List.range 12).map (12 - ·)).find? fun m => daysBefore year m < n).getD 1
  ⟨year, month, n - daysBefore year month⟩

/-- The place of a day in its week, Monday being the first with number zero. -/
def weekday (d : Date) : Nat := (d.ordinal + 6) % 7

/-- The number of the Monday that starts the first week of a year: the week with four days or more
in it. -/
def firstMonday (year : Nat) : Nat :=
  let first : Date := ⟨year, 1, 1⟩
  if 3 < first.weekday then first.ordinal - first.weekday + 7 else first.ordinal - first.weekday

/-- Whether a year has a week with number 53. -/
def isLongYear (year : Nat) : Bool :=
  let first : Date := ⟨year, 1, 1⟩
  first.weekday == 3 || (first.weekday == 2 && isLeap year)

/-- A day of a week of a year, all counted from one; none if there is no such day. -/
def ofWeek? (year week day : Nat) : Option Date :=
  if week < 1 || 53 < week || (week = 53 && !isLongYear year) || day < 1 || 7 < day then none
  else some (ofOrdinal (firstMonday year + (week - 1) * 7 + (day - 1)))

/-- Year, month and day with dashes. -/
def text (d : Date) : String :=
  Text.padZero 4 d.year ++ "-" ++ Text.padZero 2 d.month ++ "-" ++ Text.padZero 2 d.day

/-- The text of a day inside a list or a mapping. -/
def innerText (d : Date) : String :=
  "datetime.date(" ++ toString d.year ++ ", " ++ toString d.month ++ ", " ++ toString d.day ++ ")"

end Date

namespace Moment

/-- The moment with the given numbers. -/
def make (year month day hour minute second microsecond : Nat) (offset : Option Int) :
    Except CalendarFault Moment := do
  match offset with
  | some microseconds => if daySpan ≤ microseconds.natAbs then throw (.offset microseconds)
  | none => pure ()
  let date ← Date.make year month day
  if 23 < hour then throw .hour
  if 59 < minute then throw .minute
  if 59 < second then throw .second
  return ⟨date, hour, minute, second, microsecond, offset⟩

/-- An offset as signed hours and minutes, with seconds and microseconds if it has such. -/
def offsetText (microseconds : Int) : String :=
  let seconds := microseconds.natAbs / 1000000
  let fraction := microseconds.natAbs % 1000000
  (if microseconds < 0 then "-" else "+") ++ Text.padZero 2 (seconds / 3600) ++ ":"
    ++ Text.padZero 2 (seconds / 60 % 60)
    ++ (if seconds % 60 = 0 && fraction = 0 then "" else ":" ++ Text.padZero 2 (seconds % 60))
    ++ (if fraction = 0 then "" else "." ++ Text.padZero 6 fraction)

/-- Date and time with a separator between them. -/
def text (sep : String) (t : Moment) : String :=
  t.date.text ++ sep ++ Text.padZero 2 t.hour ++ ":" ++ Text.padZero 2 t.minute ++ ":"
    ++ Text.padZero 2 t.second
    ++ (if t.microsecond = 0 then "" else "." ++ Text.padZero 6 t.microsecond)
    ++ (match t.offset with
      | none => ""
      | some offset => offsetText offset)

/-- The text of a moment inside a list or a mapping. -/
def innerText (t : Moment) : String :=
  let numbers := [t.date.year, t.date.month, t.date.day, t.hour, t.minute]
    ++ (if t.second = 0 && t.microsecond = 0 then [] else [t.second])
    ++ (if t.microsecond = 0 then [] else [t.microsecond])
  let zone := match t.offset with
    | none => []
    | some 0 => ["tzinfo=datetime.timezone.utc"]
    | some offset => ["tzinfo=datetime.timezone(" ++ spanText offset ++ ")"]
  "datetime.datetime(" ++ Text.join ", " (numbers.map toString ++ zone) ++ ")"

/-- Microseconds since the start of year 1, in universal time where the offset is known. -/
def instant (t : Moment) : Int :=
  let minutes : Int := (t.date.ordinal * 24 + t.hour) * 60 + t.minute
  (minutes * 60 + t.second) * 1000000 + t.microsecond - t.offset.getD 0

/-- Whether two moments are the same instant; one with an offset never equals one without. -/
def same (a b : Moment) : Bool := a.offset.isSome == b.offset.isSome && a.instant == b.instant

end Moment

end PipelineAudit
