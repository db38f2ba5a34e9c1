import PipelineAudit.Calendar
import PipelineAudit.Text.Quoted

/-!
# Reading times in the international format

A date, perhaps followed by any single character and a time. The date is a day of a month or of a
week, with dashes between its parts or without any. The time has hours, and perhaps minutes, seconds
and a fraction, with colons between them or without any, and perhaps an offset.
-/

namespace PipelineAudit

/-- Why a text is no time. -/
inductive IsoFault where
  /-- The text does not have the format. -/
  | malformed (text : String)
  /-- A number in it is out of its range. -/
  | calendar (fault : CalendarFault)
  deriving DecidableEq, Repr

/-- The message for a fault. -/
def IsoFault.message : IsoFault → String
  | malformed text => "Invalid isoformat string: " ++ Text.quoted text
  | calendar fault => fault.message

namespace Iso

/-- The value of a decimal digit. -/
def digit? (c : Char) : Option Nat := if c.isDigit then some (c.toNat - '0'.toNat) else none

/-- The number that a given count of digits at the head of a text stands for, and the rest. -/
def number? : Nat → List Char → Option (Nat × List Char)
  | 0, cs => some (0, cs)
  | _ + 1, [] => none
  | count + 1, c :: rest => do
    let d ← digit? c
    let (n, tail) ← number? count rest
    return (d * tenTo count + n, tail)

/-- The rest of a text after a dash, if one has to be there. -/
def dash? (needed : Bool) : List Char → Option (List Char)
  | '-' :: rest => if needed then some rest else none
  | cs => if needed then none else some cs

/-- A day of a week. The weeks before year 1 have no month. -/
def weekDay? (year week day : Nat) : Option Date :=
  (Date.ofWeek? year week day).map fun d => if year = 0 then ⟨1, 0, 1⟩ else d

/-- Year, month and day, or year, week and day of the week. -/
def date? (cs : List Char) : Option (Nat × Nat × Nat) := do
  let (year, cs) ← number? 4 cs
  let dashed := cs.head? == some '-'
  match if dashed then cs.drop 1 else cs with
  | 'W' :: cs =>
    let (week, cs) ← number? 2 cs
    let day ←
      if cs.isEmpty then some 1 else (dash? dashed cs).bind fun cs => (number? 1 cs).map Prod.fst
    let d ← weekDay? year week day
    return (d.year, d.month, d.day)
  | cs =>
    let (month, cs) ← number? 2 cs
    let (day, rest) ← (dash? dashed cs).bind (number? 2)
    if rest.isEmpty then return (year, month, day) else none

/-- The length of a date that starts with a year and a week, without dashes. The digits of a time
come in pairs, so their number tells whether the week is followed by a day. -/
def plainWeekLength (cs : List Char) : Nat :=
  let last := 7 + ((cs.drop 7).takeWhile Char.isDigit).length
  if last < 9 then last else if last % 2 = 0 then 7 else 8

/-- The length of a date that starts with a year and a week, with dashes. -/
def dashedWeekLength (cs : List Char) : Option Nat :=
  if cs[8]? == some '-' then
    if cs.length = 9 then none
    else if (cs[10]?.map Char.isDigit).getD false then some 8
    else some 10
  else some 8

/-- The length of the date at the head of a text. -/
def dateLength (cs : List Char) : Option Nat :=
  if cs.length < 7 then none
  else if cs.length = 7 then some 7
  else if cs[4]? == some '-' then
    if cs[5]? == some 'W' then dashedWeekLength cs else some 10
  else if cs[4]? == some 'W' then some (plainWeekLength cs)
  else some 8

/-- How the numbers of a time end: with the text, before a single character, or before a
fraction. -/
inductive ClockEnd where
  | complete
  | leftover
  | fraction (digits : List Char)

/-- Up to a given count of numbers with two digits each. The first character between two of them
tells whether colons separate them all. -/
def clockNumbers (separated : Option Bool) : Nat → List Char → Option (List Nat × ClockEnd)
  | 0, cs => some ([], .fraction cs)
  | count + 1, cs => do
    let (n, cs) ← number? 2 cs
    match cs with
    | [] => return ([n], .complete)
    | [_] => return ([n], .leftover)
    | c :: rest =>
      let separated := separated.getD (c == ':')
      if separated && c == ':' then
        let (ns, last) ← clockNumbers (some separated) count rest
        return (n :: ns, last)
      else if c == '.' || c == ',' then return ([n], .fraction rest)
      else if separated then none
      else
        let (ns, last) ← clockNumbers (some separated) count cs
        return (n :: ns, last)

/-- The microseconds of a fraction, and whether something follows its digits. Digits after the sixth
do not count. -/
def fraction? (cs : List Char) : Option (Nat × Bool) := do
  let (n, rest) ← number? (min 6 cs.length) cs
  return (n * tenTo (6 - cs.length), !(rest.dropWhile Char.isDigit).isEmpty)

/-- Hours, minutes, seconds and microseconds. -/
structure Clock where
  hour : Nat
  minute : Nat
  second : Nat
  microsecond : Nat

/-- The time of a clock, and whether something follows it. -/
def clock? (cs : List Char) : Option (Clock × Bool) := do
  let (ns, last) ← clockNumbers none 3 cs
  let (microsecond, isLeftover) ← match last with
    | .complete => some (0, false)
    | .leftover => some (0, true)
    | .fraction digits => fraction? digits
  return (⟨ns.getD 0 0, ns.getD 1 0, ns.getD 2 0, microsecond⟩, isLeftover)

/-- The microseconds of a clock. -/
def Clock.span (c : Clock) : Int :=
  ((c.hour * 60 + c.minute) * 60 + c.second) * 1000000 + c.microsecond

/-- The offset that a text stands for. A part of a second alone is no offset. -/
def offset? : List Char → Option Int
  | ['Z'] => some 0
  | sign :: cs => do
    let (clock, isLeftover) ← clock? cs
    if isLeftover || sign == 'Z' then none
    else if clock.span < 1000000 then return 0
    else return if sign == '-' then -clock.span else clock.span
  | [] => none

/-- Whether an offset starts with a character. -/
def startsOffset (c : Char) : Bool := c == '+' || c == '-' || c == 'Z'

/-- A time, perhaps with an offset. -/
def time? (cs : List Char) : Option (Clock × Option Int) := do
  let (clock, isLeftover) ← clock? (cs.takeWhile fun c => !startsOffset c)
  match cs.dropWhile fun c => !startsOffset c with
  | [] => if isLeftover then none else return (clock, none)
  | tail => return (clock, some (← offset? tail))

/-- The time after a date and a single character; without them it is midnight. -/
def timeAfter? : List Char → Option (Clock × Option Int)
  | [] => some (⟨0, 0, 0, 0⟩, none)
  | _ :: cs => time? cs

end Iso

/-- The time that a text stands for. -/
def Moment.ofIso (text : String) : Except IsoFault Moment :=
  let cs := text.toList
  let found := do
    let length ← Iso.dateLength cs
    let date ← Iso.date? (cs.take length)
    return (date, ← Iso.timeAfter? (cs.drop length))
  match found with
  | none => .error (.malformed text)
  | some ((year, month, day), clock, offset) =>
    (Moment.make year month day clock.hour clock.minute clock.second clock.microsecond
      offset).mapError .calendar

end PipelineAudit
