import PipelineAudit.Text.Case
import PipelineAudit.Value.Basic
import PipelineAudit.Yaml.Schema

/-!
# Values of scalars

The value that a tag gives to the text of a scalar. A number may be written in base sixty, its parts
between colons; a binary scalar is base 64 and may hold anything between its digits.
-/

namespace PipelineAudit.Yaml.Scalar

open Regex

/-- A text without underscores. -/
def dropGaps (text : String) : String := String.ofList (text.toList.filter (· ≠ '_'))

/-- Sign and magnitude of a number; none if there is no first character. -/
def splitSign (text : String) : Option (Bool × String) :=
  match text.toList with
  | [] => none
  | '-' :: rest => some (true, String.ofList rest)
  | '+' :: rest => some (false, String.ofList rest)
  | cs => some (false, String.ofList cs)

/-- A fault of a number. -/
def numberFault {α : Type} (r : Except NumberFault α) : Except Fault α := r.mapError .number

/-- The number whose digits in base sixty are given, most significant first. -/
def sexagesimal (parts : List Int) : Int := parts.foldl (fun n d => n * 60 + d) 0

/-- The integer that a text stands for. -/
def int (text : String) : Except Fault Int := do
  let text := dropGaps text
  match splitSign text with
  | none => throw .emptyNumber
  | some (negative, body) =>
    let magnitude ← match body.toList with
      | [] => throw .emptyNumber
      | ['0'] => pure 0
      | '0' :: 'b' :: rest => numberFault (Literal.int 2 (String.ofList rest))
      | '0' :: 'x' :: rest => numberFault (Literal.int 16 (String.ofList rest))
      | '0' :: _ => numberFault (Literal.int 8 body)
      | cs =>
        if cs.contains ':' then do
          let parts ← (Text.splitOn ':' body).mapM fun part => numberFault (Literal.int 10 part)
          pure (sexagesimal parts)
        else numberFault (Literal.int 10 body)
    return if negative then -magnitude else magnitude

/-- The floating-point number nearest to a power of sixty; none if it is too great. -/
def powerOfSixty? (n : Nat) : Option Float :=
  let x := Binary64.ofDecimal (Nat.pow 60 n) 0
  if x.isInfinite then none else some x.toFloat

/-- The sum of the parts of a floating-point number in base sixty, least significant first, from a
place on. -/
def sexagesimalFloat (place : Nat) (sum : Float) : List Float → Except Fault Float
  | [] => .ok sum
  | digit :: rest =>
    match powerOfSixty? place with
    | none => .error .tooGreat
    | some base => sexagesimalFloat (place + 1) (sum + digit * base) rest

/-- The floating-point number that a text stands for. The word `.nan` always stands for the same
number, and every other text without a numeric value for one of its own, with the given mark. -/
def float (mark : Nat) (text : String) : Except Fault Binary64 := do
  let text := Text.lower (dropGaps text)
  match splitSign text with
  | none => throw .emptyNumber
  | some (negative, body) =>
    if body = ".nan" then return Binary64.nan
    let magnitude ←
      if body = ".inf" then pure (Binary64.infinity false)
      else if body.toList.contains ':' then do
        let parts ← (Text.splitOn ':' body).mapM fun part => numberFault (Literal.float part)
        pure (Binary64.ofFloat (← sexagesimalFloat 0 0 (parts.reverse.map Binary64.toFloat)))
      else numberFault (Literal.float body)
    return if magnitude.isNaN then .markedNaN mark else if negative then
      magnitude.neg else magnitude

/-- The truth value that a text stands for. -/
def bool (text : String) : Except Fault Bool :=
  let word := Text.lower text
  if ["yes", "true", "on"].contains word then .ok true
  else if ["no", "false", "off"].contains word then .ok false
  else .error (.notABoolean text)

/-! ## Timestamps -/

/-- A date, perhaps with a time, a fraction of a second and an offset; the parts are numbered. -/
def timestampParts : Regex :=
  Schema.whole (
    group 1 (exactly 4 Schema.digit) ++ lit "-" ++ group 2 (Schema.digit ++ opt Schema.digit)
    ++ lit "-" ++ group 3 (Schema.digit ++ opt Schema.digit)
    ++ opt (
      (oneOf "Tt" ||| plus (oneOf " \t")) ++ group 4 (Schema.digit ++ opt Schema.digit)
      ++ lit ":" ++ group 5 (exactly 2 Schema.digit)
      ++ lit ":" ++ group 6 (exactly 2 Schema.digit)
      ++ opt (lit "." ++ group 7 (star Schema.digit))
      ++ opt (star (oneOf " \t")
        ++ (lit "Z" ||| (group 8 (oneOf "-+") ++ group 9 (Schema.digit ++ opt Schema.digit)
          ++ opt (lit ":" ++ group 10 (exactly 2 Schema.digit)))
          |> group 11))))

/-- The number of a text of digits. -/
def digitsNumber (text : String) : Nat :=
  Literal.ofDigits 10 (text.toList.map fun c => c.toNat - '0'.toNat)

/-- The first six digits of a fraction, as microseconds. -/
def microseconds (fraction : String) : Nat :=
  let cs := fraction.toList.take 6
  digitsNumber (String.ofList (cs ++ List.replicate (6 - cs.length) '0'))

/-- The date or moment that a text stands for. -/
def timestamp (text : String) : Except Fault Value :=
  match timestampParts.matchAt text with
  | none => .error (.notATimestamp text)
  | some m =>
    let part := fun n => digitsNumber ((m.group? n).getD "")
    match m.group? 4 with
    | none => ((Date.make (part 1) (part 2) (part 3)).map Value.date).mapError .calendar
    | some _ =>
      let offset : Option Int := match m.group? 8, m.group? 11 with
        | some sign, _ =>
          let span : Int := (part 9 * 60 + part 10) * minuteSpan
          some (if sign = "-" then -span else span)
        | none, some _ => some 0
        | none, none => none
      ((Moment.make (part 1) (part 2) (part 3) (part 4) (part 5) (part 6)
        (microseconds ((m.group? 7).getD "")) offset).map Value.moment).mapError .calendar

/-! ## Binary data -/

/-- The value of a digit in base 64. -/
def base64Value? (c : Char) : Option Nat :=
  if 'A' ≤ c && c ≤ 'Z' then some (c.toNat - 'A'.toNat)
  else if 'a' ≤ c && c ≤ 'z' then some (c.toNat - 'a'.toNat + 26)
  else if '0' ≤ c && c ≤ '9' then some (c.toNat - '0'.toNat + 52)
  else if c = '+' then some 62
  else if c = '/' then some 63
  else none

/-- Decodes base 64: `place` digits of the current group of four are read, `left` holds their bits
that are not yet written, `pads` counts the padding in a row and `written` the bytes so far. Other
characters are passed over. -/
def base64From (place left pads written : Nat) : List Char → Except String (List UInt8)
  | [] =>
    if place = 0 then .ok []
    else if place = 1 then
      .error ("Invalid base64-encoded string: number of data characters ("
        ++ toString (written / 3 * 4 + 1) ++ ") cannot be 1 more than a multiple of 4")
    else .error "Incorrect padding"
  | c :: rest =>
    if c = '=' then
      if 2 ≤ place then
        if 4 ≤ place + (pads + 1) then .ok [] else base64From place left (pads + 1) written rest
      else base64From place left pads written rest
    else match base64Value? c with
      | none => base64From place left pads written rest
      | some d =>
        if place = 0 then base64From 1 d 0 written rest
        else
          let shift := 2 ^ (6 - 2 * place)
          let byte := UInt8.ofNat (left * 2 ^ (2 * place) + d / shift)
          (base64From ((place + 1) % 4) (d % shift) 0 (written + 1) rest).map (byte :: ·)

/-- Why a text is not ASCII. -/
def asciiFault? (text : String) : Option String :=
  let cs := text.toList
  let isAscii := fun c : Char => c.toNat < 0x80
  let position := (cs.takeWhile isAscii).length
  let bad := (cs.drop position).takeWhile fun c => !(isAscii c)
  match bad with
  | [] => none
  | [c] =>
    let shown :=
      if c.toNat < 0x100 then '\\' :: 'x' :: Text.hexDigits 2 c.toNat
      else if c.toNat < 0x10000 then '\\' :: 'u' :: Text.hexDigits 4 c.toNat
      else '\\' :: 'U' :: Text.hexDigits 8 c.toNat
    some ("'ascii' codec can't encode character '" ++ String.ofList shown ++ "' in position "
      ++ toString position ++ ": ordinal not in range(128)")
  | _ =>
    some ("'ascii' codec can't encode characters in position " ++ toString position ++ "-"
      ++ toString (position + bad.length - 1) ++ ": ordinal not in range(128)")

/-- The bytes that a text in base 64 stands for. -/
def binary (text : String) : Except Cause (List UInt8) :=
  match asciiFault? text with
  | some reason => .error (.binaryText reason)
  | none => (base64From 0 0 0 0 text.toList).mapError .binaryData

/-! ## By tag -/

/-- The tags of scalars. -/
def tags : List String :=
  [Tag.null, Tag.bool, Tag.int, Tag.float, Tag.binary, Tag.timestamp, Tag.str]

/-- The value of a text under the tag of a scalar, for a node with a number at a place. -/
def construct (tag text : String) (id : Nat) (mark : Mark) : Except Error Value :=
  if tag = Tag.null then .ok .null
  else if tag = Tag.bool then ((bool text).map Value.bool).mapError .fault
  else if tag = Tag.int then ((int text).map Value.int).mapError .fault
  else if tag = Tag.float then ((float (id + 1) text).map Value.float).mapError .fault
  else if tag = Tag.binary then
    ((binary text).map Value.bytes).mapError fun cause => .here cause mark
  else if tag = Tag.timestamp then (timestamp text).mapError .fault
  else .ok (.str text)

end PipelineAudit.Yaml.Scalar
