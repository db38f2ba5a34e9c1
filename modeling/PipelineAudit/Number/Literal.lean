import PipelineAudit.Number.Binary64
import PipelineAudit.Text.Blank
import PipelineAudit.Text.Digit
import PipelineAudit.Text.Quoted

/-!
# Number literals

How integers and floating-point numbers are read from text. Blanks around a literal are ignored,
digits of every script count, and single underscores may stand between digits.
-/

namespace PipelineAudit

/-- Why a text is no number. -/
inductive NumberFault where
  /-- A literal is no integer in the base. -/
  | notAnInteger (base : Nat) (literal : String)
  /-- The integer has more decimal digits than are read. -/
  | tooManyDigits (count : Nat)
  /-- The integer has more decimal digits than are written. -/
  | tooLongToWrite
  /-- The text is no floating-point number. -/
  | notAFloat (text : String)
  /-- The floating-point number is none, and no integer either. -/
  | notANumber
  /-- The floating-point number is greater than every integer. -/
  | infinite
  deriving DecidableEq, Repr

/-- The greatest number of decimal digits that is read or written. -/
def digitLimit : Nat := 4300

/-- The least natural number with too many decimal digits. -/
def digitBound : Nat := tenTo digitLimit

/-- The message for a fault. -/
def NumberFault.message : NumberFault → String
  | notAnInteger base literal =>
    "invalid literal for int() with base " ++ toString base ++ ": "
      ++ String.ofList (literal.toList.take 200)
  | tooManyDigits count =>
    "Exceeds the limit (" ++ toString digitLimit
      ++ " digits) for integer string conversion: value has "
      ++ toString count ++ " digits; use sys.set_int_max_str_digits() to increase the limit"
  | tooLongToWrite =>
    "Exceeds the limit (" ++ toString digitLimit
      ++ " digits) for integer string conversion; use sys.set_int_max_str_digits() to increase the limit"
  | notANumber => "cannot convert float NaN to integer"
  | infinite => "cannot convert float infinity to integer"
  | notAFloat text => "could not convert string to float: " ++ Text.quoted text

namespace Literal

/-- A blank that may surround a literal: the information separators do not count. -/
def isPadding (c : Char) : Bool :=
  Text.isBlank c && !(0x1C ≤ c.toNat && c.toNat ≤ 0x1F)

/-- A literal without the blanks around it. -/
def unpad (cs : List Char) : List Char :=
  ((cs.dropWhile isPadding).reverse.dropWhile isPadding).reverse

/-- The value of a digit in a base up to sixteen. -/
def digitIn (base : Nat) (c : Char) : Option Nat :=
  let value := match Text.digitValue? c with
    | some d => some d
    | none => Text.hexValue? c
  value.bind fun d => if d < base then some d else none

/-- The sign of a literal and what follows it. -/
def takeSign : List Char → Bool × List Char
  | '+' :: rest => (false, rest)
  | '-' :: rest => (true, rest)
  | cs => (false, cs)

/-- Digits with single underscores between them, as values, most significant first. The flag tells
that a digit has to follow. -/
def digitRun (base : Nat) (mustFollow : Bool) : List Char → Option (List Nat)
  | [] => if mustFollow then none else some []
  | '_' :: rest => if mustFollow then none else digitRun base true rest
  | c :: rest => (digitIn base c).bind fun d => (digitRun base false rest).map (d :: ·)

/-- The letter that announces a base, as in `0x`. -/
def baseLetter (base : Nat) : Option Char :=
  if base = 2 then some 'b' else if base = 8 then some 'o' else if base = 16 then some 'x' else none

/-- A literal without the announcement of its base, and whether there was one. -/
def dropBase (base : Nat) : List Char → Bool × List Char
  | '0' :: c :: rest =>
    if baseLetter base = some c.toLower then (true, rest) else (false, '0' :: c :: rest)
  | cs => (false, cs)

/-- The number with the given digits. -/
def ofDigits (base : Nat) (ds : List Nat) : Nat := ds.foldl (fun n d => n * base + d) 0

/-- Reads an integer in a base. -/
def int (base : Nat) (text : String) : Except NumberFault Int :=
  let (negative, body) := takeSign (unpad text.toList)
  let (announced, body) := dropBase base body
  let body := if announced then (match body with | '_' :: rest => rest | cs => cs) else body
  match digitRun base true body with
  | none => .error (.notAnInteger base (Text.quoted text))
  | some ds =>
    if base = 10 && digitLimit < ds.length then .error (.tooManyDigits ds.length)
    else
      let n := ofDigits base ds
      .ok (if negative then -(n : Int) else (n : Int))

/-- Reads a decimal integer from bytes, which have to be ASCII. -/
def intOfBytes (bs : List UInt8) : Except NumberFault Int :=
  let text := String.ofList (bs.map fun b => Char.ofNat b.toNat)
  match if bs.all (· < 128) then int 10 text else .error (.notAnInteger 10 "") with
  | .error (.notAnInteger base _) => .error (.notAnInteger base (Text.quotedBytes bs))
  | result => result

/-- The digits at the head of a text, with single underscores between them, and the rest. The flag
tells that a digit has been read just before. -/
def leadingDigits (afterDigit : Bool) : List Char → List Nat × List Char
  | [] => ([], [])
  | c :: rest =>
    match Text.digitValue? c with
    | some d =>
      let (ds, tail) := leadingDigits true rest
      (d :: ds, tail)
    | none =>
      if c = '_' && afterDigit && (rest.head?.map Text.isDigit).getD false then
        leadingDigits false rest
      else ([], c :: rest)

/-- The exponent at the end of a literal; none if the text is something else. -/
def exponentPart : List Char → Option Int
  | [] => some 0
  | c :: rest =>
    if c.toLower = 'e' then
      let (negative, body) := takeSign rest
      match leadingDigits false body with
      | ([], _) => none
      | (ds, []) =>
        let n := ofDigits 10 ds
        some (if negative then -(n : Int) else (n : Int))
      | _ => none
    else none

/-- Reads an unsigned decimal literal. -/
def unsignedDecimal (cs : List Char) : Option Binary64 :=
  let (whole, rest) := leadingDigits false cs
  let (fraction, rest) := match rest with
    | '.' :: tail => leadingDigits false tail
    | _ => ([], rest)
  if whole.isEmpty && fraction.isEmpty then none
  else (exponentPart rest).map fun e =>
    Binary64.ofDecimal (ofDigits 10 (whole ++ fraction)) (e - fraction.length)

/-- Reads a floating-point number. -/
def float (text : String) : Except NumberFault Binary64 :=
  let (negative, body) := takeSign (unpad text.toList)
  let word := String.ofList (body.map Char.toLower)
  let magnitude :=
    if word = "inf" || word = "infinity" then some (Binary64.infinity false)
    else if word = "nan" then some Binary64.nan
    else unsignedDecimal body
  match magnitude with
  | none => .error (.notAFloat text)
  | some x => .ok (if negative then x.neg else x)

end Literal

end PipelineAudit
