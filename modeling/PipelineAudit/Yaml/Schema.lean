import PipelineAudit.Pattern.Regex
import PipelineAudit.Yaml.Node

/-!
# Tags of plain scalars

A plain scalar without a tag gets one by its form: numbers, dates, truth values and the null value
are recognised, everything else is text. A schema chooses the words that count as truth values, and
whether mappings record where they stand.
-/

namespace PipelineAudit.Yaml

open Regex

/-- How a text is read. -/
structure Schema where
  /-- The words that are truth values. -/
  booleans : List String
  /-- Whether mappings refuse a repeated key and record the lines of their keys. -/
  positions : Bool

namespace Schema

/-- The schema for pipeline definitions, where `on` is a key and not a truth value. -/
def pipeline : Schema := ⟨["true", "True", "TRUE", "false", "False", "FALSE"], true⟩

/-- The schema for configuration files. -/
def plain : Schema :=
  ⟨["yes", "Yes", "YES", "no", "No", "NO", "true", "True", "TRUE", "false", "False", "FALSE",
    "on", "On", "ON", "off", "Off", "OFF"], false⟩

/-- An optional sign. -/
def sign : Regex := opt (oneOf "-+")

/-- A digit. -/
def digit : Regex := char .decimal

/-- Digits and underscores. -/
def digitsOrGaps : Regex := star (char (.decimal ||| .ofString "_"))

/-- The parts of a number in base sixty after the first. -/
def sixtieths : Regex := plus (lit ":" ++ opt (char (.range '0' '5')) ++ digit)

/-- A signed exponent. -/
def exponent : Regex := opt (oneOf "eE" ++ oneOf "-+" ++ plus digit)

/-- A whole text. -/
def whole (r : Regex) : Regex := start ++ r ++ finish

/-- Floating-point numbers: a point is needed, and an exponent has a sign. -/
def floatPattern : Regex :=
  whole (choice [
    sign ++ digit ++ digitsOrGaps ++ lit "." ++ digitsOrGaps ++ exponent,
    lit "." ++ digit ++ digitsOrGaps ++ exponent,
    sign ++ digit ++ digitsOrGaps ++ sixtieths ++ lit "." ++ digitsOrGaps,
    sign ++ lit "." ++ words ["inf", "Inf", "INF"],
    lit "." ++ words ["nan", "NaN", "NAN"]])

/-- Integers: binary, octal, decimal, hexadecimal or in base sixty. -/
def intPattern : Regex :=
  whole (choice [
    sign ++ lit "0b" ++ plus (oneOf "01_"),
    sign ++ lit "0" ++ plus (oneOf "01234567_"),
    sign ++ (lit "0" ||| (char (.range '1' '9') ++ digitsOrGaps)),
    sign ++ lit "0x" ++ plus (char (.hex ||| .ofString "_")),
    sign ++ char (.range '1' '9') ++ digitsOrGaps ++ sixtieths])

/-- The null value. -/
def nullPattern : Regex := whole (choice [lit "~", words ["null", "Null", "NULL"]])

/-- Dates, and dates with a time. -/
def timestampPattern : Regex :=
  whole (choice [
    exactly 4 digit ++ lit "-" ++ exactly 2 digit ++ lit "-" ++ exactly 2 digit,
    exactly 4 digit ++ lit "-" ++ digit ++ opt digit ++ lit "-" ++ digit ++ opt digit
      ++ (oneOf "Tt" ||| plus (oneOf " \t")) ++ digit ++ opt digit
      ++ lit ":" ++ exactly 2 digit ++ lit ":" ++ exactly 2 digit
      ++ opt (lit "." ++ star digit)
      ++ opt (star (oneOf " \t")
        ++ (lit "Z" ||| (oneOf "-+" ++ digit ++ opt digit ++ opt (lit ":" ++ exactly 2 digit))))])

/-- A form of plain scalars: a text has it if its first character is one of the heads and the
pattern matches. -/
structure Form where
  tag : String
  heads : List Char
  /-- Whether the empty text has the form. -/
  ofEmpty : Bool := false
  pattern : Regex

/-- Whether a text has a form. -/
def Form.covers (form : Form) (text : String) : Bool :=
  match text.toList.head? with
  | none => form.ofEmpty
  | some c => form.heads.contains c && form.pattern.matchesStart text

/-- The digits of numbers and dates. -/
def digits : List Char := "0123456789".toList

/-- The forms that give a tag, in the order in which they are tried. -/
def forms (schema : Schema) : List Form :=
  [{ tag := Tag.bool, heads := schema.booleans.filterMap fun w => w.toList.head?,
     pattern := whole (words schema.booleans) },
   { tag := Tag.float, heads := '-' :: '+' :: '.' :: digits, pattern := floatPattern },
   { tag := Tag.int, heads := '-' :: '+' :: digits, pattern := intPattern },
   { tag := Tag.merge, heads := ['<'], pattern := whole (lit "<<") },
   { tag := Tag.null, heads := ['~', 'n', 'N'], ofEmpty := true, pattern := nullPattern },
   { tag := Tag.timestamp, heads := digits, pattern := timestampPattern },
   { tag := Tag.value, heads := ['='], pattern := whole (lit "=") },
   { tag := Tag.yaml, heads := ['!', '&', '*'], pattern := whole (oneOf "!&*") }]

/-- The tag of a plain scalar without one. -/
def resolve (schema : Schema) (text : String) : String :=
  ((schema.forms.find? fun form => form.covers text).map Form.tag).getD Tag.str

end Schema

end PipelineAudit.Yaml
