import PipelineAudit.Text.Lines
import PipelineAudit.Value.Display

/-!
# JSON texts

JSON values with members in a fixed order, and two ways to write them: on one line, or indented with
two blanks per level. The indented form is pure ASCII: other characters are written as UTF-16 units.
-/

namespace PipelineAudit

/-- A JSON value; objects keep the order of their members. -/
inductive Json where
  | null
  | bool (b : Bool)
  | int (n : Int)
  | decimal (x : Binary64)
  | str (s : String)
  | arr (items : List Json)
  | obj (members : List (String × Json))
  deriving Repr, Inhabited

namespace Json

/-- The UTF-16 units of a character. -/
def utf16Units (c : Char) : List Nat :=
  let n := c.toNat
  if n < 0x10000 then [n]
  else [0xD800 + (n - 0x10000) / 0x400, 0xDC00 + (n - 0x10000) % 0x400]

/-- The escape of a control character or quote that both forms share. -/
def shortEscape? (c : Char) : Option (List Char) :=
  if c = '"' then some ['\\', '"']
  else if c = '\\' then some ['\\', '\\']
  else if c = '\n' then some ['\\', 'n']
  else if c = '\r' then some ['\\', 'r']
  else if c = '\t' then some ['\\', 't']
  else if c = Char.ofNat 0x8 then some ['\\', 'b']
  else if c = Char.ofNat 0xC then some ['\\', 'f']
  else none

/-- A character of a text in ASCII. -/
def asciiChar (c : Char) : List Char :=
  match shortEscape? c with
  | some cs => cs
  | none =>
    if 0x20 ≤ c.toNat && c.toNat < 0x7F then [c]
    else (utf16Units c).flatMap fun u => '\\' :: 'u' :: Text.hexDigits 4 u

/-- A character of a text, escaped only where that is needed. -/
def plainChar (c : Char) : List Char :=
  match shortEscape? c with
  | some cs => cs
  | none => if c.toNat < 0x20 then '\\' :: 'u' :: Text.hexDigits 4 c.toNat else [c]

/-- A text in quotes. -/
def quoted (char : Char → List Char) (s : String) : String :=
  String.ofList ('"' :: s.toList.flatMap char ++ ['"'])

/-- A decimal; those that are no numbers have names. -/
def decimalText (x : Binary64) : String :=
  if x.isNaN then "NaN"
  else if x.text == "inf" then "Infinity"
  else if x.text == "-inf" then "-Infinity"
  else x.text

mutual

/-- A value on one line. -/
def compact : Json → String
  | null => "null"
  | bool b => if b then "true" else "false"
  | int n => toString n
  | decimal x => decimalText x
  | str s => quoted plainChar s
  | arr items => "[" ++ Text.join "," (compactItems items) ++ "]"
  | obj members => "\x7b" ++ Text.join "," (compactMembers members) ++ "\x7d"
termination_by structural j => j

/-- The items of an array, each on one line. -/
def compactItems : List Json → List String
  | [] => []
  | j :: rest => compact j :: compactItems rest
termination_by structural js => js

/-- The members of an object, each on one line. -/
def compactMembers : List (String × Json) → List String
  | [] => []
  | m :: rest => compactMember m :: compactMembers rest
termination_by structural ms => ms

/-- A member of an object on one line. -/
def compactMember : String × Json → String
  | (name, value) => quoted plainChar name ++ ":" ++ compact value
termination_by structural m => m

end

/-- A new line with an indentation. -/
def newline (depth : Nat) : String := "\n" ++ String.ofList (List.replicate (2 * depth) ' ')

mutual

/-- A value over several lines, at a depth of nesting. -/
def indented (depth : Nat) : Json → String
  | null => "null"
  | bool b => if b then "true" else "false"
  | int n => toString n
  | decimal x => decimalText x
  | str s => quoted asciiChar s
  | arr [] => "[]"
  | arr (item :: rest) =>
    "[" ++ newline (depth + 1)
      ++ Text.join ("," ++ newline (depth + 1))
        (indented (depth + 1) item :: indentedItems (depth + 1) rest)
      ++ newline depth ++ "]"
  | obj [] => "\x7b\x7d"
  | obj (m :: rest) =>
    "\x7b" ++ newline (depth + 1)
      ++ Text.join ("," ++ newline (depth + 1))
        (indentedMember (depth + 1) m :: indentedMembers (depth + 1) rest)
      ++ newline depth ++ "\x7d"
termination_by structural j => j

/-- The items of an array at a depth of nesting. -/
def indentedItems (depth : Nat) : List Json → List String
  | [] => []
  | j :: rest => indented depth j :: indentedItems depth rest
termination_by structural js => js

/-- The members of an object at a depth of nesting. -/
def indentedMembers (depth : Nat) : List (String × Json) → List String
  | [] => []
  | m :: rest => indentedMember depth m :: indentedMembers depth rest
termination_by structural ms => ms

/-- A member of an object at a depth of nesting. -/
def indentedMember (depth : Nat) : String × Json → String
  | (name, value) => quoted asciiChar name ++ ": " ++ indented depth value
termination_by structural m => m

end

mutual

/-- A value in its plain form: keys, dates and bytes are written as texts. -/
def ofValue : Value → Json
  | .null => null
  | .bool b => bool b
  | .int n => int n
  | .float x => decimal x
  | .seq items => arr (ofValues items)
  | .pair a b => arr [ofValue a, ofValue b]
  | .map es => obj (ofEntries es)
  | v => str v.display
termination_by structural v => v

/-- Values in their plain forms. -/
def ofValues : List Value → List Json
  | [] => []
  | v :: rest => ofValue v :: ofValues rest
termination_by structural vs => vs

/-- The entries of a mapping in their plain forms. -/
def ofEntries : List (Value × Value) → List (String × Json)
  | [] => []
  | e :: rest => ofEntry e :: ofEntries rest
termination_by structural es => es

/-- An entry of a mapping in its plain form. -/
def ofEntry : Value × Value → String × Json
  | (k, v) => (k.display, ofValue v)
termination_by structural e => e

end

/-- An optional value, null if there is none. -/
def ofOption {α : Type} (f : α → Json) : Option α → Json
  | some a => f a
  | none => null

/-- A list of texts. -/
def ofStrings (items : List String) : Json := arr (items.map str)

end Json

end PipelineAudit
