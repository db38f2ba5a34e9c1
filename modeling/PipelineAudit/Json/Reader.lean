import PipelineAudit.Json
import PipelineAudit.Number.Literal

/-!
# Reading JSON texts

`Json.read?` reads a JSON text whose numbers are integers. A text is first cut into tokens, and the
tokens are then put together into a value; both steps are bounded by the length of what they read.
Members of objects keep their written order.
-/

namespace PipelineAudit.Json

/-! ## Tokens -/

/-- A unit of a JSON text. -/
inductive Token where
  /-- A bracket, brace, colon or comma. -/
  | mark (c : Char)
  /-- A text. -/
  | text (s : String)
  /-- A number or a word. -/
  | atom (value : Json)

/-- The character that an escape letter stands for. -/
def escaped (c : Char) : Char :=
  match c with
  | 'n' => '\n'
  | 't' => '\t'
  | 'r' => '\r'
  | 'b' => Char.ofNat 0x8
  | 'f' => Char.ofNat 0xC
  | c => c

/-- The code units of a quoted text, last one first, and what follows its closing quote. -/
def quotedUnits (units : List Nat) : List Char → Option (List Nat × List Char)
  | [] => none
  | '"' :: rest => some (units, rest)
  | '\\' :: 'u' :: a :: b :: c :: d :: rest =>
      quotedUnits (Text.hexNumber [a, b, c, d] :: units) rest
  | '\\' :: c :: rest => quotedUnits ((escaped c).toNat :: units) rest
  | c :: rest => quotedUnits (c.toNat :: units) rest

/-- The characters of code units: a high and a low unit in a row are one character. -/
def ofUnits : List Nat → List Char
  | [] => []
  | [n] => [Char.ofNat n]
  | high :: low :: rest =>
    if 0xD800 ≤ high && high < 0xDC00 && 0xDC00 ≤ low && low < 0xE000 then
      Char.ofNat (0x10000 + (high - 0xD800) * 0x400 + (low - 0xDC00)) :: ofUnits rest
    else Char.ofNat high :: ofUnits (low :: rest)

/-- Whether a character is part of a number or a word. -/
def isAtomChar (c : Char) : Bool := c.isAlphanum || c == '-'

/-- The value of a number or a word. -/
def atom? (cs : List Char) : Option Json :=
  match String.ofList cs with
  | "null" => some null
  | "true" => some (bool true)
  | "false" => some (bool false)
  | s => ((Literal.int 10 s).toOption).map int

/-- Cuts characters into tokens, behind those that are known. -/
def tokens : Nat → List Token → List Char → Option (List Token)
  | _, known, [] => some known.reverse
  | 0, _, _ => none
  | fuel + 1, known, c :: rest =>
    if c == ' ' || c == '\t' || c == '\n' || c == '\r' then tokens fuel known rest
    else if c == '"' then
      match quotedUnits [] rest with
      | some (units, rest) =>
          tokens fuel (.text (String.ofList (ofUnits units.reverse)) :: known) rest
      | none => none
    else if "[]\x7b\x7d:,".contains c then tokens fuel (.mark c :: known) rest
    else
      match atom? ((c :: rest).takeWhile isAtomChar) with
      | some v => tokens fuel (.atom v :: known) ((c :: rest).dropWhile isAtomChar)
      | none => none

/-! ## Values -/

mutual

/-- The value at the head of tokens, and the tokens behind it. -/
def value? : Nat → List Token → Option (Json × List Token)
  | 0, _ => none
  | _, .text s :: rest => some (str s, rest)
  | _, .atom v :: rest => some (v, rest)
  | _, .mark '[' :: .mark ']' :: rest => some (arr [], rest)
  | fuel + 1, .mark '[' :: rest => items? fuel [] rest
  | _, .mark '\x7b' :: .mark '\x7d' :: rest => some (obj [], rest)
  | fuel + 1, .mark '\x7b' :: rest => members? fuel [] rest
  | _, _ => none
termination_by structural fuel => fuel

/-- The array whose first items, last one first, are known. -/
def items? : Nat → List Json → List Token → Option (Json × List Token)
  | 0, _, _ => none
  | fuel + 1, known, ts =>
    match value? fuel ts with
    | some (v, .mark ',' :: rest) => items? fuel (v :: known) rest
    | some (v, .mark ']' :: rest) => some (arr (v :: known).reverse, rest)
    | _ => none
termination_by structural fuel => fuel

/-- The object whose first members, last one first, are known. -/
def members? : Nat → List (String × Json) → List Token → Option (Json × List Token)
  | fuel + 1, known, .text name :: .mark ':' :: ts =>
    match value? fuel ts with
    | some (v, .mark ',' :: rest) => members? fuel ((name, v) :: known) rest
    | some (v, .mark '\x7d' :: rest) => some (obj ((name, v) :: known).reverse, rest)
    | _ => none
  | _, _, _ => none
termination_by structural fuel => fuel

end

/-- The value that a text describes. -/
def read? (s : String) : Option Json :=
  let cs := s.toList
  match tokens cs.length [] cs with
  | some ts =>
    match value? (2 * ts.length + 1) ts with
    | some (v, []) => some v
    | _ => none
  | none => none

/-! ## Members -/

/-- The first member of an object with a name. -/
def get? (j : Json) (name : String) : Option Json :=
  match j with
  | obj members => (members.find? (·.1 == name)).map Prod.snd
  | _ => none

end PipelineAudit.Json
