import PipelineAudit.Json
import PipelineAudit.Number.Literal

/-!
# Values as tagged JSON

JSON has no dates, no bytes, no mappings with other keys than texts, and its numbers are not exact
beyond 53 bits. In the tagged form such values are objects with a single member whose name says what
the value is, so that every value can be told from every other one.
-/

namespace PipelineAudit.Json

/-- The bytes that pairs of hexadecimal digits stand for. -/
def hexBytes : List Char → List UInt8
  | a :: b :: rest => UInt8.ofNat (Text.hexNumber [a, b]) :: hexBytes rest
  | _ => []

/-- Bytes as pairs of hexadecimal digits. -/
def hexText (bs : List UInt8) : String :=
  String.ofList (bs.flatMap fun b => Text.hexDigits 2 b.toNat)

/-- An object with a single member, whose name is the tag of a value. -/
def tag (name : String) (content : Json) : Json := obj [(name, content)]

/-- The integers from here on are tagged. -/
def exactBound : Nat := twoTo 53

mutual

/-- A value with tags. -/
def tagged : Value → Json
  | .null => null
  | .bool b => bool b
  | .int n => if n.natAbs < exactBound then int n else tag "$int" (str (toString n))
  | .float x => tag "$float" (str x.text)
  | .str s => str s
  | .bytes bs => tag "$bytes" (str (hexText bs))
  | .date d => tag "$date" (str d.text)
  | .moment t => tag "$datetime" (str (t.text "T"))
  | .seq items => arr (taggedItems items)
  | .pair a b => arr [tagged a, tagged b]
  | .map es => tag "$map" (arr (taggedEntries es))
termination_by structural v => v

/-- Values with tags. -/
def taggedItems : List Value → List Json
  | [] => []
  | v :: rest => tagged v :: taggedItems rest
termination_by structural vs => vs

/-- The entries of a mapping with tags, each a list of two. -/
def taggedEntries : List (Value × Value) → List Json
  | [] => []
  | e :: rest => taggedEntry e :: taggedEntries rest
termination_by structural es => es

/-- An entry of a mapping with tags. -/
def taggedEntry : Value × Value → Json
  | (k, v) => arr [tagged k, tagged v]
termination_by structural e => e

end

mutual

/-- The value that a tagged form stands for. An object without a tag is a mapping from texts. A
decimal that is given by a mark is a number that is not one. -/
def untagged : Json → Value
  | null => .null
  | bool b => .bool b
  | int n => .int n
  | decimal x => .float x
  | str s => .str s
  | arr items => .seq (untaggedItems items)
  | obj [("$map", arr pairs)] => .map (Value.entriesOf (untaggedPairs pairs))
  | obj [("$float", str s)] => .float ((Literal.float s).toOption.getD .nan)
  | obj [("$float", int n)] => .float (.markedNaN n.toNat)
  | obj [("$int", str s)] => .int ((Literal.int 10 s).toOption.getD 0)
  | obj members => .map (Value.entriesOf (untaggedMembers members))

/-- The values of items. -/
def untaggedItems : List Json → List Value
  | [] => []
  | j :: rest => untagged j :: untaggedItems rest

/-- The entries that lists of two stand for. -/
def untaggedPairs : List Json → List (Value × Value)
  | [] => []
  | arr [k, v] :: rest => (untagged k, untagged v) :: untaggedPairs rest
  | _ :: rest => untaggedPairs rest

/-- The entries of an object. -/
def untaggedMembers : List (String × Json) → List (Value × Value)
  | [] => []
  | (name, j) :: rest => (.str name, untagged j) :: untaggedMembers rest

end

end PipelineAudit.Json
