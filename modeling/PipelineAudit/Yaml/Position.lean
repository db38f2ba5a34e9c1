import PipelineAudit.Value.Basic

/-!
# Position entries

A mapping read with positions ends with three entries: the line and column where it starts, and a
mapping from each of its keys to the line of that key. This module names those entries, reads them
and removes them.
-/

namespace PipelineAudit

namespace Yaml

/-- The key of the line where a mapping starts. -/
def lineKey : String := "__line__"

/-- The key of the column where a mapping starts. -/
def columnKey : String := "__column__"

/-- The key of the lines of a mapping's keys. -/
def keyLinesKey : String := "__key_lines__"

/-- The keys of position entries. -/
def positionKeys : List String := [lineKey, columnKey, keyLinesKey]

end Yaml

namespace Value

/-- Whether a value is the key of a position entry. -/
def isPositionKey : Value → Bool
  | str s => Yaml.positionKeys.contains s
  | _ => false

mutual

/-- A value without its position entries. -/
def clean : Value → Value
  | seq items => seq (cleanItems items)
  | map es => map (cleanEntries es)
  | v => v
termination_by structural v => v

/-- The items of a list without their position entries. -/
def cleanItems : List Value → List Value
  | [] => []
  | v :: rest => clean v :: cleanItems rest
termination_by structural vs => vs

/-- The entries of a mapping without position entries. -/
def cleanEntries : List (Value × Value) → List (Value × Value)
  | [] => []
  | e :: rest => if isPositionKey e.1 then cleanEntries rest else cleanEntry e :: cleanEntries rest
termination_by structural es => es

/-- An entry whose value has no position entries. -/
def cleanEntry : Value × Value → Value × Value
  | (k, v) => (k, clean v)
termination_by structural e => e

end

/-- What a mapping records as the line of a key; null if it records none. -/
def keyLine (v : Value) (key : String) : Value :=
  match v.get? Yaml.keyLinesKey with
  | some (map lines) => (map lines).get key
  | _ => null

/-- What a mapping records as the line where it starts: a number or a truth value, else null. -/
def startLine (v : Value) : Value :=
  match v.get? Yaml.lineKey with
  | some (int n) => int n
  | some (bool b) => bool b
  | _ => null

end Value

end PipelineAudit
