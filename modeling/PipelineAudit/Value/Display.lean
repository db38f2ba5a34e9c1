import PipelineAudit.Number.Literal
import PipelineAudit.Text.Quoted
import PipelineAudit.Value.Basic

/-!
# The text of a value

`Value.display` is how a value reads inside a sentence; `Value.inner` is how it reads as a part of a
list or mapping, where texts stand in quotes and dates are spelled out.

Integers beyond a limit are not written. `Value.isWritable` tells the values that have a text, and
`Value.written` is their text.
-/

namespace PipelineAudit.Value

mutual

/-- The text of a value as part of another. -/
def inner : Value → String
  | null => "None"
  | bool b => if b then "True" else "False"
  | int n => toString n
  | float x => x.text
  | str s => Text.quoted s
  | bytes bs => Text.quotedBytes bs
  | date d => d.innerText
  | moment t => t.innerText
  | seq items => "[" ++ Text.join ", " (innerItems items) ++ "]"
  | pair a b => "(" ++ inner a ++ ", " ++ inner b ++ ")"
  | map es => "\x7b" ++ Text.join ", " (innerEntries es) ++ "\x7d"
termination_by structural v => v

/-- The texts of the items of a list. -/
def innerItems : List Value → List String
  | [] => []
  | v :: rest => inner v :: innerItems rest
termination_by structural vs => vs

/-- The texts of the entries of a mapping. -/
def innerEntries : List (Value × Value) → List String
  | [] => []
  | e :: rest => innerEntry e :: innerEntries rest
termination_by structural es => es

/-- The text of an entry of a mapping. -/
def innerEntry : Value × Value → String
  | (k, v) => inner k ++ ": " ++ inner v
termination_by structural e => e

end

/-- The text of a value. -/
def display : Value → String
  | str s => s
  | date d => d.text
  | moment t => t.text " "
  | v => inner v

mutual

/-- Whether a value has a text: no integer in it is too long. -/
def isWritable : Value → Bool
  | int n => decide (n.natAbs < digitBound)
  | seq items => areWritable items
  | pair a b => isWritable a && isWritable b
  | map es => entriesWritable es
  | _ => true
termination_by structural v => v

/-- Whether all items of a list have texts. -/
def areWritable : List Value → Bool
  | [] => true
  | v :: rest => isWritable v && areWritable rest
termination_by structural vs => vs

/-- Whether all entries of a mapping have texts. -/
def entriesWritable : List (Value × Value) → Bool
  | [] => true
  | e :: rest => entryWritable e && entriesWritable rest
termination_by structural es => es

/-- Whether the key and the value of an entry have texts. -/
def entryWritable : Value × Value → Bool
  | (k, v) => isWritable k && isWritable v
termination_by structural e => e

end

/-- The text of a value, which must not be too long an integer. -/
def written (v : Value) : Except NumberFault String :=
  if v.isWritable then .ok v.display else .error .tooLongToWrite

end PipelineAudit.Value
