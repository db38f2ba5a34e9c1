import PipelineAudit.Workflow.Basic
import PipelineAudit.Workflow.Error
import PipelineAudit.Yaml.Position

/-!
# Reading fields of a definition

The readings that both dialects share: lists that may be a single value, mappings with text keys,
optional texts and conditions, and the line of a job.
-/

namespace PipelineAudit.Value

/-- The items of a list; another value is a list of itself, and null an empty one. -/
def itemsOrSelf : Value → List Value
  | null => []
  | seq items => items
  | v => [v]

/-- The entries of a mapping under text keys, without positions; none for other values. -/
def asFields : Value → Fields
  | map entries => Assoc.ofList ((cleanEntries entries).map fun e => (e.1.display, e.2))
  | _ => []

/-- The keys of a mapping, without those of positions; none for other values. -/
def fieldKeys (v : Value) : List Value := (v.entries.map Prod.fst).filter fun k => !k.isPositionKey

/-- The text of a value that is not null. -/
def text? : Value → Option String
  | null => none
  | v => some v.display

/-- The condition that a value stands for: truth values as words, texts without blanks around them,
and none if nothing is left. -/
def condition? : Value → Option String
  | null => none
  | bool b => some (if b then "true" else "false")
  | v => nonEmpty? (Text.trim v.display)

end PipelineAudit.Value

namespace PipelineAudit

/-- The line of a job: what its tree records, or else the one that a search finds. -/
def jobLine (recorded : Value) (found : Option Nat) : Value :=
  if recorded.truthy then recorded else (found.map fun n => Value.int n).getD .null

/-- Checks that values have texts. -/
def checkWritten (values : List Value) : Except ParseFailure Unit :=
  if values.all Value.isWritable then .ok () else .error (.number .tooLongToWrite)

end PipelineAudit
