import PipelineAudit.Json
import PipelineAudit.Report.Console
import PipelineAudit.Rule.Engine

/-!
# Lists of rules

The rules of an engine as JSON, and as a table by category.
-/

namespace PipelineAudit

/-- The words for a switch. -/
def EngineRule.state (r : EngineRule) : String := if r.enabled then "enabled" else "disabled"

/-- A rule with its switch. -/
def EngineRule.toJson (r : EngineRule) : Json :=
  .obj [("id", .str r.rule.id), ("enabled", .bool r.enabled), ("type", .str r.rule.category),
    ("severity", .str r.rule.severity), ("title", .str r.rule.title),
    ("description", .str r.rule.description), ("remediation", .str r.rule.remediation),
    ("dialects", .ofStrings r.rule.dialects)]

namespace Engine

/-- All rules. -/
def toJson (e : Engine) : Json := .arr (e.rules.map EngineRule.toJson)

/-- The categories of the rules, in the order in which they first appear. -/
def categories (e : Engine) : List String := (e.rules.map (·.rule.category)).eraseDups

/-- The rules of a category, by their ids. -/
def rulesOf (e : Engine) (category : String) : List EngineRule :=
  (e.rules.filter (·.rule.category == category)).mergeSort fun a b => decide (a.rule.id ≤ b.rule.id)

/-- The colour of a category. -/
def categoryColor (category : String) : Option Color :=
  (Category.ofName? category).map fun
    | .security => .red
    | .performance => .magenta
    | .bestPractice => .cyan
    | .dependency => .yellow
    | .structural => .blue

/-- A rule in a table: its state, severity and dialects, and what it looks for. -/
def tableRows (r : EngineRule) : String :=
  Console.ln [" - ", r.rule.id, ": ", r.state, " [", r.rule.severity, "] (",
      Text.join ", " r.rule.dialects, ")"]
    ++ Console.ln ["   ", r.rule.description]

/-- The heading of a category, in colour or not. -/
def tableHeading (color : Bool) (category : String) : String :=
  let name := category.toUpper
  "\n" ++ (if color then Console.styled name (categoryColor category) true else name) ++ "\n"

/-- The rules by category. -/
def table (e : Engine) (color : Bool) : String :=
  Text.join "" (e.categories.map fun category =>
    tableHeading color category ++ Text.join "" ((e.rulesOf category).map tableRows))

/-- The switches of the rules. -/
def switches (e : Engine) : String :=
  Text.join "" (e.rules.map fun r =>
    Console.ln [" - ", r.rule.id, ": ", r.state, " [", r.rule.severity, "]"])

end Engine

end PipelineAudit
