import PipelineAudit.Finding.Basic
import PipelineAudit.KnownActions
import PipelineAudit.Source.Search

/-!
# Rules

A rule looks at a document and its source and returns findings, or fails on a document it cannot
deal with. What a finding does not say itself it takes from its rule.
-/

namespace PipelineAudit

/-- Why a rule fails. -/
inductive RuleFault where
  /-- The labels of a runner are not a collection. -/
  | runsOnLabels
  /-- A number cannot be read or written. -/
  | number (fault : NumberFault)
  /-- A line is no number. -/
  | line
  /-- A finding has no valid category. -/
  | category (name : String)
  /-- A finding has no valid severity. -/
  | severity (name : String)
  /-- The rule was made to fail. -/
  | deliberate
  deriving DecidableEq, Repr

/-- What an engine tells its rules. -/
structure RuleOptions where
  strict : Bool := false
  knownActions : KnownActions := .builtIn

/-- A document under audit, with its source and the name that findings give it. -/
structure Subject where
  document : Document
  source : String
  fileName : String

/-- A rule. Category and severity are names, which are checked when a finding is made. -/
structure Rule where
  id : String
  category : String
  severity : String
  title : String
  description : String
  remediation : String
  links : List String := []
  dialects : List String := [Dialect.github.name, Dialect.gitlab.name]
  check : RuleOptions → Subject → Except RuleFault (List Finding)

/-- Whether a rule applies to a document. -/
def Rule.covers (r : Rule) (d : Document) : Bool := r.dialects.contains d.dialect.name

/-- What a single finding says itself. -/
structure Draft where
  description : Option String := none
  title : Option String := none
  job : Option String := none
  step : Option Numeral := none
  /-- The line, null if there is none. -/
  line : Except Source.LineFault Value := .ok .null
  suggestion : Option String := none
  links : Option (List String) := none
  /-- Tells findings of one place apart. -/
  key : Option String := none
  /-- The severity, if it is not that of the rule. -/
  severity : Option Severity := none

/-- What a rule says of its findings. -/
structure RuleText where
  id : String
  title : String
  description : String
  remediation : String
  links : List String := []

/-- A text, or another one if it is missing or empty. -/
def orElseText (s : Option String) (other : String) : String := (s.bind nonEmpty?).getD other

namespace Draft

/-- The place of a finding on a line, if any part of it is known. -/
def location (d : Draft) (line : Value) : Option Location :=
  if d.job.isSome || d.step.isSome || !line.isNull then some ⟨d.job, d.step, line⟩ else none

/-- The text of a step's number. -/
def stepText (step : Numeral) : String := step.toValue.display

/-- The id of a finding: rule, job, step and key with dashes between them. -/
def id (d : Draft) (ruleId : String) : String :=
  Text.join "-" ([some ruleId, d.job, d.step.map stepText, d.key].filterMap fun p =>
    p.bind nonEmpty?)

/-- The line of a draft and the snippet around it. -/
def evidence (d : Draft) (source : String) : Except RuleFault (Value × Option Snippet) :=
  let found := do
    let line ← d.line
    return (line, ← Snippet.around source line)
  found.mapError fun _ => .line

/-- The finding of a draft with its evidence. -/
def findingWith (d : Draft) (rule : RuleText) (category : Category) (severity : Severity)
    (file : String) (line : Value) (snippet : Option Snippet) : Finding :=
  { id := d.id rule.id
    ruleId := rule.id
    category := category
    severity := severity
    title := orElseText d.title rule.title
    description := orElseText d.description rule.description
    file := file
    location := d.location line
    suggestion := some (orElseText d.suggestion rule.remediation)
    links := d.links.getD rule.links
    snippet := snippet }

end Draft

/-- A rule of the catalogue, with its category and default severity. -/
structure RuleSpec extends RuleText where
  category : Category
  severity : Severity
  dialects : List Dialect := [.github, .gitlab]

namespace RuleSpec

/-- The finding of a draft. -/
def finding (spec : RuleSpec) (subject : Subject) (d : Draft) : Except RuleFault Finding := do
  let (line, snippet) ← d.evidence subject.source
  return d.findingWith spec.toRuleText spec.category (d.severity.getD spec.severity)
    subject.fileName line snippet

/-- The rule that reports drafts. -/
def rule (spec : RuleSpec) (check : RuleOptions → Subject → Except RuleFault (List Draft)) : Rule :=
  { id := spec.id
    category := spec.category.name
    severity := spec.severity.name
    title := spec.title
    description := spec.description
    remediation := spec.remediation
    links := spec.links
    dialects := spec.dialects.map Dialect.name
    check := fun options subject => do (← check options subject).mapM (spec.finding subject) }

/-- The rule with a check that cannot fail. -/
def pureRule (spec : RuleSpec) (check : RuleOptions → Subject → List Draft) : Rule :=
  spec.rule fun options subject => .ok (check options subject)

/-- The rule that checks one job at a time. -/
def jobRule (spec : RuleSpec) (check : RuleOptions → Subject → Job → List Draft) : Rule :=
  spec.pureRule fun options subject => subject.document.jobs.flatMap (check options subject)

/-- The rule that checks one step at a time. -/
def stepRule (spec : RuleSpec) (check : RuleOptions → Subject → Job → Step → List Draft) : Rule :=
  spec.pureRule fun options subject =>
    subject.document.steps.flatMap fun (j, s) => check options subject j s

/-- The rule that checks one step at a time and may fail. -/
def fallibleStepRule (spec : RuleSpec)
    (check : RuleOptions → Subject → Job → Step → Except RuleFault (List Draft)) : Rule :=
  spec.rule fun options subject => do
    let found ← subject.document.steps.mapM fun (j, s) => check options subject j s
    return found.flatten

/-- The rule that writes the texts of some values and then cannot fail. -/
def writingRule (spec : RuleSpec) (values : Document → List Value)
    (check : RuleOptions → Subject → List Draft) : Rule :=
  spec.rule fun options subject =>
    if (values subject.document).all Value.isWritable then .ok (check options subject)
    else .error (.number .tooLongToWrite)

end RuleSpec

/-- The place of a job. -/
def Job.draft (j : Job) (description : String) : Draft :=
  { description := some description, job := some j.id, line := .ok j.line }

/-- The place of a step. -/
def Step.draft (s : Step) (j : Job) (description : String) : Draft :=
  { description := some description, job := some j.id, step := some (.ofNat s.index)
    line := .ok s.lineValue }

/-- A step by its name or its number. -/
def Step.label (s : Step) (j : Job) : String :=
  match s.name.bind nonEmpty? with
  | some name => "'" ++ name ++ "' in job '" ++ j.id ++ "'"
  | none => "#" ++ toString (s.index + 1) ++ " in job '" ++ j.id ++ "'"

/-- A line that a search found, null if it found none. -/
def foundLine (n : Option Nat) : Value := (n.map fun n => Value.int n).getD .null

/-- A value, or another one in place of null. -/
def orElseValue (v other : Value) : Value := if v.isNull then other else v

/-- The line, from a recorded one on, that holds a text, or else another line. -/
def lineHolding (subject : Subject) (text : String) (start other : Value) :
    Except Source.LineFault Value :=
  (Source.findLineFrom subject.source text start 0).map fun n => orElseValue (foundLine n) other

end PipelineAudit
