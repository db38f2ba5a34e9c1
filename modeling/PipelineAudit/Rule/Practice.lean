import PipelineAudit.Pattern.Intent
import PipelineAudit.Rule.Basic

/-!
# Best practices

Names, time limits, failure handling, comments and variables: what keeps a definition readable.
-/

namespace PipelineAudit.Rules

/-- Whether a name is missing or blank. -/
def isBlankName (name : Option String) : Bool :=
  match name with
  | some s => (Text.trim s).isEmpty
  | none => true

/-! ## Names -/

/-- What the rule says. -/
def workflowNameSpec : RuleSpec where
  id := "workflow_name"
  category := .bestPractice
  severity := .warning
  title := "Missing workflow name"
  description := "Workflow should have a descriptive name"
  remediation := "Add a \"name\" field at the top of your workflow file"
  dialects := [.github]

/-- A document has a name. -/
def workflowName : Rule :=
  workflowNameSpec.pureRule fun _ subject =>
    if isBlankName subject.document.name then
      [{ line := .ok (.int 1) }]
    else []

/-- What the rule says. -/
def jobNameSpec : RuleSpec where
  id := "job_name"
  category := .bestPractice
  severity := .info
  title := "Missing job name"
  description := "Job should have a descriptive name"
  remediation := "Add a \"name\" field to make the job purpose clear in the UI"
  dialects := [.github]

/-- A job has a name. -/
def jobName : Rule :=
  jobNameSpec.jobRule fun _ _ j =>
    if isBlankName j.name then [j.draft ("Job '" ++ j.id ++ "' should have a descriptive name")]
    else []

/-- What the rule says. -/
def stepNameSpec : RuleSpec where
  id := "step_name"
  category := .bestPractice
  severity := .info
  title := "Missing step name"
  description := "Step should have a name"
  remediation := "Add descriptive names to steps for better readability"
  dialects := [.github]

/-- A step that does something has a name. -/
def stepName : Rule :=
  stepNameSpec.stepRule fun _ _ j s =>
    let named := (s.name.bind nonEmpty?).isSome
    let acts := (s.uses.bind nonEmpty?).isSome || (s.run.bind nonEmpty?).isSome
    if acts && !named then
      [s.draft j ("Step " ++ toString (s.index + 1) ++ " in job '" ++ j.id
        ++ "' should have a name")]
    else []

/-! ## Time limits -/

/-- What the rule says. -/
def timeoutSpec : RuleSpec where
  id := "timeout"
  category := .bestPractice
  severity := .info
  title := "Missing job timeout"
  description := "Jobs should have a timeout set to prevent hanging"
  remediation := "Add timeout-minutes to jobs, especially those with many steps"

/-- The number of steps up to which a job needs no time limit. -/
def maxStepsWithoutTimeout : Nat := 5

/-- The advice in a dialect. -/
def timeoutAdvice : Dialect → String
  | .github => timeoutSpec.remediation
  | .gitlab => "Add a timeout: to the job"

/-- A long job, or every job in strict mode, has a time limit. A job that calls another pipeline
takes its limit from there. -/
def timeout : Rule :=
  timeoutSpec.jobRule fun options subject j =>
    let count := j.steps.length
    if j.timeout.isNull && !j.uses.truthy &&
      (options.strict || decide (maxStepsWithoutTimeout < count)) then
      let text := "Job '" ++ j.id ++ "' has " ++ toString count ++ " steps but no timeout"
      [{ j.draft text with suggestion := some (timeoutAdvice subject.document.dialect) }]
    else []

/-! ## Failures -/

/-- What the rule says. -/
def errorHandlingSpec : RuleSpec where
  id := "error_handling"
  category := .bestPractice
  severity := .info
  title := "No error handling detected"
  description := "Job may benefit from error handling strategies"
  remediation := "Consider adding continue-on-error or conditional steps for error scenarios"

/-- The number of steps up to which a job needs no failure handling. -/
def maxStepsWithoutHandling : Nat := 3

/-- Whether a job or one of its steps deals with failures. -/
def dealsWithFailures (j : Job) : Bool :=
  !j.continueOnError.isNull
    || j.steps.any fun s =>
      !s.continueOnError.isNull || Intent.failureCondition.occursIn (s.condition.getD "")

/-- Whether a step deploys or publishes. -/
def isDeployment (s : Step) : Bool :=
  Intent.deployKeywords.occursIn
    (Text.join " " ([s.name, s.uses, s.run].filterMap fun t => t.bind nonEmpty?))

/-- Failures are dealt with. -/
def errorHandling : Rule :=
  errorHandlingSpec.jobRule fun _ _ j =>
    if dealsWithFailures j then []
    else
      let ofJob := if maxStepsWithoutHandling < j.steps.length then
          [j.draft ("Job '" ++ j.id ++ "' may benefit from error handling strategies")]
        else []
      let risky := j.steps.filter fun s => (s.condition.bind nonEmpty?).isNone && isDeployment s
      ofJob ++ risky.map fun s =>
        let text := "Step " ++ toString (s.index + 1) ++ " in job '" ++ j.id
          ++ "' deploys or publishes without a failure path"
        { s.draft j text with
          title := some "Risky step without error handling"
          suggestion := some "Add a follow-up step with if: failure() to notify or roll back" }

/-! ## Comments -/

/-- What the rule says. -/
def documentationSpec : RuleSpec where
  id := "documentation"
  category := .bestPractice
  severity := .info
  title := "No inline documentation"
  description := "Workflow could benefit from comments explaining complex logic"
  remediation := "Add YAML comments to explain workflow purpose and complex steps"

/-- A definition has comments. -/
def documentation : Rule :=
  documentationSpec.pureRule fun _ subject =>
    if Source.isCommented subject.source then [] else [{}]

/-! ## Variables -/

/-- What the rule says. -/
def envShadowingSpec : RuleSpec where
  id := "env_shadowing"
  category := .bestPractice
  severity := .info
  title := "Environment variable shadowing"
  description := "A job redefines a workflow-level environment variable"
  remediation := "Consider using a different variable name to avoid confusion"

/-- The variables of a job and its steps, each one once. -/
def variableNames (j : Job) : List String :=
  (j.env.keys ++ j.steps.flatMap fun s => s.env.keys).eraseDups

/-- Jobs and steps do not redefine variables of the whole document. -/
def envShadowing : Rule :=
  envShadowingSpec.jobRule fun _ subject j =>
    ((variableNames j).filter subject.document.env.has).map fun name =>
      let text := "Job '" ++ j.id ++ "' redefines global environment variable '" ++ name ++ "'"
      { j.draft text with
        line := lineHolding subject (name ++ ":") (orElseValue j.line (.int 1)) j.line
        key := some name }

end PipelineAudit.Rules
