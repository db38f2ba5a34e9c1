import PipelineAudit.Rule.Basic

/-!
# Rules on the shape of a document

Dependencies on jobs that do not exist, and documents with too many steps, triggers or jobs.
-/

namespace PipelineAudit.Rules

/-- What the rule says. -/
def missingDependencySpec : RuleSpec where
  id := "missing_dependency"
  category := .structural
  severity := .error
  title := "Missing job dependency"
  description := "A job depends on a job that does not exist"
  remediation := "Check job name spelling or remove the dependency"

/-- The draft for a dependency that does not exist. It is looked for after the line of the job. -/
def missingDependencyDraft (subject : Subject) (j : Job) (dependency : String) : Draft :=
  let found := Source.findLineFrom subject.source dependency (orElseValue j.line (.int 0)) 1
  let text := "Job '" ++ j.id ++ "' depends on '" ++ dependency ++ "' which doesn't exist"
  { j.draft text with
    title := some ("Missing job dependency '" ++ dependency ++ "'")
    line := found.map fun n => orElseValue (foundLine n) j.line
    key := some dependency }

/-- Jobs depend on jobs that exist. -/
def missingDependency : Rule :=
  missingDependencySpec.jobRule fun _ subject j =>
    ((j.needs ++ j.artifactDependencies).filter fun n => !subject.document.hasJob n).map
      (missingDependencyDraft subject j)

/-- What the rule says. -/
def complexWorkflowSpec : RuleSpec where
  id := "complex_workflow"
  category := .structural
  severity := .warning
  title := "Complex workflow structure"
  description := "The workflow has a large number of steps"
  remediation := "Consider breaking this into multiple workflows or using reusable workflows"

/-- The number of steps up to which a document is not complex. -/
def maxSteps : Nat := 50

/-- The line where the jobs start. -/
def jobsLine (subject : Subject) : Value := foundLine (Source.findLine subject.source "jobs:" 1)

/-- A document does not have too many steps. -/
def complexWorkflow : Rule :=
  complexWorkflowSpec.pureRule fun _ subject =>
    let total := subject.document.stepCount
    if maxSteps < total then
      [{
        description := some ("Workflow has " ++ toString total ++ " total steps across "
          ++ toString subject.document.jobs.length ++ " jobs")
        line := .ok (jobsLine subject) }]
    else []

/-- What the rule says. -/
def complexTriggersSpec : RuleSpec where
  id := "complex_triggers"
  category := .structural
  severity := .info
  title := "Complex trigger configuration"
  description := "The workflow reacts to many different events"
  remediation :=
    "Consider if all triggers are necessary or if some could be moved to separate workflows"

/-- The number of triggers up to which they are not complex. -/
def maxTriggers : Nat := 5

/-- A document does not react to too many events. -/
def complexTriggers : Rule :=
  complexTriggersSpec.pureRule fun _ subject =>
    let count := subject.document.triggers.length
    if maxTriggers < count then
      [{
        description := some ("Workflow has " ++ toString count ++ " different trigger types")
        line := .ok (foundLine (Source.findJobLine subject.source "on")) }]
    else []

/-- What the rule says. -/
def excessiveJobsSpec : RuleSpec where
  id := "excessive_jobs"
  category := .structural
  severity := .warning
  title := "High number of jobs"
  description := "The workflow defines many jobs"
  remediation := "Consider splitting the workflow or using reusable workflows"

/-- The number of jobs up to which there are not too many. -/
def maxJobs : Nat := 20

/-- A document does not have too many jobs. -/
def excessiveJobs : Rule :=
  excessiveJobsSpec.pureRule fun _ subject =>
    let count := subject.document.jobs.length
    if maxJobs < count then
      [{
        description := some ("Workflow has " ++ toString count ++ " jobs")
        line := .ok (jobsLine subject) }]
    else []

end PipelineAudit.Rules
