import PipelineAudit.Pattern.Table

/-!
# What a pipeline is for

Words that tell deployment, testing and production apart, and the conditions that guard a job.
-/

namespace PipelineAudit.Intent

open Regex

/-- A small letter. -/
def small : CharSet := .range 'a' 'z'

/-- Words for deployment. -/
def deployKeywords : Regex := (notAfter small ++ words ["deploy", "publish", "release"]).caseless

/-- Words for tests and builds. -/
def ciKeywords : Regex :=
  (notAfter small ++ words ["test", "lint", "build"]
    ||| wordly (words ["pytest", "tox", "jest", "eslint", "flake8", "ruff", "mypy"])).caseless

/-- Words for production. -/
def productionKeywords : Regex :=
  (notAfter small ++ words ["prod", "production", "live"] ++ notBefore small).caseless

/-- Events that start a run with the rights of the repository. -/
def privilegedTriggers : List String :=
  ["workflow_run", "pull_request_target", "repository_dispatch"]

/-- Events that are not about code. -/
def automationTriggers : List String := ["schedule", "workflow_dispatch", "repository_dispatch"]

/-- Privileged events that outsiders can cause by their code. -/
def untrustedCodeTriggers : List String := ["pull_request_target", "workflow_run"]

/-- A condition that is the word `false`, alone or as an expression. -/
def alwaysFalse : Regex :=
  (start ++ blanks ++ opt (exprOpen ++ blanks) ++ lit "false" ++ opt (blanks ++ exprClose) ++ blanks
    ++ finish).caseless

/-- A call of the function that lets a job run whatever happened before it. -/
def alwaysFunction : Regex := boundary ++ lit "always()"

/-- A condition on the event. -/
def eventCondition : Regex := words ["github.event", "CI_PIPELINE_SOURCE", "CI_MERGE_REQUEST"]

/-- A condition under which a step runs after a failure. -/
def failureCondition : Regex := boundary ++ words ["failure", "always", "cancelled"] ++ lit "()"

/-- Whether a condition never holds. -/
def neverHolds : Option String → Bool
  | none => false
  | some condition => !condition.isEmpty && alwaysFalse.matchesStart condition

end PipelineAudit.Intent
