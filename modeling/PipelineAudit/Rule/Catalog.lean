import PipelineAudit.Rule.Credentials
import PipelineAudit.Rule.Dependency
import PipelineAudit.Rule.Performance
import PipelineAudit.Rule.Practice
import PipelineAudit.Rule.Security
import PipelineAudit.Rule.Structure

/-!
# The catalogue of rules

All built-in rules, in the order in which they run and report.
-/

namespace PipelineAudit.Rules

/-- Rules on security. -/
def securityRules : List Rule :=
  [hardcodedCredentials, unpinnedAction, permissions, unsafeScript, commandInjection,
   privilegedCheckout, selfHostedRunner, thirdPartyAction]

/-- Rules on wasted time. -/
def performanceRules : List Rule :=
  [missingCache, redundantCheckout, largeMatrix, unusedArtifact, heavyActionUsage]

/-- Rules on readability. -/
def practiceRules : List Rule :=
  [workflowName, jobName, stepName, timeout, errorHandling, documentation, envShadowing]

/-- Rules on the actions in use. -/
def dependencyRules : List Rule := [deprecatedAction, outdatedAction, frequentAction]

/-- Rules on the shape of a document. -/
def structureRules : List Rule :=
  [missingDependency, complexWorkflow, complexTriggers, excessiveJobs]

/-- All rules. -/
def catalog : List Rule :=
  securityRules ++ performanceRules ++ practiceRules ++ dependencyRules ++ structureRules

end PipelineAudit.Rules
