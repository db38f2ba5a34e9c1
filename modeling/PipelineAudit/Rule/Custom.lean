import PipelineAudit.Rule.Basic

/-!
# Rules with fixed findings

A rule that reports the same findings for every document, or always fails. Category and severities
are given by name; an unknown name makes the rule fail when it runs.
-/

namespace PipelineAudit

/-- A finding of such a rule, perhaps with the name of a severity of its own. -/
structure FixedFinding extends Draft where
  severityName : Option String := none

/-- A rule with fixed findings. -/
structure FixedRule extends RuleText where
  category : String
  severity : String
  dialects : List String
  /-- Whether the rule fails. -/
  fails : Bool := false
  findings : List FixedFinding := []

namespace FixedRule

/-- One finding for a document. -/
def finding (r : FixedRule) (subject : Subject) (f : FixedFinding) : Except RuleFault Finding := do
  let (line, snippet) ← f.evidence subject.source
  let severity := orElseText f.severityName r.severity
  match Category.ofName? r.category, Severity.ofName? severity with
  | none, _ => throw (.category r.category)
  | _, none => throw (.severity severity)
  | some category, some severity =>
    return f.findingWith r.toRuleText category severity subject.fileName line snippet

/-- The rule. -/
def toRule (r : FixedRule) : Rule :=
  { id := r.id
    category := r.category
    severity := r.severity
    title := r.title
    description := r.description
    remediation := r.remediation
    links := r.links
    dialects := r.dialects
    check := fun _ subject =>
      if r.fails then .error .deliberate else r.findings.mapM (r.finding subject) }

end FixedRule

end PipelineAudit
