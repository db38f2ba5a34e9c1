import PipelineAudit.Report.Basic
import PipelineAudit.Rule.Engine

/-!
# From findings to a report

Findings of the rules and of the graph are put together with their annotations, filtered and weighed
by the context, extended by advisories, restricted by the options, freed of repeats and given ids.
-/

namespace PipelineAudit

/-- The options that restrict a report. -/
structure ReportOptions where
  ignoreInfo : Bool := false
  focusOnSecurity : Bool := false
  deriving DecidableEq, Repr

/-- The options that a mapping holds. -/
def ReportOptions.ofMapping (v : Value) : Except SettingFault ReportOptions :=
  if v.isMap then .ok ⟨(v.get "ignore_info_level").truthy, (v.get "focus_on_security").truthy⟩
  else .error .notAMapping

/-- The options that a section of a configuration holds, which may be empty. -/
def ReportOptions.ofValue (v : Value) : Except SettingFault ReportOptions :=
  ofMapping (Engine.orEmpty v)

namespace Aggregate

/-! ## Annotations -/

/-- A security finding as it was annotated, the last annotation if there are several. -/
def annotatedAs (annotated : List Finding) (f : Finding) : Finding :=
  if f.category == .security then (annotated.reverse.find? (·.same f)).getD f else f

/-- The findings of the rules and of the graph, with annotations. -/
def merge (ofRules ofGraph annotated : List Finding) : List Finding :=
  (ofRules ++ ofGraph).map (annotatedAs annotated)

/-! ## Context -/

/-- Whether a title has a phrase, case ignored. -/
def titleHas (f : Finding) (phrase : String) : Bool := Text.contains (Text.lower f.title) phrase

/-- Whether a finding is about documentation. -/
def isAboutDocumentation (f : Finding) : Bool := titleHas f "documentation"

/-- Titles that do not matter in a utility. -/
def utilityTitles : List String := ["Missing job name", "Missing step name"]

/-- The number of steps up to which automation needs no documentation. -/
def maxAutomationSteps : Int := 3

/-- Whether a finding does not matter in a context. -/
def isSuppressed (context : Context) (f : Finding) : Bool :=
  match context.kind with
  | .utility =>
      f.category == .bestPractice && (utilityTitles.contains f.title || isAboutDocumentation f)
  | .automation => decide (context.stepCount ≤ maxAutomationSteps) && isAboutDocumentation f
  | _ => false

/-- Whether a finding matters more in production. -/
def mattersInProduction (f : Finding) : Bool :=
  f.category == .security || titleHas f "error handling"

/-- A finding with the severity that it has in a context. -/
def escalated (context : Context) (f : Finding) : Finding :=
  if context.hasProductionIndicators && f.severity == .info && mattersInProduction f then
    { f with severity := .warning }
  else f

/-- The findings that matter in a context, with their severities in it. -/
def inContext (context : Context) (findings : List Finding) : List Finding :=
  (findings.filter fun f => !isSuppressed context f).map (escalated context)

/-! ## Advisories -/

/-- The advice for production. -/
def productionAdvisory (fileName : String) : Finding :=
  { id := "production-workflow"
    ruleId := "production_workflow"
    category := .bestPractice
    severity := .info
    title := "Production workflow detected"
    description :=
      "This appears to be a production deployment workflow. Consider implementing additional safeguards."
    file := fileName
    suggestion :=
      some "Add environment protection rules, manual approvals, and comprehensive testing before production deployment"
    links :=
      ["https://docs.github.com/en/actions/deployment/targeting-different-environments/using-environments-for-deployment"]
    origin := .context }

/-- The advice for documents with many jobs. -/
def decompositionAdvisory (fileName : String) (jobs : Int) : Finding :=
  { id := "workflow-decomposition"
    ruleId := "workflow_decomposition"
    category := .structural
    severity := .info
    title := "Consider workflow decomposition"
    description := "This workflow has " ++ toString jobs
      ++ " jobs which may be difficult to maintain and debug."
    file := fileName
    suggestion :=
      some "Consider breaking this into multiple workflows or using reusable workflows for better maintainability"
    origin := .context }

/-- The advisories for a context. -/
def advisories (context : Context) (fileName : String) : List Finding :=
  (if context.hasProductionIndicators && decide (1 < context.totalJobs) then
    [productionAdvisory fileName] else [])
  ++ (if context.isComplex && decide (5 < context.totalJobs) then
    [decompositionAdvisory fileName context.totalJobs] else [])

/-! ## Options -/

/-- Whether the options keep a finding. -/
def isKept (options : ReportOptions) (f : Finding) : Bool :=
  !(options.ignoreInfo && f.severity == .info)
    && (!options.focusOnSecurity || f.category == .security || f.category == .dependency)

/-- The findings that the options keep. -/
def restrict (options : ReportOptions) (findings : List Finding) : List Finding :=
  findings.filter (isKept options)

/-! ## Ids -/

/-- The id that a finding brings along, or one made from its rule or category and its position. -/
def baseId (index : Nat) (f : Finding) : String :=
  (nonEmpty? f.id).getD ((nonEmpty? f.ruleId).getD f.category.name ++ "-" ++ toString index)

/-- An id for its occurrence after a number of earlier ones. -/
def numbered (base : String) (earlier : Nat) : String :=
  if earlier = 0 then base else base ++ "-" ++ toString (earlier + 1)

/-- Gives ids to findings from a position on; `used` are the ids that earlier findings brought. -/
def withIdsFrom (index : Nat) (used : List String) : List Finding → List Finding
  | [] => []
  | f :: rest =>
    let base := baseId index f
    { f with id := numbered base (used.count base) } :: withIdsFrom (index + 1) (base :: used) rest

/-- The findings with ids; repeated ids are numbered. -/
def withIds (findings : List Finding) : List Finding := withIdsFrom 0 [] findings

/-! ## Reports -/

/-- What a report is made of. -/
structure Parts where
  fileId : String
  fileName : String
  context : Context := {}
  ofRules : List Finding := []
  ofGraph : List Finding := []
  annotated : List Finding := []
  graph : Option JobGraph := none
  /-- Whether the report tells how findings are reached. -/
  withReachability : Bool := true
  options : ReportOptions := {}

/-- The findings of a report. -/
def findings (p : Parts) : List Finding :=
  let merged := inContext p.context (merge p.ofRules p.ofGraph p.annotated)
  withIds (Finding.distinct (restrict p.options (merged ++ advisories p.context p.fileName)))

/-- The report. -/
def report (p : Parts) : Report :=
  let findings := findings p
  let security := findings.filter (·.category == .security)
  { fileId := p.fileId
    fileName := p.fileName
    findings := findings
    graph := p.graph
    reachability :=
      if p.withReachability then some ⟨.ofFindings security, p.context, security⟩ else none
    summary := .ofFindings findings
    kind := some p.context.kind }

end Aggregate

end PipelineAudit
