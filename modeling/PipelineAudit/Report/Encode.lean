import PipelineAudit.Json
import PipelineAudit.Release
import PipelineAudit.Report.Basic

/-!
# Reports as JSON
-/

namespace PipelineAudit

/-- A natural number. -/
def Json.nat (n : Nat) : Json := .int n

/-- A member that is left out if there is no value. -/
def Json.member? {α : Type} (name : String) (f : α → Json) (a : Option α) : List (String × Json) :=
  (a.map fun a => (name, f a)).toList

/-- A number, which may be written as a truth value. -/
def Numeral.toJson (n : Numeral) : Json := .ofValue n.toValue

/-- A place; its unknown parts are left out. -/
def Location.toJson (l : Location) : Json :=
  .obj (Json.member? "job" Json.str l.job ++ Json.member? "step" Numeral.toJson l.step
    ++ (if l.line.isNull then [] else [("line", .ofValue l.line)]))

/-- Lines of the source. -/
def Snippet.toJson (s : Snippet) : Json :=
  .obj [("content", .str s.content), ("start_line", .int s.startLine), ("end_line", .int s.endLine),
    ("highlight_line", .ofValue s.highlight)]

/-- An annotation. -/
def Exposure.toJson (a : Exposure) : Json :=
  .obj [("verdict", .str a.verdict.name), ("source", .str a.source), ("path", .ofStrings a.path),
    ("sink", .str a.sink), ("guard", .str a.guard.name), ("conditions", .ofStrings a.conditions),
    ("mitigating_factors", .ofStrings a.mitigatingFactors), ("narrative", .str a.narrative)]

/-- A finding; its empty parts are left out. -/
def Finding.toJson (f : Finding) : Json :=
  .obj ([("id", .str f.id), ("rule_id", .str f.ruleId), ("type", .str f.category.name),
      ("severity", .str f.severity.name), ("title", .str f.title),
        ("description", .str f.description),
      ("file", .str f.file), ("origin", .str f.origin.name)]
    ++ Json.member? "location" Location.toJson f.location
    ++ Json.member? "suggestion" Json.str (f.suggestion.bind nonEmpty?)
    ++ (if f.links.isEmpty then [] else [("links", .ofStrings f.links)])
    ++ Json.member? "code_snippet" Snippet.toJson f.snippet
    ++ Json.member? "reachability" Exposure.toJson f.reachability)

/-- A dependency. -/
def Edge.toJson (e : Edge) : Json :=
  .obj [("from", .str e.source), ("to", .str e.target), ("type", .str e.kind.word),
    ("details", .ofOption .str e.details)]

/-- A use of an action. -/
def ActionCount.toJson (u : ActionCount) : Json :=
  .obj [("action", .str u.action), ("version", .str u.version), ("job_id", .str u.job),
    ("step_index", .nat u.stepIndex), ("step_name", .ofOption .str u.stepName)]

/-- The graph of jobs. -/
def JobGraph.toJson (g : JobGraph) : Json :=
  .obj [("job_dependencies", .arr (g.edges.map Edge.toJson)),
    ("action_usage", .arr (g.usage.map ActionCount.toJson)),
    ("critical_paths", .arr (g.criticalPaths.map Json.ofStrings)),
    ("isolated_jobs", .ofStrings g.isolated),
    ("levels", .arr (g.levels.map Json.ofStrings)),
    ("cyclic_jobs", .ofStrings g.cyclic)]

/-- The numbers of reachable findings. -/
def ExposureCounts.toJson (s : ExposureCounts) : Json :=
  .obj [("total_issues", .nat s.total), ("reachable_issues", .nat s.reachable),
    ("high_risk_issues", .nat s.highRisk), ("mitigated_issues", .nat s.mitigated)]

/-- How findings are reached; the findings themselves are named by their ids. -/
def ExposureOverview.toJson (d : ExposureOverview) : Json :=
  .obj [("stats", d.stats.toJson),
    ("execution_context", .obj [("triggers", .ofStrings d.context.triggers),
      ("has_privileged_triggers", .bool d.context.hasPrivilegedTriggers),
      ("has_secrets", .bool d.context.hasSecrets),
      ("conditional_jobs", .int d.context.conditionalJobs)]),
    ("insights", .ofStrings (d.insights.map Finding.id))]

/-- The numbers of a report. -/
def Summary.toJson (s : Summary) : Json :=
  .obj [("total_issues", .nat s.total), ("error_count", .nat s.errors),
    ("warning_count", .nat s.warnings), ("info_count", .nat s.infos), ("score", .nat s.score)]

namespace Report

/-- A report. -/
def toJson (r : Report) : Json :=
  .obj ([("file_id", .str r.fileId), ("file_name", .str r.fileName),
      ("workflow_type", .ofOption (fun k => .str k.word) r.kind), ("summary", r.summary.toJson),
      ("findings", .arr (r.findings.map Finding.toJson))]
    ++ Json.member? "error" Json.str r.error
    ++ Json.member? "call_graph" JobGraph.toJson r.graph
    ++ Json.member? "reachability" ExposureOverview.toJson r.reachability)

/-- Reports as a JSON text; with a time, the text also says when and by which version it was
made. -/
def jsonText (reports : List Report) (generatedAt : Option Moment) : String :=
  let metadata := match generatedAt with
    | some time => [("flowlyt_version", Json.str Release.version),
        ("rule_table_version", Json.str Release.ruleTableVersion),
        ("generated_at", Json.str (time.text "T"))]
    | none => []
  (Json.obj (metadata ++ [("files", Json.arr (reports.map toJson))])).indented 0

end Report

end PipelineAudit
