import PipelineAudit.KnownActions.Load
import PipelineAudit.Report.Aggregate
import PipelineAudit.Workflow.Parse

/-!
# Analysis of a document

Rules, graph, context and reachability of one document, put together into a report.
-/

namespace PipelineAudit

/-- A document under analysis: with its source, the names it is reported under, and the rules. -/
structure Analysis where
  engine : Engine
  subject : Subject
  fileId : String

namespace Analysis

/-- The findings of the rules. -/
def ruleFindings (a : Analysis) : List Finding := a.engine.scan a.subject

/-- The graph of the jobs. -/
def graph (a : Analysis) : JobGraph := .ofDocument a.subject.document

/-- The context. -/
def context (a : Analysis) : Context := .ofDocument a.subject.document a.subject.source

/-- How the findings of the rules are reached. -/
def reachability (a : Analysis) : ExposureOverview :=
  .ofFindings a.context a.subject.document (some a.graph) a.ruleFindings

/-- What the report is made of. -/
def parts (a : Analysis) (options : ReportOptions) : Aggregate.Parts :=
  let graph := a.graph
  let context := a.context
  let ofRules := a.ruleFindings
  { fileId := a.fileId
    fileName := a.subject.fileName
    context := context
    ofRules := ofRules
    ofGraph := graph.findings a.subject.document a.subject.source
    annotated :=
      (ExposureOverview.ofFindings context a.subject.document (some graph) ofRules).insights
    graph := some graph
    options := options }

/-- The report. -/
def report (a : Analysis) (options : ReportOptions) : Report := Aggregate.report (a.parts options)

/-- What is logged about rules that fail. -/
def ruleNotices (a : Analysis) : List Notice :=
  (a.engine.failures a.subject).map fun (rule, why) => .ruleFailed rule a.subject.fileName why

/-- What is logged about a cycle of the graph. -/
def cycleNotices (a : Analysis) : List Notice :=
  (a.graph.cycle?.map fun cycle => .cycle a.subject.document.fileName cycle).toList

/-- What is logged about the reachable findings. -/
def reachabilityNotice (a : Analysis) : Notice :=
  let stats := a.reachability.stats
  .annotated a.subject.document.fileName stats.total stats.highRisk stats.mitigated

end Analysis

/-- What is logged about a document that has been read. -/
def Document.notice (d : Document) : Notice :=
  .documentRead d.fileName d.dialect.name d.jobs.length d.stepCount

namespace Analysis

variable {m : Type → Type} [Monad m] [FileStore m]

/-- The engine for a configuration; rules that do not exist are reported. -/
def engineFor (config : Value) (strict : Bool) (known : Option KnownActions) : Work m Engine := do
  let engine ← Work.ofExcept .setting (Engine.ofConfig config strict known)
  Work.note ((Engine.unknownRules config).map Notice.unknownRule)
  return engine

/-- The engine for a configuration with the actions it knows, unless others are given. -/
def freshEngine (config : Value) (known : Option KnownActions) : Work m Engine := do
  let known ← match known with
    | some table => if table.size = 0 then KnownActions.load config else pure table
    | none => KnownActions.load config
  engineFor config false (some known)

/-- Ends work on values whose texts are needed and cannot be written. -/
def ensureWritable (writable : Bool) : Work m Unit :=
  if writable then pure () else throw (.number .tooLongToWrite)

/-- Builds the graph. A cycle is logged as soon as the dependencies are known, so also where a line
of the findings cannot be shown. -/
def noteGraph (a : Analysis) : Work m Unit :=
  match JobGraph.build a.subject.document a.subject.source with
  | .error .text => throw (.number .tooLongToWrite)
  | .error (.line _) => do
    Work.note a.cycleNotices
    throw .line
  | .ok _ => Work.note a.cycleNotices

/-- The report of an analysis under a configuration. -/
def run (a : Analysis) (config : Value) : Work m Report := do
  Work.note a.ruleNotices
  a.noteGraph
  ensureWritable (Context.areTextsWritable a.subject.document)
  Work.note [a.reachabilityNotice]
  let options ← Work.ofExcept .setting do
    if config.isMap then ReportOptions.ofValue (config.get "analysis") else throw .notAMapping
  let report := a.report options
  Work.note [.analyzed a.subject.fileName report.summary.total report.summary.score]
  return report

/-- The document of a source, or the report of its rejection. -/
def readDocument (source fileName fileId : String) (dialect : Option String) :
    Work m (Except Report Document) := do
  match Document.parse source fileName dialect with
  | .ok d =>
    Work.note [d.notice]
    return .ok d
  | .error (.rejected why) =>
    Work.note [.documentRejected fileName why.text]
    return .error (.failed fileId fileName why.text)
  | .error other => throw (.document other)

/-- The report on a source, by an engine that is made once the source has been read. -/
def ofSource (source fileName : String) (dialect fileId : Option String) (config : Value)
    (engine : Work m Engine) : Work m Report := do
  let fileId := orElseText fileId fileName
  match ← readDocument source fileName fileId dialect with
  | .error report => return report
  | .ok d =>
    let engine ← engine
    let fileName := orElseText (some fileName) d.fileName
    run ⟨engine, ⟨d, source, fileName⟩, orElseText (some fileId) fileName⟩ config

end Analysis

end PipelineAudit
