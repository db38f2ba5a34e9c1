import PipelineAudit.Value.Tagged
import PipelineAudit.Workflow.Basic

/-!
# Documents as JSON

Every field of a document, its jobs and their steps, with the values that were written in their
tagged forms.
-/

namespace PipelineAudit

/-- A text, null if there is none. -/
def Json.text? : Option String → Json := .ofOption .str

/-- Values under text keys. -/
def Fields.toJson (fields : Fields) : Json := .tagged (.ofFields fields)

/-- A reference to an action, with what follows from it. -/
def ActionRef.toJson (a : ActionRef) : Json :=
  .obj [("raw", .str a.raw), ("owner", .text? a.owner), ("repo", .text? a.repo),
    ("path", .text? a.path), ("ref", .text? a.ref), ("ref_type", .str a.kind.word),
    ("slug", .str a.slug), ("name", .str a.name), ("is_sha_pinned", .bool a.isPinned),
    ("is_external", .bool a.isExternal)]

/-- A step. -/
def Step.toJson (s : Step) : Json :=
  .obj [("index", .int s.index), ("name", .text? s.name), ("uses", .text? s.uses),
    ("run", .text? s.run), ("with_args", s.withArgs.toJson), ("env", s.env.toJson),
    ("if_condition", .text? s.condition), ("id", .tagged s.id), ("shell", .tagged s.shell),
    ("continue_on_error", .tagged s.continueOnError), ("line", .tagged s.lineValue),
    ("action", .ofOption ActionRef.toJson s.action), ("text_fields", .ofStrings s.texts)]

/-- A job, with a way to write why the labels of its runner cannot be told. -/
def Job.toJson (fault : LabelFault → Json) (j : Job) : Json :=
  .obj [("id", .str j.id), ("name", .text? j.name), ("runs_on", .tagged j.runsOn),
    ("needs", .ofStrings j.needs), ("permissions", .tagged j.permissions), ("env", j.env.toJson),
    ("if_condition", .text? j.condition), ("concurrency", .tagged j.concurrency),
    ("timeout", .tagged j.timeout), ("continue_on_error", .tagged j.continueOnError),
    ("strategy", j.strategy.toJson), ("outputs", j.outputs.toJson),
    ("environment", .tagged j.environment), ("secrets", .tagged j.secrets),
      ("uses", .tagged j.uses),
    ("with_args", j.withArgs.toJson), ("stage", .tagged j.stage), ("cache", .tagged j.cache),
    ("artifact_dependencies", .ofStrings j.artifactDependencies), ("line", .tagged j.line),
    ("steps", .arr (j.steps.map Step.toJson)),
    ("runner_labels", match j.runsOnLabels with
      | .ok labels => .ofStrings labels
      | .error why => fault why)]

/-- What starts a pipeline. -/
def Trigger.toJson (t : Trigger) : Json :=
  .obj [("kind", .str t.form.word), ("raw", .tagged t.raw), ("events", .ofStrings t.events)]

/-- A document, with a way to write why the labels of a runner cannot be told. -/
def Document.toJson (fault : LabelFault → Json) (d : Document) : Json :=
  .obj [("file_name", .str d.fileName), ("dialect", .str d.dialect.name), ("name", .text? d.name),
    ("on", d.on.toJson), ("triggers", .ofStrings d.triggers),
      ("permissions", .tagged d.permissions),
    ("env", .tagged d.env), ("concurrency", .tagged d.concurrency),
    ("total_steps", .int d.stepCount), ("jobs", .arr (d.jobs.map (Job.toJson fault)))]

end PipelineAudit
