import PipelineAudit.Text.Case
import PipelineAudit.Workflow.Basic

/-!
# Artifacts

Steps hand files to later jobs by uploading an artifact under a name and downloading it by that
name. A download without a name takes every artifact of the run.
-/

namespace PipelineAudit

/-- The value of an argument, null if it is not given. -/
def Step.arg (s : Step) (name : String) : Value := (s.withArgs.get? name).getD .null

/-- Whether a step uses an action, by owner and repository with case ignored. -/
def Step.usesAction (s : Step) (slug : String) : Bool :=
  match s.action with
  | some a => Text.lower a.slug == slug
  | none => false

namespace Artifact

/-- Whether a step uploads an artifact. -/
def isUpload (s : Step) : Bool := s.usesAction "actions/upload-artifact"

/-- Whether a step downloads artifacts. -/
def isDownload (s : Step) : Bool := s.usesAction "actions/download-artifact"

/-- The name of an artifact that is given none. -/
def defaultName : String := "artifact"

/-- The name under which a step uploads. -/
def name (s : Step) : String :=
  let given := s.arg "name"
  if given.truthy then given.display else defaultName

/-- The name that a download asks for; none if it takes everything. -/
def requested? (s : Step) : Option String :=
  let given := s.arg "name"
  if given.truthy then some given.display else none

end Artifact

end PipelineAudit
