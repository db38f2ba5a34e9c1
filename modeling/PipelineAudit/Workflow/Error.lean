import PipelineAudit.Value.Display
import PipelineAudit.Yaml.Error

/-!
# Why a text is no pipeline definition
-/

namespace PipelineAudit

/-- What is wrong with a pipeline definition. -/
inductive DocumentCause where
  | yaml (p : Yaml.Problem)
  | notAMapping
  | unsupportedDialect (name : String)
  | noJobs
  | noTriggers
  | jobNotAMapping (id : String)
  deriving Repr

/-- A text that is no pipeline definition, with the line of the fault, null if it is unknown. -/
structure DocumentError where
  cause : DocumentCause
  line : Value := .null
  deriving Repr

/-- What is wrong, in words. -/
def DocumentCause.message : DocumentCause → String
  | yaml p => "Invalid YAML: " ++ p.message
  | notAMapping => "Invalid YAML structure"
  | unsupportedDialect name => "Unsupported dialect: " ++ name
  | noJobs => "Workflow must contain jobs"
  | noTriggers => "Workflow must specify triggers (on)"
  | jobNotAMapping id => "Job '" ++ id ++ "' must be a mapping"

/-- What is wrong, in words. -/
def DocumentError.message (e : DocumentError) : String := e.cause.message

/-- What is wrong and on which line. -/
def DocumentError.text (e : DocumentError) : String :=
  if e.line.isNull then e.message else e.message ++ " (line " ++ e.line.display ++ ")"

/-- Why no document was made. -/
inductive ParseFailure where
  /-- The definition is rejected. -/
  | rejected (e : DocumentError)
  /-- A scalar in it has no meaning. -/
  | fault (f : Yaml.Fault)
  /-- A number in it is too long for a text. -/
  | number (fault : NumberFault)
  /-- A line that it records is no number. -/
  | line
  deriving Repr

end PipelineAudit
