import PipelineAudit.Config.Validate
import PipelineAudit.Files
import PipelineAudit.Notice
import PipelineAudit.Workflow.Error
import PipelineAudit.Yaml.Tree

/-!
# Sessions

Work of the tool: it reads and writes files, logs notices, prints texts and may fail. What was
logged and printed before a failure stays.
-/

namespace PipelineAudit

/-- Why work ends early. -/
inductive Failure where
  /-- A pipeline definition cannot be read. -/
  | document (why : ParseFailure)
  /-- A configuration cannot be used. -/
  | setting (why : SettingFault)
  /-- A number in a configuration cannot be read. -/
  | number (why : NumberFault)
  /-- A line is recorded that is no number. -/
  | line
  /-- A configuration is refused. -/
  | config (why : ConfigError)
  /-- A file is no text. -/
  | text (why : Text.Utf8Fault)
  /-- A data file with a name cannot be read. -/
  | yaml (why : Yaml.Error) (name : String)
  /-- A file operation failed. -/
  | file (why : FileFault)
  /-- A path holds the null character. -/
  | nullInPath
  /-- The tool ends with a status. -/
  | exit (status : Nat)
  deriving Repr

/-- What work has printed and logged. -/
structure Session where
  out : String := ""
  err : String := ""
  notices : List Notice := []
  deriving Repr

/-- Work over a store of files. -/
abbrev Work (m : Type → Type) := ExceptT Failure (StateT Session m)

namespace Work

variable {m : Type → Type} [Monad m]

/-- Logs notices. -/
def note (notices : List Notice) : Work m Unit :=
  modify fun s => { s with notices := s.notices ++ notices }

/-- Prints a text. -/
def print (text : String) : Work m Unit := modify fun s => { s with out := s.out ++ text }

/-- Prints a line. -/
def say (line : String) : Work m Unit := print (line ++ "\n")

/-- Prints a line where errors go. -/
def complain (line : String) : Work m Unit :=
  modify fun s => { s with err := s.err ++ line ++ "\n" }

/-- A result, or a failure of some kind. -/
def ofExcept {ε α : Type} (wrap : ε → Failure) : Except ε α → Work m α
  | .ok a => pure a
  | .error e => throw (wrap e)

/-- A failure of a file operation; a path with the null character is a failure of its own. -/
def fileFailure : FileFault → Failure
  | .nullInPath => .nullInPath
  | why => .file why

/-- A result of a file operation. -/
def ofFile {α : Type} [FileStore m] (operation : m (Except FileFault α)) : Work m α := do
  let result ← (operation : m (Except FileFault α))
  ofExcept fileFailure result

/-- What a path leads to. -/
def kind? [FileStore m] (path : String) : Work m (Option EntryKind) :=
  (FileStore.kind? path : m (Option EntryKind))

/-- The bytes of a file. -/
def readBytes [FileStore m] (path : String) : Work m (List Nat) := do
  return (← ofFile (FileStore.read (m := m) path)).map UInt8.toNat

/-- The text of a file, with line breaks unified. -/
def readText [FileStore m] (path : String) : Work m String := do
  return Text.unifyBreaks (← ofExcept .text (Text.ofUtf8 (← readBytes path)))

/-- A failure to read a data file with a name. -/
def dataFailure (name : String) : Yaml.Error → Failure
  | .fault (.encoding why) => .text why
  | why => .yaml why name

/-- The value of a data file. -/
def readData [FileStore m] (path : String) : Work m Value := do
  ofExcept (dataFailure path) ((Yaml.Passage.ofBytes (← readBytes path)).load .plain)

/-- The value of a data file, with the numbers of its shared parts. -/
def readAnchored [FileStore m] (path : String) : Work m Anchored := do
  ofExcept (dataFailure path) ((Yaml.Passage.ofBytes (← readBytes path)).loadAnchored .plain)

end Work

end PipelineAudit
