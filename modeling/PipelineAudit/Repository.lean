import PipelineAudit.Analysis
import PipelineAudit.Config.Store

/-!
# Files and repositories

An analyzer holds a configuration and its rules, and reports on files. In a repository it looks at
the files in the directory of one dialect and at the usual names of the other.
-/

namespace PipelineAudit

/-! ## Discovery -/

/-- Whether a text ends in a part `.y…ml`. -/
def endsLikeYaml : List Char → Bool
  | [] => false
  | c :: rest =>
    (match c, rest with
      | '.', 'y' :: more => Text.endsWith (String.ofList more) "ml"
      | _, _ => false) || endsLikeYaml rest

namespace Repository

variable {m : Type → Type} [Monad m] [FileStore m]

/-- The files of the first dialect in a repository, in order. -/
def githubFiles (root : String) : Work m (List String) := do
  let directory := Path.join root ".github/workflows"
  if (← Work.kind? directory) == some .directory then
    let names ← (FileStore.names directory : m (List String))
    let names := (names.filter fun n => endsLikeYaml n.toList).mergeSort fun a b => decide (a ≤ b)
    return names.map (Path.join directory)
  else return []

/-- The usual names of the second dialect. -/
def gitlabNames : List String :=
  [".gitlab-ci.yml", ".gitlab-ci.yaml", "gitlab-ci.yml", "gitlab-ci.yaml"]

/-- The files of the second dialect in a repository. -/
def gitlabFiles (root : String) : Work m (List String) :=
  (gitlabNames.map (Path.join root)).filterM fun path => do
    return (← Work.kind? path) == some .file

/-- The files of a repository. -/
def files (root : String) : Work m (List String) := do
  return (← githubFiles root) ++ (← gitlabFiles root)

end Repository

/-! ## Analyzers -/

/-- A configuration with its rules, and the dialect of all files if it is given. -/
structure Analyzer where
  config : Value
  dialect : Option String := none
  engine : Engine

namespace Analyzer

variable {m : Type → Type} [Monad m] [FileStore m]

/-- Checks the number of workers, which has to read as an integer. -/
def checkWorkers (v : Value) : Work m Unit :=
  if !v.truthy then pure ()
  else match v with
    | .str s => do let _ ← Work.ofExcept .number (Literal.int 10 s)
    | .bytes bs => do let _ ← Work.ofExcept .number (Literal.intOfBytes bs)
    | .float x =>
      if x.isNaN then throw (.number .notANumber)
      else if x.isInfinite then throw (.number .infinite)
      else pure ()
    | .seq _ | .map _ | .date _ | .moment _ | .pair _ _ => throw (.setting .notUsable)
    | _ => pure ()

/-- The analyzer for a configuration. -/
def make (config : Value) (strict : Bool) (dialect : Option String) : Work m Analyzer := do
  if !config.isMap then throw (.setting .notAMapping)
  checkWorkers (config.get "max_workers")
  let known ← KnownActions.load config
  return ⟨config, dialect, ← Analysis.engineFor config strict (some known)⟩

/-- The report on a source. -/
def reportOnText (a : Analyzer) (source fileName : String) : Work m Report :=
  Analysis.ofSource source fileName a.dialect none a.config (pure a.engine)

/-- The report on a file. -/
def reportOnFile (a : Analyzer) (path : String) : Work m Report := do
  let unreadable := fun (why : String) => do
    Work.note [.fileUnreadable path why]
    return Except.error (Report.failed path path ("Could not read file: " ++ why))
  let source ← tryCatch (do return Except.ok (← Work.readText path)) fun failure =>
    match failure with
    | .file why => unreadable why.message
    | .text why => unreadable why.message
    | other => throw other
  match source with
  | .ok text => a.reportOnText text path
  | .error report => return report

/-- The reports on files. All files are looked at, also after one on which the work fails. -/
def reportOnFiles (a : Analyzer) (paths : List String) : Work m (List Report) := do
  let results ← paths.mapM fun path =>
    tryCatch (do return Except.ok (← a.reportOnFile path)) fun failure =>
      return Except.error failure
  results.mapM (Work.ofExcept id)

/-- The reports on the files of a repository. -/
def reportOnTree (a : Analyzer) (root : String) : Work m (List Report) := do
  let files ← Repository.files root
  Work.note [.filesFound files.length root]
  a.reportOnFiles files

end Analyzer

end PipelineAudit
