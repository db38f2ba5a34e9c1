import PipelineAudit.Workflow.Github
import PipelineAudit.Workflow.Gitlab
import PipelineAudit.Yaml.Tree

/-!
# From source text to document
-/

namespace PipelineAudit

/-- The last part of a path. -/
def baseName (path : String) : String := (Text.splitOn '/' path).getLast?.getD ""

/-- The dialect that a file's name suggests. -/
def Dialect.detect (fileName : String) : Dialect :=
  let base := Text.lower (baseName fileName)
  if [".gitlab-ci.yml", ".gitlab-ci.yaml", "gitlab-ci.yml", "gitlab-ci.yaml"].contains base
      || Text.endsWith base ".gitlab-ci.yml" || Text.endsWith base ".gitlab-ci.yaml"
  then .gitlab else .github

namespace Document

/-- The document of a tree, with or without positions, in the dialect of a name. -/
def ofTree (tree : Value) (source dialect fileName : String) : Except ParseFailure Document :=
  if !tree.isMap then .error (.rejected ⟨.notAMapping, .int 1⟩)
  else match Dialect.ofName? dialect with
    | some .gitlab => Gitlab.document tree source fileName
    | some .github => Github.document tree source fileName
    | none => .error (.rejected { cause := .unsupportedDialect dialect })

/-- The document of a source text. Without the name of a dialect, the file's name decides. -/
def parse (source fileName : String) (dialect : Option String) : Except ParseFailure Document := do
  match Yaml.load .pipeline source with
  | .error (.problem p) =>
    throw (.rejected ⟨.yaml p, (p.line?.map fun n => Value.int n).getD .null⟩)
  | .error (.fault f) => throw (.fault f)
  | .ok tree =>
    let dialect := (dialect.bind nonEmpty?).getD (Dialect.detect fileName).name
    ofTree tree source dialect fileName

end Document

end PipelineAudit
