import PipelineAudit.Workflow.Artifact

/-!
# Dependencies between jobs

A job depends on another one because it needs it, because it downloads an artifact of it, or because
it uses an output of it. Edges lead from the job that comes first to the job that waits. Of several
edges of one kind between two jobs the first one stays.
-/

namespace PipelineAudit

open Regex

/-- Why one job depends on another. -/
inductive EdgeKind where
  | needs
  | artifact
  | output
  deriving DecidableEq, Repr

/-- The word for a kind of edge. -/
def EdgeKind.word : EdgeKind → String
  | needs => "needs"
  | artifact => "artifact"
  | output => "output"

/-- A dependency: `target` waits for `source`. -/
structure Edge where
  source : String
  target : String
  kind : EdgeKind
  /-- The artifact or the reference that makes the dependency. -/
  details : Option String := none
  deriving DecidableEq, Repr

namespace Edge

/-- Whether two edges of one kind join the same jobs. -/
def same (a b : Edge) : Bool := a.source == b.source && a.target == b.target && a.kind == b.kind

/-- The edges that repeat none of `seen`, each kept once. -/
def distinctFrom (seen : List Edge) : List Edge → List Edge
  | [] => []
  | e :: rest =>
    if seen.any (·.same e) then distinctFrom seen rest else e :: distinctFrom (e :: seen) rest

/-- The edges without repeats; of several edges of one kind between two jobs the first one stays. -/
def distinct (edges : List Edge) : List Edge := distinctFrom [] edges

/-! ## Needs -/

/-- The edges from the jobs that jobs need. A need of a job that does not exist makes none. -/
def needsEdges (d : Document) : List Edge :=
  d.jobs.flatMap fun j => (j.needs.filter d.hasJob).map fun n => ⟨n, j.id, .needs, none⟩

/-! ## Artifacts -/

/-- The edges from the jobs whose artifacts jobs name as dependencies. -/
def namedArtifactEdges (d : Document) : List Edge :=
  d.jobs.flatMap fun j =>
    (j.artifactDependencies.filter fun n => d.hasJob n && n != j.id).map fun n =>
      ⟨n, j.id, .artifact, some n⟩

/-- The names under which artifacts are uploaded, with the jobs that do so. -/
def uploads (d : Document) : List (String × String) :=
  (d.steps.filter fun (_, s) => Artifact.isUpload s).map fun (j, s) => (Artifact.name s, j.id)

/-- The names that a download asks for, out of the uploaded ones if it takes everything. -/
def requestedNames (uploads : List (String × String)) (s : Step) : List String :=
  match Artifact.requested? s with
  | some name => [name]
  | none => (uploads.map Prod.fst).eraseDups

/-- The jobs that upload an artifact under a name. -/
def producers (uploads : List (String × String)) (name : String) : List String :=
  (uploads.filter fun u => u.1 == name).map Prod.snd

/-- The edges from the jobs that upload artifacts to the jobs that download them. -/
def transferEdges (d : Document) : List Edge :=
  let uploads := uploads d
  (d.steps.filter fun (_, s) => Artifact.isDownload s).flatMap fun (j, s) =>
    (requestedNames uploads s).flatMap fun name =>
      ((producers uploads name).filter fun p => p != j.id).map fun p =>
        ⟨p, j.id, .artifact, some name⟩

/-- The edges that artifacts make. -/
def artifactEdges (d : Document) : List Edge :=
  match d.dialect with
  | .gitlab => namedArtifactEdges d
  | .github => transferEdges d

/-! ## Outputs -/

/-- A reference to an output; group one is the job. -/
def outputReference : Regex :=
  let wordChar : CharSet := .alnum ||| .ofString "_-"
  lit "needs." ++ group 1 (char (.letter ||| .ofString "_") ++ star (char wordChar))
    ++ lit ".outputs." ++ group 2 (plus (char wordChar))

/-- The values of a job whose texts may hold expressions. -/
def jobValues (j : Job) : List Value :=
  j.env.values ++ j.withArgs.values ++ j.outputs.values ++ j.steps.flatMap Step.textValues

/-- Whether all texts that may hold expressions can be written. -/
def areTextsWritable (d : Document) : Bool := d.jobs.all fun j => (jobValues j).all Value.isWritable

/-- The texts of a job in which expressions may stand. -/
def jobTexts (j : Job) : List String :=
  (j.condition.bind nonEmpty?).toList ++ j.env.texts ++ j.withArgs.texts ++ j.outputs.texts
    ++ j.steps.flatMap Step.texts

/-- The edges that references to outputs make. -/
def outputEdges (d : Document) : List Edge :=
  d.jobs.flatMap fun j =>
    (jobTexts j).flatMap fun text =>
      (outputReference.findAll text).filterMap fun m =>
        match m.group? 1 with
        | some producer =>
          if d.hasJob producer && producer != j.id then some ⟨producer, j.id, .output, some m.whole⟩
          else none
        | none => none

/-! ## All edges -/

/-- The dependencies of a document. -/
def ofDocument (d : Document) : List Edge :=
  distinct (needsEdges d ++ artifactEdges d ++ outputEdges d)

/-- The jobs that a job waits for, in the order of the edges. -/
def sourcesOf (edges : List Edge) (job : String) : List String :=
  ((edges.filter fun e => e.target == job).map Edge.source).eraseDups

/-- The jobs that wait for a job, in the order of the edges. -/
def targetsOf (edges : List Edge) (job : String) : List String :=
  ((edges.filter fun e => e.source == job).map Edge.target).eraseDups

end Edge

end PipelineAudit
