import PipelineAudit.Finding.Basic
import PipelineAudit.Graph.CriticalPath
import PipelineAudit.Graph.Cycle

/-!
# The graph of jobs

The dependencies of a document with what follows from them, and the findings about them.
-/

namespace PipelineAudit

/-- A use of an action. -/
structure ActionCount where
  action : String
  version : String
  job : String
  stepIndex : Nat
  stepName : Option String := none
  deriving DecidableEq, Repr

/-- The dependencies between the jobs of a document. -/
structure JobGraph where
  edges : List Edge := []
  usage : List ActionCount := []
  criticalPaths : List (List String) := []
  isolated : List String := []
  levels : List (List String) := []
  cyclic : List String := []
  deriving Repr

namespace JobGraph

/-- Texts in order, each one once. -/
def sortedSet (xs : List String) : List String := xs.eraseDups.mergeSort fun a b => decide (a ≤ b)

/-- The jobs that a job waits for, in order. -/
def predecessors (g : JobGraph) (job : String) : List String :=
  sortedSet (Edge.sourcesOf g.edges job)

/-- The jobs that wait for a job, in order. -/
def successors (g : JobGraph) (job : String) : List String := sortedSet (Edge.targetsOf g.edges job)

/-- The jobs without dependencies in either direction. -/
def isolatedJobs (jobs : List String) (edges : List Edge) : List String :=
  jobs.filter fun job => !edges.any fun e => e.source == job || e.target == job

/-- The uses of actions. -/
def actionCounts (d : Document) : List ActionCount :=
  d.steps.filterMap fun (j, s) =>
    s.action.map fun a => ⟨a.name, a.ref.getD "", j.id, s.index, s.name⟩

/-- The graph of a document. -/
def ofDocument (d : Document) : JobGraph :=
  let edges := Edge.ofDocument d
  let layering := Layering.ofEdges d.jobIds edges
  { edges := edges
    usage := actionCounts d
    criticalPaths := CriticalPath.all layering.levels edges
    isolated := isolatedJobs d.jobIds edges
    levels := layering.levels
    cyclic := layering.blocked }

/-- A cycle of the graph, if it has one. -/
def cycle? (g : JobGraph) : Option (List String) := Cycle.find? g.cyclic g.edges

/-! ## Findings -/

/-- Jobs with arrows between them. -/
def arrows (jobs : List String) : String := Text.join " → " jobs

/-- The line of a job, null if it is not known. -/
def lineOf (d : Document) (job : String) : Value := ((d.job? job).map Job.line).getD .null

/-- The lines around a job; none are shown of an empty source. -/
def snippetOf (d : Document) (source job : String) : Except Source.LineFault (Option Snippet) :=
  if source.isEmpty then .ok none else Snippet.around source (lineOf d job)

/-- The place of a job, and the lines around it. -/
def place (d : Document) (source job : String) : Option Location × Option Snippet :=
  (if job.isEmpty then none else some { job := some job, line := lineOf d job },
   (snippetOf d source job).toOption.join)

/-- The finding about a cycle. -/
def cycleFinding (d : Document) (source : String) (blocked cycle : List String) : Finding :=
  let others := blocked.filter fun job => !cycle.contains job
  let first := cycle.headD ""
  let (location, snippet) := place d source first
  let named := "Jobs form a dependency cycle: " ++ arrows (cycle ++ [first])
  { id := "circular-dependency"
    ruleId := "circular_dependency"
    category := .structural
    severity := .error
    title := "Circular job dependency"
    description :=
      if others.isEmpty then named
      else named ++ ". Jobs blocked by the cycle: " ++ Text.join ", " others
    file := d.fileName
    location := location
    suggestion := some "Remove one of the needs entries to break the cycle"
    snippet := snippet
    origin := .graph }

/-- The finding about the longest path. -/
def pathFinding (d : Document) (source : String) (path : List String) : Finding :=
  let (location, snippet) := place d source (path.headD "")
  { id := "critical-path"
    ruleId := "critical_path"
    category := .performance
    severity := .info
    title := "Critical path analysis"
    description := "Longest dependency chain has " ++ toString path.length
      ++ " jobs: " ++ arrows path
    file := d.fileName
    location := location
    suggestion := some "Shorten the critical path by moving independent work out of the chain"
    snippet := snippet
    origin := .graph }

/-- The finding about isolated jobs. -/
def isolatedFinding (d : Document) (jobs : List String) : Finding :=
  { id := "isolated-jobs"
    ruleId := "isolated_jobs"
    category := .performance
    severity := .info
    title := "Parallelizable isolated jobs"
    description := toString jobs.length ++ " job(s) have no dependencies and run in parallel: "
      ++ Text.join ", " jobs
    file := d.fileName
    suggestion := some "Make sure isolated jobs do not need outputs of other jobs"
    origin := .graph }

/-- The jobs that the findings about a graph show. -/
def shownJobs (g : JobGraph) : List String :=
  ((g.cycle?.bind List.head?).toList ++ (g.criticalPaths.head?.bind List.head?).toList)

/-- Checks that the jobs that the findings show have lines. -/
def checkLines (g : JobGraph) (d : Document) (source : String) : Except Source.LineFault Unit :=
  g.shownJobs.forM fun job => (snippetOf d source job).map fun _ => ()

/-- The findings about the graph of a document. -/
def findings (g : JobGraph) (d : Document) (source : String) : List Finding :=
  (g.cycle?.map (cycleFinding d source g.cyclic)).toList
    ++ (g.criticalPaths.head?.map (pathFinding d source)).toList
    ++ (if g.edges.isEmpty || g.isolated.isEmpty then [] else [isolatedFinding d g.isolated])

/-! ## Building -/

/-- Why no graph is built. -/
inductive Fault where
  /-- A value in which references to outputs are looked for cannot be written. -/
  | text
  /-- A job that a finding shows has no line around which the source could be cut. -/
  | line (why : Source.LineFault)
  deriving DecidableEq, Repr

/-- The graph of a document, with the findings about it. -/
def build (d : Document) (source : String) : Except Fault (JobGraph × List Finding) :=
  if Edge.areTextsWritable d then
    let g := ofDocument d
    ((g.checkLines d source).mapError Fault.line).map fun _ => (g, g.findings d source)
  else .error .text

end JobGraph

end PipelineAudit
