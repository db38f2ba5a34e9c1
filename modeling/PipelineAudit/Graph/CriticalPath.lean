import PipelineAudit.Graph.Level

/-!
# Critical paths

The longest chain of placed jobs from each job that waits for nothing. Of several longest chains the
first one in lexicographic order counts.
-/

namespace PipelineAudit.CriticalPath

/-- A chain of jobs, each one waiting for the one before it. -/
abbrev Path := List String

/-- Whether one path is to be preferred to another: it is longer, or as long and lexically first. -/
def better (a b : Path) : Bool := b.length < a.length || (a.length == b.length && decide (a < b))

/-- The best path from a job, given the best paths from the jobs after it. -/
def best (targets : String → List String) (known : Assoc String Path) (job : String) : Path :=
  ((targets job).filterMap known.get?).foldl
    (fun chosen tail => if better (job :: tail) chosen then job :: tail else chosen) [job]

/-- The best path from every job of the levels. -/
def bestPaths (targets : String → List String) : List (List String) → Assoc String Path
  | [] => []
  | level :: later =>
    let known := bestPaths targets later
    level.map (fun job => (job, best targets known job)) ++ known

/-- Whether a path is at most another one in lexicographic order. -/
def atMost : Path → Path → Bool
  | [], _ => true
  | _ :: _, [] => false
  | x :: xs, y :: ys => decide (x < y) || (x == y && atMost xs ys)

/-- Longer paths come first, and paths of one length in lexicographic order. -/
def inOrder (a b : Path) : Bool := b.length < a.length || (a.length == b.length && atMost a b)

/-- The critical paths. -/
def all (levels : List (List String)) (edges : List Edge) : List Path :=
  let known := bestPaths (Edge.targetsOf edges) levels
  let waiting := edges.map Edge.target
  let starts := levels.flatten.filter fun job => !waiting.contains job
  let paths := (starts.filterMap known.get?).filter fun path => 1 < path.length
  paths.eraseDups.mergeSort inOrder

end PipelineAudit.CriticalPath
