import PipelineAudit.Graph.Level

/-!
# A cycle among blocked jobs

Every blocked job waits for a blocked job, so a walk from job to predecessor comes back to a job it
has met; the part of the walk since then is a cycle.
-/

namespace PipelineAudit.Cycle

/-- The first predecessor of a job among the blocked ones. -/
def blockedSource? (blocked : List String) (edges : List Edge) (job : String) : Option String :=
  (edges.find? fun e => e.target == job && blocked.contains e.source).map Edge.source

/-- Walks back from a job. The walk so far stands in `trail`, the latest job first; `unvisited` are
the jobs it has not met. The cycle is read in the direction of the edges. -/
def walk (source? : String → Option String) (unvisited trail : List String) (job : String) :
    Option (List String) :=
  if job ∈ trail then some (trail.takeWhile (· ≠ job) ++ [job])
  else if _h : job ∈ unvisited then
    match source? job with
    | some previous => walk source? (unvisited.erase job) (job :: trail) previous
    | none => none
  else none
termination_by unvisited.length
decreasing_by
  have := List.length_pos_of_mem _h
  have := List.length_erase_of_mem _h
  omega

/-- A cycle among the blocked jobs, found by walking back from the first of them. -/
def find? (blocked : List String) (edges : List Edge) : Option (List String) :=
  match blocked with
  | [] => none
  | first :: _ => walk (blockedSource? blocked edges) blocked [] first

end PipelineAudit.Cycle
