import PipelineAudit.Graph.Edge

/-!
# Levels

Jobs are placed level by level. Of every job it is counted how many jobs it waits for; those that
wait for none are the first level. When a level is placed, every edge that leads out of it is taken
off the count of the job it leads to, and the jobs whose counts come down to zero are the next
level, in the order of the document. What is left when no job gets ready any more lies on a cycle or
behind one.
-/

namespace PipelineAudit

/-- The levels of the jobs, and the jobs that stand in none. -/
structure Layering where
  levels : List (List String)
  blocked : List String
  deriving DecidableEq, Repr

namespace Layering

/-- How many predecessors of each job are not placed. -/
abbrev InDegrees := Assoc String Int

/-- The count of a job. -/
def InDegrees.of (degrees : InDegrees) (job : String) : Int := (degrees.get? job).getD 0

/-- The counts before any job is placed: each job counts once for each of its successors. -/
def inDegrees (jobs : List String) (successors : String → List String) : InDegrees :=
  (jobs.flatMap successors).foldl
    (fun degrees target => degrees.insert target (degrees.of target + 1))
    (jobs.map fun job => (job, 0))

/-- The counts while a level is placed, and the jobs that have become ready. -/
structure Countdown where
  degrees : InDegrees
  ready : List String := []

/-- Takes an edge off the count of the job it leads to, which is ready if that was the last one. -/
def Countdown.release (c : Countdown) (target : String) : Countdown :=
  let left := c.degrees.of target - 1
  ⟨c.degrees.insert target left, if left = 0 then c.ready ++ [target] else c.ready⟩

/-- Takes off the edges to some targets. -/
def Countdown.releaseAll (c : Countdown) (targets : List String) : Countdown :=
  targets.foldl Countdown.release c

/-- Puts a job in its place among jobs that are in the order of the document. -/
def insertInOrder (jobs : List String) (job : String) : List String → List String
  | [] => [job]
  | next :: rest =>
    if jobs.idxOf job ≤ jobs.idxOf next then job :: next :: rest
    else next :: insertInOrder jobs job rest

/-- Jobs in the order of the document. -/
def inOrder (jobs ready : List String) : List String := ready.foldr (insertInOrder jobs) []

/-- Places levels until no job gets ready; `rounds` bounds their number. -/
def levelsFrom (jobs : List String) (successors : String → List String) :
    Nat → InDegrees → List String → List (List String)
  | 0, _, _ => []
  | rounds + 1, degrees, current =>
    if current.isEmpty then []
    else
      let placed := Countdown.releaseAll ⟨degrees, []⟩ (current.flatMap successors)
      current :: levelsFrom jobs successors rounds placed.degrees (inOrder jobs placed.ready)

/-- The layering of jobs under dependencies. -/
def ofEdges (jobs : List String) (edges : List Edge) : Layering :=
  let jobs := jobs.eraseDups
  let degrees := inDegrees jobs (Edge.targetsOf edges)
  let sources := jobs.filter fun job => degrees.of job == 0
  let levels := levelsFrom jobs (Edge.targetsOf edges) jobs.length degrees sources
  ⟨levels, jobs.filter fun job => !levels.flatten.contains job⟩

end Layering

end PipelineAudit
