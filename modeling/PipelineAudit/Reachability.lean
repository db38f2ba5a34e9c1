import PipelineAudit.Context
import PipelineAudit.Graph.Basic

/-!
# Reachability of security findings

How a run that an outsider can influence gets to a finding: what starts it, through which jobs it
goes, what it can do there, and which conditions stand in its way. Severities do not change.
-/

namespace PipelineAudit.Reachability

/-! ## Conditions on the way -/

/-- A queue from its first unvisited job on. -/
def fromUnvisited (unvisited queue : List String) : List String :=
  queue.dropWhile fun job => !unvisited.contains job

/-- It starts with an unvisited job. -/
theorem mem_of_fromUnvisited {unvisited queue later : List String} {job : String}
    (h : fromUnvisited unvisited queue = job :: later) : job ∈ unvisited := by
  have hhead := List.head?_dropWhile_not (fun job => !unvisited.contains job) queue
  rw [← fromUnvisited, h] at hhead
  simpa using hhead

/-- The jobs that are met on a walk along needs, nearest first. `unvisited` are the jobs that the
walk has not met. -/
def neededFrom (needs : String → List String) (unvisited queue : List String) : List String :=
  match _h : fromUnvisited unvisited queue with
  | [] => []
  | job :: later => job :: neededFrom needs (unvisited.erase job) (later ++ needs job)
termination_by unvisited.length
decreasing_by
  have hjob := mem_of_fromUnvisited _h
  have := List.length_pos_of_mem hjob
  have := List.length_erase_of_mem hjob
  omega

/-- What a job needs, as it is written. -/
def needsOf (d : Document) (job : String) : List String := ((d.job? job).map Job.needs).getD []

/-- All jobs that a job needs, directly or through others, nearest first. -/
def neededJobs (d : Document) (job : String) : List String :=
  neededFrom (needsOf d) (d.jobIds.filter (· != job)) (needsOf d job)

/-- The condition of a job. -/
def conditionOf (d : Document) (job : String) : Option String := (d.job? job).bind Job.condition

/-- The conditions of a job and of a step of it. -/
def ownConditions (j : Job) (step : Option Int) : List String :=
  let ofStep := (step.bind j.step?).bind Step.condition
  [j.condition, ofStep].filterMap fun c => c.bind nonEmpty?

/-- Whether a job runs whatever happened before it. -/
def runsAlways (j : Job) : Bool := Intent.alwaysFunction.occursIn (j.condition.getD "")

/-- The nearest job on which a job depends and which never runs, with its condition. -/
def skippedNeed? (d : Document) (j : Job) : Option (String × String) :=
  (neededJobs d j.id).findSome? fun needed =>
    match conditionOf d needed with
    | some condition =>
        if Intent.neverHolds (some condition) then some (needed, condition) else none
    | none => none

/-- How a job and a step are guarded, and the conditions that do so. A job that depends on a job
that never runs does not run either, unless it always runs. -/
def jobGuard (d : Document) (j : Job) (step : Option Int) : Guard × List String :=
  let conditions := ownConditions j step
  if conditions.any fun c => Intent.neverHolds (some c) then (.alwaysFalse, conditions)
  else match if runsAlways j then none else skippedNeed? d j with
    | some (needed, condition) => (.alwaysFalse, conditions ++ [needed ++ ": " ++ condition])
    | none => if conditions.isEmpty then (.none, []) else (.conditional, conditions)

/-- The job with a name, which is not empty. -/
def namedJob? (d : Document) (job : Option String) : Option Job := (job.bind nonEmpty?).bind d.job?

/-- How a place is guarded. -/
def guardAt (d : Document) (job : Option String) (step : Option Int) : Guard × List String :=
  match namedJob? d job with
  | some j => jobGuard d j step
  | none => (.none, [])

/-! ## Verdicts -/

/-- The verdict on a place. Only a condition on the event itself can be steered by an outsider. -/
def verdictFor (guard : Guard) (privileged secrets attacker : Bool) (conditions : List String) :
    Verdict :=
  match guard with
  | .alwaysFalse => .mitigated
  | .conditional =>
    if privileged && (secrets || attacker) && conditions.any Intent.eventCondition.occursIn then
      .highRisk
    else .conditional
  | .none | .other _ =>
    if privileged && (secrets || attacker) then .highRisk
    else if privileged || secrets then .reachable
    else .lowImpact

/-! ## Paths -/

/-- The jobs before a job, nearest first: always the first predecessor that has not been met. -/
def chainFrom (predecessors : String → List String) (unvisited : List String) (job : String) :
    List String :=
  match _h : (predecessors job).find? unvisited.contains with
  | some previous => previous :: chainFrom predecessors (unvisited.erase previous) previous
  | none => []
termination_by unvisited.length
decreasing_by
  have hmem : previous ∈ unvisited := by simpa using List.find?_some _h
  have := List.length_pos_of_mem hmem
  have := List.length_erase_of_mem hmem
  omega

/-- The jobs on the way to a job, the first one first. -/
def leadingJobs (graph : Option JobGraph) (job : String) : List String :=
  match graph with
  | none => []
  | some g =>
    let others := ((g.edges.map Edge.source).eraseDups).filter (· != job)
    (chainFrom g.predecessors others job).reverse

/-- The name of a step on a path. -/
def stepTitle (s : Step) : String :=
  match s.name.bind nonEmpty? with
  | some name => "step '" ++ name ++ "'"
  | none => "step " ++ toString (s.index + 1)

/-- The path to a finding: jobs, then the step. -/
def pathTo (d : Document) (location : Option Location) (graph : Option JobGraph) : List String :=
  match location.bind fun l => (l.job.bind d.job?).map fun j => (l, j) with
  | some (l, j) =>
    leadingJobs graph j.id ++ [j.id]
      ++ ((l.step.bind fun s => j.step? s.number).map stepTitle).toList
  | none => ["workflow"]

/-! ## Annotations -/

/-- Rules about what outsiders control. -/
def attackerControlledRules : List String :=
  ["command_injection", "privileged_checkout", "unsafe_script"]

/-- What can be done at the findings of a rule. -/
def sinks : Assoc String String := [
  ("hardcoded_credentials", "credential disclosure"),
  ("command_injection", "arbitrary code execution"),
  ("unsafe_script", "arbitrary code execution"),
  ("unpinned_action", "supply-chain compromise"),
  ("third_party_action", "supply-chain compromise"),
  ("permissions", "token privilege abuse"),
  ("self_hosted_runner", "runner persistence"),
  ("privileged_checkout", "repository takeover")]

/-- What can be done at the findings of other rules. -/
def defaultSink : String := "workflow integrity"

/-- What starts the run. -/
def sourceText (context : Context) (attacker : Bool) : String :=
  let triggers := (nonEmpty? (Text.join ", " context.triggers)).getD "no trigger"
  (if attacker then "untrusted input (" else "trigger (") ++ triggers ++ ")"

/-- What makes a finding less harmful. -/
def mitigatingFactors (context : Context) (guard : Guard) (conditions : List String) :
    List String :=
  (if guard == .none then [] else conditions.map fun c => "condition: " ++ c)
    ++ (if context.hasPrivilegedTriggers then [] else ["no privileged trigger"])
    ++ (if context.hasSecrets then [] else ["no secrets in scope"])

/-- The annotation of a finding. -/
def exposure (context : Context) (d : Document) (graph : Option JobGraph) (f : Finding) :
    Exposure :=
  let step := (f.location.bind Location.step).map Numeral.number
  let (guard, conditions) := guardAt d (f.location.bind Location.job) step
  let attacker := attackerControlledRules.contains f.ruleId
  { verdict := verdictFor guard context.hasPrivilegedTriggers context.hasSecrets attacker conditions
    source := sourceText context attacker
    path := pathTo d f.location graph
    sink := (sinks.get? f.ruleId).getD defaultSink
    guard := guard
    conditions := conditions
    mitigatingFactors := mitigatingFactors context guard conditions }

/-- A finding with its annotation, if it is about security. -/
def annotate (context : Context) (d : Document) (graph : Option JobGraph) (f : Finding) : Finding :=
  if f.category == .security then { f with reachability := some (exposure context d graph f) }
  else f

end PipelineAudit.Reachability

namespace PipelineAudit

/-- How many security findings can be reached. -/
structure ExposureCounts where
  total : Nat := 0
  reachable : Nat := 0
  highRisk : Nat := 0
  mitigated : Nat := 0
  deriving DecidableEq, Repr

namespace ExposureCounts

/-- Whether a finding has a verdict. -/
def hasVerdict (v : Verdict) (f : Finding) : Bool :=
  match f.reachability with
  | some a => a.verdict == v
  | none => false

/-- The numbers for findings. -/
def ofFindings (findings : List Finding) : ExposureCounts :=
  let security := findings.filter (·.category == .security)
  let mitigated := (security.filter (hasVerdict .mitigated)).length
  { total := security.length
    reachable := security.length - mitigated
    highRisk := (security.filter (hasVerdict .highRisk)).length
    mitigated := mitigated }

end ExposureCounts

/-- The security findings of a document in its context. -/
structure ExposureOverview where
  stats : ExposureCounts := {}
  context : Context := {}
  insights : List Finding := []
  deriving Repr

/-- The annotated findings of a document. -/
def ExposureOverview.ofFindings (context : Context) (d : Document) (graph : Option JobGraph)
    (findings : List Finding) : ExposureOverview :=
  let insights :=
    (findings.filter (·.category == .security)).map (Reachability.annotate context d graph)
  ⟨.ofFindings insights, context, insights⟩

end PipelineAudit
