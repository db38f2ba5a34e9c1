import PipelineAudit.Source.Search
import PipelineAudit.Workflow.Fields

/-!
# The first dialect: jobs under `jobs`, steps under `steps`
-/

namespace PipelineAudit.Github

/-- The line of a step: the one that its tree records, or else the one that a search finds. -/
def stepLine (recorded : Value) (found : Option Nat) : Option Line :=
  if recorded.truthy then Numeral.ofValue? recorded else found.map Numeral.ofNat

/-- The triggers of a definition: under `on`, or under the truth value that the word stands for
elsewhere. -/
def triggers (tree : Value) : Value :=
  match tree.get? "on" with
  | some v => v
  | none => (Value.lookup tree.entries (.bool true)).getD .null

/-- A step with an index. -/
def step (source jobId : String) (index : Nat) (raw : Value) : Step :=
  let uses := raw.get "uses"
  { index := index
    name := (raw.get "name").text?
    uses := uses.text?
    run := (raw.get "run").text?
    withArgs := (raw.get "with").asFields
    env := (raw.get "env").asFields
    condition := (raw.get "if").condition?
    id := raw.get "id"
    shell := raw.get "shell"
    continueOnError := raw.get "continue-on-error"
    action := if uses.truthy then some (.parse uses.display) else none
    line := stepLine raw.startLine (Source.findStepLine source jobId index) }

/-- The steps of a job: what is no mapping is left out and still counts. -/
def steps (source jobId : String) (raw : Value) : List Step :=
  (raw.itemsOrSelf.zipIdx.filter fun (v, _) => v.isMap).map fun (v, i) => step source jobId i v

/-- A job. -/
def job (source id : String) (raw line : Value) : Job :=
  { id := id
    name := (raw.get "name").text?
    runsOn := (raw.get "runs-on").clean
    needs := (raw.get "needs").clean.itemsOrSelf.map Value.display
    steps := steps source id (raw.get "steps")
    permissions := (raw.get "permissions").clean
    env := (raw.get "env").asFields
    condition := (raw.get "if").condition?
    concurrency := (raw.get "concurrency").clean
    timeout := raw.get "timeout-minutes"
    continueOnError := raw.get "continue-on-error"
    strategy := (raw.get "strategy").asFields
    outputs := (raw.get "outputs").asFields
    environment := (raw.get "environment").clean
    secrets := (raw.get "secrets").clean
    uses := raw.get "uses"
    withArgs := (raw.get "with").asFields
    line := line }

/-- The values of a step whose texts it holds. -/
def writtenInStep (raw : Value) : List Value :=
  [raw.get "name", raw.get "uses", raw.get "run", raw.get "if"]
    ++ (raw.get "with").fieldKeys ++ (raw.get "env").fieldKeys

/-- The values of a job whose texts it holds. -/
def writtenInJob (raw : Value) : List Value :=
  ((raw.get "steps").itemsOrSelf.flatMap writtenInStep)
    ++ [raw.get "name", raw.get "if"] ++ (raw.get "needs").clean.itemsOrSelf
    ++ (["env", "strategy", "outputs", "with"].flatMap fun name => (raw.get name).fieldKeys)

/-- Adds the jobs of a mapping to those before them. -/
def addJobs (source : String) (jobs : Value) (before : List Job) :
    List (Value × Value) → Except ParseFailure (List Job)
  | [] => .ok before
  | (key, raw) :: rest =>
    if key.isPositionKey then addJobs source jobs before rest
    else do
      checkWritten [key]
      let id := key.display
      let line := jobLine (jobs.keyLine id) (Source.findJobLine source id)
      if !raw.isMap then throw (.rejected ⟨.jobNotAMapping id, line⟩)
      checkWritten (writtenInJob raw)
      addJobs source jobs (Document.putJob before (job source id raw line)) rest

/-- A document. -/
def document (tree : Value) (source fileName : String) : Except ParseFailure Document := do
  let jobs := tree.get "jobs"
  if !(jobs.entries.any fun e => !e.1.isPositionKey) then
    throw (.rejected ⟨.noJobs, tree.keyLine "jobs"⟩)
  let on := triggers tree
  if on.isNull then throw (.rejected ⟨.noTriggers, tree.keyLine "on"⟩)
  let jobs ← addJobs source jobs [] jobs.entries
  checkWritten (tree.get "name" :: Trigger.names on.clean ++ (tree.get "env").fieldKeys)
  return {
    fileName := fileName
    dialect := .github
    name := (tree.get "name").text?
    on := .ofValue on.clean
    permissions := (tree.get "permissions").clean
    env := .ofFields (tree.get "env").asFields
    concurrency := (tree.get "concurrency").clean
    jobs := jobs }

end PipelineAudit.Github
