import PipelineAudit.Source.Search
import PipelineAudit.Workflow.Fields

/-!
# The second dialect: jobs at the top level, steps from scripts
-/

namespace PipelineAudit.Gitlab

open Regex

/-- Keys of the top level that are no jobs. -/
def reservedKeys : List String :=
  ["image", "services", "stages", "types", "before_script", "after_script", "variables", "cache",
   "include", "workflow", "default", "spec"]

/-- Keys of which a job has at least one. -/
def jobMarkers : List String := ["script", "trigger", "extends", "stage"]

/-- The event that a keyword stands for. -/
def eventOf (keyword : String) : String :=
  if ["push", "branches", "tags"].contains keyword then "push"
  else if ["schedule", "schedules"].contains keyword then "schedule"
  else if ["merge_request_event", "merge_requests", "external_pull_request_event"].contains keyword
  then "merge_request"
  else if keyword = "web" then "workflow_dispatch"
  else if ["api", "trigger", "triggers", "pipeline", "pipelines",
      "parent_pipeline"].contains keyword then
    "repository_dispatch"
  else "push"

/-- A comparison of the pipeline's source with a word, which is group one. -/
def pipelineSource : Regex :=
  lit "$CI_PIPELINE_SOURCE" ++ blanks ++ lit "==" ++ blanks ++ oneOf "\"'"
    ++ group 1 (plus (char (.letter ||| .ofString "_"))) ++ oneOf "\"'"

/-- Whether an entry of the top level is a job. -/
def isJob (key value : Value) : Bool :=
  match key with
  | .str name =>
    !(key.isPositionKey || reservedKeys.contains name || Text.startsWith name ".")
      && jobMarkers.any value.has
  | _ => false

mutual

/-- The commands of a script: a text, or lists of texts inside each other. -/
def commandLines : Value → List String
  | .null => []
  | .seq items => scriptItems items
  | v => [v.display]
termination_by structural v => v

/-- The commands of the items of a script. -/
def scriptItems : List Value → List String
  | [] => []
  | v :: rest => commandLines v ++ scriptItems rest
termination_by structural vs => vs

end

/-- The variables of a job or of the pipeline; the long form holds its value under `value`. -/
def variableFields (raw : Value) : Fields :=
  raw.asFields.mapValues fun v => if v.isMap then v.get "value" else v

/-- The jobs that a job needs. -/
def needs (raw : Value) : List String :=
  raw.itemsOrSelf.filterMap fun entry =>
    if entry.isMap then (entry.get? "job").map Value.display else some entry.display

/-- The conditions of a job's rules. -/
def ruleConditions (raw : Value) : List String :=
  raw.itemsOrSelf.filterMap fun rule =>
    if rule.isMap && (rule.get "if").truthy then some (Text.trim (rule.get "if").display) else none

/-- Whether a value is a given text. -/
def isText (v : Value) (s : String) : Bool :=
  match v with
  | .str t => t == s
  | _ => false

/-- The condition of a job: never, any of its rules, by hand, or none. -/
def condition (raw : Value) : Option String :=
  let timing := raw.get "when"
  if isText timing "never" then some "false"
  else
    let conditions := ruleConditions (raw.get "rules")
    if !conditions.isEmpty then some (Text.join " || " conditions)
    else if isText timing "manual" then some "manual"
    else none

/-- Adds the event of a keyword to those before it. -/
def addEvent (events : List String) (keyword : String) : List String :=
  let event := eventOf keyword
  if events.contains event then events else events ++ [event]

/-- The values in the `only` clauses of a definition. -/
def onlyValues (tree : Value) : List Value :=
  tree.entries.flatMap fun (key, value) =>
    if !value.isMap || key.isPositionKey then []
    else
      let only := value.get "only"
      let refs := if only.isMap then only.get "refs" else only
      refs.itemsOrSelf

/-- The keywords of the `only` clauses of a definition. -/
def onlyKeywords (tree : Value) : List String := (onlyValues tree).map Value.display

/-- The events that start the pipeline: those its conditions and clauses name, or else a push. -/
def events (tree : Value) (source : String) : List String :=
  let keywords :=
    ((pipelineSource.findAll source).filterMap fun m => m.group? 1) ++ onlyKeywords tree
  let found := keywords.foldl addEvent []
  if found.isEmpty then ["push"] else found

/-- The text by which a command is looked for: its first line. -/
def firstLine (command : String) : String :=
  (Text.lines (Text.trim command)).head?.getD command

/-- Where the search for the next command starts: after the line that was found, unless that is
before the last start. -/
def nextStart (last : Value) : Option Nat → Value
  | some n => if (last.atMost? (.int n)).getD false then .int (n + 1) else last
  | none => last

/-- The steps of commands. Each command is looked for from where the last one was found, and then
from the start. -/
def steps (source : String) : Nat → Value → List String → Except Source.LineFault (List Step)
  | _, _, [] => .ok []
  | index, first, command :: rest => do
    let text := firstLine command
    let found := (← Source.findLineFrom source text first 0).or (Source.findLine source text 1)
    let later ← steps source (index + 1) (nextStart first found) rest
    return { index := index, run := some command, line := found.map Numeral.ofNat } :: later

/-- What a pipeline sets for all its jobs. -/
structure Defaults where
  before : Value
  after : Value
  cache : Value
  common : Value

/-- The value of a key, or else another one. -/
def getOr (v : Value) (key : String) (other : Value) : Value := (v.get? key).getD other

/-- The scripts of a job, in the order in which they run. -/
def scripts (raw : Value) (defaults : Defaults) : List Value :=
  [getOr raw "before_script" defaults.before, raw.get "script",
    getOr raw "after_script" defaults.after]

/-- The tags of the runners of a job. -/
def tags (raw : Value) (defaults : Defaults) : List Value :=
  (getOr raw "tags" (defaults.common.get "tags")).clean.itemsOrSelf

/-- The values of a job whose texts it holds, its scripts aside. -/
def writtenInJob (raw : Value) (defaults : Defaults) : List Value :=
  tags raw defaults
    ++ ((raw.get "needs").clean.itemsOrSelf.map fun entry =>
      if entry.isMap then entry.get "job" else entry)
    ++ (raw.get "variables").fieldKeys
    ++ ((raw.get "rules").itemsOrSelf.map fun rule => rule.get "if")
    ++ (raw.get "parallel").fieldKeys
    ++ (raw.get "dependencies").itemsOrSelf

/-- A job with its steps. -/
def job (id : String) (raw line : Value) (defaults : Defaults) (steps : List Step) : Job :=
  let tags := tags raw defaults
  { id := id
    runsOn := if tags.isEmpty then .null else .ofStrings (tags.map Value.display)
    needs := needs (raw.get "needs").clean
    steps := steps
    env := variableFields (raw.get "variables")
    condition := condition raw
    timeout := getOr raw "timeout" (defaults.common.get "timeout")
    continueOnError := raw.get "allow_failure"
    strategy := (raw.get "parallel").asFields
    environment := (raw.get "environment").clean
    secrets := (raw.get "secrets").clean
    stage := raw.get "stage"
    cache := (getOr raw "cache" defaults.cache).clean
    artifactDependencies := (raw.get "dependencies").itemsOrSelf.map Value.display
    line := line }

/-- A value if it is a mapping, else an empty one. -/
def mapOrEmpty (v : Value) : Value := if v.isMap then v else .map []

/-- The job of an entry of the top level. -/
def jobOfEntry (tree : Value) (source : String) (defaults : Defaults) (entry : Value × Value) :
    Except ParseFailure Job := do
  let (key, raw) := entry
  let id := key.display
  let line := jobLine (tree.keyLine id) (Source.findJobLine source id)
  checkWritten (scripts raw defaults)
  let commands := (scripts raw defaults).flatMap commandLines
  let first := if line.isNull then .int 1 else line
  let steps ← (steps source 0 first commands).mapError fun _ => .line
  checkWritten (writtenInJob raw defaults)
  return job id raw line defaults steps

/-- A document. -/
def document (tree : Value) (source fileName : String) : Except ParseFailure Document := do
  let common := mapOrEmpty (tree.get "default")
  let defaults : Defaults :=
    { before := getOr tree "before_script" (common.get "before_script")
      after := getOr tree "after_script" (common.get "after_script")
      cache := getOr tree "cache" (common.get "cache")
      common := common }
  let read ← (tree.entries.filter fun (key, value) => isJob key value).mapM
    (jobOfEntry tree source defaults)
  let jobs := read.foldl Document.putJob []
  if jobs.isEmpty then throw (.rejected ⟨.noJobs, .int 1⟩)
  let name := (mapOrEmpty (tree.get "workflow")).get "name"
  checkWritten (name :: onlyValues tree ++ (tree.get "variables").fieldKeys)
  let found := events tree source
  return {
    fileName := fileName
    dialect := .gitlab
    name := name.text?
    on := ⟨.list, .ofStrings found, found⟩
    env := .ofFields (variableFields (tree.get "variables"))
    jobs := jobs }

end PipelineAudit.Gitlab
