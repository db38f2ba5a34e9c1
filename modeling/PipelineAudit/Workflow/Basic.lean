import PipelineAudit.Value.Display
import PipelineAudit.Value.Equality
import PipelineAudit.Workflow.ActionRef

/-!
# Pipeline documents

A pipeline document is the same for both dialects: what starts the pipeline, and its jobs with their
steps. Fields that the audit looks into have types of their own; the others keep the value that was
written.
-/

namespace PipelineAudit

/-- The language of a pipeline definition. -/
inductive Dialect where
  | github
  | gitlab
  deriving DecidableEq, Repr

namespace Dialect

/-- The name of a dialect. -/
def name : Dialect → String
  | github => "github-actions"
  | gitlab => "gitlab-ci"

/-- The dialect with a name. -/
def ofName? (s : String) : Option Dialect :=
  if s = github.name then some github else if s = gitlab.name then some gitlab else none

end Dialect

/-! ## Lines -/

/-- An integer that may be written as a truth value, which counts as one or zero. -/
structure Numeral where
  number : Int
  isFlag : Bool := false
  deriving DecidableEq, Repr

namespace Numeral

/-- The numeral that a value is. -/
def ofValue? : Value → Option Numeral
  | .int n => some ⟨n, false⟩
  | .bool b => some ⟨if b then 1 else 0, true⟩
  | _ => none

/-- The numeral of a natural number. -/
def ofNat (n : Nat) : Numeral := ⟨n, false⟩

/-- The value of a numeral. -/
def toValue (n : Numeral) : Value := if n.isFlag then .bool (n.number != 0) else .int n.number

end Numeral

/-- A line of the source, from one. A tree that was not read from text may mark a line by a truth
value. -/
abbrev Line := Numeral

/-! ## Triggers -/

/-- How the triggers were written. -/
inductive TriggerForm where
  | single
  | list
  | map
  | none
  deriving DecidableEq, Repr

/-- The word for a form. -/
def TriggerForm.word : TriggerForm → String
  | single => "single"
  | list => "list"
  | map => "map"
  | none => "none"

/-- What starts a pipeline. -/
structure Trigger where
  form : TriggerForm := .none
  raw : Value := .null
  events : List String := []
  deriving Repr

/-- The names in a value that stands for triggers: a name, a list of names, or a mapping from
names. -/
def Trigger.names : Value → List Value
  | .null => []
  | .seq items => items
  | .map entries => entries.map Prod.fst
  | v => [v]

/-- The triggers that a value stands for. -/
def Trigger.ofValue (raw : Value) : Trigger :=
  let events := (names raw).map Value.display
  match raw with
  | .null => {}
  | .seq _ => ⟨.list, raw, events⟩
  | .map _ => ⟨.map, raw, events⟩
  | _ => ⟨.single, raw, events⟩

/-! ## Steps and jobs -/

/-- Values under text keys. -/
abbrev Fields := Assoc String Value

/-- A step of a job. -/
structure Step where
  index : Nat
  name : Option String := none
  uses : Option String := none
  run : Option String := none
  withArgs : Fields := []
  env : Fields := []
  condition : Option String := none
  id : Value := .null
  shell : Value := .null
  continueOnError : Value := .null
  action : Option ActionRef := none
  line : Option Line := none
  deriving Repr

/-- The texts of the values that are not null. -/
def Fields.texts (fields : Fields) : List String :=
  (fields.values.filter fun v => !v.isNull).map Value.display

/-- The line of a step as a value, null if it is not known. -/
def Step.lineValue (s : Step) : Value := (s.line.map Numeral.toValue).getD .null

/-- The values of a step whose texts may hold expressions. -/
def Step.textValues (s : Step) : List Value := s.withArgs.values ++ s.env.values

/-- The texts of a step in which expressions may stand. -/
def Step.texts (s : Step) : List String :=
  ([s.uses, s.run, s.condition].filterMap fun t => t.bind nonEmpty?)
    ++ s.withArgs.texts ++ s.env.texts

/-- A job of a pipeline. -/
structure Job where
  id : String
  name : Option String := none
  runsOn : Value := .null
  needs : List String := []
  steps : List Step := []
  permissions : Value := .null
  env : Fields := []
  condition : Option String := none
  concurrency : Value := .null
  timeout : Value := .null
  continueOnError : Value := .null
  strategy : Fields := []
  outputs : Fields := []
  environment : Value := .null
  secrets : Value := .null
  uses : Value := .null
  withArgs : Fields := []
  stage : Value := .null
  cache : Value := .null
  artifactDependencies : List String := []
  /-- The line of the job's key, null if it is not known. A tree that was not read from text may
  record any value here. -/
  line : Value := .null
  deriving Repr

/-- The step of a job with an index. -/
def Job.step? (j : Job) (index : Int) : Option Step :=
  j.steps.find? fun s => (s.index : Int) == index

/-- Why the labels of a runner cannot be told. -/
inductive LabelFault where
  /-- They are neither a text nor a collection. -/
  | notACollection
  /-- One of them is too long an integer. -/
  | number (fault : NumberFault)
  deriving DecidableEq, Repr

/-- What the items of a collection are; none for other values. The items of a text are not asked
for. -/
def Value.elements? : Value → Option (List Value)
  | .seq items => some items
  | .map es => some (es.map Prod.fst)
  | .bytes bs => some (bs.map fun b => .int b.toNat)
  | .pair a b => some [a, b]
  | _ => none

/-- The labels of the runner a job asks for, as values; none if they are neither a text nor a
collection. -/
def Job.labelValues? (j : Job) : Option (List Value) :=
  match j.runsOn with
  | .seq items => some items
  | .map entries =>
    match (Value.map entries).get? "labels" with
    | none => some []
    | some (.str s) => some [.str s]
    | some labels => labels.elements?
  | v => some (if v.truthy then [v] else [])

/-- The labels of the runner a job asks for. -/
def Job.runsOnLabels (j : Job) : Except LabelFault (List String) :=
  match j.labelValues? with
  | none => .error .notACollection
  | some labels => (labels.mapM Value.written).mapError .number

/-! ## Documents -/

/-- A pipeline definition. No two jobs have the same id. -/
structure Document where
  fileName : String
  dialect : Dialect := .github
  name : Option String := none
  on : Trigger := {}
  permissions : Value := .null
  env : Value := .map []
  concurrency : Value := .null
  jobs : List Job := []
  deriving Repr

namespace Document

/-- The job with an id. -/
def job? (d : Document) (id : String) : Option Job := d.jobs.find? (·.id == id)

/-- Whether there is a job with an id. -/
def hasJob (d : Document) (id : String) : Bool := d.jobs.any (·.id == id)

/-- The ids of the jobs, in order. -/
def jobIds (d : Document) : List String := d.jobs.map Job.id

/-- The events that start the pipeline. -/
def triggers (d : Document) : List String := d.on.events

/-- The number of steps of all jobs. -/
def stepCount (d : Document) : Nat := sumOf (d.jobs.map fun j => j.steps.length)

/-- All steps with their jobs, in order. -/
def steps (d : Document) : List (Job × Step) := d.jobs.flatMap fun j => j.steps.map fun s => (j, s)

/-- Adds a job; one with the same id is replaced in place. -/
def putJob : List Job → Job → List Job
  | [], job => [job]
  | j :: rest, job => if j.id == job.id then job :: rest else j :: putJob rest job

end Document

end PipelineAudit
