import PipelineAudit.Pattern.Script
import PipelineAudit.Rule.Usage
import PipelineAudit.Workflow.Artifact

/-!
# Performance rules

Wasted time of runners: repeated work, missing caches and jobs that fan out too far.
-/

namespace PipelineAudit.Rules

/-! ## Caches -/

/-- What the rule says. -/
def missingCacheSpec : RuleSpec where
  id := "missing_cache"
  category := .performance
  severity := .warning
  title := "Missing dependency caching"
  description := "Dependencies are downloaded on every run"
  remediation := "Add actions/cache or enable the cache input of the setup action"
  links :=
    ["https://docs.github.com/en/actions/using-workflows/caching-dependencies-to-speed-up-workflows"]

/-- Whether a step sets up a cache for the steps after it. -/
def setsUpCache (s : Step) : Bool :=
  match s.action with
  | some a =>
    Script.cacheActions.contains (Text.lower a.name)
      || (Script.cachingSetupActions.contains (Text.lower a.slug) && (s.arg "cache").truthy)
  | none => false

/-- The first step that installs dependencies, with their ecosystem, unless a cache is set up at or
before it. -/
def uncachedInstall : List Step → Option (Step × String)
  | [] => none
  | s :: rest =>
    if setsUpCache s then none
    else match (s.run.bind nonEmpty?).bind Script.ecosystem? with
      | some ecosystem => some (s, ecosystem)
      | none => uncachedInstall rest

/-- The advice in a dialect. -/
def cacheAdvice : Dialect → String
  | .github => missingCacheSpec.remediation
  | .gitlab => "Add a cache: section keyed on the dependency lock file"

/-- Dependencies are cached. -/
def missingCache : Rule :=
  missingCacheSpec.jobRule fun _ subject j =>
    if j.cache.truthy then []
    else match uncachedInstall j.steps with
      | some (s, ecosystem) =>
        let text := "Job '" ++ j.id ++ "' installs " ++ ecosystem ++ " dependencies without caching"
        [{ s.draft j text with suggestion := some (cacheAdvice subject.document.dialect) }]
      | none => []

/-! ## Checkouts -/

/-- What the rule says. -/
def redundantCheckoutSpec : RuleSpec where
  id := "redundant_checkout"
  category := .performance
  severity := .warning
  title := "Multiple checkout steps"
  description := "The repository is checked out more than once"
  remediation := "Remove redundant checkout steps"

/-- Whether a step checks out the repository itself, not another one. -/
def checksOutSelf (s : Step) : Bool :=
  s.usesAction "actions/checkout" && !(s.arg "repository").truthy

/-- A job checks out the repository once. -/
def redundantCheckout : Rule :=
  redundantCheckoutSpec.jobRule fun _ _ j =>
    match j.steps.filter checksOutSelf with
    | first :: second :: rest =>
      let count := (first :: second :: rest).length
      [second.draft j ("Job '" ++ j.id ++ "' has " ++ toString count ++ " checkout steps")]
    | _ => []

/-! ## Matrices -/

/-- What the rule says. -/
def largeMatrixSpec : RuleSpec where
  id := "large_matrix"
  category := .performance
  severity := .info
  title := "Large matrix strategy"
  description := "Large matrices consume many runner minutes"
  remediation :=
    "Consider reducing matrix dimensions or using include/exclude to limit combinations"
  links := ["https://docs.github.com/en/actions/using-jobs/using-a-matrix-for-your-jobs"]

/-- The number of combinations from which on a matrix is large. -/
def maxCombinations : Nat := 20

/-- The number of items of a list; another value has none. -/
def itemCount : Value → Nat
  | .seq items => items.length
  | _ => 0

/-- The sizes of the dimensions of a matrix; none if one of them is no list. -/
def dimensionSizes? (matrix : Value) : Option (List Nat) :=
  let isDimension := fun e => !(Value.hasName "include" e || Value.hasName "exclude" e)
  (matrix.entries.filter isDimension).mapM fun e =>
    match e.2 with
    | .seq items => some items.length
    | _ => none

/-- The number of jobs a matrix stands for: the product of its dimensions, less what is excluded and
plus what is included; zero if it is computed during the run. -/
def combinationCount (matrix : Value) : Nat :=
  match dimensionSizes? matrix with
  | none => 0
  | some sizes =>
    let product : Nat := if sizes.isEmpty then 0 else sizes.foldl (· * ·) 1
    ((product : Int) - itemCount (matrix.get "exclude") + itemCount (matrix.get "include")).toNat

/-- A matrix is not too large. -/
def largeMatrix : Rule :=
  largeMatrixSpec.jobRule fun _ _ j =>
    let matrix := (j.strategy.get? "matrix").getD .null
    let count := combinationCount matrix
    if matrix.isMap && maxCombinations < count then
      [j.draft ("Job '" ++ j.id ++ "' has " ++ toString count ++ " matrix combinations")]
    else []

/-! ## Artifacts -/

/-- What the rule says. -/
def unusedArtifactSpec : RuleSpec where
  id := "unused_artifact"
  category := .performance
  severity := .warning
  title := "Unused artifact"
  description := "An artifact is uploaded but no job downloads it"
  remediation := "Remove the unused artifact upload or add download steps where needed"
  dialects := [.github]

/-- The names of artifacts whose texts are compared. -/
def writtenNames (d : Document) : List Value :=
  (d.steps.filter fun (_, s) => Artifact.isUpload s || Artifact.isDownload s).map
    fun (_, s) => s.arg "name"

/-- Uploaded artifacts are downloaded. -/
def unusedArtifact : Rule :=
  unusedArtifactSpec.writingRule writtenNames fun _ subject =>
    let steps := subject.document.steps
    let requests := (steps.filter fun (_, s) => Artifact.isDownload s).map fun (_, s) =>
      Artifact.requested? s
    if requests.contains none then []
    else
      let unused := steps.filter fun (_, s) =>
        Artifact.isUpload s && !requests.contains (some (Artifact.name s))
      unused.map fun (j, s) =>
        s.draft j ("Artifact '" ++ Artifact.name s ++ "' is uploaded but never downloaded")

/-! ## Repeated actions -/

/-- What the rule says. -/
def heavyActionUsageSpec : RuleSpec where
  id := "heavy_action_usage"
  category := .performance
  severity := .info
  title := "Heavy action usage"
  description := "The same action runs many times in one workflow"
  remediation := "Consider consolidating steps or using composite actions to reduce duplication"

/-- The number of uses up to which an action is not used heavily. -/
def maxHeavyUses : Nat := 5

/-- No action is used too often. -/
def heavyActionUsage : Rule :=
  heavyActionUsageSpec.pureRule fun _ subject =>
    (ActionUse.moreThan maxHeavyUses (ActionUse.uses subject.document.steps)).map fun u =>
      u.draft ("Action '" ++ u.name ++ "' is used " ++ toString u.count
        ++ " times across the workflow")

end PipelineAudit.Rules
