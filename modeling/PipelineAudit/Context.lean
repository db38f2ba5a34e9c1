import PipelineAudit.Pattern.Credential
import PipelineAudit.Pattern.Intent

/-!
# The context of a document

What kind of pipeline a document describes, and the facts about its runs that decide how much a
finding matters.
-/

namespace PipelineAudit

/-- What a pipeline is for. -/
inductive PipelineKind where
  | integration
  | delivery
  | automation
  | utility
  | unknown
  /-- A kind that is not told here, by its word. -/
  | other (word : String)
  deriving DecidableEq, Repr

namespace PipelineKind

/-- The word for a kind. -/
def word : PipelineKind → String
  | integration => "ci"
  | delivery => "cd"
  | automation => "automation"
  | utility => "utility"
  | unknown => "unknown"
  | other word => word

/-- The kind with a word. -/
def ofWord (s : String) : PipelineKind :=
  ([integration, delivery, automation, utility, unknown].find? (·.word == s)).getD (other s)

end PipelineKind

/-- The context of a document. -/
structure Context where
  kind : PipelineKind := .unknown
  totalJobs : Int := 0
  stepCount : Int := 0
  isComplex : Bool := false
  hasProductionIndicators : Bool := false
  hasAutomation : Bool := false
  hasPrivilegedTriggers : Bool := false
  hasSecrets : Bool := false
  conditionalJobs : Int := 0
  triggers : List String := []
  deriving DecidableEq, Repr

namespace Context

/-- The texts of the values of a mapping; another value that is not null is a text itself. -/
def valueTexts : Value → List String
  | .map entries => (entries.filter fun e => !e.2.isNull).map fun e => e.2.display
  | .null => []
  | v => [v.display]

/-- The texts of a document in which steps can see secrets. -/
def secretTexts (d : Document) : List String :=
  valueTexts d.env ++ d.jobs.flatMap fun j =>
    j.env.texts ++ j.withArgs.texts ++ j.steps.flatMap Step.texts

/-- The values whose texts are looked through for secrets. The search ends at a job that is handed
secrets as a whole. -/
def secretValues (dialect : Dialect) : List Job → List Value
  | [] => []
  | j :: rest =>
    j.env.values ++ j.withArgs.values
      ++ (if dialect == .github && j.uses.truthy && j.secrets.truthy then []
        else j.steps.flatMap Step.textValues ++ secretValues dialect rest)

/-- Whether the texts that are looked through for secrets can be written. -/
def areTextsWritable (d : Document) : Bool :=
  (d.dialect == .gitlab && d.jobs.any fun j => j.secrets.truthy)
    || (d.env.isWritable && (secretValues d.dialect d.jobs).all Value.isWritable)

/-- The pattern for secrets in a dialect. -/
def secretPattern : Dialect → Regex
  | .github => Credential.secretReference
  | .gitlab => Credential.secretVariable

/-- Whether a job is handed secrets as a whole. -/
def isHandedSecrets (dialect : Dialect) (j : Job) : Bool :=
  j.secrets.truthy && (dialect == .gitlab || j.uses.truthy)

/-- Whether a step of a document can see a secret. Steps see the variables of their job and of the
whole document. -/
def usesSecrets (d : Document) : Bool :=
  d.jobs.any (isHandedSecrets d.dialect) || (secretTexts d).any (secretPattern d.dialect).occursIn

/-- What the steps of a document do, in one text. -/
def stepText (d : Document) : String :=
  Text.join "\n" (d.steps.flatMap fun (_, s) =>
    [s.uses, s.run].filterMap fun t => t.bind nonEmpty?)

/-- Whether a document reacts to events that are not about code. -/
def isAutomated (d : Document) : Bool := d.triggers.any Intent.automationTriggers.contains

/-- The number of steps up to which a single job is a utility. -/
def maxUtilitySteps : Nat := 5

/-- The kind of a document: the first one that fits. -/
def kindOf (d : Document) (source : String) : PipelineKind :=
  let steps := stepText d
  if Intent.deployKeywords.occursIn steps || Intent.deployKeywords.occursIn source then .delivery
  else if Intent.ciKeywords.occursIn steps || Intent.ciKeywords.occursIn source then .integration
  else if isAutomated d then .automation
  else if d.jobs.length == 1 && decide (d.stepCount ≤ maxUtilitySteps) then .utility
  else .unknown

/-- The context of a document with its source. -/
def ofDocument (d : Document) (source : String) : Context :=
  let kind := kindOf d source
  { kind := kind
    totalJobs := d.jobs.length
    stepCount := d.stepCount
    isComplex := decide (2 < d.jobs.length) || decide (10 < d.stepCount)
    hasProductionIndicators := kind == .delivery || Intent.productionKeywords.occursIn source
    hasAutomation := isAutomated d
    hasPrivilegedTriggers := d.triggers.any Intent.privilegedTriggers.contains
    hasSecrets := usesSecrets d
    conditionalJobs := (d.jobs.filter fun j => (j.condition.bind nonEmpty?).isSome).length
    triggers := d.triggers }

end Context

end PipelineAudit
