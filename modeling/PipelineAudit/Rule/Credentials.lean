import PipelineAudit.Pattern.Credential
import PipelineAudit.Pattern.Script
import PipelineAudit.Rule.Basic

/-!
# Credentials in clear text

Three looks at a definition: every source line for tokens and assigned secrets, every variable and
argument whose name suggests a secret for a literal value, and every command line for a secret that
is sent out.
-/

namespace PipelineAudit.Rules

/-- Whether one line is at or before another. -/
def isAtMost (a b : Value) : Except Source.LineFault Bool :=
  match a.atMost? b with
  | some holds => .ok holds
  | none => .error .notALine

/-- The later of two jobs that start at or before a line, the second one if both start together. -/
def laterOwner (line : Int) (owner : Option Job) (job : Job) :
    Except Source.LineFault (Option Job) := do
  if job.line.isNull then return owner
  if ← isAtMost job.line (.int line) then
    match owner with
    | none => return some job
    | some o => return if ← isAtMost o.line job.line then some job else owner
  else return owner

/-- The job that starts last before a line. -/
def jobAround (d : Document) (line : Int) : Except Source.LineFault (Option String) := do
  return (← d.jobs.foldlM (laterOwner line) none).map Job.id

/-- What the rule says. -/
def hardcodedCredentialsSpec : RuleSpec where
  id := "hardcoded_credentials"
  category := .security
  severity := .error
  title := "Hardcoded credential detected"
  description := "Credentials must not be stored in pipeline definitions"
  remediation :=
    "Store sensitive values in GitHub Secrets and reference them using $\x7b\x7b secrets.SECRET_NAME \x7d\x7d"
  links := ["https://docs.github.com/en/actions/security-guides/encrypted-secrets"]

/-- A source line, in the job that starts last before it. -/
def placeInSource (d : Document) (number : Nat) : Draft :=
  let owner := jobAround d number
  { job := owner.toOption.join, line := owner.map fun _ => .int number }

/-- The findings of one source line. -/
def credentialsInLine (subject : Subject) (number : Nat) (text : String) : List Draft :=
  let direct : List Draft := match Credential.patterns.find? fun p => p.regex.occursIn text with
    | some p => [{ placeInSource subject.document number with
        description := some ("Found a potential hardcoded " ++ p.description ++ " in the workflow")
        key := some ("L" ++ toString number) }]
    | none => []
  let all : List Draft := if Credential.allSecretsAsText.occursIn text then
      [{ placeInSource subject.document number with
        title := some "All secrets serialized with toJSON"
        description := some "toJSON(secrets) exposes every repository secret to the step"
        suggestion := some "Pass only the individual secrets the step needs"
        key := some ("tojson-L" ++ toString number) }]
    else []
  direct ++ all

/-- The findings of the source lines. -/
def credentialsInSource (subject : Subject) : List Draft :=
  (Text.lines subject.source).zipIdx.flatMap fun (text, i) => credentialsInLine subject (i + 1) text

/-- The names that suggest a secret and hold a literal one. -/
def plainSecrets (fields : Fields) : List String :=
  Assoc.keys (fields.filter fun (key, value) =>
    Credential.secretLikeKey.occursIn key && Credential.isHighEntropy value)

/-- The fields of a mapping with text keys. -/
def textEntries (v : Value) : Fields :=
  v.entries.filterMap fun (k, value) =>
    match k with
    | .str s => some (s, value)
    | _ => none

/-- The line, from a line on, where a key is written, or else another line. -/
def keyLineFrom (subject : Subject) (key : String) (start other : Value) :
    Except Source.LineFault Value :=
  lineHolding subject (key ++ ":") (orElseValue start (.int 1)) other

/-- The findings of variables and arguments. -/
def credentialsInValues (subject : Subject) : List Draft :=
  let global : List Draft := (plainSecrets (textEntries subject.document.env)).map fun key =>
    { description := some ("Environment variable '" ++ key ++ "' holds a literal secret value")
      line := keyLineFrom subject key .null .null
      key := some key }
  let ofStep : Job → Step → List Draft := fun j s =>
    (plainSecrets s.env ++ plainSecrets s.withArgs).map fun key =>
      { description := some ("'" ++ key ++ "' of step #" ++ toString (s.index + 1) ++ " in job '"
          ++ j.id ++ "' holds a literal secret value")
        job := some j.id
        step := some (.ofNat s.index)
        line := keyLineFrom subject key (orElseValue s.lineValue j.line) s.lineValue
        key := some key }
  let ofJob : Job → List Draft := fun j =>
    (plainSecrets j.env).map fun key =>
      { description := some ("Environment variable '" ++ key ++ "' of job '" ++ j.id
          ++ "' holds a literal secret value")
        job := some j.id
        line := keyLineFrom subject key j.line .null
        key := some key }
  global ++ subject.document.jobs.flatMap fun j => ofJob j ++ j.steps.flatMap (ofStep j)

/-- The finding of a step that sends a secret out, for the first such command. -/
def credentialsSent (subject : Subject) (j : Job) (s : Step) : List Draft :=
  let sends := fun command =>
    Credential.secretReference.occursIn command && Script.externalCommand.occursIn command
  match (Text.lines (s.run.getD "")).find? sends with
  | some command =>
    let start := orElseValue s.lineValue (.int 1)
    [{
      title := some "Secret passed to external command"
      description := some ("Step #" ++ toString (s.index + 1) ++ " in job '" ++ j.id
        ++ "' sends a secret to a network command")
      job := some j.id
      step := some (.ofNat s.index)
      line := lineHolding subject (Text.trim command) start s.lineValue
      suggestion :=
        some "Pass secrets through environment variables and avoid placing them on the command line"
      key := some "exfiltration"
      severity := some .warning }]
  | none => []

/-- Credentials must not stand in a definition. -/
def hardcodedCredentials : Rule :=
  hardcodedCredentialsSpec.pureRule fun _ subject =>
    credentialsInSource subject ++ credentialsInValues subject
      ++ subject.document.steps.flatMap fun (j, s) => credentialsSent subject j s

end PipelineAudit.Rules
