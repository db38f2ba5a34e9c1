import PipelineAudit.Pattern.Intent
import PipelineAudit.Pattern.Script
import PipelineAudit.Pattern.Untrusted
import PipelineAudit.Rule.Basic
import PipelineAudit.Workflow.Artifact

/-!
# Security rules
-/

namespace PipelineAudit.Rules

/-- Advice on hardening. -/
def hardeningLink : String :=
  "https://docs.github.com/en/actions/security-guides/security-hardening-for-github-actions"

/-! ## Pinning -/

/-- What the rule says. -/
def unpinnedActionSpec : RuleSpec where
  id := "unpinned_action"
  category := .security
  severity := .warning
  title := "Action not pinned to commit SHA"
  description := "Tags and branches can be moved to point at different code"
  remediation :=
    "Pin the action to a full-length commit SHA and keep the tag in a comment, e.g. owner/repo@<sha> # v1.2.3"
  links := [hardeningLink]
  dialects := [.github]

/-- The advice for an action: the commit of its latest release, where that is known. -/
def pinningAdvice (options : RuleOptions) (action : ActionRef) : String :=
  match options.knownActions.lookup action.slug with
  | some { latestTag := tag, sha := some sha, .. } =>
    if sha.isEmpty then unpinnedActionSpec.remediation
    else "Pin to " ++ action.name ++ "@" ++ sha ++ " # " ++ tag
  | _ => unpinnedActionSpec.remediation

/-- How bad it is that an action is not pinned, and why. -/
def pinningFault (label : String) (action : ActionRef) : Severity × String :=
  let uses := "Step " ++ label ++ " uses '" ++ action.raw ++ "'"
  match action.kind with
  | .branch => (.error, uses ++ ", which tracks the branch '" ++ action.ref.getD "None" ++ "'")
  | .missing => (.warning, uses ++ " without a specific version")
  | _ => (.warning, uses ++ ", pinned to a mutable tag")

/-- Actions from outside are pinned to a commit. -/
def unpinnedAction : Rule :=
  unpinnedActionSpec.stepRule fun options _ j s =>
    match s.action with
    | some action =>
      if action.isExternal && !action.isPinned then
        let (severity, description) := pinningFault (s.label j) action
        [{ s.draft j description with
          suggestion := some (pinningAdvice options action)
          severity := some severity }]
      else []
    | none => []

/-! ## Permissions -/

/-- What the rule says. -/
def permissionsSpec : RuleSpec where
  id := "permissions"
  category := .security
  severity := .warning
  title := "Overly permissive workflow permissions"
  description := "Workflow has write permissions that may be unnecessary"
  remediation := "Use minimal required permissions. Consider using job-level permissions instead."
  links :=
    ["https://docs.github.com/en/actions/using-workflows/workflow-syntax-for-github-actions#permissions"]

/-- What permissions say of the contents of the repository; an empty text if they say nothing. -/
def contentsPermission (permissions : Value) : Value :=
  (permissions.get? "contents").getD (.str "")

/-- Whether permissions allow writing to the repository. -/
def isPermissive : Value → Bool
  | .str s => Text.lower (Text.trim s) == "write-all"
  | .map es => Text.lower (contentsPermission (.map es)).display == "write"
  | _ => false

/-- Whether a privileged event starts the pipeline. -/
def startsPrivileged (d : Document) : Bool :=
  d.triggers.any Intent.privilegedTriggers.contains

/-- The values whose texts the rule on permissions looks at. -/
def writtenPermissions (d : Document) : List Value :=
  (d.permissions :: d.jobs.map Job.permissions).map contentsPermission

/-- Permissions are minimal. -/
def permissions : Rule :=
  permissionsSpec.writingRule writtenPermissions fun _ subject =>
    let severity : Severity := if startsPrivileged subject.document then .error else .warning
    let lineFrom := fun start => lineHolding subject "permissions:" start .null
    let whole : List Draft := if isPermissive subject.document.permissions then
        [{ line := lineFrom (.int 1), severity := some severity }]
      else []
    whole ++ (subject.document.jobs.filter fun j => isPermissive j.permissions).map fun j =>
      { description := some ("Job '" ++ j.id ++ "' has write permissions that may be unnecessary")
        job := some j.id
        line := lineFrom (orElseValue j.line (.int 1))
        severity := some severity }

/-! ## Scripts -/

/-- What the rule says. -/
def unsafeScriptSpec : RuleSpec where
  id := "unsafe_script"
  category := .security
  severity := .error
  title := "Unsafe script execution: remote script piped to shell"
  description := "Downloading a script and executing it directly runs unreviewed code"
  remediation := "Download the script, verify its checksum or signature, then execute it"
  links := [hardeningLink]

/-- Downloads are not executed at once. -/
def unsafeScript : Rule :=
  unsafeScriptSpec.stepRule fun _ _ j s =>
    match Script.remotePatterns.find? fun p => p.regex.occursIn (s.run.getD "") with
    | some p => [s.draft j ("Step " ++ s.label j ++ " executes a " ++ p.description)]
    | none => []

/-- What the rule says. -/
def commandInjectionSpec : RuleSpec where
  id := "command_injection"
  category := .security
  severity := .error
  title := "Potential expression injection"
  description := "Attacker-controlled data is interpolated directly into a script"
  remediation :=
    "Pass untrusted values through an intermediate environment variable and quote it in the script"
  links :=
    ["https://securitylab.github.com/research/github-actions-untrusted-input/", hardeningLink]

/-- The script that a step hands to an action that runs it; empty for other steps. -/
def scriptArgument (s : Step) : Value :=
  if s.usesAction "actions/github-script" then (s.withArgs.get? "script").getD (.str "")
  else .str ""

/-- The script of a step: its commands, and the argument of an action that runs a script. -/
def shellText (s : Step) : String :=
  Text.join "\n" ([s.run.getD "", (scriptArgument s).display].filter fun t => !t.isEmpty)

/-- The untrusted inputs that a script uses. -/
def injectedInputs (dialect : Dialect) (text : String) : List NamedPattern :=
  match dialect with
  | .gitlab => Untrusted.inText text .gitlab
  | .github => Untrusted.inExpressions text

/-- The draft for a step that pastes untrusted input into its script. -/
def injectionDrafts (dialect : Dialect) (j : Job) (s : Step) : List Draft :=
  let found := injectedInputs dialect (shellText s)
  if found.isEmpty then []
  else
    let text := "Step " ++ s.label j ++ " interpolates untrusted input ("
      ++ Text.join ", " (found.map NamedPattern.description) ++ ") into a script"
    [{ s.draft j text with
      severity := some (if found.any (·.severity == .error) then .error else .warning) }]

/-- Untrusted input is not pasted into scripts. -/
def commandInjection : Rule :=
  commandInjectionSpec.writingRule (fun d => d.steps.map fun (_, s) => scriptArgument s)
    fun _ subject =>
      subject.document.steps.flatMap fun (j, s) => injectionDrafts subject.document.dialect j s

/-! ## Privileged checkouts -/

/-- What the rule says. -/
def privilegedCheckoutSpec : RuleSpec where
  id := "privileged_checkout"
  category := .security
  severity := .error
  title := "Dangerous checkout with privileged trigger"
  description := "Untrusted pull request code is checked out in a workflow with access to secrets"
  remediation :=
    "Use the pull_request trigger for untrusted code, or never build the checked-out head in a privileged workflow"
  links := ["https://securitylab.github.com/research/github-actions-preventing-pwn-requests/"]
  dialects := [.github]

/-- The events of a document that run privileged on code of outsiders. -/
def untrustedCodeEvents (d : Document) : List String :=
  Intent.untrustedCodeTriggers.filter d.triggers.contains

/-- The ref that a step checks out. -/
def checkedOutRef (s : Step) : Value := (s.withArgs.get? "ref").getD (.str "")

/-- The steps that check out code in a document with such events. -/
def privilegedCheckouts (d : Document) : List (Job × Step) :=
  if (untrustedCodeEvents d).isEmpty then []
  else d.steps.filter fun (_, s) => s.usesAction "actions/checkout"

/-- A privileged run does not check out code of outsiders. -/
def privilegedCheckout : Rule :=
  privilegedCheckoutSpec.writingRule
    (fun d => (privilegedCheckouts d).map fun (_, s) => checkedOutRef s) fun _ subject =>
      let risky := (privilegedCheckouts subject.document).filter fun (_, s) =>
        Untrusted.ref.occursIn (checkedOutRef s).display
      risky.map fun (j, s) =>
        s.draft j ("Step " ++ toString (s.index + 1) ++ " of job '" ++ j.id ++ "' checks out '"
          ++ (checkedOutRef s).display ++ "' in a workflow triggered by "
          ++ Text.join ", " (untrustedCodeEvents subject.document))

/-! ## Runners and publishers -/

/-- What the rule says. -/
def selfHostedRunnerSpec : RuleSpec where
  id := "self_hosted_runner"
  category := .security
  severity := .warning
  title := "Self-hosted runner detected"
  description := "Self-hosted runners can persist state between jobs"
  remediation := "Use ephemeral self-hosted runners and never run them for public repositories"
  links :=
    ["https://docs.github.com/en/actions/hosting-your-own-runners/managing-self-hosted-runners/about-self-hosted-runners#self-hosted-runner-security"]
  dialects := [.github]

/-- Jobs do not run on machines of one's own. -/
def selfHostedRunner : Rule :=
  selfHostedRunnerSpec.rule fun _ subject => do
    let found ← subject.document.jobs.mapM fun j =>
      match j.runsOnLabels with
      | .error .notACollection => throw RuleFault.runsOnLabels
      | .error (.number fault) => throw (RuleFault.number fault)
      | .ok labels =>
        if labels.any fun label => Text.lower label == "self-hosted" then
          pure [j.draft ("Job '" ++ j.id ++ "' runs on a self-hosted runner")]
        else pure []
    return found.flatten

/-- What the rule says. -/
def thirdPartyActionSpec : RuleSpec where
  id := "third_party_action"
  category := .security
  severity := .info
  title := "Third-party action usage"
  description := "Actions from third parties run with the job's permissions"
  remediation := "Review the action source code and pin to a specific version"
  links := [hardeningLink]
  dialects := [.github]

/-- Publishers whose actions need no review. -/
def trustedOwners : List String := ["actions", "github", "docker"]

/-- Actions come from trusted publishers. -/
def thirdPartyAction : Rule :=
  thirdPartyActionSpec.stepRule fun _ _ j s =>
    match s.action with
    | some action =>
      match action.owner with
      | some owner =>
        if action.isExternal && !trustedOwners.contains (Text.lower owner) then
          [s.draft j ("Using action from '" ++ owner ++ "' - verify trustworthiness")]
        else []
      | none => []
    | none => []

end PipelineAudit.Rules
